import Mathlib

/-!
# The 16-bit words of a raw event

The acquisition cards send an event as a sequence of 16-bit words. The upper
bits of a word give its type; the rest are the fields of that type.
-/

namespace FzDaq.Parser

/-- A word of the raw event, an `unsigned short int`. -/
abbrev Word := UInt16

/-- The word types. The source numbers them 0 to 17, with eight numbers for `DATA`. -/
inductive WordId where
  | data | empty | telid | length | crcfe | regid | crcbl | ec | eoe | detid | blkid
  deriving DecidableEq, Repr

def REGID_MASK : Word := 0x07FF
def BLKID_MASK : Word := 0x07FF
def EC_MASK : Word := 0x0FFF
def TELID_MASK : Word := 0x0001
def FEEID_MASK : Word := 0x001E
def DTYPE_MASK : Word := 0x0700
def DETID_MASK : Word := 0x00E0
def LENGTH_MASK : Word := 0x0FFF
def CRCFE_MASK : Word := 0x0FF0
def CRCBL_MASK : Word := 0x0FF0

def TAG_VOID : Word := 0x3030
def TAG_SLOW : Word := 0x7001
def TAG_FAST : Word := 0x7002
def TAG_BASELINE : Word := 0x7003
def TAG_PRETRIGGER : Word := 0x7004
def TAG_WAVEFORM : Word := 0x7005

def TAG_RB_COUNTERS : Word := 0x7100
def TAG_RB_TIME : Word := 0x7101
def TAG_RB_GTTAG : Word := 0x7110
def TAG_RB_EC : Word := 0x7111
def TAG_RB_TRIGPAT : Word := 0x7112
def TAG_RB_TEMP : Word := 0x7113
def TAG_RB_CENTRUM : Word := 0x7200

/-- The macro `nibble(n,word)`. -/
def nibble (n : UInt16) (w : Word) : UInt16 := (w >>> (n * 4)) &&& 0x000F

/-- The macro `bit(n,word)`. -/
def bit (n : UInt16) (w : Word) : UInt16 := (w >>> n) &&& 0x0001

def getwordId (w : Word) : WordId :=
  let nibble3 := nibble 3 w
  if nibble3 < 0x8 then .data
  else if nibble3 = 0x9 then
    if bit 11 w = 0 then .detid else .telid
  else if nibble3 = 0x8 then .empty
  else if nibble3 = 0xA then .length
  else if nibble3 = 0xB then .crcfe
  else if nibble3 = 0xC then
    if bit 11 w = 0 then .blkid else .regid
  else if nibble3 = 0xD then .crcbl
  else if nibble3 = 0xE then .ec
  else .eoe

/-! ## Fields -/

def ecOf (w : Word) : Word := w &&& EC_MASK
def regidOf (w : Word) : Word := w &&& REGID_MASK
def blkidOf (w : Word) : Word := w &&& BLKID_MASK
def lengthOf (w : Word) : Word := w &&& LENGTH_MASK
def telidOf (w : Word) : Word := w &&& TELID_MASK
def feeidOf (w : Word) : Word := (w &&& FEEID_MASK) >>> 1
def detidOf (w : Word) : Word := (w &&& DETID_MASK) >>> 5
def dtypeOf (w : Word) : Word := (w &&& DTYPE_MASK) >>> 8

/-- The 8-bit checksum of a CRCFE word. -/
def crcfeOf (w : Word) : Word := ((w &&& CRCFE_MASK) >>> 4) &&& 0x00FF

/-- The 8-bit checksum of a CRCBL word. -/
def crcblOf (w : Word) : Word := ((w &&& CRCBL_MASK) >>> 4) &&& 0x00FF

/-- A 16-bit running checksum folded to the 8 bits that a CRC word carries. -/
def crcFold (crc : Word) : Word :=
  let crcLsb := crc &&& 0x00FF
  let crcMsb := (crc &&& 0xFF00) >>> 8
  (crcLsb ^^^ crcMsb) &&& 0x00FF

theorem nibble_three_toNat (w : Word) : (nibble 3 w).toNat = w.toNat / 4096 := by
  have hlt : w.toNat / 4096 < 16 := by
    have := w.toNat_lt
    omega
  have hmask : w.toNat / 4096 &&& 15 = w.toNat / 4096 % 2 ^ 4 :=
    Nat.and_two_pow_sub_one_eq_mod _ 4
  simp only [nibble, UInt16.toNat_and, UInt16.toNat_shiftRight]
  change w.toNat >>> 12 &&& 15 = _
  rw [Nat.shiftRight_eq_div_pow, show 2 ^ 12 = 4096 from rfl, hmask]
  omega

theorem bit_eleven_toNat (w : Word) : (bit 11 w).toNat = w.toNat / 2048 % 2 := by
  simp only [bit, UInt16.toNat_and, UInt16.toNat_shiftRight]
  change w.toNat >>> 11 &&& 1 = _
  rw [Nat.and_one_is_mod, Nat.shiftRight_eq_div_pow]

theorem getwordId_of_upper {w : Word} {k : Nat} (h : w.toNat / 2048 = k) :
    getwordId w = getwordId (UInt16.ofNat (k * 2048)) := by
  have hlt := w.toNat_lt
  have hval : (UInt16.ofNat (k * 2048)).toNat = k * 2048 :=
    UInt16.toNat_ofNat_of_lt (by change _ < 65536; omega)
  have hnibble : nibble 3 w = nibble 3 (UInt16.ofNat (k * 2048)) := by
    rw [← UInt16.toNat_inj, nibble_three_toNat, nibble_three_toNat, hval]
    omega
  have hbit : bit 11 w = bit 11 (UInt16.ofNat (k * 2048)) := by
    rw [← UInt16.toNat_inj, bit_eleven_toNat, bit_eleven_toNat, hval]
    omega
  rw [getwordId, getwordId, hnibble, hbit]

/-- The DATA words are those below 0x8000, the bound of the gathering loops. -/
theorem getwordId_data_iff (w : Word) : getwordId w = .data ↔ w ≤ 0x7FFF := by
  have hnib : nibble 3 w < 0x8 ↔ w ≤ 0x7FFF := by
    rw [UInt16.lt_iff_toNat_lt, UInt16.le_iff_toNat_le, nibble_three_toNat]
    change w.toNat / 4096 < 8 ↔ w.toNat ≤ 32767
    omega
  rw [← hnib]
  unfold getwordId
  dsimp only
  split
  · simp_all
  · split_ifs <;> simp_all

end FzDaq.Parser
