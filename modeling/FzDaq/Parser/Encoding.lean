import FzDaq.Machine.Bits
import FzDaq.Parser.Transitions

/-!
# Words from their fields

How the acquisition cards put a word together, and that the parser's masks take
it apart again. The numbers of a field are those of its width, except where a
value is reserved.
-/

namespace FzDaq.Parser.Wire

open Machine

/-- A DATA word. -/
abbrev Data := { w : Word // w ≤ 0x7FFF }

/-- The DATA word with the lowest bits of a number. -/
def dataWord (n : Nat) : Data :=
  ⟨UInt16.ofNat (n % 0x8000), by
    have hnat : (UInt16.ofNat (n % 0x8000)).toNat = n % 0x8000 :=
      UInt16.toNat_ofNat_of_lt (by change _ < 65536; omega)
    rw [UInt16.le_iff_toNat_le, hnat]
    exact Nat.le_of_lt_succ (Nat.mod_lt n (Nat.succ_pos _))⟩

/-- The samples of a waveform, whose number is sent in a DATA word as well. -/
structure Samples where
  list : List Data
  short : list.length ≤ 0x7FFF

namespace Samples

def empty : Samples := ⟨[], Nat.zero_le _⟩

variable (xs : Samples)

def words : List Word := xs.list.map (·.1)

def values : List Nat := xs.words.map (·.toNat)

theorem ofNat_length : (UInt16.ofNat xs.list.length).toNat = xs.list.length :=
  UInt16.toNat_ofNat_of_lt (by have := xs.short; change _ < 65536; omega)

/-- The length word. -/
def count : Data :=
  ⟨UInt16.ofNat xs.list.length, by
    rw [UInt16.le_iff_toNat_le, xs.ofNat_length]
    exact xs.short⟩

theorem count_toNat : xs.count.1.toNat = xs.list.length := xs.ofNat_length

@[simp] theorem length_words : xs.words.length = xs.list.length := by simp [words]

@[simp] theorem length_values : xs.values.length = xs.list.length := by simp [values]

theorem le_of_mem {w : Word} (hw : w ∈ xs.words) : w ≤ 0x7FFF := by
  obtain ⟨x, _, rfl⟩ := List.mem_map.1 hw
  exact x.2

end Samples

def ecWord (ec : Fin 4096) : Word := UInt16.ofNat (0xE000 + ec)

def regidWord (regid : Fin 2048) : Word := UInt16.ofNat (0xC800 + regid)

def blkidWord (blkid : Fin 2048) : Word := UInt16.ofNat (0xC000 + blkid)

def lengthWord (len : Fin 4096) : Word := UInt16.ofNat (0xA000 + len)

def crcfeWord (crc : Fin 4096) : Word := UInt16.ofNat (0xB000 + crc)

def crcblWord (crc : Fin 4096) : Word := UInt16.ofNat (0xD000 + crc)

/-- The parser does not look at the six bits between the word type and FEEID. -/
def telidWord (spare : Fin 64) (feeid : Fin 16) (telid : Fin 2) : Word :=
  UInt16.ofNat (0x9800 + spare * 32 + feeid * 2 + telid)

def detidWord (dtype : Fin 8) (detid : Fin 8) (feeid : Fin 16) (telid : Fin 2) : Word :=
  UInt16.ofNat (0x9000 + dtype * 256 + detid * 32 + feeid * 2 + telid)

section Words

variable (ec len crc : Fin 4096) (regid blkid : Fin 2048) (spare : Fin 64) (dtype detid : Fin 8)
  (feeid : Fin 16) (telid : Fin 2)

theorem ecWord_toNat : (ecWord ec).toNat = 0xE000 + ec :=
  UInt16.toNat_ofNat_of_lt (by change _ < 65536; omega)

theorem regidWord_toNat : (regidWord regid).toNat = 0xC800 + regid :=
  UInt16.toNat_ofNat_of_lt (by change _ < 65536; omega)

theorem blkidWord_toNat : (blkidWord blkid).toNat = 0xC000 + blkid :=
  UInt16.toNat_ofNat_of_lt (by change _ < 65536; omega)

theorem lengthWord_toNat : (lengthWord len).toNat = 0xA000 + len :=
  UInt16.toNat_ofNat_of_lt (by change _ < 65536; omega)

theorem crcfeWord_toNat : (crcfeWord crc).toNat = 0xB000 + crc :=
  UInt16.toNat_ofNat_of_lt (by change _ < 65536; omega)

theorem crcblWord_toNat : (crcblWord crc).toNat = 0xD000 + crc :=
  UInt16.toNat_ofNat_of_lt (by change _ < 65536; omega)

theorem telidWord_toNat :
    (telidWord spare feeid telid).toNat = 0x9800 + spare * 32 + feeid * 2 + telid :=
  UInt16.toNat_ofNat_of_lt (by change _ < 65536; omega)

theorem detidWord_toNat :
    (detidWord dtype detid feeid telid).toNat =
      0x9000 + dtype * 256 + detid * 32 + feeid * 2 + telid :=
  UInt16.toNat_ofNat_of_lt (by change _ < 65536; omega)

/-! ## Types -/

theorem getwordId_data (w : Data) : getwordId w = .data := (getwordId_data_iff w).2 w.2

theorem getwordId_ecWord : getwordId (ecWord ec) = .ec := by
  have hval := ecWord_toNat ec
  rcases (by omega : (ecWord ec).toNat / 2048 = 28 ∨ (ecWord ec).toNat / 2048 = 29) with h | h <;>
    rw [getwordId_of_upper h] <;> rfl

theorem getwordId_lengthWord : getwordId (lengthWord len) = .length := by
  have hval := lengthWord_toNat len
  rcases (by omega : (lengthWord len).toNat / 2048 = 20 ∨ (lengthWord len).toNat / 2048 = 21)
    with h | h <;> rw [getwordId_of_upper h] <;> rfl

theorem getwordId_crcfeWord : getwordId (crcfeWord crc) = .crcfe := by
  have hval := crcfeWord_toNat crc
  rcases (by omega : (crcfeWord crc).toNat / 2048 = 22 ∨ (crcfeWord crc).toNat / 2048 = 23)
    with h | h <;> rw [getwordId_of_upper h] <;> rfl

theorem getwordId_crcblWord : getwordId (crcblWord crc) = .crcbl := by
  have hval := crcblWord_toNat crc
  rcases (by omega : (crcblWord crc).toNat / 2048 = 26 ∨ (crcblWord crc).toNat / 2048 = 27)
    with h | h <;> rw [getwordId_of_upper h] <;> rfl

theorem getwordId_regidWord : getwordId (regidWord regid) = .regid := by
  have hval := regidWord_toNat regid
  rw [getwordId_of_upper (by omega : (regidWord regid).toNat / 2048 = 25)]
  rfl

theorem getwordId_blkidWord : getwordId (blkidWord blkid) = .blkid := by
  have hval := blkidWord_toNat blkid
  rw [getwordId_of_upper (by omega : (blkidWord blkid).toNat / 2048 = 24)]
  rfl

theorem getwordId_telidWord : getwordId (telidWord spare feeid telid) = .telid := by
  have hval := telidWord_toNat spare feeid telid
  rw [getwordId_of_upper (by omega : (telidWord spare feeid telid).toNat / 2048 = 19)]
  rfl

theorem getwordId_detidWord : getwordId (detidWord dtype detid feeid telid) = .detid := by
  have hval := detidWord_toNat dtype detid feeid telid
  rw [getwordId_of_upper (by omega : (detidWord dtype detid feeid telid).toNat / 2048 = 18)]
  rfl

end Words

/-! ## Fields -/

section Masks

variable (w : Word)

theorem ecOf_toNat : (ecOf w).toNat = w.toNat % 4096 := by
  rw [ecOf, UInt16.toNat_and]
  exact Nat.and_two_pow_sub_one_eq_mod _ 12

theorem regidOf_toNat : (regidOf w).toNat = w.toNat % 2048 := by
  rw [regidOf, UInt16.toNat_and]
  exact Nat.and_two_pow_sub_one_eq_mod _ 11

theorem blkidOf_toNat : (blkidOf w).toNat = w.toNat % 2048 := by
  rw [blkidOf, UInt16.toNat_and]
  exact Nat.and_two_pow_sub_one_eq_mod _ 11

theorem telidOf_toNat : (telidOf w).toNat = w.toNat % 2 := by
  rw [telidOf, UInt16.toNat_and]
  exact Nat.and_two_pow_sub_one_eq_mod _ 1

theorem feeidOf_toNat : (feeidOf w).toNat = w.toNat / 2 % 16 := by
  rw [feeidOf, UInt16.toNat_shiftRight, UInt16.toNat_and]
  exact and_shiftRight w.toNat 4 1

theorem detidOf_toNat : (detidOf w).toNat = w.toNat / 32 % 8 := by
  rw [detidOf, UInt16.toNat_shiftRight, UInt16.toNat_and]
  exact and_shiftRight w.toNat 3 5

theorem dtypeOf_toNat : (dtypeOf w).toNat = w.toNat / 256 % 8 := by
  rw [dtypeOf, UInt16.toNat_shiftRight, UInt16.toNat_and]
  exact and_shiftRight w.toNat 3 8

end Masks

section Fields

variable (ec : Fin 4096) (regid blkid : Fin 2048) (spare : Fin 64) (dtype detid : Fin 8)
  (feeid : Fin 16) (telid : Fin 2)

theorem toUInt32_of_toNat {w : Word} {n : Nat} (h : w.toNat = n) : w.toUInt32 = UInt32.ofNat n := by
  have hlt := w.toNat_lt
  have hval : (UInt32.ofNat n).toNat = n :=
    UInt32.toNat_ofNat_of_lt (by change _ < 4294967296; omega)
  rw [← UInt32.toNat_inj, UInt16.toNat_toUInt32, hval, h]

theorem ecOf_ecWord : (ecOf (ecWord ec)).toUInt32 = UInt32.ofNat ec :=
  toUInt32_of_toNat (by rw [ecOf_toNat, ecWord_toNat]; omega)

theorem regidOf_regidWord : (regidOf (regidWord regid)).toUInt32 = UInt32.ofNat regid :=
  toUInt32_of_toNat (by rw [regidOf_toNat, regidWord_toNat]; omega)

theorem blkidOf_blkidWord : (blkidOf (blkidWord blkid)).toUInt32 = UInt32.ofNat blkid :=
  toUInt32_of_toNat (by rw [blkidOf_toNat, blkidWord_toNat]; omega)

theorem checkFeeid_of_toNat {w : Word} (h : w.toNat = feeid) : checkFeeid w = feeid := by
  rw [checkFeeid, if_neg (by simp [FzFec.FEC0, FzFec.ADCF]; omega), h]

theorem checkTelid_of_toNat {w : Word} (h : w.toNat = telid) : checkTelid w = telid := by
  rw [checkTelid, if_neg (by simp [FzTelescope.A, FzTelescope.B]; omega), h]

theorem feeid_telidWord : checkFeeid (feeidOf (telidWord spare feeid telid)) = feeid :=
  checkFeeid_of_toNat feeid (by rw [feeidOf_toNat, telidWord_toNat]; omega)

theorem telid_telidWord : checkTelid (telidOf (telidWord spare feeid telid)) = telid :=
  checkTelid_of_toNat telid (by rw [telidOf_toNat, telidWord_toNat]; omega)

theorem feeid_detidWord : checkFeeid (feeidOf (detidWord dtype detid feeid telid)) = feeid :=
  checkFeeid_of_toNat feeid (by rw [feeidOf_toNat, detidWord_toNat]; omega)

theorem telid_detidWord : checkTelid (telidOf (detidWord dtype detid feeid telid)) = telid :=
  checkTelid_of_toNat telid (by rw [telidOf_toNat, detidWord_toNat]; omega)

theorem detid_detidWord : (detidOf (detidWord dtype detid feeid telid)).toNat = detid := by
  rw [detidOf_toNat, detidWord_toNat]
  omega

theorem dtype_detidWord : (dtypeOf (detidWord dtype detid feeid telid)).toNat = dtype := by
  rw [dtypeOf_toNat, detidWord_toNat]
  omega

/-- The detectors that the cards know have two-bit numbers; DETID has three bits. -/
def detectorBits (detid : Fin 4) : Fin 8 := ⟨detid, by omega⟩

/-- The type of data in a section. The ADC card has one type only. -/
def dataType (feeid : Fin 16) (detid : Fin 4) (dtype : Fin 8) : FzDataType :=
  if feeid = 15 then .ADC
  else match detid, dtype with
    | 0, 0 => .QH1
    | 0, 1 => .I1
    | 0, 2 => .QL1
    | 1, 0 => .Q2
    | 1, 1 => .I2
    | 2, 0 => .Q3
    | _, _ => .UNKDT

theorem sectionType_detidWord (detid : Fin 4) :
    sectionType (detidWord dtype (detectorBits detid) feeid telid) =
      dataType feeid detid dtype := by
  unfold sectionType dataType
  rw [detid_detidWord, dtype_detidWord, feeid_detidWord]
  revert dtype detid feeid
  decide

end Fields

end FzDaq.Parser.Wire
