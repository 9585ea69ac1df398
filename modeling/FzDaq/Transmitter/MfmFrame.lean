import FzDaq.Machine.Bytes
import FzDaq.Machine.Scatter
import FzDaq.Parser.Record

/-!
# The MFM frame

The transmitter sends each event set in a frame: a header with the CENTRUM stamp of the
first event, the length of the data and the data. The stamp is scattered over twelve
bytes, in whatever order the trigger infos come.
-/

namespace FzDaq.Transmitter

open FzDaq.Machine FzDaq.Parser

/-- `mfmevent[i] = v`. -/
def setByte (i v : Nat) : Piece := { index := i, byte := UInt8.ofNat v, merge := false }

/-- `mfmevent[i] |= v`. -/
def orByte (i v : Nat) : Piece := { index := i, byte := UInt8.ofNat v, merge := true }

/-- Header, length and data, rounded up to an even number of bytes. -/
def mfmeventsize (byteSize : Nat) : Nat :=
  if (20 + 4 + byteSize) % 2 ≠ 0 then 20 + 4 + byteSize + 1 else 20 + 4 + byteSize

def headerPieces (size : Nat) : List Piece :=
  [setByte 0 0x41,
    setByte 1 ((size / 2 &&& 0xFF0000) >>> 16),
    setByte 2 ((size / 2 &&& 0x00FF00) >>> 8),
    setByte 3 (size / 2 &&& 0x0000FF),
    setByte 4 0x00, setByte 5 0x00, setByte 6 0x40, setByte 7 0x00]

/-- One turn of the loop over the trigger infos. -/
def centrumPieces (t : FzTrigInfo) : List Piece :=
  let v := (t.value.getD 0).toNat
  if t.id.getD 0 = 0x200 then [orByte 8 ((v &&& 0x3F) <<< 2)]
  else if t.id.getD 0 = 0x201 then
    [orByte 8 (v >>> 28),
      setByte 9 ((v >>> 20) &&& 0xFF),
      setByte 10 ((v >>> 12) &&& 0xFF),
      setByte 11 ((v >>> 4) &&& 0xFF),
      orByte 12 ((v &&& 0xF) <<< 4)]
  else if t.id.getD 0 = 0x202 then
    [orByte 12 (v >>> 26),
      setByte 13 ((v >>> 18) &&& 0xFF),
      setByte 14 ((v >>> 10) &&& 0xFF),
      setByte 15 ((v >>> 2) &&& 0xFF),
      orByte 16 ((v &&& 0x3) <<< 6)]
  else if t.id.getD 0 = 0x203 then
    [orByte 16 (v >>> 24),
      setByte 17 ((v >>> 16) &&& 0xFF),
      setByte 18 ((v >>> 8) &&& 0xFF),
      setByte 19 (v &&& 0xFF)]
  else []

def lengthPieces (byteSize : Nat) : List Piece :=
  [setByte 20 (byteSize &&& 0x000000FF),
    setByte 21 ((byteSize &&& 0x0000FF00) >>> 8),
    setByte 22 ((byteSize &&& 0x00FF0000) >>> 16),
    setByte 23 ((byteSize &&& 0xFF000000) >>> 24)]

/-- The bytes in front of the data. -/
def mfmHeader (mfmevent : Nat → UInt8) (byteSize : Nat) (ev : FzEvent) : Nat → UInt8 :=
  Piece.putAll mfmevent
    (headerPieces (mfmeventsize byteSize) ++ (List.range 13).map (fun i => setByte (i + 8) 0) ++
      ev.trinfo.flatMap centrumPieces ++ lengthPieces byteSize)

/-- The bytes that are sent. `ev` is the first event of the set, `byteSize` its
`ByteSize()`; `behind` is the byte behind the message, which is copied when the size is odd. -/
def mfmFrame (mfmevent : Nat → UInt8) (byteSize : Nat) (ev : FzEvent) (message : List UInt8)
    (behind : UInt8) : List UInt8 :=
  (List.range (mfmeventsize byteSize)).map fun i =>
    if i < 24 then mfmHeader mfmevent byteSize ev i else (message[i - 24]?).getD behind

/-! ## The trigger infos of a CENTRUM record -/

/-- The trigger infos of a CENTRUM record, in any order, among others. -/
structure Stamped (ts : List FzTrigInfo) (v0 v1 v2 v3 : Nat) : Prop where
  perm : ∃ t0 t1 t2 t3 others, ts.Perm ([t0, t1, t2, t3] ++ others) ∧
    t0.id = some 0x200 ∧ t1.id = some 0x201 ∧ t2.id = some 0x202 ∧ t3.id = some 0x203 ∧
    (t0.value.getD 0).toNat = v0 ∧ (t1.value.getD 0).toNat = v1 ∧
    (t2.value.getD 0).toNat = v2 ∧ (t3.value.getD 0).toNat = v3 ∧
    ∀ t ∈ others, t.id.getD 0 ∉ [0x200, 0x201, 0x202, 0x203]

variable {mfmevent : Nat → UInt8} {ts : List FzTrigInfo} {v0 v1 v2 v3 : Nat}

/-- The pieces of the stamp, from the values of its trigger infos. -/
def stampPieces (v0 v1 v2 v3 : Nat) : List Piece :=
  [orByte 8 ((v0 &&& 0x3F) <<< 2),
    orByte 8 (v1 >>> 28), setByte 9 ((v1 >>> 20) &&& 0xFF), setByte 10 ((v1 >>> 12) &&& 0xFF),
    setByte 11 ((v1 >>> 4) &&& 0xFF), orByte 12 ((v1 &&& 0xF) <<< 4),
    orByte 12 (v2 >>> 26), setByte 13 ((v2 >>> 18) &&& 0xFF), setByte 14 ((v2 >>> 10) &&& 0xFF),
    setByte 15 ((v2 >>> 2) &&& 0xFF), orByte 16 ((v2 &&& 0x3) <<< 6),
    orByte 16 (v3 >>> 24), setByte 17 ((v3 >>> 16) &&& 0xFF), setByte 18 ((v3 >>> 8) &&& 0xFF),
    setByte 19 (v3 &&& 0xFF)]

theorem stampPieces_apart (v0 v1 v2 v3 : Nat) :
    (stampPieces v0 v1 v2 v3).Pairwise Piece.Apart := by
  simp [stampPieces, Piece.Apart, setByte, orByte]

/-- The loop over the trigger infos puts the pieces of the stamp, in some order. -/
theorem Stamped.pieces (h : Stamped ts v0 v1 v2 v3) :
    (stampPieces v0 v1 v2 v3).Perm (ts.flatMap centrumPieces) := by
  obtain ⟨t0, t1, t2, t3, others, hperm, hid0, hid1, hid2, hid3, rfl, rfl, rfl, rfl, hothers⟩ :=
    h.perm
  have hnone : others.flatMap centrumPieces = [] := by
    rw [List.flatMap_eq_nil_iff]
    intro t ht
    have hid := hothers t ht
    simp only [List.mem_cons, List.not_mem_nil, or_false, not_or] at hid
    simp [centrumPieces, hid]
  have hsplit : ([t0, t1, t2, t3] ++ others).flatMap centrumPieces =
      stampPieces (t0.value.getD 0).toNat (t1.value.getD 0).toNat (t2.value.getD 0).toNat
        (t3.value.getD 0).toNat := by
    rw [List.flatMap_append, hnone]
    simp [centrumPieces, hid0, hid1, hid2, hid3, stampPieces]
  rw [← hsplit]
  exact (hperm.flatMap_right centrumPieces).symm

theorem toNat_merged {a b k : Nat} (hb : b < 2 ^ k) (hbyte : a * 2 ^ k + b < 256) :
    (UInt8.ofNat (a <<< k) ||| UInt8.ofNat b).toNat = a * 2 ^ k + b := by
  have hshift : a <<< k = a * 2 ^ k := Nat.shiftLeft_eq a k
  have hsize : UInt8.size = 256 := rfl
  rw [UInt8.toNat_or, UInt8.toNat_ofNat_of_lt' (by rw [hshift]; omega),
    UInt8.toNat_ofNat_of_lt' (by omega), ← Nat.shiftLeft_add_eq_or_of_lt hb, hshift]

theorem toNat_byte (v k : Nat) : (UInt8.ofNat ((v >>> k) &&& 0xFF)).toNat = v / 2 ^ k % 256 := by
  have hmask : (v >>> k) &&& 0xFF = v / 2 ^ k % 256 := by
    rw [Nat.shiftRight_eq_div_pow]
    exact Nat.and_two_pow_sub_one_eq_mod _ 8
  rw [hmask]
  exact UInt8.toNat_ofNat_of_lt' (Nat.mod_lt _ (by decide))

theorem toNat_masked {mask k : Nat} (hmask : mask >>> k = 0xFF) (v : Nat) :
    (UInt8.ofNat ((v &&& mask) >>> k)).toNat = v / 2 ^ k % 256 := by
  rw [Nat.shiftRight_and_distrib, hmask]
  exact toNat_byte v k

theorem toNat_low (v : Nat) : (UInt8.ofNat (v &&& 0xFF)).toNat = v % 256 :=
  (toNat_byte v 0).trans (by rw [Nat.pow_zero, Nat.div_one])

theorem sum_bytes (v k : Nat) :
    v / 2 ^ (k + 24) * 2 ^ (k + 24) + v / 2 ^ (k + 16) % 256 * 2 ^ (k + 16) +
      v / 2 ^ (k + 8) % 256 * 2 ^ (k + 8) + v / 2 ^ k % 256 * 2 ^ k + v % 2 ^ k = v := by
  have hdiv : ∀ j, v / 2 ^ (k + j) = v / 2 ^ k / 2 ^ j := fun j => by
    rw [Nat.pow_add, Nat.div_div_eq_div_mul]
  have hhigh : v / 2 ^ k / 2 ^ 24 * 2 ^ 24 + v / 2 ^ k / 2 ^ 16 % 256 * 2 ^ 16 +
      v / 2 ^ k / 2 ^ 8 % 256 * 2 ^ 8 + v / 2 ^ k % 256 = v / 2 ^ k := by
    omega
  have hlow := Nat.div_add_mod v (2 ^ k)
  rw [hdiv, hdiv, hdiv]
  simp only [Nat.pow_add]
  linear_combination 2 ^ k * hhigh + hlow

theorem stamp_bytes (hzero : ∀ i, 8 ≤ i → i < 20 → mfmevent i = 0) :
    (List.range' 8 12).map (Piece.putAll mfmevent (stampPieces v0 v1 v2 v3)) =
      [UInt8.ofNat ((v0 &&& 0x3F) <<< 2) ||| UInt8.ofNat (v1 >>> 28),
        UInt8.ofNat ((v1 >>> 20) &&& 0xFF), UInt8.ofNat ((v1 >>> 12) &&& 0xFF),
        UInt8.ofNat ((v1 >>> 4) &&& 0xFF),
        UInt8.ofNat ((v1 &&& 0xF) <<< 4) ||| UInt8.ofNat (v2 >>> 26),
        UInt8.ofNat ((v2 >>> 18) &&& 0xFF), UInt8.ofNat ((v2 >>> 10) &&& 0xFF),
        UInt8.ofNat ((v2 >>> 2) &&& 0xFF),
        UInt8.ofNat ((v2 &&& 0x3) <<< 6) ||| UInt8.ofNat (v3 >>> 24),
        UInt8.ofNat ((v3 >>> 16) &&& 0xFF), UInt8.ofNat ((v3 >>> 8) &&& 0xFF),
        UInt8.ofNat (v3 &&& 0xFF)] := by
  simp [List.range', stampPieces, Piece.putAll, Piece.put_apply, setByte, orByte, hzero]

theorem stamp_value (hzero : ∀ i, 8 ≤ i → i < 20 → mfmevent i = 0) (h1 : v1 < 2 ^ 30)
    (h2 : v2 < 2 ^ 30) (h3 : v3 < 2 ^ 30) :
    ofBigEndian ((List.range' 8 12).map (Piece.putAll mfmevent (stampPieces v0 v1 v2 v3))) =
      v0 % 64 * 2 ^ 90 + v1 * 2 ^ 60 + v2 * 2 ^ 30 + v3 := by
  have hlow : ∀ v k : Nat, v &&& (2 ^ k - 1) = v % 2 ^ k :=
    fun v k => Nat.and_two_pow_sub_one_eq_mod v k
  have hb0 : (UInt8.ofNat ((v0 &&& 0x3F) <<< 2) ||| UInt8.ofNat (v1 >>> 28)).toNat =
      v0 % 64 * 4 + v1 / 2 ^ 28 := by
    rw [show v0 &&& 0x3F = v0 % 64 from hlow v0 6, Nat.shiftRight_eq_div_pow]
    exact toNat_merged (by omega) (by omega)
  have hb4 : (UInt8.ofNat ((v1 &&& 0xF) <<< 4) ||| UInt8.ofNat (v2 >>> 26)).toNat =
      v1 % 16 * 16 + v2 / 2 ^ 26 := by
    rw [show v1 &&& 0xF = v1 % 16 from hlow v1 4, Nat.shiftRight_eq_div_pow]
    exact toNat_merged (by omega) (by omega)
  have hb8 : (UInt8.ofNat ((v2 &&& 0x3) <<< 6) ||| UInt8.ofNat (v3 >>> 24)).toNat =
      v2 % 4 * 64 + v3 / 2 ^ 24 := by
    rw [show v2 &&& 0x3 = v2 % 4 from hlow v2 2, Nat.shiftRight_eq_div_pow]
    exact toNat_merged (by omega) (by omega)
  rw [stamp_bytes hzero]
  simp only [ofBigEndian, List.reverse_cons, List.reverse_nil, List.nil_append, List.cons_append,
    ofLittleEndian_cons, hb0, hb4, hb8, toNat_low]
  simp only [Nat.shiftRight_eq_div_pow]
  rw [show ofLittleEndian [] = 0 from rfl]
  have hv1 := sum_bytes v1 4
  have hv2 := sum_bytes v2 2
  have hv3 := sum_bytes v3 0
  simp only [Nat.pow_zero, Nat.mod_one, Nat.div_one, Nat.reduceAdd, Nat.reducePow] at hv1 hv2 hv3 ⊢
  linear_combination 2 ^ 60 * hv1 + 2 ^ 30 * hv2 + hv3

/-! ## The frame byte by byte -/

/-- Trigger infos write into the stamp only. -/
theorem centrumPieces_index (t : FzTrigInfo) :
    ∀ p ∈ centrumPieces t, 8 ≤ p.index ∧ p.index < 20 := by
  intro p hp
  unfold centrumPieces at hp
  dsimp only at hp
  split_ifs at hp <;>
    simp only [List.mem_cons, List.not_mem_nil, or_false, setByte, orByte] at hp <;>
    rcases hp with rfl | rfl | rfl | rfl | rfl <;> simp

theorem putAll_trinfo {i : Nat} (ts : List FzTrigInfo) (hi : ¬ (8 ≤ i ∧ i < 20)) :
    Piece.putAll mfmevent (ts.flatMap centrumPieces) i = mfmevent i := by
  refine Piece.putAll_other fun p hp heq => hi ?_
  obtain ⟨t, -, hp⟩ := List.mem_flatMap.1 hp
  rw [← heq]
  exact centrumPieces_index t p hp

theorem putAll_zeros (n i : Nat) :
    Piece.putAll mfmevent ((List.range n).map fun i => setByte (i + 8) 0) i =
      if 8 ≤ i ∧ i < n + 8 then 0 else mfmevent i := by
  induction n with
  | zero =>
    rw [if_neg (by omega)]
    rfl
  | succ n ih =>
    rw [List.range_succ, List.map_append, Piece.putAll_append]
    change Piece.put _ (setByte (n + 8) 0) i = _
    rw [Piece.put_apply, ih]
    change (if i = n + 8 then 0 else _) = _
    by_cases hi : i = n + 8
    · rw [if_pos hi, if_pos (by omega)]
    · rw [if_neg hi]
      congr 1
      exact propext ⟨fun h => by omega, fun h => by omega⟩

variable {byteSize : Nat} {ev : FzEvent} {message : List UInt8} {behind : UInt8}

/-- The buffer in front of the loop over the trigger infos. -/
def cleared (mfmevent : Nat → UInt8) (byteSize : Nat) : Nat → UInt8 :=
  Piece.putAll (Piece.putAll mfmevent (headerPieces (mfmeventsize byteSize)))
    ((List.range 13).map fun i => setByte (i + 8) 0)

theorem mfmHeader_eq :
    mfmHeader mfmevent byteSize ev =
      Piece.putAll (Piece.putAll (cleared mfmevent byteSize) (ev.trinfo.flatMap centrumPieces))
        (lengthPieces byteSize) := by
  rw [mfmHeader, Piece.putAll_append, Piece.putAll_append, Piece.putAll_append]
  rfl

theorem mfmHeader_front {i : Nat} (hi : i < 8) :
    mfmHeader mfmevent byteSize ev i =
      Piece.putAll mfmevent (headerPieces (mfmeventsize byteSize)) i := by
  rw [mfmHeader_eq, Piece.putAll_other, putAll_trinfo _ (by omega), cleared, putAll_zeros,
    if_neg (by omega)]
  intro p hp
  simp only [lengthPieces, List.mem_cons, List.not_mem_nil, or_false, setByte] at hp
  rcases hp with rfl | rfl | rfl | rfl <;> dsimp only <;> omega

/-- The order of the trigger infos does not matter. -/
theorem mfmHeader_stamp (h : Stamped ev.trinfo v0 v1 v2 v3) {i : Nat} (hi : i < 20) :
    mfmHeader mfmevent byteSize ev i =
      Piece.putAll (cleared mfmevent byteSize) (stampPieces v0 v1 v2 v3) i := by
  rw [mfmHeader_eq, Piece.putAll_other,
    Piece.putAll_perm h.pieces (stampPieces_apart v0 v1 v2 v3)]
  intro p hp
  simp only [lengthPieces, List.mem_cons, List.not_mem_nil, or_false, setByte] at hp
  rcases hp with rfl | rfl | rfl | rfl <;> dsimp only <;> omega

theorem length_mfmFrame :
    (mfmFrame mfmevent byteSize ev message behind).length = mfmeventsize byteSize := by
  rw [mfmFrame, List.length_map, List.length_range]

theorem mfmFrame_slice {a k : Nat} (hk : a + k ≤ mfmeventsize byteSize) :
    ((mfmFrame mfmevent byteSize ev message behind).drop a).take k =
      (List.range' a k).map fun i =>
        if i < 24 then mfmHeader mfmevent byteSize ev i else (message[i - 24]?).getD behind := by
  have hsplit : List.range (mfmeventsize byteSize) =
      List.range a ++
        (List.range' a k ++ List.range' (a + k) (mfmeventsize byteSize - (a + k))) := by
    rw [List.range_eq_range', List.range_eq_range', List.range'_append_1]
    have hlen : k + (mfmeventsize byteSize - (a + k)) = mfmeventsize byteSize - a := by omega
    rw [hlen]
    have happ := List.range'_append_1 (s := 0) (m := a) (n := mfmeventsize byteSize - a)
    rw [Nat.zero_add, show a + (mfmeventsize byteSize - a) = mfmeventsize byteSize by omega] at happ
    exact happ.symm
  rw [mfmFrame, ← List.map_drop, ← List.map_take, hsplit,
    List.drop_left' (List.length_range), List.take_left' (List.length_range')]

theorem mfmeventsize_ge (byteSize : Nat) : 24 + byteSize ≤ mfmeventsize byteSize := by
  unfold mfmeventsize
  split <;> omega

theorem mfmFrame_header {a k : Nat} (hk : a + k ≤ 24) :
    ((mfmFrame mfmevent byteSize ev message behind).drop a).take k =
      (List.range' a k).map (mfmHeader mfmevent byteSize ev) := by
  have hge := mfmeventsize_ge byteSize
  rw [mfmFrame_slice (by omega)]
  refine List.map_congr_left fun i hi => ?_
  rw [if_pos]
  have := List.mem_range'_1.1 hi
  omega

theorem mfmFrame_stamp (h : Stamped ev.trinfo v0 v1 v2 v3) (h1 : v1 < 2 ^ 30) (h2 : v2 < 2 ^ 30)
    (h3 : v3 < 2 ^ 30) :
    ofBigEndian (((mfmFrame mfmevent byteSize ev message behind).drop 8).take 12) =
      v0 % 64 * 2 ^ 90 + v1 * 2 ^ 60 + v2 * 2 ^ 30 + v3 := by
  have hzero : ∀ i, 8 ≤ i → i < 20 → cleared mfmevent byteSize i = 0 := by
    intro i hlow hhigh
    rw [cleared, putAll_zeros, if_pos (by omega)]
  rw [mfmFrame_header (by decide), ← stamp_value hzero h1 h2 h3]
  congr 1
  refine List.map_congr_left fun i hi => mfmHeader_stamp h ?_
  have := List.mem_range'_1.1 hi
  omega

theorem mfmFrame_size (hsize : mfmeventsize byteSize ≤ 0x400000) :
    ofBigEndian (((mfmFrame mfmevent byteSize ev message behind).drop 1).take 3) =
      mfmeventsize byteSize / 2 := by
  have hbytes : (List.range' 1 3).map (mfmHeader mfmevent byteSize ev) =
      [UInt8.ofNat ((mfmeventsize byteSize / 2 &&& 0xFF0000) >>> 16),
        UInt8.ofNat ((mfmeventsize byteSize / 2 &&& 0x00FF00) >>> 8),
        UInt8.ofNat (mfmeventsize byteSize / 2 &&& 0x0000FF)] := by
    have hfront : ∀ i ∈ List.range' 1 3, mfmHeader mfmevent byteSize ev i =
        Piece.putAll mfmevent (headerPieces (mfmeventsize byteSize)) i := by
      intro i hi
      have := List.mem_range'_1.1 hi
      exact mfmHeader_front (by omega)
    rw [List.map_congr_left hfront]
    simp [List.range', headerPieces, Piece.putAll, Piece.put_apply, setByte]
  rw [mfmFrame_header (by decide), hbytes]
  simp only [ofBigEndian, List.reverse_cons, List.reverse_nil, List.nil_append, List.cons_append,
    ofLittleEndian_cons, toNat_low, toNat_masked (show 0xFF0000 >>> 16 = 0xFF from rfl),
    toNat_masked (show 0x00FF00 >>> 8 = 0xFF from rfl)]
  rw [show ofLittleEndian [] = 0 from rfl]
  omega

theorem mfmFrame_length_field (hsize : byteSize < 2 ^ 32) :
    ofLittleEndian (((mfmFrame mfmevent byteSize ev message behind).drop 20).take 4) =
      byteSize := by
  have hbytes : (List.range' 20 4).map (mfmHeader mfmevent byteSize ev) =
      [UInt8.ofNat (byteSize &&& 0x000000FF), UInt8.ofNat ((byteSize &&& 0x0000FF00) >>> 8),
        UInt8.ofNat ((byteSize &&& 0x00FF0000) >>> 16),
        UInt8.ofNat ((byteSize &&& 0xFF000000) >>> 24)] := by
    rw [mfmHeader_eq]
    simp [List.range', lengthPieces, Piece.putAll, Piece.put_apply, setByte]
  rw [mfmFrame_header (by decide), hbytes]
  simp only [ofLittleEndian_cons, toNat_low, toNat_masked (show 0x0000FF00 >>> 8 = 0xFF from rfl),
    toNat_masked (show 0x00FF0000 >>> 16 = 0xFF from rfl),
    toNat_masked (show 0xFF000000 >>> 24 = 0xFF from rfl)]
  rw [show ofLittleEndian [] = 0 from rfl]
  omega

theorem mfmFrame_data :
    ((mfmFrame mfmevent message.length ev message behind).drop 24).take message.length =
      message := by
  rw [mfmFrame_slice (mfmeventsize_ge message.length)]
  refine List.ext_getElem (by simp) fun i hi hi' => ?_
  simp only [List.getElem_map, List.getElem_range', Nat.one_mul]
  rw [if_neg (by omega), Nat.add_sub_cancel_left, List.getElem?_eq_getElem hi', Option.getD_some]

/-- Every byte of the header is set, so nothing of an earlier event is left in it. -/
theorem mfmHeader_set {m m' : Nat → UInt8} {i : Nat} (hi : i < 24) :
    mfmHeader m byteSize ev i = mfmHeader m' byteSize ev i := by
  have hset : ∃ p ∈ headerPieces (mfmeventsize byteSize) ++
      (List.range 13).map (fun i => setByte (i + 8) 0) ++ ev.trinfo.flatMap centrumPieces ++
        lengthPieces byteSize, p.index = i ∧ p.merge = false := by
    simp only [List.mem_append, or_and_right, exists_or]
    rcases Nat.lt_or_ge i 8 with h8 | h8
    · refine .inl (.inl (.inl ?_))
      simp only [headerPieces, setByte, List.exists_mem_cons_iff, and_true]
      omega
    rcases Nat.lt_or_ge i 20 with h20 | h20
    · refine .inl (.inl (.inr ⟨setByte i 0, List.mem_map.2 ⟨i - 8, ?_, ?_⟩, rfl, rfl⟩))
      · exact List.mem_range.2 (by omega)
      · rw [Nat.sub_add_cancel h8]
    · refine .inr ?_
      simp only [lengthPieces, setByte, List.exists_mem_cons_iff, and_true]
      omega
  obtain ⟨p, hp, rfl, hmerge⟩ := hset
  exact Piece.putAll_set hp hmerge

theorem mfmFrame_set (m m' : Nat → UInt8) :
    mfmFrame m byteSize ev message behind = mfmFrame m' byteSize ev message behind := by
  refine List.map_congr_left fun i _ => ?_
  split
  · exact mfmHeader_set ‹_›
  · rfl

/-! ## The record of the parser -/

variable {E : Env} {s t : Fsm} {w0 w1 w2 w3 w4 w5 w6 : Word} {tri : FzTrigInfo}

theorem addTagInfo_trinfo {id : UInt32} {tb : Table} {k : Nat} {v : UInt64}
    (h : s.addTagInfo E id tb k v = some t) :
    ∃ tri : FzTrigInfo, tri.id = some id ∧ tri.value = some v ∧ t = s.addTrinfos [tri] := by
  cases hstr : E.str tb k with
  | none => simp [Fsm.addTagInfo, hstr] at h
  | some attr =>
    simp only [Fsm.addTagInfo, hstr, Option.bind_eq_bind, Option.bind_some, Option.some.injEq] at h
    exact ⟨_, rfl, rfl, h.symm⟩

theorem pair_toNat {high low : Word} (hhigh : high < 0x8000) (hlow : low < 0x8000) :
    ((high.toUInt64 <<< 15) + low.toUInt64).toNat = high.toNat * 2 ^ 15 + low.toNat := by
  have hh : high.toNat < 32768 := hhigh
  have hl : low.toNat < 32768 := hlow
  rw [UInt64.toNat_add, UInt64.toNat_shiftLeft, UInt16.toNat_toUInt64, UInt16.toNat_toUInt64]
  rw [show (15 : UInt64).toNat % 64 = 15 from rfl, Nat.shiftLeft_eq]
  omega

/-- The low six bits of the first value are those of the word. -/
theorem centrum0_toNat (w : Word) :
    ((w &&& 0x003F).toUInt64 + ((w &&& 0xF800).toUInt64 <<< 15)).toNat % 64 = w.toNat % 64 := by
  have hmask : (w &&& 0x003F).toNat = w.toNat % 64 := by
    rw [UInt16.toNat_and]
    exact Nat.and_two_pow_sub_one_eq_mod _ 6
  rw [UInt64.toNat_add, UInt64.toNat_shiftLeft, UInt16.toNat_toUInt64, UInt16.toNat_toUInt64, hmask,
    show (15 : UInt64).toNat % 64 = 15 from rfl, Nat.shiftLeft_eq]
  omega

/-- What the record of CENTRUM adds to the event. -/
theorem readRecord_centrum (htag : s.tag = TAG_RB_CENTRUM)
    (hreads : E.Reads s.eventIndex [w0, w1, w2, w3, w4, w5, w6])
    (h : s.readRecord E w0 = some t) :
    ∃ t0 t1 t2 t3 : FzTrigInfo, t.ev.trinfo = s.ev.trinfo ++ [t0, t1, t2, t3] ∧
      t0.id = some 0x200 ∧ t1.id = some 0x201 ∧ t2.id = some 0x202 ∧ t3.id = some 0x203 ∧
      t0.value = some ((w0 &&& 0x003F).toUInt64 + ((w0 &&& 0xF800).toUInt64 <<< 15)) ∧
      t1.value = some ((w1.toUInt64 <<< 15) + w2.toUInt64) ∧
      t2.value = some ((w3.toUInt64 <<< 15) + w4.toUInt64) ∧
      t3.value = some ((w5.toUInt64 <<< 15) + w6.toUInt64) := by
  obtain ⟨-, hr1, hr2, hr3, hr4, hr5, hr6, -⟩ := hreads
  unfold Fsm.readRecord at h
  iterate 11 rw [if_neg (by rw [htag]; decide)] at h
  rw [if_pos htag] at h
  simp only [Option.bind_eq_bind, Option.bind_eq_some_iff] at h
  obtain ⟨s₀, h₀, ⟨x1, s₁⟩, h₁, ⟨x2, s₂⟩, h₂, s₃, h₃, ⟨x3, s₄⟩, h₄, ⟨x4, s₅⟩, h₅, s₆, h₆,
    ⟨x5, s₇⟩, h₇, ⟨x6, s₈⟩, h₈, h₉⟩ := h
  obtain ⟨t0, hid0, hv0, rfl⟩ := addTagInfo_trinfo h₀
  obtain ⟨hx1, rfl⟩ := Fsm.nextEventWord_eq_some.1 h₁
  obtain ⟨hx2, rfl⟩ := Fsm.nextEventWord_eq_some.1 h₂
  obtain ⟨t1, hid1, hv1, rfl⟩ := addTagInfo_trinfo h₃
  obtain ⟨hx3, rfl⟩ := Fsm.nextEventWord_eq_some.1 h₄
  obtain ⟨hx4, rfl⟩ := Fsm.nextEventWord_eq_some.1 h₅
  obtain ⟨t2, hid2, hv2, rfl⟩ := addTagInfo_trinfo h₆
  obtain ⟨hx5, rfl⟩ := Fsm.nextEventWord_eq_some.1 h₇
  obtain ⟨hx6, rfl⟩ := Fsm.nextEventWord_eq_some.1 h₈
  obtain ⟨t3, hid3, hv3, rfl⟩ := addTagInfo_trinfo h₉
  -- The words that the turn has read are those of the record.
  have heq : ∀ {x w : Word} {i : Nat}, E.event i = some x → E.event i = some w → x = w :=
    fun hx hw => Option.some.inj (hx.symm.trans hw)
  have e1 := heq hx1 hr1
  have e2 := heq hx2 hr2
  have e3 := heq hx3 hr3
  have e4 := heq hx4 hr4
  have e5 := heq hx5 hr5
  have e6 := heq hx6 hr6
  subst e1 e2 e3 e4 e5 e6
  refine ⟨t0, t1, t2, t3, ?_, hid0, hid1, hid2, hid3, hv0, hv1, hv2, hv3⟩
  simp [Fsm.addTrinfos, Fsm.movedOver]

/-- The frame of an event with one CENTRUM record carries the words of the record, its own
size, the size of the data and the data. `later` are the trigger infos behind the record. -/
theorem mfmFrame_carries (hword : ∀ w ∈ [w0, w1, w2, w3, w4, w5, w6], w < 0x8000)
    (htag : s.tag = TAG_RB_CENTRUM) (hreads : E.Reads s.eventIndex [w0, w1, w2, w3, w4, w5, w6])
    (hrec : s.readRecord E w0 = some t) (later : List FzTrigInfo)
    (hothers : ∀ tri ∈ s.ev.trinfo ++ later, tri.id.getD 0 ∉ [0x200, 0x201, 0x202, 0x203])
    (ev : FzEvent) (htrinfo : ev.trinfo.Perm (t.ev.trinfo ++ later))
    (mfmevent : Nat → UInt8) (message : List UInt8) (behind : UInt8)
    (hfits : 24 + message.length + 1 ≤ 0x400000) :
    ofBigEndian (((mfmFrame mfmevent message.length ev message behind).drop 8).take 12) =
        w0.toNat % 64 * 2 ^ 90 + w1.toNat * 2 ^ 75 + w2.toNat * 2 ^ 60 + w3.toNat * 2 ^ 45 +
          w4.toNat * 2 ^ 30 + w5.toNat * 2 ^ 15 + w6.toNat ∧
      ofBigEndian (((mfmFrame mfmevent message.length ev message behind).drop 1).take 3) * 2 =
        (mfmFrame mfmevent message.length ev message behind).length ∧
      (mfmFrame mfmevent message.length ev message behind).length =
        24 + message.length + message.length % 2 ∧
      ofLittleEndian (((mfmFrame mfmevent message.length ev message behind).drop 20).take 4) =
        message.length ∧
      ((mfmFrame mfmevent message.length ev message behind).drop 24).take message.length =
        message := by
  simp only [List.forall_mem_cons] at hword
  obtain ⟨hw0, hw1, hw2, hw3, hw4, hw5, hw6, -⟩ := hword
  obtain ⟨t0, t1, t2, t3, hadded, hid0, hid1, hid2, hid3, hv0, hv1, hv2, hv3⟩ :=
    readRecord_centrum htag hreads hrec
  have hsize : mfmeventsize message.length = 24 + message.length + message.length % 2 := by
    unfold mfmeventsize
    split <;> omega
  have hstamped : Stamped ev.trinfo
      ((w0 &&& 0x003F).toUInt64 + ((w0 &&& 0xF800).toUInt64 <<< 15)).toNat
      (w1.toNat * 2 ^ 15 + w2.toNat) (w3.toNat * 2 ^ 15 + w4.toNat)
      (w5.toNat * 2 ^ 15 + w6.toNat) := by
    refine ⟨t0, t1, t2, t3, s.ev.trinfo ++ later, ?_, hid0, hid1, hid2, hid3, ?_, ?_, ?_, ?_,
      hothers⟩
    · refine htrinfo.trans ?_
      rw [hadded, List.append_assoc]
      exact List.perm_append_comm_assoc ..
    · rw [hv0, Option.getD_some]
    · rw [hv1, Option.getD_some, pair_toNat hw1 hw2]
    · rw [hv2, Option.getD_some, pair_toNat hw3 hw4]
    · rw [hv3, Option.getD_some, pair_toNat hw5 hw6]
  have hpair : ∀ {high low : Word}, high < 0x8000 → low < 0x8000 →
      high.toNat * 2 ^ 15 + low.toNat < 2 ^ 30 := by
    intro high low hhigh hlow
    have hh : high.toNat < 32768 := hhigh
    have hl : low.toNat < 32768 := hlow
    omega
  refine ⟨?_, ?_, ?_, ?_, mfmFrame_data⟩
  · rw [mfmFrame_stamp hstamped (hpair hw1 hw2) (hpair hw3 hw4) (hpair hw5 hw6), centrum0_toNat]
    ring
  · rw [mfmFrame_size (by omega), length_mfmFrame]
    omega
  · rw [length_mfmFrame, hsize]
  · exact mfmFrame_length_field (by omega)

/-- The words of a CENTRUM record in front of the parser. -/
def centrumEnv : Env where
  evformat := .tag
  eventSize := 7
  event k := [0x7FFF, 1, 2, 3, 4, 5, 6][k]?
  pastValue _ := none
  pastSample _ := none
  pastStr _ _ := none
  pastRange _ _ := 0

/-- `mfmFrame_carries` with the trigger infos in the other order. -/
theorem reversed_carries :
    ∃ t, Fsm.readRecord centrumEnv { tag := TAG_RB_CENTRUM } 0x7FFF = some t ∧
      ofBigEndian (((mfmFrame (fun _ => 0xFF) 3 { trinfo := t.ev.trinfo.reverse } [1, 2, 3]
        9).drop 8).take 12) =
        63 * 2 ^ 90 + 1 * 2 ^ 75 + 2 * 2 ^ 60 + 3 * 2 ^ 45 + 4 * 2 ^ 30 + 5 * 2 ^ 15 + 6 := by
  have hsome : (Fsm.readRecord centrumEnv { tag := TAG_RB_CENTRUM } 0x7FFF).isSome := rfl
  obtain ⟨t, ht⟩ := Option.isSome_iff_exists.1 hsome
  have hreads : centrumEnv.Reads 0 [0x7FFF, 1, 2, 3, 4, 5, 6] :=
    ⟨rfl, rfl, rfl, rfl, rfl, rfl, rfl, trivial⟩
  have hcarries := mfmFrame_carries (by simp) rfl hreads ht [] (by simp)
    { trinfo := t.ev.trinfo.reverse } (by rw [List.append_nil]; exact List.reverse_perm _)
    (fun _ => 0xFF) [1, 2, 3] 9 (by decide)
  exact ⟨t, ht, hcarries.1⟩

end FzDaq.Transmitter
