import FzDaq.Parser.Steps

/-!
# Trigger stamps in the two formats

The time tag and the event counter of the trigger are sent as two 15-bit words,
with the bits below them in the hit. `read_triggerinfo` puts them together in 32
bits, the records of the tag format in the 64 bits of the message.
-/

namespace FzDaq.Parser

/-- A trigger stamp that both formats have. -/
inductive Stamp where
  | gttag | ec
  deriving DecidableEq, Repr

namespace Stamp

/-- The trigger info of the basic format. -/
def id : Stamp → Nat
  | .gttag => 0x10D
  | .ec => 0x10E

/-- The record of the tag format. -/
def tag : Stamp → Word
  | .gttag => TAG_RB_GTTAG
  | .ec => TAG_RB_EC

/-- The field of the hit that has the low bits. -/
def field : Stamp → FzHit → UInt32
  | .gttag, hit => hit.gttag.getD 0
  | .ec, hit => hit.ec.getD 0

/-- The width of that field. -/
def bits : Stamp → Nat
  | .gttag => 15
  | .ec => 12

/-- The number that is sent. -/
def number (hi lo low : Nat) : Stamp → Nat
  | .gttag => hi * 2 ^ 30 + lo * 2 ^ 15 + low
  | .ec => hi * 2 ^ 27 + lo * 2 ^ 12 + low

/-- The high words from which on the number does not fit in 32 bits. -/
def limit : Stamp → Nat
  | .gttag => 4
  | .ec => 32

variable {k : Stamp} {hi lo : Word} {low : UInt32}

/-- The stamp in 32 bits. -/
def narrow (hi lo : Word) (low : UInt32) (k : Stamp) : UInt32 :=
  (((UInt32.ofNat hi.toNat <<< 15) + UInt32.ofNat lo.toNat) <<< UInt32.ofNat k.bits) + low

/-- The stamp in 64 bits. -/
def wide (hi lo : Word) (low : UInt32) (k : Stamp) : UInt64 :=
  (((hi.toUInt64 <<< 15) + lo.toUInt64) <<< UInt64.ofNat k.bits) + low.toUInt64

theorem narrow_toNat (hi lo : Word) (low : UInt32) (k : Stamp) :
    (k.narrow hi lo low).toNat = k.number hi.toNat lo.toNat low.toNat % 2 ^ 32 := by
  cases k <;> simp [narrow, number, bits, Nat.shiftLeft_eq] <;> omega

theorem wide_toNat (hlo : lo.toNat < 2 ^ 15) (hlow : low.toNat < 2 ^ k.bits) :
    (k.wide hi lo low).toNat = k.number hi.toNat lo.toNat low.toNat := by
  have hhi := hi.toNat_lt
  cases k <;> simp [wide, number, bits, Nat.shiftLeft_eq] at hlow ⊢ <;> omega

theorem number_mod_iff (k : Stamp) {hi lo low : Nat} (hlo : lo < 2 ^ 15)
    (hlow : low < 2 ^ k.bits) :
    k.number hi lo low % 2 ^ 32 = k.number hi lo low ↔ hi < k.limit := by
  cases k <;> simp only [number, limit, bits] at hlow ⊢ <;> omega

end Stamp

namespace Fsm

variable {E : Env} {s t : Fsm} {k : Stamp} {hi lo : Word} {low : UInt32}

/-- The value of a trigger info of the event. -/
def trinfoValue (s : Fsm) (n : Nat) : Option UInt64 := s.ev.trinfo[n]?.bind FzTrigInfo.value

/-- Each turn of the loop of `read_triggerinfo` leaves its trigger info in its place. -/
theorem triggerInfos_getElem {hit : FzHit} {wf : Waveform} {i left j : Nat} (hj : j < left)
    (h : s.triggerInfos E hit wf i left = some t) :
    ∃ tri, triggerInfo E hit wf (i + 3 * j) = some tri ∧
      t.ev.trinfo[s.ev.trinfo.length + j]? = some tri := by
  induction left generalizing s i j with
  | zero => exact absurd hj (Nat.not_lt_zero j)
  | succ left ih =>
      obtain ⟨tri, htri, h⟩ := Option.bind_eq_some_iff.1 h
      cases j with
      | zero =>
          obtain ⟨ts, -, rfl⟩ := triggerInfos_eq_some h
          exact ⟨tri, htri, by simp [addTrinfos, addTrinfo]⟩
      | succ j =>
          obtain ⟨tri', htri', hget⟩ := ih (Nat.lt_of_succ_lt_succ hj) h
          refine ⟨tri', ?_, ?_⟩
          · rw [← htri']
            congr 1
            omega
          · rw [← hget]
            congr 1
            simp only [addTrinfo, List.length_append, List.length_singleton]
            omega

theorem triggerInfo_stamp {hit : FzHit} {wf : Waveform} {i : Nat}
    (hid : wf.sample[i]? = some k.id) (hhi : wf.sample[i + 1]? = some hi.toNat)
    (hlo : wf.sample[i + 2]? = some lo.toNat) :
    ∃ tri, triggerInfo E hit wf i = some tri ∧
      tri.value = some (k.narrow hi lo (k.field hit)).toUInt64 := by
  have hat {n v : Nat} (h : wf.sample[n]? = some v) : E.sampleAt wf n = some v := by
    rw [Env.sampleAt, h]
  cases k <;>
    · simp only [triggerInfo, hat hid, hat hhi, hat hlo, Option.bind_eq_bind, Option.bind_some]
      exact ⟨_, rfl, rfl⟩

/-- The hit that `read_triggerinfo` takes the low bits from. -/
def firstHit (blk : FzBlock) : FzHit :=
  let fee : FzFee := blk.fee[0]?.getD {}
  fee.hit[0]?.getD {}

/-- The samples that it takes the triples from. -/
def firstSamples (blk : FzBlock) : List Nat :=
  let data : FzData := (firstHit blk).data[0]?.getD {}
  (data.waveform.getD {}).sample

/-- Triple `j` of the trigger block is the stamp. -/
structure InTriple (blk : FzBlock) (j : Nat) (k : Stamp) (hi lo : Word) (low : UInt32) : Prop where
  id : (firstSamples blk)[3 * j]? = some k.id
  first : (firstSamples blk)[3 * j + 1]? = some hi.toNat
  second : (firstSamples blk)[3 * j + 2]? = some lo.toNat
  field : k.field (firstHit blk) = low

/-- The parser is at the payload of a record of the stamp. -/
structure AtRecord (E : Env) (s : Fsm) (k : Stamp) (hi lo : Word) (low : UInt32) : Prop where
  tagDone : s.tagDone = true
  wflenDone : s.wflenDone = true
  tag : s.tag = k.tag
  first : E.event s.eventIndex = some hi
  second : E.event (s.eventIndex + 1) = some lo
  field : k.field (s.ev.getHit s.hit) = low

theorem readTriggerinfo_stamp {blk : FzBlock} {j : Nat} (hbasic : E.evformat = .basic)
    (h : InTriple blk j k hi lo low) (hread : s.readTriggerinfo E blk = some t) :
    t.trinfoValue (s.ev.trinfo.length + j) = some (k.narrow hi lo low).toUInt64 := by
  simp only [readTriggerinfo, hbasic] at hread
  have hlen : 3 * j < (firstSamples blk).length := (List.getElem?_eq_some_iff.1 h.id).1
  have hj : j < ((firstSamples blk).length + 2) / 3 := by omega
  obtain ⟨tri, htri, hget⟩ := triggerInfos_getElem hj hread
  rw [Nat.zero_add] at htri
  obtain ⟨tri', htri', hvalue⟩ := triggerInfo_stamp h.id h.first h.second
  obtain rfl : tri = tri' := Option.some.inj (htri.symm.trans htri')
  rw [trinfoValue, hget, Option.bind_some, hvalue]
  rw [← h.field]
  rfl

theorem readRecord_stamp (hi : Word) (htag : s.tag = k.tag)
    (hlo : E.event (s.eventIndex + 1) = some lo) :
    ∃ tri, tri.value = some (k.wide hi lo (k.field (s.ev.getHit s.hit))) ∧
      s.readRecord E hi = some ((s.movedOver [lo]).addTrinfos [tri]) := by
  have hnext : s.nextEventWord E = some (lo, s.movedOver [lo]) := nextEventWord_eq_some.2 ⟨hlo, rfl⟩
  cases k <;>
    · simp only [readRecord, htag, Stamp.tag, hnext]
      exact ⟨_, rfl, rfl⟩

theorem trans08Tag_stamp (h : AtRecord E s k hi lo low) :
    ∃ t, s.trans08Tag E hi = some t ∧
      t.trinfoValue s.ev.trinfo.length = some (k.wide hi lo low) := by
  have htag : ((s.updateBlk hi).updateFee hi).tag = k.tag := h.tag
  obtain ⟨tri, hvalue, hread⟩ := readRecord_stamp hi htag h.second
  have hwav : ¬k.tag = TAG_WAVEFORM := by cases k <;> decide
  have hafter (ws : List Word) (ts : List FzTrigInfo) :
      ((((s.updateBlk hi).updateFee hi).movedOver ws).addTrinfos ts).tag = k.tag := h.tag
  rw [trans08Tag_eq, h.tagDone, h.wflenDone, hread]
  simp only [Option.bind_eq_bind, Option.bind_some, hafter, if_neg hwav, Bool.not_true,
    Bool.false_eq_true, if_false]
  refine ⟨_, rfl, ?_⟩
  have hget : (s.ev.trinfo ++ [tri])[s.ev.trinfo.length]? = some tri := by simp
  calc
    _ = (s.ev.trinfo ++ [tri])[s.ev.trinfo.length]?.bind FzTrigInfo.value := rfl
    _ = some (k.wide hi lo (k.field (s.ev.getHit s.hit))) := by
      rw [hget, Option.bind_some, hvalue]
      rfl
    _ = some (k.wide hi lo low) := by rw [h.field]

/-- The two formats store the same number for a stamp, the one that is sent, exactly if it
fits in 32 bits. -/
theorem stamp_agree_iff {E' : Env} {u : Fsm} {blk : FzBlock} {j : Nat}
    (hlo : lo.toNat < 2 ^ 15) (hlow : low.toNat < 2 ^ k.bits) (hbasic : E.evformat = .basic)
    (htriple : InTriple blk j k hi lo low) (hread : s.readTriggerinfo E blk = some t)
    (hrecord : AtRecord E' u k hi lo low) :
    ∃ v, u.trans08Tag E' hi = some v ∧
      (t.trinfoValue (s.ev.trinfo.length + j) = v.trinfoValue u.ev.trinfo.length ∧
          (v.trinfoValue u.ev.trinfo.length).map UInt64.toNat =
            some (k.number hi.toNat lo.toNat low.toNat) ↔
        hi.toNat < k.limit) := by
  obtain ⟨v, hv, hwide⟩ := trans08Tag_stamp hrecord
  refine ⟨v, hv, ?_⟩
  have heq : (k.narrow hi lo low).toUInt64 = k.wide hi lo low ↔
      k.number hi.toNat lo.toNat low.toNat % 2 ^ 32 = k.number hi.toNat lo.toNat low.toNat := by
    rw [← UInt64.toNat_inj, UInt32.toNat_toUInt64, Stamp.narrow_toNat, Stamp.wide_toNat hlo hlow]
  rw [readTriggerinfo_stamp hbasic htriple hread, hwide, Option.some.injEq, Option.map_some,
    Stamp.wide_toNat hlo hlow, heq, Stamp.number_mod_iff k hlo hlow]
  exact and_iff_left rfl

/-- A stamp in the trigger block, and as a record in front of the parser. -/
def stampBlock (hi : Word) : FzBlock :=
  { blkid := some 0x7FF
    fee := [{ hit := [{
      gttag := some 5
      data := [{ waveform := some { sample := [0x10D, hi.toNat, 2] } }] }] }] }

def stampWords (fmt : Format) (hi : Word) : Env where
  evformat := fmt
  eventSize := 2
  event n := [hi, 2][n]?
  pastValue _ := none
  pastSample _ := none
  pastStr _ _ := none
  pastRange _ _ := 0

def atStamp (hi : Word) : Fsm :=
  { tag := TAG_RB_GTTAG, tagDone := true, wflenDone := true, ev := { block := [stampBlock hi] } }

theorem stampBlock_inTriple (hi : Word) : InTriple (stampBlock hi) 0 .gttag hi 2 5 :=
  ⟨rfl, rfl, rfl, rfl⟩

theorem atStamp_atRecord (hi : Word) : AtRecord (stampWords .tag hi) (atStamp hi) .gttag hi 2 5 :=
  ⟨rfl, rfl, rfl, rfl, rfl, rfl⟩

/-- `stamp_agree_iff` at the highest time tag below the limit. -/
theorem stamp_agree_three : ∃ t, (atStamp 3).readTriggerinfo (stampWords .basic 3) (stampBlock 3) =
      some t ∧ ∃ v, (atStamp 3).trans08Tag (stampWords .tag 3) 3 = some v ∧
      t.trinfoValue 0 = v.trinfoValue 0 ∧
      (v.trinfoValue 0).map UInt64.toNat = some (Stamp.gttag.number 3 2 5) := by
  obtain ⟨t, ht⟩ : ∃ t, (atStamp 3).readTriggerinfo (stampWords .basic 3) (stampBlock 3) = some t :=
    ⟨_, rfl⟩
  obtain ⟨v, hv, hiff⟩ := stamp_agree_iff (E := stampWords .basic 3) (s := atStamp 3) (by decide)
    (by decide) rfl (stampBlock_inTriple 3) ht (atStamp_atRecord 3)
  exact ⟨t, ht, v, hv, hiff.2 (by decide)⟩

/-- From 4 on the basic format loses the bits above. -/
theorem stamp_lost : ∃ t v,
    (atStamp 4).readTriggerinfo (stampWords .basic 4) (stampBlock 4) = some t ∧
      (atStamp 4).trans08Tag (stampWords .tag 4) 4 = some v ∧
      t.trinfoValue 0 = some 65541 ∧ v.trinfoValue 0 = some 4295032837 ∧
      Stamp.gttag.number 4 2 5 = 4295032837 :=
  ⟨_, _, rfl, rfl, by decide, by decide, rfl⟩

end Fsm

end FzDaq.Parser
