import FzDaq.Parser.Gather

/-!
# The records of the tag format

What one record of a section does: the words it consumes and the part of the
event it writes. `readRecord_cases` is the inversion lemma of `readRecord`; the
proofs about runs use it and do not unfold the transition.
-/

namespace FzDaq.Parser

namespace Fsm

variable {E : Env} {s t : Fsm} {w : Word}

/-! ## Waveforms -/

/-- The turn of the gathering loop that stores `w` and moves on to `x`. -/
def tagTurn (s : Fsm) (w x : Word) : Fsm :=
  { s.addSample w with saveBlkcrc := s.blkcrc, saveFeecrc := s.feecrc }.movedOver [x]

theorem gatherTag_succ (n : Nat) :
    s.gatherTag E (n + 1) =
      (E.event s.eventIndex).bind fun w =>
        (E.event (s.eventIndex + 1)).bind fun x => (s.tagTurn w x).gatherTag E n := by
  rw [gatherTag]
  cases E.event s.eventIndex with
  | none => rfl
  | some w =>
      simp only [nextEventWord, Option.bind_eq_bind, Option.bind_some]
      have hidx : (s.addSample w).eventIndex = s.eventIndex := rfl
      rw [hidx]
      cases E.event (s.eventIndex + 1) <;> rfl

/-- The object after the loop has stored `w :: ws` and moved on to `stop`. -/
def tagGathered (s : Fsm) (w : Word) (ws : List Word) (stop : Word) : Fsm :=
  { s with
    ev := (s.addSamples (w :: ws)).ev
    eventIndex := s.eventIndex + (ws.length + 1)
    blklen := s.blklen + (ws.length + 1)
    feelen := s.feelen + (ws.length + 1)
    blkcrc := xorAll s.blkcrc (ws ++ [stop])
    feecrc := xorAll s.feecrc (ws ++ [stop])
    saveBlkcrc := xorAll s.blkcrc ws
    saveFeecrc := xorAll s.feecrc ws }

theorem tagGathered_nil (w stop : Word) : s.tagGathered w [] stop = s.tagTurn w stop := rfl

theorem tagGathered_cons (w x stop : Word) (ws : List Word) :
    s.tagGathered w (x :: ws) stop = (s.tagTurn w x).tagGathered x ws stop := by
  have hev : ((s.tagTurn w x).addSamples (x :: ws)).ev = (s.addSamples (w :: x :: ws)).ev := by
    rw [← addSample_addSamples s w]
    rfl
  unfold tagGathered
  rw [hev]
  simp only [tagTurn, movedOver, addSample, onWf, xorAll_cons, xorAll_nil, List.cons_append,
    List.length_cons, List.length_nil, Nat.add_assoc, Nat.add_comm 1, Nat.zero_add]

theorem gatherTag_succ_eq_some {n : Nat} :
    s.gatherTag E (n + 1) = some t ↔
      ∃ w ws stop, ws.length = n ∧ E.Reads s.eventIndex (w :: (ws ++ [stop])) ∧
        t = s.tagGathered w ws stop := by
  induction n generalizing s with
  | zero =>
      rw [gatherTag_succ]
      constructor
      · intro h
        simp only [Option.bind_eq_some_iff, gatherTag, Option.some.injEq] at h
        obtain ⟨w, hw, x, hx, rfl⟩ := h
        exact ⟨w, [], x, rfl, by simp [hw, hx], rfl⟩
      · rintro ⟨w, ws, stop, hlen, ⟨hw, hreads⟩, rfl⟩
        obtain rfl := List.eq_nil_of_length_eq_zero hlen
        simp only [List.nil_append, Env.reads_cons] at hreads
        simp [hw, hreads.1, gatherTag, tagGathered_nil]
  | succ n ih =>
      rw [gatherTag_succ]
      constructor
      · intro h
        simp only [Option.bind_eq_some_iff, ih] at h
        obtain ⟨w, hw, x, hx, y, ws, stop, hlen, hreads, rfl⟩ := h
        have hy : E.event (s.eventIndex + 1) = some y := hreads.1
        rw [hx] at hy
        cases hy
        exact ⟨w, x :: ws, stop, by simp [hlen], ⟨hw, hreads⟩, (tagGathered_cons ..).symm⟩
      · rintro ⟨w, ws, stop, hlen, ⟨hw, hreads⟩, rfl⟩
        cases ws with
        | nil => simp at hlen
        | cons x ws =>
            have hx : E.event (s.eventIndex + 1) = some x := hreads.1
            simp only [hw, hx, Option.bind_some, ih]
            exact ⟨x, ws, stop, by simpa using hlen, hreads, tagGathered_cons ..⟩

/-- A waveform record without samples: the step back undoes the word just counted. -/
theorem readRecord_waveform_zero (htag : s.tag = TAG_WAVEFORM) (hlen : s.rdWflen = 0) :
    s.readRecord E w = some s.stepBack.restoreCrc := by
  have h0 : s.rdWflen.toNat = 0 := by simp [hlen]
  simp [readRecord, htag, h0, gatherTag, TAG_WAVEFORM, TAG_PRETRIGGER]

/-- The object after a waveform record with samples `w :: ws`. -/
def waveformRead (s : Fsm) (w : Word) (ws : List Word) : Fsm :=
  { s.movedOver ws with
    ev := (s.addSamples (w :: ws)).ev
    saveBlkcrc := xorAll s.blkcrc ws
    saveFeecrc := xorAll s.feecrc ws }

theorem tagGathered_stepBack (w stop : Word) (ws : List Word) :
    (s.tagGathered w ws stop).stepBack.restoreCrc = s.waveformRead w ws := by
  simp only [tagGathered, stepBack, restoreCrc, waveformRead, movedOver]
  congr 2

theorem readRecord_waveform_succ {n : Nat} (htag : s.tag = TAG_WAVEFORM)
    (hlen : s.rdWflen.toNat = n + 1) (hw : E.event s.eventIndex = some w) :
    s.readRecord E w = some t ↔
      ∃ ws stop, ws.length = n ∧ E.Reads (s.eventIndex + 1) (ws ++ [stop]) ∧
        t = s.waveformRead w ws := by
  have hrec : s.readRecord E w = (s.gatherTag E (n + 1)).map (·.stepBack.restoreCrc) := by
    rw [readRecord, if_neg (by rw [htag]; decide), if_pos htag, hlen, Option.map_eq_bind]
    rfl
  rw [hrec]
  simp only [Option.map_eq_some_iff, gatherTag_succ_eq_some]
  constructor
  · rintro ⟨u, ⟨x, ws, stop, hlen, ⟨hx, hreads⟩, rfl⟩, rfl⟩
    rw [hw] at hx
    cases hx
    exact ⟨ws, stop, hlen, hreads, tagGathered_stepBack w stop ws⟩
  · rintro ⟨ws, stop, hlen, hreads, rfl⟩
    exact ⟨_, ⟨w, ws, stop, hlen, ⟨hw, hreads⟩, rfl⟩, tagGathered_stepBack w stop ws⟩

/-! ## Energies and trigger infos -/

theorem onEn_onEn (s : Fsm) (f g : Energy → Energy) : (s.onEn f).onEn g = s.onEn (g ∘ f) := by
  simp only [onEn, FzEvent.modData_modData]
  congr 2
  funext d
  simp only [Function.comp, Option.map_map]

theorem onEn_movedOver (s : Fsm) (f : Energy → Energy) (ws : List Word) :
    (s.onEn f).movedOver ws = (s.movedOver ws).onEn f := rfl

theorem modValue_eq_some {k : Nat} {f : UInt32 → UInt32} (h : s.modValue E k f = some t) :
    ∃ v, t = s.onEn fun en => { en with value := en.value.set k v } := by
  cases hv : E.valueAt s.curEnergy k with
  | none => simp [modValue, hv] at h
  | some v =>
      simp only [modValue, hv, Option.bind_eq_bind, Option.bind_some, Option.some.injEq] at h
      exact ⟨f v, h.symm⟩

def addTrinfos (s : Fsm) (ts : List FzTrigInfo) : Fsm :=
  { s with ev := { s.ev with trinfo := s.ev.trinfo ++ ts } }

@[simp] theorem addTrinfos_nil (s : Fsm) : s.addTrinfos [] = s := by simp [addTrinfos]

theorem addTrinfo_eq (s : Fsm) (tri : FzTrigInfo) : s.addTrinfo tri = s.addTrinfos [tri] := rfl

theorem addTrinfos_addTrinfos (s : Fsm) (us vs : List FzTrigInfo) :
    (s.addTrinfos us).addTrinfos vs = s.addTrinfos (us ++ vs) := by
  simp [addTrinfos, List.append_assoc]

theorem addTrinfos_movedOver (s : Fsm) (ts : List FzTrigInfo) (ws : List Word) :
    (s.addTrinfos ts).movedOver ws = (s.movedOver ws).addTrinfos ts := rfl

theorem addTagInfo_eq_some {id : UInt32} {tb : Table} {k : Nat} {v : UInt64}
    (h : s.addTagInfo E id tb k v = some t) :
    ∃ tri : FzTrigInfo, tri.isInitialized = true ∧ t = s.addTrinfos [tri] := by
  cases ha : E.str tb k with
  | none => simp [addTagInfo, ha] at h
  | some attr =>
      simp only [addTagInfo, ha, Option.bind_eq_bind, Option.bind_some, Option.some.injEq] at h
      exact ⟨_, rfl, h.symm⟩

theorem readCounters_eq_some {i left : Nat} (h : s.readCounters E i left = some t) :
    ∃ ws ts, ws.length = left - 1 ∧ E.Reads (s.eventIndex + 1) ws ∧
      (∀ tri ∈ ts, FzTrigInfo.isInitialized tri = true) ∧
      t = (s.movedOver ws).addTrinfos ts := by
  induction left generalizing s i with
  | zero =>
      simp only [readCounters, Option.some.injEq] at h
      exact ⟨[], [], rfl, trivial, by simp, by simp [h]⟩
  | succ left ih =>
      simp only [readCounters, Option.bind_eq_bind, Option.bind_eq_some_iff] at h
      obtain ⟨attr, _, w, _, h⟩ := h
      rw [addTrinfo_eq] at h
      split at h
      · rename_i hleft
        cases h
        refine ⟨[], [_], by simp [hleft], trivial, ?_, by rw [movedOver_nil]⟩
        simp [FzTrigInfo.isInitialized]
      · rename_i hleft
        rw [Option.bind_eq_some_iff] at h
        obtain ⟨⟨x, u⟩, hu, h⟩ := h
        rw [nextEventWord_eq_some] at hu
        obtain ⟨hx, rfl⟩ := hu
        obtain ⟨ws, ts, hlen, hreads, hts, rfl⟩ := ih h
        refine ⟨x :: ws, ⟨some (0x100 + UInt32.ofNat i), some attr, some w.toUInt64⟩ :: ts,
          by simp [hlen]; omega, ⟨hx, hreads⟩, ?_, ?_⟩
        · exact List.forall_mem_cons.2 ⟨rfl, hts⟩
        · simp only [addTrinfos_movedOver, movedOver_movedOver, addTrinfos_addTrinfos]
          rfl

/-! ## Inversion of `readRecord` -/

/-- The energy words of TAG_SLOW, for which `k` is 0, and TAG_FAST, for which it is 1. -/
def readEnergy (E : Env) (s : Fsm) (w : Word) (k : Nat) : Option Fsm := do
  let (high, s) ← s.nextEventWord E
  let s := s.addValue high.toUInt32
  let (low, s) ← s.nextEventWord E
  let s ← s.modValue E k fun v => (v <<< 15) + low.toUInt32
  s.modValue E k fun v => E.scaleEnergy v w

theorem readRecord_slow (htag : s.tag = TAG_SLOW) : s.readRecord E w = s.readEnergy E w 0 := by
  rw [readRecord, if_neg (by rw [htag]; decide), if_neg (by rw [htag]; decide), if_pos htag]
  rfl

theorem readRecord_fast (htag : s.tag = TAG_FAST) : s.readRecord E w = s.readEnergy E w 1 := by
  rw [readRecord, if_neg (by rw [htag]; decide), if_neg (by rw [htag]; decide),
    if_neg (by rw [htag]; decide), if_pos htag]
  rfl

/-- The words of TAG_RB_CENTRUM: a trigger info from the first, then three from a pair each. -/
def readCentrum (E : Env) (s : Fsm) (v : UInt64) : Option Fsm := do
  let s ← s.addTagInfo E 0x200 .centrumInfo 0 v
  let (w1, s) ← s.nextEventWord E
  let (w2, s) ← s.nextEventWord E
  let s ← s.addTagInfo E 0x201 .centrumInfo 1 ((w1.toUInt64 <<< 15) + w2.toUInt64)
  let (w3, s) ← s.nextEventWord E
  let (w4, s) ← s.nextEventWord E
  let s ← s.addTagInfo E 0x202 .centrumInfo 2 ((w3.toUInt64 <<< 15) + w4.toUInt64)
  let (w5, s) ← s.nextEventWord E
  let (w6, s) ← s.nextEventWord E
  s.addTagInfo E 0x203 .centrumInfo 3 ((w5.toUInt64 <<< 15) + w6.toUInt64)

/-- Value `k` is read twice and written twice. -/
theorem readEnergy_eq_some {k : Nat}
    (h : s.readEnergy E w k = some t) :
    ∃ ws f, ws.length = 2 ∧ E.Reads (s.eventIndex + 1) ws ∧
      (∀ en : Energy, (f en).lenError = en.lenError ∧
        (f en).value.length = en.value.length + 1) ∧ t = (s.movedOver ws).onEn f := by
  simp only [readEnergy, Option.bind_eq_bind, Option.bind_eq_some_iff] at h
  obtain ⟨⟨high, s₁⟩, h₁, ⟨low, s₂⟩, h₂, s₃, h₃, h₄⟩ := h
  rw [nextEventWord_eq_some] at h₁ h₂
  obtain ⟨hhigh, rfl⟩ := h₁
  obtain ⟨hlow, rfl⟩ := h₂
  obtain ⟨v₁, rfl⟩ := modValue_eq_some h₃
  obtain ⟨v₂, rfl⟩ := modValue_eq_some h₄
  refine ⟨[high, low],
    fun en => { en with value := ((en.value ++ [high.toUInt32]).set k v₁).set k v₂ },
    rfl, ⟨hhigh, hlow, trivial⟩, fun _ => ⟨rfl, by simp⟩, ?_⟩
  simp only [addValue, onEn_movedOver, movedOver_movedOver, onEn_onEn]
  rfl

/-- A record that adds one trigger info from its own word and the next. -/
def readPair (E : Env) (s : Fsm) (id : UInt32) (k : Nat) (value : Word → FzHit → UInt64) :
    Option Fsm := do
  let (low, s) ← s.nextEventWord E
  s.addTagInfo E id .triggerInfoBasic k (value low (s.ev.getHit s.hit))

theorem readPair_eq_some {id : UInt32} {k : Nat} {value : Word → FzHit → UInt64}
    (h : s.readPair E id k value = some t) :
    ∃ ws ts, ws.length = 1 ∧ E.Reads (s.eventIndex + 1) ws ∧
      (∀ tri ∈ ts, FzTrigInfo.isInitialized tri = true) ∧
      t = (s.movedOver ws).addTrinfos ts := by
  obtain ⟨⟨low, u⟩, hnext, h⟩ := Option.bind_eq_some_iff.1 h
  obtain ⟨hlow, rfl⟩ := nextEventWord_eq_some.1 hnext
  obtain ⟨tri, htri, rfl⟩ := addTagInfo_eq_some h
  exact ⟨[low], [tri], rfl, ⟨hlow, trivial⟩, by simpa using htri, rfl⟩

theorem readSingle_eq_some {id : UInt32} {k : Nat} {v : UInt64}
    (h : s.addTagInfo E id .triggerInfoBasic k v = some t) :
    ∃ ws ts, ws.length = 0 ∧ E.Reads (s.eventIndex + 1) ws ∧
      (∀ tri ∈ ts, FzTrigInfo.isInitialized tri = true) ∧
      t = (s.movedOver ws).addTrinfos ts := by
  obtain ⟨tri, htri, rfl⟩ := addTagInfo_eq_some h
  exact ⟨[], [tri], rfl, trivial, by simpa using htri, rfl⟩

theorem readCentrum_eq_some {v : UInt64} (h : s.readCentrum E v = some t) :
    ∃ ws ts, ws.length = 6 ∧ E.Reads (s.eventIndex + 1) ws ∧
      (∀ tri ∈ ts, FzTrigInfo.isInitialized tri = true) ∧
      t = (s.movedOver ws).addTrinfos ts := by
  simp only [readCentrum, Option.bind_eq_bind, Option.bind_eq_some_iff] at h
  obtain ⟨s₀, h₀, ⟨w1, s₁⟩, h₁, ⟨w2, s₂⟩, h₂, s₃, h₃, ⟨w3, s₄⟩, h₄, ⟨w4, s₅⟩, h₅, s₆, h₆,
    ⟨w5, s₇⟩, h₇, ⟨w6, s₈⟩, h₈, h₉⟩ := h
  obtain ⟨t0, ht0, rfl⟩ := addTagInfo_eq_some h₀
  obtain ⟨hw1, rfl⟩ := nextEventWord_eq_some.1 h₁
  obtain ⟨hw2, rfl⟩ := nextEventWord_eq_some.1 h₂
  obtain ⟨t1, ht1, rfl⟩ := addTagInfo_eq_some h₃
  obtain ⟨hw3, rfl⟩ := nextEventWord_eq_some.1 h₄
  obtain ⟨hw4, rfl⟩ := nextEventWord_eq_some.1 h₅
  obtain ⟨t2, ht2, rfl⟩ := addTagInfo_eq_some h₆
  obtain ⟨hw5, rfl⟩ := nextEventWord_eq_some.1 h₇
  obtain ⟨hw6, rfl⟩ := nextEventWord_eq_some.1 h₈
  obtain ⟨t3, ht3, rfl⟩ := addTagInfo_eq_some h₉
  refine ⟨[w1, w2, w3, w4, w5, w6], [t0, t1, t2, t3], rfl, ⟨hw1, hw2, hw3, hw4, hw5, hw6, trivial⟩,
    by simp [ht0, ht1, ht2, ht3], ?_⟩
  simp only [addTrinfos_movedOver, movedOver_movedOver, addTrinfos_addTrinfos]
  rfl

/-- The words of a record behind the first one of its payload. In a waveform
record this counts the word behind the samples, which is read as well. -/
def recordExtra (tag len : Word) : Nat :=
  if tag = TAG_WAVEFORM then len.toNat
  else if tag = TAG_SLOW ∨ tag = TAG_FAST then 2
  else if tag = TAG_BASELINE then 1
  else if tag = TAG_RB_COUNTERS then len.toNat - 1
  else if tag = TAG_RB_TIME ∨ tag = TAG_RB_GTTAG ∨ tag = TAG_RB_EC then 1
  else if tag = TAG_RB_CENTRUM then 6
  else 0

end Fsm

/-! ## Payloads -/

/-- The ways in which the payload of a record is read. -/
inductive Payload where
  | pretrig
  | waveform
  | energy (k : Nat)
  | baseline
  | counters
  | pair (id : UInt32) (k : Nat) (value : Word → Word → FzHit → UInt64)
  | single (id : UInt32) (k : Nat)
  | centrum
  | unknown

namespace Payload

/-- The branch of `readRecord` that a tag takes. -/
def ofTag (tag : Word) : Payload :=
  if tag = TAG_PRETRIGGER then .pretrig
  else if tag = TAG_WAVEFORM then .waveform
  else if tag = TAG_SLOW then .energy 0
  else if tag = TAG_FAST then .energy 1
  else if tag = TAG_BASELINE then .baseline
  else if tag = TAG_RB_COUNTERS then .counters
  else if tag = TAG_RB_TIME then
    .pair 0x10C 0xC fun w low _ => ((w.toUInt64 <<< 15) + low.toUInt64) * 4 / 150
  else if tag = TAG_RB_GTTAG then
    .pair 0x10D 0xD fun w low hit =>
      (((w.toUInt64 <<< 15) + low.toUInt64) <<< 15) + (hit.gttag.getD 0).toUInt64
  else if tag = TAG_RB_EC then
    .pair 0x10E 0xE fun w low hit =>
      (((w.toUInt64 <<< 15) + low.toUInt64) <<< 12) + (hit.ec.getD 0).toUInt64
  else if tag = TAG_RB_TRIGPAT then .single 0x10F 0xF
  else if tag = TAG_RB_TEMP then .single 0x110 0x10
  else if tag = TAG_RB_CENTRUM then .centrum
  else .unknown

def read (E : Env) (s : Fsm) (w : Word) : Payload → Option Fsm
  | .pretrig => some (s.onWf fun wf => { wf with pretrig := some w.toUInt32 })
  | .waveform => do
      let s ← s.gatherTag E s.rdWflen.toNat
      some s.stepBack.restoreCrc
  | .energy k => s.readEnergy E w k
  | .baseline => do
      let (second, s) ← s.nextEventWord E
      some { s with ev := s.ev.modData s.d fun d =>
        { d with baseline := some (baselineOf w second) } }
  | .counters => s.readCounters E 0 s.rdWflen.toNat
  | .pair id k value => s.readPair E id k (value w)
  | .single id k => s.addTagInfo E id .triggerInfoBasic k w.toUInt64
  | .centrum => s.readCentrum E ((w &&& 0x003F).toUInt64 + ((w &&& 0xF800).toUInt64 <<< 15))
  | .unknown => some s

/-- The words that are read behind the first one of the payload. -/
def extra (len : Word) : Payload → Nat
  | .waveform => len.toNat
  | .energy _ => 2
  | .baseline | .pair .. => 1
  | .counters => len.toNat - 1
  | .centrum => 6
  | .pretrig | .single .. | .unknown => 0

/-- The tags that lead to a payload. -/
def Tagged (tag : Word) : Payload → Prop
  | .pretrig => tag = TAG_PRETRIGGER
  | .waveform => tag = TAG_WAVEFORM
  | .energy _ => tag = TAG_SLOW ∨ tag = TAG_FAST
  | .baseline => tag = TAG_BASELINE
  | _ => tag ∉ [TAG_PRETRIGGER, TAG_WAVEFORM, TAG_SLOW, TAG_FAST, TAG_BASELINE]

/-- The tags that have a branch of their own. -/
def tags : List Word :=
  [TAG_PRETRIGGER, TAG_WAVEFORM, TAG_SLOW, TAG_FAST, TAG_BASELINE, TAG_RB_COUNTERS, TAG_RB_TIME,
    TAG_RB_GTTAG, TAG_RB_EC, TAG_RB_TRIGPAT, TAG_RB_TEMP, TAG_RB_CENTRUM]

theorem ofTag_of_not_mem {tag : Word} (h : tag ∉ tags) : ofTag tag = .unknown := by
  simp only [tags, List.mem_cons, List.not_mem_nil, or_false, not_or] at h
  simp only [ofTag, h, if_false]

theorem ofTag_tagged (tag : Word) : (ofTag tag).Tagged tag := by
  by_cases h : tag ∈ tags
  · unfold tags at h
    fin_cases h <;> first
      | exact rfl
      | exact .inl rfl
      | exact .inr rfl
      | (change _ ∉ _; decide)
  · rw [ofTag_of_not_mem h]
    simp only [tags, List.mem_cons, List.not_mem_nil, or_false, not_or] at h
    simp [Tagged, h]

end Payload

namespace Fsm

variable {E : Env} {s t : Fsm} {w : Word}

theorem readRecord_eq (s : Fsm) (w : Word) :
    s.readRecord E w = (Payload.ofTag s.tag).read E s w := by
  simp only [readRecord, Payload.ofTag, apply_ite (Payload.read E s w)]
  rfl

theorem recordExtra_eq (tag len : Word) : recordExtra tag len = (Payload.ofTag tag).extra len := by
  by_cases h : tag ∈ Payload.tags
  · unfold Payload.tags at h
    fin_cases h <;> rfl
  · rw [Payload.ofTag_of_not_mem h]
    simp only [Payload.tags, List.mem_cons, List.not_mem_nil, or_false, not_or] at h
    simp [recordExtra, Payload.extra, h]

theorem readWaveform_cases (hwav : s.tag = TAG_WAVEFORM) (hw : E.event s.eventIndex = some w)
    (h : s.readRecord E w = some t) :
    (s.rdWflen = 0 ∧ t = s.stepBack.restoreCrc) ∨
      ∃ ws stop, ws.length + 1 = s.rdWflen.toNat ∧ E.Reads (s.eventIndex + 1) (ws ++ [stop]) ∧
        t = s.waveformRead w ws := by
  cases hlen : s.rdWflen.toNat with
  | zero =>
      have hzero : s.rdWflen = 0 := UInt16.toNat_inj.1 hlen
      rw [readRecord_waveform_zero hwav hzero, Option.some.injEq] at h
      exact .inl ⟨hzero, h.symm⟩
  | succ n =>
      obtain ⟨ws, stop, rfl, hreads, rfl⟩ := (readRecord_waveform_succ hwav hlen hw).1 h
      exact .inr ⟨ws, stop, rfl, hreads, rfl⟩

/-- Everything the payload of a record can do, by its tag. -/
theorem readRecord_cases (hw : E.event s.eventIndex = some w)
    (h : s.readRecord E w = some t) :
    (s.tag = TAG_PRETRIGGER ∧ t = s.onWf fun wf => { wf with pretrig := some w.toUInt32 }) ∨
    (s.tag = TAG_WAVEFORM ∧ s.rdWflen = 0 ∧ t = s.stepBack.restoreCrc) ∨
    (s.tag = TAG_WAVEFORM ∧ ∃ ws stop, ws.length + 1 = s.rdWflen.toNat ∧
      E.Reads (s.eventIndex + 1) (ws ++ [stop]) ∧ t = s.waveformRead w ws) ∨
    ((s.tag = TAG_SLOW ∨ s.tag = TAG_FAST) ∧ ∃ ws f, ws.length = 2 ∧
      E.Reads (s.eventIndex + 1) ws ∧ (∀ en : Energy, (f en).lenError = en.lenError ∧
        (f en).value.length = en.value.length + 1) ∧ t = (s.movedOver ws).onEn f) ∨
    (s.tag = TAG_BASELINE ∧ ∃ x b, E.event (s.eventIndex + 1) = some x ∧
      t = { s.movedOver [x] with
        ev := s.ev.modData s.d fun d => { d with baseline := some b } }) ∨
    (s.tag ∉ [TAG_PRETRIGGER, TAG_WAVEFORM, TAG_SLOW, TAG_FAST, TAG_BASELINE] ∧ ∃ ws ts,
      ws.length = recordExtra s.tag s.rdWflen ∧ E.Reads (s.eventIndex + 1) ws ∧
      (∀ tri ∈ ts, FzTrigInfo.isInitialized tri = true) ∧
      t = (s.movedOver ws).addTrinfos ts) := by
  have htag := Payload.ofTag_tagged s.tag
  have hread := h
  rw [readRecord_eq] at hread
  rw [recordExtra_eq]
  -- one case for each branch of `readRecord`
  cases hp : Payload.ofTag s.tag with rw [hp] at htag hread
  | pretrig => exact .inl ⟨htag, (Option.some.inj hread).symm⟩
  | waveform =>
      rcases readWaveform_cases htag hw h with hzero | hsucc
      · exact .inr (.inl ⟨htag, hzero⟩)
      · exact .inr (.inr (.inl ⟨htag, hsucc⟩))
  | energy k => exact .inr (.inr (.inr (.inl ⟨htag, readEnergy_eq_some hread⟩)))
  | baseline =>
      obtain ⟨⟨x, u⟩, hnext, hset⟩ := Option.bind_eq_some_iff.1 hread
      obtain ⟨hx, rfl⟩ := nextEventWord_eq_some.1 hnext
      cases hset
      exact .inr (.inr (.inr (.inr (.inl ⟨htag, x, _, hx, rfl⟩))))
  | counters => exact .inr (.inr (.inr (.inr (.inr ⟨htag, readCounters_eq_some hread⟩))))
  | pair id k value => exact .inr (.inr (.inr (.inr (.inr ⟨htag, readPair_eq_some hread⟩))))
  | single id k => exact .inr (.inr (.inr (.inr (.inr ⟨htag, readSingle_eq_some hread⟩))))
  | centrum => exact .inr (.inr (.inr (.inr (.inr ⟨htag, readCentrum_eq_some hread⟩))))
  | unknown =>
      cases hread
      exact .inr (.inr (.inr (.inr (.inr ⟨htag, [], [], rfl, trivial, by simp, by simp⟩))))

end Fsm

end FzDaq.Parser
