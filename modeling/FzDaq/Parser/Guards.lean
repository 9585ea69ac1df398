import FzDaq.Machine.Guard
import FzDaq.Parser.Memory

/-!
# Accesses that fault behind the ends

Two variants of an environment, for the two kinds of arrays that are indexed without a
check: in `guardFields` an index into a repeated field that is not below its size faults, in
`guardNames` one into a name table. The words are the same, and so is every turn in which
no such index occurs.
-/

namespace FzDaq.Parser

open Machine

namespace Env

/-- `value(k)` and `sample(k)` fault unless `k` is below the size of the field. -/
def guardFields (E : Env) : Env :=
  { E with pastValue := fun _ => none, pastSample := fun _ => none }

/-- A name table faults unless the index is below its size. -/
def guardNames (E : Env) : Env := { E with pastStr := fun _ _ => none }

variable {E : Env}

theorem valueAt_guardFields (en : Energy) (k : Nat) :
    E.guardFields.valueAt en k = en.value[k]? := by
  unfold valueAt
  cases en.value[k]? <;> rfl

theorem sampleAt_guardFields (wf : Waveform) (k : Nat) :
    E.guardFields.sampleAt wf k = wf.sample[k]? := by
  unfold sampleAt
  cases wf.sample[k]? <;> rfl

theorem str_guardNames (t : Table) (k : Nat) : E.guardNames.str t k = t.entries[k]? := by
  unfold str
  cases t.entries[k]? <;> rfl

end Env

namespace Fsm

variable {E E' : Env} {s t c : Fsm} {w : Word} {tr : Trans} {ch : Chunk}

/-! ## The same words -/

theorem gatherData_congr (h : E'.event = E.event) (n : Nat) (s : Fsm) :
    s.gatherData E' n = s.gatherData E n := by
  induction n generalizing s with
  | zero => rfl
  | succ n ih => simp only [gatherData, h, ih]

theorem gatherCount_congr (h : E'.event = E.event) (n : Nat) (s : Fsm) :
    s.gatherCount E' n = s.gatherCount E n := by
  induction n generalizing s with
  | zero => rfl
  | succ n ih => simp only [gatherCount, h, ih]

theorem nextEventWord_congr (h : E'.event = E.event) (s : Fsm) :
    s.nextEventWord E' = s.nextEventWord E := by
  unfold nextEventWord
  rw [h]

theorem gatherTag_congr (h : E'.event = E.event) (n : Nat) (s : Fsm) :
    s.gatherTag E' n = s.gatherTag E n := by
  induction n generalizing s with
  | zero => rfl
  | succ n ih => simp only [gatherTag, h, nextEventWord_congr h, ih]

theorem waveformByData_congr (h : E'.event = E.event) (hsize : E'.eventSize = E.eventSize)
    (s : Fsm) (w : Word) : s.waveformByData E' w = s.waveformByData E w := by
  simp only [waveformByData, gatherData_congr h, hsize]

theorem waveformByCount_congr (h : E'.event = E.event) (s : Fsm) (w : Word) :
    s.waveformByCount E' w = s.waveformByCount E w := by
  simp only [waveformByCount, readSineCosine, gatherCount_congr h, h]

theorem readCounters_congr (h : E'.event = E.event) (hstr : E'.pastStr = E.pastStr) (i n : Nat)
    (s : Fsm) : s.readCounters E' i n = s.readCounters E i n := by
  have hname (t : Table) (k : Nat) : E'.str t k = E.str t k := by
    unfold Env.str
    rw [hstr]
  induction n generalizing s i with
  | zero => rfl
  | succ n ih => simp only [readCounters, h, hname, nextEventWord_congr h, ih]

/-- The hit of a block of trigger infos from which their tags are taken. -/
def triggerHit (blk : FzBlock) : FzHit :=
  let fee : FzFee := blk.fee[0]?.getD ({} : FzFee)
  fee.hit[0]?.getD ({} : FzHit)

theorem endTriggerBlk_eq (hf : E.evformat = .basic) (s : Fsm) :
    s.endTriggerBlk E =
      (if 0 < (s.ev.getBlk s.blk).fee.length then
        s.triggerInfos E (triggerHit (s.ev.getBlk s.blk)) (triggerWaveform (s.ev.getBlk s.blk)) 0
          (((triggerWaveform (s.ev.getBlk s.blk)).sample.length + 2) / 3)
      else some s).map fun u => { u with ev := { u.ev with block := u.ev.block.dropLast } } := by
  unfold endTriggerBlk readTriggerinfo
  simp only [hf]
  rw [Option.map_eq_bind]
  rfl

theorem triggerWaveform_of_fee {blk : FzBlock} (h : ¬ 0 < blk.fee.length) :
    (triggerWaveform blk).sample = [] := by
  have hnil : blk.fee = [] := List.eq_nil_of_length_eq_zero (Nat.eq_zero_of_not_pos h)
  rw [triggerWaveform, hnil]
  rfl

/-! ## Turns -/

theorem turn_of_skips (h : c.Skips E) : c.turn E = some c.advance := by
  obtain ⟨w, hw, hempty⟩ := h
  rw [turn, hw]
  exact if_pos hempty

theorem turn_of_takes (h : c.Takes E w tr) : c.turn E = (c.fire E tr w).map advance := by
  obtain ⟨hw, hempty, rfl⟩ := h
  rw [turn, hw]
  exact if_neg hempty

theorem skips_or_takes (hE : E.Carries ch) (hidx : c.eventIndex < E.eventSize) :
    c.Skips E ∨ ∃ w tr, c.Takes E w tr := by
  have hlen : c.eventIndex < ch.words.length := hE.size ▸ hidx
  obtain ⟨w, hw⟩ : ∃ w, E.event c.eventIndex = some w :=
    ⟨_, (hE.word _ hidx).trans (List.getElem?_eq_getElem hlen)⟩
  by_cases hempty : getwordId w = .empty
  · exact .inl ⟨w, hw, hempty⟩
  · exact .inr ⟨w, _, hw, hempty, rfl⟩

theorem turn_total (hE : E.Carries ch) (hp : E.PastTotal) (hmem : ∀ k, (E.event k).isSome)
    (hidx : c.eventIndex < E.eventSize) : ∃ t, c.turn E = some t :=
  (turn_total_iff hE hp hidx).2 fun _ _ _ _ => hmem _

theorem visits_inside (hc : E.loop.Visits s c) : c.eventIndex < E.eventSize := by
  simpa [Env.loop] using hc.2

/-- Checks that fail in the turns for which `Past` holds, and in no other: none fails in a
call exactly if `Past` holds of no turn. -/
theorem not_faults_iff_of_checks {G : Env} (hE : E.Carries ch) (hp : E.PastTotal)
    (hmem : ∀ k, (E.event k).isSome) (hevent : G.event = E.event)
    (hsize : G.eventSize = E.eventSize) {Past : Fsm → Word → Trans → Prop}
    (hturn : ∀ c w tr, E.loop.Visits (E.entry s) c → c.Takes E w tr →
      Past c w tr ∧ c.turn G = none ∨ ¬ Past c w tr ∧ c.turn G = c.turn E) :
    ¬ G.loop.Faults (E.entry s) ↔
      ∀ c w tr, E.loop.Visits (E.entry s) c → c.Takes E w tr → ¬ Past c w tr := by
  have hskip {c : Fsm} (h : c.Skips E) : c.turn G = some c.advance := by
    obtain ⟨w, hw, hempty⟩ := h
    exact turn_of_skips ⟨w, hevent ▸ hw, hempty⟩
  have hguards : G.loop.Guards E.loop (E.entry s) := by
    refine ⟨fun c => ?_, fun c hc => ?_⟩
    · change decide (G.eventSize ≤ c.eventIndex) = decide (E.eventSize ≤ c.eventIndex)
      rw [hsize]
    · rcases skips_or_takes hE (visits_inside hc) with hempty | ⟨w, tr, htakes⟩
      · exact .inr ((hskip hempty).trans (turn_of_skips hempty).symm)
      · exact (hturn c w tr hc htakes).imp And.right And.right
  rw [hguards.safe_iff]
  constructor
  · intro hpass c w tr hc htakes hbad
    obtain ⟨d, hd⟩ := hpass c hc
    rcases hturn c w tr hc htakes with ⟨_, hnone⟩ | ⟨hgood, _⟩
    · exact absurd (hnone.symm.trans hd) (by simp)
    · exact hgood hbad
  · intro hgood c hc
    rcases skips_or_takes hE (visits_inside hc) with hempty | ⟨w, tr, htakes⟩
    · exact ⟨_, hskip hempty⟩
    · obtain ⟨d, hd⟩ := turn_total hE hp hmem (visits_inside hc)
      rcases hturn c w tr hc htakes with ⟨hbad, _⟩ | ⟨_, hsame⟩
      · exact absurd hbad (hgood c w tr hc htakes)
      · exact ⟨d, hsame.trans hd⟩

end Fsm

end FzDaq.Parser
