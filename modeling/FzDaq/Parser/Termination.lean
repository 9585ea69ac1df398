import FzDaq.Parser.Faults

/-!
# Termination in the basic format

A turn that does not spin moves the cursor on, so a call without such a turn
comes to the end of the chunk. A turn that spins leads to itself: cursor, flags
and data type are the same again, and the loop is never left.
-/

namespace FzDaq.Parser

open Machine

namespace Fsm

variable {E : Env} {s c d : Fsm} {w : Word} {ch : Chunk}

/-! ## Without a spin -/

theorem not_faults_of_readable (hE : E.Carries ch) (hp : E.PastTotal)
    (hmem : ∀ k, (E.event k).isSome) : ¬ E.loop.Faults c := by
  rintro ⟨d, _, hhalt, hnone⟩
  have hidx : d.eventIndex < E.eventSize := by simpa [Env.loop] using hhalt
  obtain ⟨t, ht⟩ := (turn_total_iff hE hp hidx).2 fun _ _ _ _ => hmem _
  change d.turn E = none at hnone
  rw [ht] at hnone
  cases hnone

theorem ends_of_not_spins (hE : E.Carries ch) (hp : E.PastTotal)
    (hmem : ∀ k, (E.event k).isSome) (hf : E.evformat = .basic)
    (hspin : ∀ c w, E.loop.Visits (E.entry s) c → c.Takes E w .t08 → c.spins = false) :
    ∃ t, E.loop.Ends (E.entry s) t := by
  have hrun := Loop.ends_or_faults_of_measure (M := E.loop) (s := E.entry s)
    (fun c => E.eventSize - c.eventIndex) fun c d hc hcd => by
      have hidx : c.eventIndex < E.eventSize := (next_cases hcd).1
      have hlt := next_eventIndex_lt hf hcd fun w => hspin c w ⟨hc, hcd.1⟩
      omega
  exact hrun.resolve_right (not_faults_of_readable hE hp hmem)

/-! ## With a spin -/

/-- The turn in `c` spins at the word `w`, of index `i`. -/
structure SpinsAt (E : Env) (i : Nat) (w : Word) (c : Fsm) : Prop where
  takes : c.Takes E w .t08
  spinning : c.spins = true
  eventIndex : c.eventIndex = i

theorem SpinsAt.next {i : Nat} (h : SpinsAt E i w c) (hf : E.evformat = .basic)
    (hpos : 0 < i) (hi : i < E.eventSize) :
    ∃ d, E.loop.Next c d ∧ SpinsAt E i w d := by
  obtain ⟨⟨hw, hempty, hdata⟩, hspins, rfl⟩ := h
  obtain ⟨⟨⟨hdone, htype⟩, hadc⟩, hzero⟩ :
      ((c.wflenDone = true ∧ c.dType.hasEnergy = false) ∧ c.dType ≠ .ADC) ∧ c.rdWflen = 0 := by
    simpa [Fsm.spins] using hspins
  let c' := (c.updateBlk w).updateFee w
  have hcount : c.trans08Basic E w = some c'.restoreCrc.stepBack := by
    rw [trans08Basic_eq_count htype, waveformByCount_done (s := c') hdone,
      if_neg (show c'.dType ≠ .ADC from hadc), Option.bind_some]
    change (c'.restoreCrc.gatherCount E c.rdWflen.toNat).map stepBack = _
    rw [hzero]
    rfl
  have hfire : c.fire E .t08 w = some { c'.restoreCrc.stepBack with stateId := .s5 } := by
    simp only [fire, hf, hcount, Option.map_some]
  have hturn : c.turn E = some { c'.restoreCrc.stepBack with stateId := .s5 }.advance := by
    rw [turn, hw, Option.bind_eq_bind, Option.bind_some, dispatch, if_neg hempty, hdata, hfire]
    rfl
  -- The step back of the gathering loop is undone by the `for` loop.
  have hidx : ({ c'.restoreCrc.stepBack with stateId := .s5 } : Fsm).advance.eventIndex =
      c.eventIndex := Nat.sub_add_cancel hpos
  have hword := (ttable_eq hdata).2
  refine ⟨_, ⟨by simpa [Env.loop] using hi, hturn⟩, ⟨by rw [hidx]; exact hw, hempty, ?_⟩, ?_, hidx⟩
  · rw [hword]
    rfl
  · exact hspins

theorem visits_eventIndex_pos (hc : E.loop.Visits (E.entry s) c) (hs : c.stateId ≠ .idle) :
    0 < c.eventIndex := by
  have hinv : c.stateId = .idle ∨ 0 < c.eventIndex := by
    refine hc.1.invariant (fun c => c.stateId = .idle ∨ 0 < c.eventIndex) (.inl rfl)
      fun c d _ hcd _ => .inr ?_
    obtain ⟨_, ⟨_, rfl⟩ | ⟨_, _, u, _, _, rfl⟩⟩ := next_cases hcd
    · exact Nat.succ_pos _
    · exact Nat.succ_pos _
  exact hinv.resolve_left hs

theorem not_ends_of_spins (hf : E.evformat = .basic) (hc : E.loop.Visits (E.entry s) c)
    (htakes : c.Takes E w .t08) (hspins : c.spins = true) (t : Fsm) :
    ¬ E.loop.Ends (E.entry s) t := by
  have hpos : 0 < c.eventIndex := visits_eventIndex_pos hc (by simp [(ttable_eq htakes.2.2).1])
  have hidx : c.eventIndex < E.eventSize := by simpa [Env.loop] using hc.2
  exact Loop.not_ends_of_trap (P := SpinsAt E c.eventIndex w)
    (fun _ h => h.next hf hpos hidx) hc.1 ⟨htakes, hspins, rfl⟩ t

/-! ## Calls -/

/-- A call in the basic format returns, exactly if no DATA word in S5 is met with
a gathering by length whose length word was zero. -/
theorem parse_ends_iff (ch : Chunk) (past : Chunk.Past) (behind : Nat → Word) (s : Fsm) :
    let E := ch.envIn .basic past behind
    (∃ fuel r, s.parse E fuel = .ended r) ↔
      ∀ c w, E.loop.Visits (E.entry s) c → c.Takes E w .t08 → c.spins = false := by
  intro E
  constructor
  · rintro ⟨fuel, r, hrun⟩ c w hc htakes
    obtain ⟨t, hends, _⟩ := parse_ended hrun
    cases hspins : c.spins with
    | false => rfl
    | true => exact absurd hends (not_ends_of_spins rfl hc htakes hspins t)
  · intro hspin
    obtain ⟨t, hends⟩ := ends_of_not_spins (ch.envIn_carries .basic past behind)
      (ch.envIn_pastTotal .basic past behind) (fun _ => rfl) rfl hspin
    obtain ⟨fuel, hrun⟩ := parse_ended_iff.2 ⟨t, hends, rfl⟩
    exact ⟨fuel, _, hrun⟩

/-- A waveform of QL1 data of length zero, with a word behind its length word. -/
def emptyWaveform : Chunk where
  body := [0xE001, 0x9800, 1, 2, 0x9200, 7, 0, 1]
  regid := 0xC800
  regid_id := getwordId_c800
  body_id := Chunk.ne_regid_of_all rfl

/-- The call does not return, with any amount of fuel. -/
theorem emptyWaveform_never_ends :
    ¬ ∃ fuel r, Fsm.parse (emptyWaveform.envIn .basic .zero fun _ => 0) fuel {} = .ended r := by
  rintro ⟨fuel, r, hrun⟩
  obtain ⟨t, hends, _⟩ := parse_ended hrun
  obtain ⟨c, hrun, hspins, htakes⟩ : ∃ c,
      (emptyWaveform.envIn .basic .zero fun _ => 0).loop.run 7
        ((emptyWaveform.envIn .basic .zero fun _ => 0).entry {}) = .running c ∧
      c.spins = true ∧ c.Takes (emptyWaveform.envIn .basic .zero fun _ => 0) 1 .t08 :=
    ⟨_, rfl, rfl, rfl, by decide, rfl⟩
  exact not_ends_of_spins rfl (Loop.visits_of_run hrun) htakes hspins t hends

end Fsm

end FzDaq.Parser
