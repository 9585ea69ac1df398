import FzDaq.Parser.Progress

/-!
# Damaged events

A transition that is not valid throws the event away and puts the machine into
idle. The next EC word of the same chunk starts the event anew with
`err_in_event` lowered, and nothing remembers the blocks that were lost. Only
while no such word follows does the reset keep the chunk from being counted as
good or empty.
-/

namespace FzDaq.Parser

open Machine

namespace Fsm

variable {E : Env} {s r c : Fsm} {ch : Chunk} {fuel : Nat} {w : Word}

/-- After a reset in `c` no EC word starts the event anew. -/
def StaysIdle (E : Env) (c : Fsm) : Prop := ∀ d x, E.loop.Visits c d → ¬ d.Takes E x .t02

theorem idle_step {d e : Fsm} (hd : d.stateId = .idle) (hde : E.loop.Next d e)
    (hec : ∀ x, ¬ d.Takes E x .t02) : e.stateId = .idle := by
  obtain ⟨_, ⟨_, rfl⟩ | ⟨x, tr, u, htakes, hfires, rfl⟩⟩ := next_cases hde
  · exact hd
  · have htr : tr = .t01 ∨ tr = .notValid := by
      have hentry := htakes.2.2
      rw [hd] at hentry
      cases hw : getwordId x <;> rw [hw] at hentry <;> simp only [ttable] at hentry
      case ec => exact absurd (hentry ▸ htakes) (hec x)
      all_goals simp [← hentry]
    rcases htr with rfl | rfl <;> cases hfires
    · exact hd
    · rfl

theorem StaysIdle.visits {d : Fsm} (hstay : c.StaysIdle E) (hreset : c.Takes E w .notValid)
    (hcd : E.loop.Visits c d) (hne : d ≠ c) : d.stateId = .idle := by
  rcases Relation.ReflTransGen.cases_head hcd.1 with rfl | ⟨e, hce, hed⟩
  · exact absurd rfl hne
  have hstart : e.stateId = .idle := by
    obtain ⟨_, ⟨hempty, _⟩ | ⟨x, tr, u, htakes, hfires, rfl⟩⟩ := next_cases hce
    · exact absurd hreset hempty.not_takes
    · obtain ⟨rfl, rfl⟩ := hreset.unique htakes
      cases hfires
      rfl
  exact Loop.Reaches.invariant hed (fun f => f.stateId = .idle) hstart fun f g hef hfg hf =>
    idle_step hf hfg fun x => hstay f x ⟨hce.reaches.trans hef, hfg.1⟩

/-- A call in which the event was thrown away counts it neither as good nor as
empty, if no EC word followed that started it anew. -/
theorem reset_not_counted (hE : E.Carries ch) (hrun : s.parse E fuel = .ended r)
    (hreset : ∃ c w, E.loop.Visits (E.entry s) c ∧ c.Takes E w .notValid)
    (hstay : ∀ c w, E.loop.Visits (E.entry s) c → c.Takes E w .notValid → c.StaysIdle E) :
    r.report.eventsGood = s.report.eventsGood ∧ r.report.eventsEmpty = s.report.eventsEmpty := by
  obtain ⟨c, w, hc, htakes⟩ := hreset
  rcases parse_verdict hE hrun with ⟨_, hgood, _, hempty⟩ | ⟨e, he, hregid, _⟩
  · exact ⟨hgood, hempty⟩
  · exfalso
    have hne : e ≠ c := by
      rintro rfl
      exact absurd (htakes.unique hregid).2 (by decide)
    have hce : E.loop.Visits c e := by
      rcases hc.1.total he.1 with h | h
      · exact ⟨h, he.2⟩
      · exact absurd (hregid.last hE ⟨h, hc.2⟩).symm hne
    have hidle := (hstay c w hc htakes).visits htakes hce hne
    rw [hregid.stateId_s10] at hidle
    cases hidle

/-- A block header followed by a data word. -/
def damaged : Chunk where
  body := [0xE001, 1, 0xC001, 0xA000, 0xD000]
  regid := 0xC800
  regid_id := getwordId_c800
  body_id := Chunk.ne_regid_of_all rfl

/-- `reset_not_counted` on a damaged event. -/
theorem damaged_not_counted :
    ∃ r, Fsm.parse (damaged.env .tag .zero) 6 {} = .ended r ∧ r.report.stateInvalid = 1 ∧
      r.report.eventsGood = 0 ∧ r.report.eventsEmpty = 0 := by
  obtain ⟨r, hrun, hinvalid⟩ : ∃ r, Fsm.parse (damaged.env .tag .zero) 6 {} = .ended r ∧
      r.report.stateInvalid = 1 := ⟨_, rfl, rfl⟩
  have hfirst := takes_of_everyTurn (P := fun c _ tr => tr != .t02 || c.eventIndex == 0) hrun rfl
  have hsecond :=
    takes_of_everyTurn (P := fun c _ tr => tr != .notValid || c.eventIndex == 1) hrun rfl
  refine ⟨r, hrun, hinvalid, reset_not_counted (damaged.env_carries .tag .zero) hrun
    ⟨_, 1, ⟨Loop.Next.reaches ⟨rfl, rfl⟩, rfl⟩, rfl, by decide, rfl⟩ ?_⟩
  intro c w hc hreset d x hd htakes
  have hidx : c.eventIndex = 1 := by simpa using hsecond c w _ hc hreset
  have hidx' : d.eventIndex = 0 := by simpa using hfirst d x _ ⟨hc.1.trans hd.1, hd.2⟩ htakes
  have hle := reaches_eventIndex_le hd.1
  omega

/-- A data word behind the header of a block, and a whole empty event behind it. -/
def resynchronised : Chunk where
  body := [0xE001, 1, 0xE001, 0xC001, 0xA000, 0xD000]
  regid := 0xC800
  regid_id := getwordId_c800
  body_id := Chunk.ne_regid_of_all rfl

/-- The event is thrown away once and counted as empty. -/
theorem resynchronised_counted :
    ∃ r, Fsm.parse (resynchronised.env .tag .zero) 7 {} = .ended r ∧ r.report.stateInvalid = 1 ∧
      r.report.eventsEmpty = 1 :=
  ⟨_, rfl, rfl, rfl⟩

end Fsm

end FzDaq.Parser
