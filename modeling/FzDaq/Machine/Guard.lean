import FzDaq.Machine.Loop

/-!
# Loops with checks

A loop is compared with the same loop under checks that fault where the first one goes
on. As long as no check fails the two make the same turns, so the checked loop tells of
every turn of the other one, and not only of those before the first failure.
-/

namespace FzDaq.Machine.Loop

universe u

variable {σ : Type u} {M N : Loop σ} {s c : σ}

/-- In the run of `M` from `s`, `N` makes each turn as `M` does, or faults. -/
structure Guards (N M : Loop σ) (s : σ) : Prop where
  halted : ∀ c, N.halted c = M.halted c
  body : ∀ c, M.Visits s c → N.body c = none ∨ N.body c = M.body c

namespace Guards

/-- Up to the first failed check the run is the one without checks. -/
theorem reaches (h : N.Guards M s) (hc : N.Reaches s c) : M.Reaches s c := by
  induction hc with
  | refl => exact .refl s
  | tail _ hnext ih =>
      obtain ⟨hhalt, hbody⟩ := hnext
      rw [h.halted] at hhalt
      rcases h.body _ ⟨ih, hhalt⟩ with hnone | hsame
      · rw [hnone] at hbody
        cases hbody
      · exact ih.tail ⟨hhalt, hsame.symm.trans hbody⟩

/-- If no check fails the runs are the same. -/
theorem reaches_of_not_faults (h : N.Guards M s) (hsafe : ¬ N.Faults s) (hc : M.Reaches s c) :
    N.Reaches s c := by
  induction hc with
  | refl => exact .refl s
  | @tail c d hc hnext ih =>
      have hhalt : N.halted c = false := (h.halted c).trans hnext.1
      rcases h.body c ⟨hc, hnext.1⟩ with hnone | hsame
      · exact absurd ⟨c, ih, hhalt, hnone⟩ hsafe
      · exact ih.tail ⟨hhalt, hsame.trans hnext.2⟩

/-- No check fails in the run exactly if each turn of the loop passes its checks. -/
theorem safe_iff (h : N.Guards M s) :
    ¬ N.Faults s ↔ ∀ c, M.Visits s c → ∃ d, N.body c = some d := by
  constructor
  · intro hsafe c hc
    have hhalt : N.halted c = false := (h.halted c).trans hc.2
    have hreach := h.reaches_of_not_faults hsafe hc.1
    cases hbody : N.body c with
    | none => exact absurd ⟨c, hreach, hhalt, hbody⟩ hsafe
    | some d => exact ⟨d, rfl⟩
  · rintro hpass ⟨c, hreach, hhalt, hnone⟩
    rw [h.halted] at hhalt
    obtain ⟨d, hd⟩ := hpass c ⟨h.reaches hreach, hhalt⟩
    rw [hnone] at hd
    cases hd

end Guards

end FzDaq.Machine.Loop
