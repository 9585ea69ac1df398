import FzDaq.Machine.Loop

/-!
# Loops that stand still for one turn

A loop over positions below a bound, in which a turn moves on, or else stands still and
lowers a flag that has to be up. Each position is met twice at most, and the loop is left
after no more than two turns for each.
-/

namespace FzDaq.Machine

universe u

namespace Loop

/-- A turn moves on, or it stands still and lowers the flag. -/
structure Paced {σ : Type u} (M : Loop σ) (pos : σ → Nat) (flag : σ → Bool) (bound : Nat) :
    Prop where
  halted : ∀ c, M.halted c = false → pos c < bound
  next : ∀ c d, M.Next c d → pos c < pos d ∨ pos d = pos c ∧ flag c = true ∧ flag d = false

/-- What is left of the run: two turns for each position, and one for a flag that is up. -/
def pace {σ : Type u} (pos : σ → Nat) (flag : σ → Bool) (bound : Nat) (c : σ) : Nat :=
  2 * (bound - pos c) + (flag c).toNat

variable {σ : Type u} {M : Loop σ} {pos : σ → Nat} {flag : σ → Bool} {bound : Nat}

theorem Paced.pace_lt (h : M.Paced pos flag bound) {c d : σ} (hnext : M.Next c d) :
    pace pos flag bound d < pace pos flag bound c := by
  have hc := h.halted c hnext.1
  have hflag := Bool.toNat_le (flag d)
  unfold pace
  rcases h.next c d hnext with hmove | ⟨hsame, hup, hdown⟩
  · omega
  · rw [hsame, hup, hdown]
    exact Nat.lt_succ_self _

/-- A measure that every turn lowers is fuel enough for a loop that does not fault. -/
theorem run_of_measure {s : σ} (μ : σ → Nat) (hμ : ∀ c d, M.Next c d → μ d < μ c)
    (hfault : ∀ c, M.halted c = false → ∃ d, M.body c = some d) {fuel : Nat}
    (hfuel : μ s ≤ fuel) : ∃ t, M.run fuel s = .ended t := by
  induction fuel generalizing s with
  | zero =>
      cases hhalt : M.halted s with
      | true => exact ⟨s, by simp [run, hhalt]⟩
      | false =>
          obtain ⟨d, hbody⟩ := hfault s hhalt
          have hlt := hμ s d ⟨hhalt, hbody⟩
          omega
  | succ fuel ih =>
      cases hhalt : M.halted s with
      | true => exact ⟨s, by simp [run, hhalt]⟩
      | false =>
          obtain ⟨d, hbody⟩ := hfault s hhalt
          have hlt := hμ s d ⟨hhalt, hbody⟩
          obtain ⟨t, ht⟩ := ih (s := d) (by omega)
          exact ⟨t, by simp [run, hhalt, hbody, ht]⟩

theorem Paced.run_ended (h : M.Paced pos flag bound) {s : σ} (hflag : flag s = false)
    (hfault : ∀ c, M.halted c = false → ∃ d, M.body c = some d) :
    ∃ t, M.run (2 * (bound - pos s)) s = .ended t :=
  run_of_measure (pace pos flag bound) (fun _ _ hnext => h.pace_lt hnext) hfault
    (by rw [pace, hflag]; exact Nat.le_refl _)

/-- How often a position is met from a state on. -/
theorem Paced.countP_trace_le (h : M.Paced pos flag bound) (k fuel : Nat) (c : σ) :
    (M.trace fuel c).countP (fun d => pos d == k) ≤
      if pos c < k then 2 else if pos c = k then 1 + (flag c).toNat else 0 := by
  induction fuel generalizing c with
  | zero => exact Nat.zero_le _
  | succ fuel ih =>
      unfold trace
      split
      · exact Nat.zero_le _
      · rename_i hhalt
        cases hbody : M.body c with
        | none =>
            rw [List.countP_singleton]
            simp only [beq_iff_eq]
            split_ifs <;> omega
        | some d =>
            have hrest := ih d
            have hflag := Bool.toNat_le (flag d)
            rw [List.countP_cons]
            simp only [beq_iff_eq]
            rcases h.next c d ⟨by simpa using hhalt, hbody⟩ with hmove | ⟨hsame, hup, hdown⟩
            · split_ifs at hrest ⊢ <;> omega
            · rw [hup, Bool.toNat_true]
              rw [hsame, hdown, Bool.toNat_false] at hrest
              split_ifs at hrest ⊢ <;> omega

theorem Paced.countP_le_two (h : M.Paced pos flag bound) (k fuel : Nat) (c : σ) :
    (M.trace fuel c).countP (fun d => pos d == k) ≤ 2 := by
  refine (h.countP_trace_le k fuel c).trans ?_
  have hflag := Bool.toNat_le (flag c)
  split_ifs <;> omega

end Loop

end FzDaq.Machine
