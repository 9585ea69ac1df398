import Mathlib

/-!
# Passes that erase

A pass by index over a list from which it erases. The entry behind an erased one takes
its place, so that a pass which moves on all the same does not look at it: of
neighbours that are both to be erased it leaves the second.
-/

namespace FzDaq.Machine

universe u

variable {α : Type u}

/-- What is left of a list by a pass that moves on behind an entry that it erases. -/
def sweep (p : α → Bool) : List α → List α
  | [] => []
  | [a] => if p a then [] else [a]
  | a :: b :: l => if p a then b :: sweep p l else a :: sweep p (b :: l)

/-- No two neighbours are both to be erased. -/
def Scattered (p : α → Bool) (l : List α) : Prop := l.IsChain fun a b => ¬(p a ∧ p b)

variable {p : α → Bool} {a b : α} {l : List α}

theorem sweep_cons_of_not (ha : p a = false) (l : List α) : sweep p (a :: l) = a :: sweep p l := by
  cases l with
  | nil => simp [sweep, ha]
  | cons b l => rw [sweep, ha]; rfl

theorem scattered_cons_of_not (ha : p a = false) : Scattered p (a :: l) ↔ Scattered p l := by
  simp [Scattered, List.isChain_cons, ha]

/-- A pass erases everything that is to be erased exactly if it meets no neighbours. -/
theorem sweep_eq_filter_iff (p : α → Bool) (l : List α) :
    sweep p l = l.filter (fun a => !p a) ↔ Scattered p l := by
  induction l using sweep.induct p with
  | case1 => simp [sweep, Scattered]
  | case2 a ha => simp [sweep, Scattered, ha]
  | case3 a ha => simp [sweep, Scattered, ha]
  | case4 a b l ha ih =>
    rw [sweep, if_pos ha]
    cases hb : p b with
    | true =>
      -- `b` is left, and the filter has nothing like it.
      have hleft : b :: sweep p l ≠ (a :: b :: l).filter fun a => !p a := by
        intro h
        have hmem : b ∈ (a :: b :: l).filter fun a => !p a := h ▸ List.mem_cons_self ..
        simp [hb] at hmem
      have hpair : ¬Scattered p (a :: b :: l) := by
        intro h
        exact (List.isChain_cons_cons.1 h).1 ⟨ha, hb⟩
      exact iff_of_false hleft hpair
    | false =>
      have hchain : Scattered p (a :: b :: l) ↔ Scattered p l := by
        rw [Scattered, List.isChain_cons_cons, and_iff_right (by simp [hb])]
        exact scattered_cons_of_not hb
      rw [hchain, ← ih]
      simp [ha, hb]
  | case5 a b l ha ih =>
    have ha : p a = false := by simpa using ha
    rw [sweep_cons_of_not ha, scattered_cons_of_not ha, ← ih]
    simp [ha]

end FzDaq.Machine
