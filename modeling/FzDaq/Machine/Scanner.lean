import FzDaq.Machine.Loop

/-!
# Loops that scan a sequence of words

A loop with a cursor into a sequence of words. `Reads P ws N Q` is a triple for
it: from a state with `P` whose cursor stands before the words `ws`, and before a
rest with `N`, the loop comes to a state with `Q` whose cursor stands behind `ws`.
The rules put triples together along the structure of what is read. Nothing here
names a particular program.
-/

namespace FzDaq.Machine

universe u v w

structure Scanner (σ : Type u) (W : Type v) where
  loop : Loop σ
  pos : σ → Nat
  word : Nat → Option W
  size : Nat

namespace Scanner

variable {σ : Type u} {W : Type v} {α : Type w} {S : Scanner σ W}

/-- The words from place `i` on are `ws`, and the sequence does not end before them. -/
def Has (S : Scanner σ W) : Nat → List W → Prop
  | i, [] => i ≤ S.size
  | i, x :: ws => S.word i = some x ∧ i < S.size ∧ S.Has (i + 1) ws

@[simp] theorem has_nil {i : Nat} : S.Has i [] ↔ i ≤ S.size := Iff.rfl

@[simp] theorem has_cons {i : Nat} {x : W} {ws : List W} :
    S.Has i (x :: ws) ↔ S.word i = some x ∧ i < S.size ∧ S.Has (i + 1) ws := Iff.rfl

theorem Has.right {i : Nat} {us vs : List W} (h : S.Has i (us ++ vs)) :
    S.Has (i + us.length) vs := by
  induction us generalizing i with
  | nil => exact h
  | cons x us ih =>
      have := ih h.2.2
      rwa [Nat.add_assoc, Nat.add_comm 1] at this

theorem has_of_get {ws : List W} {i : Nat} (hsize : i + ws.length ≤ S.size)
    (hword : ∀ k (hk : k < ws.length), S.word (i + k) = some ws[k]) : S.Has i ws := by
  induction ws generalizing i with
  | nil => exact hsize
  | cons x ws ih =>
      rw [List.length_cons] at hsize
      refine ⟨hword 0 (by simp), by omega, ih (by omega) fun k hk => ?_⟩
      rw [show i + 1 + k = i + (k + 1) by omega]
      exact hword (k + 1) (by simpa using hk)

/-- The triple. `N` says what may stand behind the words that are read. -/
def Reads (S : Scanner σ W) (P : σ → Prop) (ws : List W) (N : List W → Prop) (Q : σ → Prop) :
    Prop :=
  ∀ s rest, P s → N rest → S.Has (S.pos s) (ws ++ rest) →
    ∃ t, S.loop.Reaches s t ∧ S.pos t = S.pos s + ws.length ∧ Q t

namespace Reads

variable {P P' Q Q' R : σ → Prop} {M N : List W → Prop} {us vs ws : List W}

theorem nil (h : ∀ s, P s → Q s) : S.Reads P [] N Q :=
  fun s _ hs _ _ => ⟨s, Loop.Reaches.refl s, rfl, h s hs⟩

theorem consequence (h : S.Reads P ws N Q) (hpre : ∀ s, P' s → P s) (hpost : ∀ s, Q s → Q' s) :
    S.Reads P' ws N Q' := by
  intro s rest hs hN hhas
  obtain ⟨t, hreach, hpos, ht⟩ := h s rest (hpre s hs) hN hhas
  exact ⟨t, hreach, hpos, hpost t ht⟩

theorem of_exists {ι : Type w} {P : ι → σ → Prop} (h : ∀ a, S.Reads (P a) ws N Q) :
    S.Reads (fun s => ∃ a, P a s) ws N Q :=
  fun s rest ⟨a, hs⟩ hN hhas => h a s rest hs hN hhas

/-- A condition that does not depend on the state. -/
theorem of_pure {φ : Prop} (h : φ → S.Reads P ws N Q) : S.Reads (fun s => P s ∧ φ) ws N Q :=
  fun s rest ⟨hs, hφ⟩ hN hhas => h hφ s rest hs hN hhas

theorem append (h₁ : S.Reads P us M Q) (h₂ : S.Reads Q vs N R)
    (hM : ∀ rest, N rest → M (vs ++ rest)) : S.Reads P (us ++ vs) N R := by
  intro s rest hs hN hhas
  rw [List.append_assoc] at hhas
  obtain ⟨t, hst, hpos, ht⟩ := h₁ s (vs ++ rest) hs (hM rest hN) hhas
  have hhas' := hhas.right
  rw [← hpos] at hhas'
  obtain ⟨u, htu, hpos', hu⟩ := h₂ t rest ht hN hhas'
  refine ⟨u, hst.trans htu, ?_, hu⟩
  rw [hpos', hpos, List.length_append, Nat.add_assoc]

/-- One word in front, with no condition on what stands behind it. -/
theorem cons {x : W} (h₁ : S.Reads P [x] (fun _ => True) Q) (h₂ : S.Reads Q vs N R) :
    S.Reads P (x :: vs) N R := h₁.append h₂ fun _ _ => trivial

theorem before_flatMap {enc : α → List W} (hM : ∀ x rest, M (enc x ++ rest))
    (hN : ∀ rest, N rest → M rest) (xs : List α) {rest : List W} (hrest : N rest) :
    M (xs.flatMap enc ++ rest) := by
  cases xs with
  | nil => exact hN rest hrest
  | cons x xs =>
      rw [List.flatMap_cons, List.append_assoc]
      exact hM x _

/-- A repetition. The invariant speaks of the elements that have been read. -/
theorem flatMap {enc : α → List W} {I : List α → σ → Prop} {xs : List α}
    (hstep : ∀ pre x post, xs = pre ++ x :: post →
      S.Reads (I pre) (enc x) M (I (pre ++ [x])))
    (hM : ∀ x rest, M (enc x ++ rest)) (hN : ∀ rest, N rest → M rest) :
    S.Reads (I []) (xs.flatMap enc) N (I xs) := by
  suffices h : ∀ post pre, xs = pre ++ post → S.Reads (I pre) (post.flatMap enc) N (I xs) from
    h xs [] rfl
  intro post
  induction post with
  | nil =>
      rintro pre hxs
      rw [List.append_nil] at hxs
      subst hxs
      exact nil fun _ hs => hs
  | cons x post ih =>
      intro pre hxs
      exact (hstep pre x post hxs).append (ih (pre ++ [x]) (by simp [hxs]))
        fun _ => before_flatMap hM hN post

/-- A repetition whose first element is read in another way. -/
theorem flatMap_cons {enc : α → List W} {I : List α → σ → Prop} {x : α} {xs : List α}
    (hfirst : S.Reads P (enc x) M (I [x]))
    (hnext : ∀ pre y post, xs = pre ++ y :: post →
      S.Reads (I (x :: pre)) (enc y) M (I (x :: pre ++ [y])))
    (hM : ∀ x rest, M (enc x ++ rest)) (hN : ∀ rest, N rest → M rest) :
    S.Reads P ((x :: xs).flatMap enc) N (I (x :: xs)) := by
  have hothers : S.Reads (I [x]) (xs.flatMap enc) N (I (x :: xs)) :=
    flatMap (I := fun pre => I (x :: pre)) hnext hM hN
  exact hfirst.append hothers fun _ => before_flatMap hM hN xs

theorem run (h : S.Reads P ws N Q) {s : σ} (hs : P s) (hN : N []) (hpos : S.pos s = 0)
    (hsize : S.size = ws.length) (hword : ∀ k, k < S.size → S.word k = ws[k]?) :
    ∃ t, S.loop.Reaches s t ∧ S.pos t = S.size ∧ Q t := by
  have hhas : S.Has (S.pos s) (ws ++ []) := by
    rw [List.append_nil, hpos]
    refine has_of_get (by omega) fun k hk => ?_
    rw [Nat.zero_add, hword k (by omega), List.getElem?_eq_getElem hk]
  obtain ⟨t, hreach, hpos', ht⟩ := h s [] hs hN hhas
  exact ⟨t, hreach, by omega, ht⟩

end Reads

end Scanner

end FzDaq.Machine
