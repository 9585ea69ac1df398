import Mathlib

/-!
# Bytes written in pieces

A buffer is filled by assignments to single bytes, some of which merge their bits into
what is there. Assignments to different bytes commute, and so do two that both merge;
the order of the pieces does not matter then.
-/

namespace FzDaq.Machine

/-- `m[index] = byte`, or `m[index] |= byte`. -/
structure Piece where
  index : Nat
  byte : UInt8
  merge : Bool
  deriving DecidableEq, Repr

namespace Piece

def put (m : Nat → UInt8) (p : Piece) : Nat → UInt8 :=
  Function.update m p.index (if p.merge then m p.index ||| p.byte else p.byte)

def putAll (m : Nat → UInt8) (ps : List Piece) : Nat → UInt8 := ps.foldl put m

/-- Two pieces that can be put in either order. -/
def Apart (p q : Piece) : Prop := p.index ≠ q.index ∨ (p.merge = true ∧ q.merge = true)

instance (p q : Piece) : Decidable (p.Apart q) := inferInstanceAs (Decidable (_ ∨ _))

variable {m : Nat → UInt8} {p q : Piece} {ps qs : List Piece}

theorem put_apply (m : Nat → UInt8) (p : Piece) (i : Nat) :
    put m p i = if i = p.index then (if p.merge then m i ||| p.byte else p.byte) else m i := by
  unfold put
  rw [Function.update_apply]
  split
  · rename_i hi
    rw [hi]
  · rfl

theorem putAll_append : putAll m (ps ++ qs) = putAll (putAll m ps) qs :=
  List.foldl_append ..

theorem put_comm (h : p.Apart q) : put (put m p) q = put (put m q) p := by
  funext i
  simp only [put_apply]
  rcases h with hne | ⟨hp, hq⟩
  · by_cases hi : i = p.index
    · have hq : i ≠ q.index := fun heq => hne (hi.symm.trans heq)
      simp [hi, hi ▸ hq]
    · simp [hi]
  · simp only [hp, hq, if_true]
    split_ifs
    · rw [UInt8.or_assoc, UInt8.or_assoc, UInt8.or_comm p.byte]
    · rfl
    · rfl
    · rfl

instance : Std.Symm Apart where
  symm _ _ h := h.imp Ne.symm And.symm

theorem putAll_perm (h : ps.Perm qs) (hapart : ps.Pairwise Apart) :
    putAll m ps = putAll m qs := by
  refine h.foldl_eq' (fun p hp q hq z => ?_) m
  by_cases heq : p = q
  · rw [heq]
  · exact put_comm (hapart.forall hp hq heq)

theorem putAll_other {i : Nat} (h : ∀ p ∈ ps, p.index ≠ i) : putAll m ps i = m i := by
  induction ps generalizing m with
  | nil => rfl
  | cons p ps ih =>
    have hp : i ≠ p.index := fun heq => h p List.mem_cons_self heq.symm
    change putAll (put m p) ps i = m i
    rw [ih fun q hq => h q (List.mem_cons_of_mem p hq), put_apply, if_neg hp]

theorem putAll_congr {m m' : Nat → UInt8} {i : Nat} (h : m i = m' i) :
    putAll m ps i = putAll m' ps i := by
  induction ps generalizing m m' with
  | nil => exact h
  | cons p ps ih =>
    refine ih ?_
    rw [put_apply, put_apply, h]

theorem putAll_set {m' : Nat → UInt8} (hp : p ∈ ps) (hset : p.merge = false) :
    putAll m ps p.index = putAll m' ps p.index := by
  obtain ⟨before, behind, rfl⟩ := List.append_of_mem hp
  rw [putAll_append, putAll_append]
  have hput : put (putAll m before) p p.index = put (putAll m' before) p p.index := by
    rw [put_apply, put_apply, if_pos rfl, if_pos rfl, hset]
    rfl
  change putAll (put (putAll m before) p) behind p.index =
    putAll (put (putAll m' before) p) behind p.index
  exact putAll_congr hput

end Piece

end FzDaq.Machine
