import Mathlib

/-!
# Frames that announce their length

A stream of frames over any type, each of which says in its head how long it is. `size`
reads the head, if there is enough of it. A receiver can cut such a stream, and what is left
at its end is the part of a frame that has not come whole.
-/

namespace FzDaq.Machine

universe u

variable {α : Type u} {size : List α → Option Nat}

/-- What a head says does not change with what comes behind it. -/
def Stable (size : List α → Option Nat) : Prop :=
  ∀ xs ys n, size xs = some n → size (xs ++ ys) = some n

/-- The frame says of itself how long it is. -/
structure Announced (size : List α → Option Nat) (f : List α) : Prop where
  size_eq : size f = some f.length
  pos : 0 < f.length

/-- The frames that a stream starts with, and the rest of it. -/
def cutFrames (size : List α → Option Nat) (xs : List α) : List (List α) × List α :=
  match size xs with
  | none => ([], xs)
  | some n =>
    if _h : 0 < n ∧ n ≤ xs.length then
      let r := cutFrames size (xs.drop n)
      (xs.take n :: r.1, r.2)
    else ([], xs)
termination_by xs.length
decreasing_by
  rw [List.length_drop]
  omega

theorem cutFrames_cons (hsize : Stable size) {f : List α} (hf : Announced size f) (xs : List α) :
    cutFrames size (f ++ xs) = (f :: (cutFrames size xs).1, (cutFrames size xs).2) := by
  rw [cutFrames, hsize _ _ _ hf.size_eq]
  dsimp only
  rw [dif_pos ⟨hf.pos, by rw [List.length_append]; omega⟩, List.take_left', List.drop_left'] <;> rfl

theorem cutFrames_part (hsize : Stable size) {part rest : List α}
    (hf : Announced size (part ++ rest)) (hrest : rest ≠ []) :
    cutFrames size part = ([], part) := by
  rw [cutFrames]
  cases hn : size part with
  | none => rfl
  | some n =>
    have hlen : n = (part ++ rest).length :=
      Option.some.inj ((hsize _ rest _ hn).symm.trans hf.size_eq)
    have hpos := List.length_pos_iff.2 hrest
    dsimp only
    rw [dif_neg]
    rintro ⟨-, hle⟩
    rw [List.length_append] at hlen
    omega

theorem cutFrames_nil (hsize : size [] = none) : cutFrames size [] = ([], []) := by
  rw [cutFrames, hsize]

/-- The receiver gets the frames back, whatever it has of the next one. -/
theorem cutFrames_flatten (hsize : Stable size) {fs : List (List α)}
    (hfs : ∀ f ∈ fs, Announced size f) {part : List α} (hpart : cutFrames size part = ([], part)) :
    cutFrames size (fs.flatten ++ part) = (fs, part) := by
  induction fs with
  | nil => simpa using hpart
  | cons f fs ih =>
    rw [List.flatten_cons, List.append_assoc, cutFrames_cons hsize (hfs f (by simp)),
      ih fun g hg => hfs g (by simp [hg])]

/-- Whole frames, and the beginning of one at the end. -/
structure Session (size : List α → Option Nat) where
  frames : List (List α)
  part : List α
  announced : ∀ f ∈ frames, Announced size f
  cut : cutFrames size part = ([], part)

namespace Session

def stream (s : Session size) : List α := s.frames.flatten ++ s.part

theorem cutFrames_stream (hsize : Stable size) (s : Session size) :
    cutFrames size s.stream = (s.frames, s.part) :=
  cutFrames_flatten hsize s.announced s.cut

theorem flatMap_stream (hsize : Stable size) (ss : List (Session size)) :
    (ss.map stream).flatMap (fun c => (cutFrames size c).1) = ss.flatMap frames := by
  rw [List.flatMap_map]
  refine List.flatMap_congr fun s _ => ?_
  rw [cutFrames_stream hsize]

end Session

end FzDaq.Machine
