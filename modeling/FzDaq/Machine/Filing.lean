import Mathlib

/-!
# Filing in sheets and boxes

Amounts are put on the open sheet and the sheets into the open box. A box is closed
behind the amount with which it comes above its limit, and else the sheet behind the
one with which that does. What is open stays within the limits, and what is closed is
above its limit by no more than its last amount.
-/

namespace FzDaq.Machine

universe u

/-- What is closed behind an amount. -/
inductive Cut where
  | none | sheet | box
  deriving DecidableEq, Repr

/-- The amounts on the open sheet and in the open box, and those of each sheet and box
that was closed for its limit. -/
structure Filing (α : Type u) where
  sheet : List α := []
  box : List α := []
  closedSheets : List (List α) := []
  closedBoxes : List (List α) := []
  deriving DecidableEq, Repr

namespace Filing

variable {α : Type u}

/-- The next amount, and what is closed behind it. -/
def store (l : Filing α) (n : α) : Cut → Filing α
  | .none => { l with sheet := l.sheet ++ [n], box := l.box ++ [n] }
  | .sheet =>
    { l with
      sheet := []
      box := l.box ++ [n]
      closedSheets := l.closedSheets ++ [l.sheet ++ [n]] }
  | .box =>
    { l with
      sheet := []
      box := []
      closedBoxes := l.closedBoxes ++ [l.box ++ [n]] }

/-- A new box, whatever is in the open one. -/
def renew (l : Filing α) : Filing α := { l with sheet := [], box := [] }

variable [AddCommMonoid α] [LinearOrder α] {l : Filing α} {F D n : α}

/-- What is to be closed behind the next amount. -/
def cutAt (F D : α) (l : Filing α) (n : α) : Cut :=
  if D < l.box.sum + n then .box else if F < l.sheet.sum + n then .sheet else .none

/-- The amounts of a part that was closed for its limit: above it, by no more than the last. -/
def ClosedAt (limit : α) (part : List α) : Prop :=
  limit < part.sum ∧ ∃ front n, part = front ++ [n] ∧ part.sum ≤ limit + n

/-- What is open is within the limits `F` of a sheet and `D` of a box. -/
structure Within (F D : α) (l : Filing α) : Prop where
  sheet : l.sheet.sum ≤ F
  box : l.box.sum ≤ D
  nested : l.sheet.sum ≤ l.box.sum
  closedSheets : ∀ part ∈ l.closedSheets, ClosedAt F part
  closedBoxes : ∀ part ∈ l.closedBoxes, ClosedAt D part

theorem within_empty [CanonicallyOrderedAdd α] (F D : α) : Within F D {} :=
  ⟨zero_le, zero_le, le_rfl, by simp, by simp⟩

theorem Within.renew [CanonicallyOrderedAdd α] (h : Within F D l) : Within F D l.renew :=
  ⟨zero_le, zero_le, le_rfl, h.closedSheets, h.closedBoxes⟩

variable [IsOrderedAddMonoid α]

theorem closedAt_concat {limit : α} {front : List α} (hfront : front.sum ≤ limit)
    (hmore : limit < front.sum + n) : ClosedAt limit (front ++ [n]) := by
  have hsum : (front ++ [n]).sum = front.sum + n := by simp
  refine ⟨hsum ▸ hmore, front, n, rfl, ?_⟩
  rw [hsum]
  exact add_le_add_left hfront n

theorem Within.store [CanonicallyOrderedAdd α] (h : Within F D l) (n : α) :
    Within F D (l.store n (cutAt F D l n)) := by
  unfold cutAt
  split
  · rename_i hbox
    refine ⟨zero_le, zero_le, le_rfl, h.closedSheets, fun part hpart => ?_⟩
    rcases List.mem_append.1 hpart with hpart | hpart
    · exact h.closedBoxes part hpart
    · rw [List.mem_singleton.1 hpart]
      exact closedAt_concat h.box hbox
  rename_i hbox
  have hbox' : (l.box ++ [n]).sum ≤ D := by simpa using hbox
  split
  · rename_i hsheet
    refine ⟨zero_le, hbox', zero_le, fun part hpart => ?_, h.closedBoxes⟩
    rcases List.mem_append.1 hpart with hpart | hpart
    · exact h.closedSheets part hpart
    · rw [List.mem_singleton.1 hpart]
      exact closedAt_concat h.sheet hsheet
  · rename_i hsheet
    have hsheet' : (l.sheet ++ [n]).sum ≤ F := by simpa using hsheet
    have hnested : (l.sheet ++ [n]).sum ≤ (l.box ++ [n]).sum := by
      simpa using add_le_add_left h.nested n
    exact ⟨hsheet', hbox', hnested, h.closedSheets, h.closedBoxes⟩

end Filing

end FzDaq.Machine
