import Mathlib

/-!
# Files behind a buffer

A disk with files of which one at a time is open. What is written to it lies in a buffer until
the system writes it out, and a file that is created is empty. Files that never take each
other's name hold what was written to them, the one that is open a first part of it.
-/

namespace FzDaq.Machine

universe u v w

structure Shelf (ν : Type u) (β : Type v) where
  onDisk : ν → List β
  buffer : List β := []

namespace Shelf

variable {ν : Type u} {β : Type v} {α : Type w}

def append (s : Shelf ν β) (xs : List β) : Shelf ν β := { s with buffer := s.buffer ++ xs }

/-- What is left in the buffer is lost. -/
def discard (s : Shelf ν β) : Shelf ν β := { s with buffer := [] }

/-- The files that are closed, each with what was written to it, and the open one with what of
its contents is in the buffer. -/
structure Holds (enc : α → List β) (s : Shelf ν β) (closed : List (ν × List α)) (name : ν)
    (items : List α) : Prop where
  kept : ∀ file ∈ closed, s.onDisk file.1 = file.2.flatMap enc
  opened : s.onDisk name ++ s.buffer = items.flatMap enc
  apart : name ∉ closed.map Prod.fst

variable {enc : α → List β} {s : Shelf ν β} {closed : List (ν × List α)} {name new : ν}
  {items : List α}

theorem Holds.append (h : s.Holds enc closed name items) (item : α) :
    (s.append (enc item)).Holds enc closed name (items ++ [item]) := by
  refine ⟨h.kept, ?_, h.apart⟩
  rw [List.flatMap_append, List.flatMap_singleton, ← h.opened, List.append_assoc]
  rfl

theorem Holds.ne (h : s.Holds enc closed name items) {file : ν × List α} (hfile : file ∈ closed) :
    file.1 ≠ name :=
  fun heq => h.apart (heq ▸ List.mem_map_of_mem hfile)

theorem Holds.onDisk_eq (h : s.Holds enc closed name items) :
    s.onDisk name = (items.flatMap enc).take ((items.flatMap enc).length - s.buffer.length) := by
  rw [← h.opened, List.length_append, Nat.add_sub_cancel, List.take_left]

variable [DecidableEq ν]

/-- The first `k` elements of the buffer are written out to the open file. -/
def flush (s : Shelf ν β) (name : ν) (k : Nat) : Shelf ν β where
  onDisk := Function.update s.onDisk name (s.onDisk name ++ s.buffer.take k)
  buffer := s.buffer.drop k

def create (s : Shelf ν β) (name : ν) : Shelf ν β :=
  { s with onDisk := Function.update s.onDisk name [] }

theorem onDisk_flush (k : Nat) : (s.flush name k).onDisk name = s.onDisk name ++ s.buffer.take k :=
  Function.update_self ..

theorem onDisk_flush_other (hne : new ≠ name) (k : Nat) :
    (s.flush name k).onDisk new = s.onDisk new :=
  Function.update_of_ne hne ..

theorem Holds.flush (h : s.Holds enc closed name items) (k : Nat) :
    (s.flush name k).Holds enc closed name items := by
  refine ⟨fun file hfile => ?_, ?_, h.apart⟩
  · rw [onDisk_flush_other (h.ne hfile), h.kept file hfile]
  · rw [onDisk_flush, List.append_assoc, ← h.opened]
    exact congrArg (s.onDisk name ++ ·) (List.take_append_drop k s.buffer)

theorem holds_create (name : ν) (hbuffer : s.buffer = []) :
    (s.create name).Holds enc [] name [] := by
  have hempty : (s.create name).onDisk name = [] := Function.update_self ..
  refine ⟨by simp, ?_, by simp⟩
  rw [hempty, List.nil_append]
  exact hbuffer

theorem Holds.renew (h : s.Holds enc closed name items)
    (hnew : new ∉ closed.map Prod.fst ++ [name]) :
    ((s.flush name s.buffer.length).create new).Holds enc (closed ++ [(name, items)]) new [] := by
  rw [List.mem_append, List.mem_singleton, not_or] at hnew
  obtain ⟨hother, hne⟩ := hnew
  have hempty : (s.flush name s.buffer.length).buffer = [] := List.drop_length
  have hstays : ∀ {file : ν}, file ≠ new →
      ((s.flush name s.buffer.length).create new).onDisk file =
        (s.flush name s.buffer.length).onDisk file :=
    fun hfile => Function.update_of_ne hfile ..
  refine ⟨fun file hfile => ?_, (holds_create new hempty).opened, ?_⟩
  · rcases List.mem_append.1 hfile with hfile | hfile
    · have hold : file.1 ≠ new := fun heq => hother (heq ▸ List.mem_map_of_mem hfile)
      rw [hstays hold, onDisk_flush_other (h.ne hfile), h.kept file hfile]
    · obtain rfl := List.mem_singleton.1 hfile
      rw [hstays (Ne.symm hne), onDisk_flush, List.take_length, h.opened]
  · rw [List.map_append, List.map_singleton, List.mem_append, List.mem_singleton, not_or]
    exact ⟨hother, hne⟩

end Shelf

end FzDaq.Machine
