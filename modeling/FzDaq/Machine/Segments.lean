import Mathlib

/-!
# Streams cut behind closing elements

A stream over any type in which some elements close a piece. `Segments` says that
a list of pieces and a rest are the stream, every piece closed by its last element
and by no other. A stream has one such cut only, so whatever cuts it element by
element depends on the stream and not on how it arrived.
-/

namespace FzDaq.Machine

universe u

variable {α : Type u} (closes : α → Bool)

/-- A piece ends with an element that closes it and holds no other. -/
def Closed (piece : List α) : Prop :=
  ∃ body x, piece = body ++ [x] ∧ closes x = true ∧ ∀ y ∈ body, closes y = false

/-- The stream `xs` is the pieces `done` followed by `rest`. -/
structure Segments (xs : List α) (done : List (List α)) (rest : List α) : Prop where
  stream : done.flatten ++ rest = xs
  closed : ∀ piece ∈ done, Closed closes piece
  pending : ∀ y ∈ rest, closes y = false

variable {closes} {xs ys rest rest' : List α} {done done' : List (List α)} {x : α}

namespace Segments

theorem nil : Segments closes [] [] [] := ⟨rfl, by simp, by simp⟩

/-- The next element does not close the pending piece. -/
theorem push (h : Segments closes xs done rest) (hx : closes x = false) :
    Segments closes (xs ++ [x]) done (rest ++ [x]) := by
  refine ⟨by rw [← h.stream, List.append_assoc], h.closed, fun y hy => ?_⟩
  rcases List.mem_append.1 hy with hy | hy
  · exact h.pending y hy
  · rw [List.mem_singleton.1 hy, hx]

/-- The next element closes the pending piece. -/
theorem close (h : Segments closes xs done rest) (hx : closes x = true) :
    Segments closes (xs ++ [x]) (done ++ [rest ++ [x]]) [] := by
  refine ⟨?_, fun piece hp => ?_, by simp⟩
  · simp [← h.stream]
  · rcases List.mem_append.1 hp with hp | hp
    · exact h.closed piece hp
    · exact ⟨rest, x, List.mem_singleton.1 hp, hx, h.pending⟩

theorem first_unique {us vs : List α} {y : α} (hu : ∀ z ∈ us, closes z = false)
    (hv : ∀ z ∈ vs, closes z = false) (hx : closes x = true) (hy : closes y = true)
    (h : us ++ x :: xs = vs ++ y :: ys) : us = vs ∧ x = y ∧ xs = ys := by
  induction us generalizing vs with
  | nil =>
      cases vs with
      | nil =>
          obtain ⟨rfl, rfl⟩ := List.cons.inj h
          exact ⟨rfl, rfl, rfl⟩
      | cons v vs =>
          obtain ⟨rfl, _⟩ := List.cons.inj h
          rw [hv x List.mem_cons_self] at hx
          cases hx
  | cons u us ih =>
      cases vs with
      | nil =>
          obtain ⟨rfl, _⟩ := List.cons.inj h
          rw [hu u List.mem_cons_self] at hy
          cases hy
      | cons v vs =>
          obtain ⟨rfl, htail⟩ := List.cons.inj h
          obtain ⟨rfl, rest⟩ := ih (fun z hz => hu z (List.mem_cons_of_mem _ hz))
            (fun z hz => hv z (List.mem_cons_of_mem _ hz)) htail
          exact ⟨rfl, rest⟩

theorem not_pending {piece : List α} (xs : List α) (hp : Closed closes piece)
    (hrest : ∀ y ∈ rest, closes y = false) : piece ++ xs ≠ rest := by
  rintro rfl
  obtain ⟨body, x, rfl, hx, _⟩ := hp
  rw [hrest x (by simp)] at hx
  cases hx

theorem unique (h : Segments closes xs done rest) (h' : Segments closes xs done' rest') :
    done = done' ∧ rest = rest' := by
  induction done generalizing xs done' with
  | nil =>
      cases done' with
      | nil => exact ⟨rfl, h.stream.trans h'.stream.symm⟩
      | cons piece done' =>
          refine absurd ?_ (not_pending (done'.flatten ++ rest')
            (h'.closed piece List.mem_cons_self) h.pending)
          rw [← List.append_assoc]
          exact h'.stream.trans h.stream.symm
  | cons piece done ih =>
      cases done' with
      | nil =>
          refine absurd ?_ (not_pending (done.flatten ++ rest)
            (h.closed piece List.mem_cons_self) h'.pending)
          rw [← List.append_assoc]
          exact h.stream.trans h'.stream.symm
      | cons piece' done' =>
          obtain ⟨body, x, rfl, hx, hbody⟩ := h.closed piece List.mem_cons_self
          obtain ⟨body', x', rfl, hx', hbody'⟩ := h'.closed piece' List.mem_cons_self
          have hstream := h.stream.trans h'.stream.symm
          simp only [List.flatten_cons, List.append_assoc, List.singleton_append] at hstream
          obtain ⟨rfl, rfl, htail⟩ := first_unique hbody hbody' hx hx' hstream
          obtain ⟨rfl, hrest⟩ := ih
            ⟨rfl, fun p hp => h.closed p (List.mem_cons_of_mem _ hp), h.pending⟩
            ⟨htail.symm, fun p hp => h'.closed p (List.mem_cons_of_mem _ hp), h'.pending⟩
          exact ⟨rfl, hrest⟩

theorem closed_concat_iff (hx : closes x = true) :
    Closed closes (rest ++ [x]) ↔ ∀ y ∈ rest, closes y = false := by
  constructor
  · rintro ⟨body, y, heq, -, hbody⟩
    obtain ⟨rfl, -⟩ := List.append_inj' heq rfl
    exact hbody
  · intro hrest
    exact ⟨rest, x, rfl, hx, hrest⟩

theorem append (h : Segments closes xs done rest) (h' : Segments closes (rest ++ ys) done' rest') :
    Segments closes (xs ++ ys) (done ++ done') rest' := by
  refine ⟨?_, fun piece hp => ?_, h'.pending⟩
  · rw [List.flatten_append, List.append_assoc, h'.stream, ← List.append_assoc, h.stream]
  · exact (List.mem_append.1 hp).elim (h.closed piece) (h'.closed piece)

end Segments

/-! ## The end of a stream -/

/-- What a stream has behind its last closing element. -/
def openTail (closes : α → Bool) (xs : List α) : List α := xs.rtakeWhile fun x => !closes x

theorem openTail_push (xs : List α) (hx : closes x = false) :
    openTail closes (xs ++ [x]) = openTail closes xs ++ [x] :=
  List.rtakeWhile_concat_pos _ _ _ (by simp [hx])

theorem openTail_open (xs : List α) : ∀ y ∈ openTail closes xs, closes y = false := by
  intro y hy
  simpa using List.mem_rtakeWhile_imp hy

/-- A piece at the end of a stream: it starts with the first element or behind a closing
one, and ends with the next closing one. -/
structure LastSegment (closes : α → Bool) (xs piece : List α) : Prop where
  closed : Closed closes piece
  starts : ∃ front, xs = front ++ piece ∧ ∀ y, front.getLast? = some y → closes y = true

/-- In front of what is behind the last closing element there is nothing, or that element. -/
theorem openTail_starts (closes : α → Bool) (xs : List α) :
    ∃ front, xs = front ++ openTail closes xs ∧
      ∀ y, front.getLast? = some y → closes y = true := by
  refine ⟨xs.rdropWhile fun x => !closes x, (List.rdropWhile_append_rtakeWhile ..).symm, ?_⟩
  intro y hy
  have hne : (xs.rdropWhile fun x => !closes x) ≠ [] := by
    intro hnil
    rw [hnil] at hy
    cases hy
  have hlast := List.rdropWhile_last_not (fun x => !closes x) xs hne
  rw [List.getLast?_eq_getLast_of_ne_nil hne, Option.some.injEq] at hy
  simpa [hy] using hlast

theorem openTail_eq_of_starts {front : List α} (hrest : ∀ y ∈ rest, closes y = false)
    (hfront : ∀ y, front.getLast? = some y → closes y = true) :
    openTail closes (front ++ rest) = rest := by
  induction rest using List.reverseRecOn with
  | nil =>
      rw [List.append_nil, openTail, List.rtakeWhile_eq_nil_iff]
      intro hne
      simpa using hfront _ (List.getLast?_eq_getLast_of_ne_nil hne)
  | append_singleton rest y ih =>
      rw [← List.append_assoc, openTail_push _ (hrest y (by simp)),
        ih fun z hz => hrest z (by simp [hz])]

theorem Segments.openTail_eq (h : Segments closes xs done rest) : openTail closes xs = rest := by
  rw [← h.stream]
  refine openTail_eq_of_starts h.pending fun y hy => ?_
  rcases List.eq_nil_or_concat done with rfl | ⟨done, piece, rfl⟩
  · cases hy
  · obtain ⟨body, x, rfl, hx, -⟩ := h.closed piece (by simp)
    simp only [List.concat_eq_append, List.flatten_append, List.flatten_singleton,
      ← List.append_assoc, List.getLast?_concat, Option.some.injEq] at hy
    rwa [← hy]

/-- Once a closing element comes, a pending piece is a segment if it is all that the stream
has behind the last closing element. -/
theorem lastSegment_concat_iff (hx : closes x = true) :
    LastSegment closes (xs ++ [x]) (rest ++ [x]) ↔ rest = openTail closes xs := by
  constructor
  · rintro ⟨hclosed, front, heq, hfront⟩
    rw [← List.append_assoc] at heq
    obtain ⟨rfl, -⟩ := List.append_inj' heq rfl
    exact (openTail_eq_of_starts ((Segments.closed_concat_iff hx).1 hclosed) hfront).symm
  · rintro rfl
    obtain ⟨front, heq, hfront⟩ := openTail_starts closes xs
    refine ⟨(Segments.closed_concat_iff hx).2 (openTail_open xs), front, ?_, hfront⟩
    rw [← List.append_assoc, ← heq]

end FzDaq.Machine
