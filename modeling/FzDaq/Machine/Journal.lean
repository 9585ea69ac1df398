import Mathlib

/-!
# Journals in volumes

Entries are written by one owner after another into one volume after another. A new
owner may take over the volume of the old one; a new volume is empty. The entries of
two owners stay in different volumes exactly if nothing is written into a volume that
was taken over with entries in it. Entries of owner 0 belong to nobody.
-/

namespace FzDaq.Machine

/-- `used`: the volume holds an entry that belongs to somebody; `carried`: it holds one
of an earlier owner. -/
structure Journal where
  owner : Nat := 0
  volume : Nat := 0
  used : Bool := false
  carried : Bool := false
  entries : List (Nat × Nat) := []
  deriving DecidableEq, Repr

namespace Journal

inductive Event where
  | nextOwner
  | nextVolume
  | write
  deriving DecidableEq, Repr

def step (j : Journal) : Event → Journal
  | .nextOwner => { j with owner := j.owner + 1, carried := j.used }
  | .nextVolume => { j with volume := j.volume + 1, used := false, carried := false }
  | .write =>
    { j with
      entries := j.entries ++ [(j.owner, j.volume)]
      used := j.used || decide (0 < j.owner) }

def run (j : Journal) (es : List Event) : Journal := es.foldl step j

variable {j : Journal} {e : Event} {es es' : List Event}

theorem run_append : j.run (es ++ es') = (j.run es).run es' :=
  List.foldl_append ..

/-- No volume holds entries of two owners. -/
def Exclusive (entries : List (Nat × Nat)) : Prop :=
  ∀ a ∈ entries, ∀ b ∈ entries, 0 < a.1 → 0 < b.1 → a.1 ≠ b.1 → a.2 ≠ b.2

/-- Nothing is written into a volume with entries of an earlier owner. -/
def Careful (j : Journal) : List Event → Prop
  | [] => True
  | e :: es => (e = .write → j.carried = false) ∧ (j.step e).Careful es

theorem careful_append : j.Careful (es ++ es') ↔ j.Careful es ∧ (j.run es).Careful es' := by
  induction es generalizing j with
  | nil => simp [Careful, run]
  | cons e es ih =>
    simp only [List.cons_append, Careful, ih, and_assoc]
    rfl

/-- What the two flags say of the entries. -/
structure Sound (j : Journal) : Prop where
  owners : ∀ a ∈ j.entries, a.1 ≤ j.owner
  volumes : ∀ a ∈ j.entries, a.2 ≤ j.volume
  used : j.used = true ↔ ∃ a ∈ j.entries, 0 < a.1 ∧ a.2 = j.volume
  carried : j.carried = true ↔ ∃ a ∈ j.entries, 0 < a.1 ∧ a.1 < j.owner ∧ a.2 = j.volume

theorem sound_empty : Sound {} :=
  ⟨by simp, by simp, by simp, by simp⟩

theorem Sound.nextOwner (h : j.Sound) : (j.step .nextOwner).Sound where
  owners a ha := Nat.le_succ_of_le (h.owners a ha)
  volumes := h.volumes
  used := h.used
  carried := by
    change j.used = true ↔ ∃ a ∈ j.entries, 0 < a.1 ∧ a.1 < j.owner + 1 ∧ a.2 = j.volume
    rw [h.used]
    constructor
    · rintro ⟨a, ha, hpos, hvol⟩
      exact ⟨a, ha, hpos, Nat.lt_succ_of_le (h.owners a ha), hvol⟩
    · rintro ⟨a, ha, hpos, _, hvol⟩
      exact ⟨a, ha, hpos, hvol⟩

theorem Sound.nextVolume (h : j.Sound) : (j.step .nextVolume).Sound := by
  have hold : ∀ a ∈ j.entries, a.2 ≠ j.volume + 1 := by
    intro a ha heq
    have := h.volumes a ha
    omega
  refine ⟨h.owners, fun a ha => Nat.le_succ_of_le (h.volumes a ha), ?_, ?_⟩
  · change false = true ↔ ∃ a ∈ j.entries, 0 < a.1 ∧ a.2 = j.volume + 1
    constructor
    · intro hfalse
      cases hfalse
    · rintro ⟨a, ha, -, hvol⟩
      exact absurd hvol (hold a ha)
  · change false = true ↔ ∃ a ∈ j.entries, 0 < a.1 ∧ a.1 < j.owner ∧ a.2 = j.volume + 1
    constructor
    · intro hfalse
      cases hfalse
    · rintro ⟨a, ha, -, -, hvol⟩
      exact absurd hvol (hold a ha)

theorem Sound.write (h : j.Sound) : (j.step .write).Sound := by
  refine ⟨?_, ?_, ?_, ?_⟩
  · intro a ha
    rcases List.mem_append.1 ha with ha | ha
    · exact h.owners a ha
    · rw [List.mem_singleton.1 ha]
      exact Nat.le_refl _
  · intro a ha
    rcases List.mem_append.1 ha with ha | ha
    · exact h.volumes a ha
    · rw [List.mem_singleton.1 ha]
      exact Nat.le_refl _
  · change (j.used || decide (0 < j.owner)) = true ↔
      ∃ a ∈ j.entries ++ [(j.owner, j.volume)], 0 < a.1 ∧ a.2 = j.volume
    rw [Bool.or_eq_true, h.used, decide_eq_true_eq]
    constructor
    · rintro (⟨a, ha, hpos, hvol⟩ | hpos)
      · exact ⟨a, List.mem_append_left _ ha, hpos, hvol⟩
      · exact ⟨_, List.mem_append_right _ (List.mem_singleton.2 rfl), hpos, rfl⟩
    · rintro ⟨a, ha, hpos, hvol⟩
      rcases List.mem_append.1 ha with ha | ha
      · exact .inl ⟨a, ha, hpos, hvol⟩
      · rw [List.mem_singleton.1 ha] at hpos
        exact .inr hpos
  · change j.carried = true ↔
      ∃ a ∈ j.entries ++ [(j.owner, j.volume)], 0 < a.1 ∧ a.1 < j.owner ∧ a.2 = j.volume
    rw [h.carried]
    constructor
    · rintro ⟨a, ha, hrest⟩
      exact ⟨a, List.mem_append_left _ ha, hrest⟩
    · rintro ⟨a, ha, hpos, hlt, hvol⟩
      rcases List.mem_append.1 ha with ha | ha
      · exact ⟨a, ha, hpos, hlt, hvol⟩
      · rw [List.mem_singleton.1 ha] at hlt
        exact absurd hlt (Nat.lt_irrefl _)

theorem Sound.step (h : j.Sound) (e : Event) : (j.step e).Sound := by
  cases e with
  | nextOwner => exact h.nextOwner
  | nextVolume => exact h.nextVolume
  | write => exact h.write

theorem Sound.run (h : j.Sound) (es : List Event) : (j.run es).Sound := by
  induction es generalizing j with
  | nil => exact h
  | cons e es ih => exact ih (h.step e)

/-- One entry more keeps the volumes exclusive unless an earlier owner has one there. -/
theorem exclusive_write (h : j.Sound) :
    Exclusive (j.step .write).entries ↔ Exclusive j.entries ∧ j.carried = false := by
  have hnew : (j.owner, j.volume) ∈ (j.step .write).entries :=
    List.mem_append_right _ (List.mem_singleton.2 rfl)
  constructor
  · intro hex
    refine ⟨fun a ha b hb => hex a (List.mem_append_left _ ha) b (List.mem_append_left _ hb), ?_⟩
    rw [← Bool.not_eq_true, h.carried]
    rintro ⟨a, ha, hpos, hlt, hvol⟩
    exact hex a (List.mem_append_left _ ha) _ hnew hpos (by simp; omega) (by simp; omega) hvol
  · rintro ⟨hex, hcarried⟩
    -- An older entry in the volume is one of the owner, or of nobody.
    have hmine : ∀ a ∈ j.entries, 0 < a.1 → a.1 ≠ j.owner → a.2 ≠ j.volume := by
      intro a ha hpos hne hvol
      have hle := h.owners a ha
      rw [← Bool.not_eq_true, h.carried] at hcarried
      exact hcarried ⟨a, ha, hpos, by omega, hvol⟩
    intro a ha b hb hpa hpb hne
    rcases List.mem_append.1 ha with ha | ha <;> rcases List.mem_append.1 hb with hb | hb
    · exact hex a ha b hb hpa hpb hne
    · rw [List.mem_singleton.1 hb] at hne ⊢
      exact hmine a ha hpa hne
    · rw [List.mem_singleton.1 ha] at hne ⊢
      exact (hmine b hb hpb hne.symm).symm
    · rw [List.mem_singleton.1 ha, List.mem_singleton.1 hb] at hne
      exact absurd rfl hne

theorem exclusive_step (h : j.Sound) :
    Exclusive (j.step e).entries ↔ Exclusive j.entries ∧ (e = .write → j.carried = false) := by
  cases e with
  | nextOwner => simp [step]
  | nextVolume => simp [step]
  | write => simp [exclusive_write h]

theorem exclusive_run (h : j.Sound) :
    Exclusive (j.run es).entries ↔ Exclusive j.entries ∧ j.Careful es := by
  induction es generalizing j with
  | nil => simp [run, Careful]
  | cons e es ih =>
    change Exclusive ((j.step e).run es).entries ↔ _
    rw [ih (h.step e), exclusive_step h, Careful, and_assoc]

end Journal

end FzDaq.Machine
