import Mathlib

/-!
# Loops whose body may fault

A `while` loop over a state type: a guard, and a body that either yields the
next state or faults. The executable `run` spends one unit of fuel for each
turn; `Next`, `Reaches` and `Ends` are its relational form, in which runs are
reasoned about. Nothing here names a particular program.
-/

namespace FzDaq.Machine

open Relation

universe u v

/-- A loop: `halted` is the negated guard, `body` one turn. -/
structure Loop (σ : Type u) where
  halted : σ → Bool
  body : σ → Option σ

/-- What a bounded number of turns can lead to. -/
inductive Outcome (σ : Type u) where
  | ended (s : σ)
  | fault (s : σ)
  | running (s : σ)

def Outcome.map {σ : Type u} {τ : Type v} (f : σ → τ) : Outcome σ → Outcome τ
  | .ended s => .ended (f s)
  | .fault s => .fault (f s)
  | .running s => .running (f s)

theorem Outcome.map_eq_ended {σ : Type u} {τ : Type v} {f : σ → τ} {o : Outcome σ} {t : τ} :
    o.map f = .ended t ↔ ∃ s, o = .ended s ∧ f s = t := by
  cases o <;> simp [Outcome.map]

theorem Outcome.map_eq_fault {σ : Type u} {τ : Type v} {f : σ → τ} {o : Outcome σ} {t : τ} :
    o.map f = .fault t ↔ ∃ s, o = .fault s ∧ f s = t := by
  cases o <;> simp [Outcome.map]

namespace Loop

variable {σ : Type u} {τ : Type v} (M : Loop σ) (N : Loop τ)

/-- At most `fuel` turns from `s`. -/
def run : Nat → σ → Outcome σ
  | 0, s => if M.halted s then .ended s else .running s
  | fuel + 1, s =>
      if M.halted s then .ended s
      else match M.body s with
        | none => .fault s
        | some t => run fuel t

/-- One turn of the loop. -/
def Next (s t : σ) : Prop := M.halted s = false ∧ M.body s = some t

/-- Any number of turns. -/
def Reaches : σ → σ → Prop := ReflTransGen M.Next

/-- The loop started in `s` is left in `t`. -/
def Ends (s t : σ) : Prop := M.Reaches s t ∧ M.halted t = true

/-- The loop started in `s` comes to a turn that faults. -/
def Faults (s : σ) : Prop :=
  ∃ t, M.Reaches s t ∧ M.halted t = false ∧ M.body t = none

/-- The loop started in `s` makes a turn in the state `c`. -/
def Visits (s c : σ) : Prop := M.Reaches s c ∧ M.halted c = false

variable {M N}

theorem Next.deterministic : Relator.RightUnique M.Next := by
  rintro s t u ⟨_, ht⟩ ⟨_, hu⟩
  rw [ht] at hu
  exact Option.some.inj hu

theorem Reaches.refl (s : σ) : M.Reaches s s := ReflTransGen.refl

theorem Next.reaches {s t : σ} (h : M.Next s t) : M.Reaches s t := ReflTransGen.single h

theorem Reaches.trans {s t u : σ} (hst : M.Reaches s t) (htu : M.Reaches t u) :
    M.Reaches s u := ReflTransGen.trans hst htu

theorem Reaches.tail {s t u : σ} (hst : M.Reaches s t) (htu : M.Next t u) :
    M.Reaches s u := ReflTransGen.tail hst htu

theorem Reaches.cases_next {s t u : σ} (h : M.Reaches s t) (hnext : M.Next s u) :
    t = s ∨ M.Reaches u t := by
  rcases ReflTransGen.cases_head h with rfl | ⟨v, hsv, hvt⟩
  · exact .inl rfl
  · rw [Next.deterministic hnext hsv]
    exact .inr hvt

theorem Reaches.total {s t u : σ} (ht : M.Reaches s t) (hu : M.Reaches s u) :
    M.Reaches t u ∨ M.Reaches u t :=
  ReflTransGen.total_of_right_unique Next.deterministic ht hu

theorem Reaches.eq_of_halted {s t : σ} (h : M.Reaches s t) (hs : M.halted s = true) : t = s := by
  rcases ReflTransGen.cases_head h with rfl | ⟨u, hsu, _⟩
  · rfl
  · rw [hsu.1] at hs
    contradiction

theorem Reaches.to_end {s t e : σ} (ht : M.Reaches s t) (he : M.Ends s e) : M.Reaches t e := by
  rcases ht.total he.1 with h | h
  · exact h
  · rw [h.eq_of_halted he.2]
    exact Reaches.refl e

theorem Ends.unique {s t u : σ} (ht : M.Ends s t) (hu : M.Ends s u) : t = u :=
  (ht.1.to_end hu).eq_of_halted ht.2 |>.symm

/-! ## What has happened in a stretch of a run -/

/-- A turn with `P` has been made in the run from `s`, and every state since is `inside`. -/
inductive Since (M : Loop σ) (s : σ) (inside P : σ → Prop) : σ → Prop
  | turn {b c : σ} (hb : M.Visits s b) (hP : P b) (hnext : M.Next b c) (hc : inside c) :
      Since M s inside P c
  | stay {b c : σ} (hb : Since M s inside P b) (hnext : M.Next b c) (hc : inside c) :
      Since M s inside P c

theorem Since.reaches {s c : σ} {inside P : σ → Prop} (h : M.Since s inside P c) :
    M.Reaches s c := by
  induction h with
  | turn hb _ hnext _ => exact hb.1.tail hnext
  | stay _ hnext _ ih => exact ih.tail hnext

theorem Since.inside {s c : σ} {inside P : σ → Prop} (h : M.Since s inside P c) : inside c := by
  cases h with
  | turn _ _ _ hc => exact hc
  | stay _ _ hc => exact hc

/-- What the turns with `P` bring about and the turns inside of the stretch keep. -/
theorem Since.holds {s c : σ} {inside P Q : σ → Prop} (h : M.Since s inside P c)
    (hturn : ∀ b c, M.Visits s b → P b → M.Next b c → inside c → Q c)
    (hstay : ∀ b c, M.Visits s b → inside b → Q b → M.Next b c → inside c → Q c) : Q c := by
  induction h with
  | turn hb hP hnext hc => exact hturn _ _ hb hP hnext hc
  | stay hb hnext hc ih => exact hstay _ _ ⟨hb.reaches, hnext.1⟩ hb.inside ih hnext hc

/-- What comes about in a stretch by turns with `P` only. -/
theorem Reaches.since {s c : σ} {inside P Q : σ → Prop} (h : M.Reaches s c)
    (hentry : inside s → ¬ Q s)
    (hnext : ∀ b c, M.Visits s b → M.Next b c → inside c → Q c → P b ∨ (inside b ∧ Q b))
    (hc : inside c) (hQ : Q c) : M.Since s inside P c := by
  induction h with
  | refl => exact absurd hQ (hentry hc)
  | tail hreach hcd ih =>
      have hb : M.Visits s _ := ⟨hreach, hcd.1⟩
      rcases hnext _ _ hb hcd hc hQ with hP | ⟨hin, hQb⟩
      · exact .turn hb hP hcd hc
      · exact .stay (ih hin hQb) hcd hc

/-! ## Fuel -/

theorem ends_of_run {fuel : Nat} {s t : σ} (h : M.run fuel s = .ended t) : M.Ends s t := by
  induction fuel generalizing s with
  | zero =>
      unfold run at h
      split at h
      · cases h
        exact ⟨Reaches.refl _, by assumption⟩
      · cases h
  | succ fuel ih =>
      unfold run at h
      split at h
      · cases h
        exact ⟨Reaches.refl _, by assumption⟩
      · rename_i hs
        cases hb : M.body s with
        | none =>
            rw [hb] at h
            cases h
        | some u =>
            rw [hb] at h
            have hnext : M.Next s u := ⟨by simpa using hs, hb⟩
            obtain ⟨hut, ht⟩ := ih h
            exact ⟨hnext.reaches.trans hut, ht⟩

theorem faults_of_run {fuel : Nat} {s t : σ} (h : M.run fuel s = .fault t) : M.Faults s := by
  induction fuel generalizing s with
  | zero =>
      unfold run at h
      split at h <;> cases h
  | succ fuel ih =>
      unfold run at h
      split at h
      · cases h
      · rename_i hs
        have hhalt : M.halted s = false := by simpa using hs
        cases hb : M.body s with
        | none => exact ⟨s, Reaches.refl s, hhalt, hb⟩
        | some u =>
            rw [hb] at h
            obtain ⟨v, huv, hv⟩ := ih h
            exact ⟨v, (Next.reaches ⟨hhalt, hb⟩).trans huv, hv⟩

theorem visits_of_run {fuel : Nat} {s t : σ} (h : M.run fuel s = .running t) : M.Visits s t := by
  induction fuel generalizing s with
  | zero =>
      unfold run at h
      split at h
      · cases h
      · rename_i hs
        cases h
        exact ⟨Reaches.refl _, by simpa using hs⟩
  | succ fuel ih =>
      unfold run at h
      split at h
      · cases h
      · rename_i hs
        cases hb : M.body s with
        | none =>
            rw [hb] at h
            cases h
        | some u =>
            rw [hb] at h
            obtain ⟨hut, ht⟩ := ih h
            exact ⟨(Next.reaches ⟨by simpa using hs, hb⟩).trans hut, ht⟩

theorem run_of_ends {s t : σ} (h : M.Ends s t) : ∃ fuel, M.run fuel s = .ended t := by
  obtain ⟨hst, ht⟩ := h
  induction hst using ReflTransGen.head_induction_on with
  | refl => exact ⟨0, by simp [run, ht]⟩
  | head hsu _ ih =>
      obtain ⟨fuel, hfuel⟩ := ih
      exact ⟨fuel + 1, by simp [run, hsu.1, hsu.2, hfuel]⟩

/-- The states in which `run` makes a turn. -/
def trace (M : Loop σ) : Nat → σ → List σ
  | 0, _ => []
  | fuel + 1, s =>
      if M.halted s then []
      else s :: match M.body s with
        | none => []
        | some t => trace M fuel t

theorem Visits.mem_trace {fuel : Nat} {s t c : σ} (hc : M.Visits s c)
    (hrun : M.run fuel s = .ended t) : c ∈ M.trace fuel s := by
  obtain ⟨hsc, hhalt⟩ := hc
  induction hsc using ReflTransGen.head_induction_on generalizing fuel with
  | refl =>
      cases fuel with
      | zero => simp [run, hhalt] at hrun
      | succ fuel => simp [trace, hhalt]
  | head hab _ ih =>
      cases fuel with
      | zero => simp [run, hab.1] at hrun
      | succ fuel =>
          simp only [run, hab.1, hab.2] at hrun
          simp only [trace, hab.1, hab.2]
          exact List.mem_cons_of_mem _ (ih hrun)

/-! ## Invariants, termination and divergence -/

/-- A property that every turn of the run keeps holds in every state of it. The
turn may use that it is one of this run. -/
theorem Reaches.invariant {s t : σ} (hst : M.Reaches s t) (P : σ → Prop) (hs : P s)
    (hstep : ∀ c d, M.Reaches s c → M.Next c d → P c → P d) : P t := by
  induction hst with
  | refl => exact hs
  | tail hsc hcd ih => exact hstep _ _ hsc hcd ih

/-- A measure that every turn of the run lowers bounds the run: it is left, or it faults. -/
theorem ends_or_faults_of_measure {s : σ} (μ : σ → Nat)
    (hμ : ∀ c d, M.Reaches s c → M.Next c d → μ d < μ c) : (∃ t, M.Ends s t) ∨ M.Faults s := by
  suffices h : ∀ n c, μ c = n → M.Reaches s c → (∃ t, M.Ends s t) ∨ M.Faults s from
    h _ s rfl (Reaches.refl s)
  intro n
  induction n using Nat.strongRecOn with
  | ind n ih =>
      intro c hc hsc
      cases hh : M.halted c with
      | true => exact .inl ⟨c, hsc, hh⟩
      | false =>
          cases hb : M.body c with
          | none => exact .inr ⟨c, hsc, hh, hb⟩
          | some d =>
              have hcd : M.Next c d := ⟨hh, hb⟩
              exact ih (μ d) (hc ▸ hμ c d hsc hcd) d rfl (hsc.tail hcd)

/-- A run on which every turn is answered by a state of the same kind does not fault. -/
theorem not_faults_of_turns {P : σ → Prop}
    (hturn : ∀ c, P c → M.halted c = false → ∃ d, M.Next c d ∧ P d) {s : σ} (hs : P s) :
    ¬ M.Faults s := by
  rintro ⟨t, hst, hhalt, hnone⟩
  have ht : P t := by
    refine hst.invariant P hs fun a b _ hab ha => ?_
    obtain ⟨b', hab', hb'⟩ := hturn a ha hab.1
    rwa [Next.deterministic hab hab']
  obtain ⟨d, hnext, _⟩ := hturn t ht hhalt
  rw [hnext.2] at hnone
  cases hnone

/-- A set of states that the loop cannot leave and in which it is not halted is never left. -/
theorem not_ends_of_trap {P : σ → Prop} (htrap : ∀ c, P c → ∃ d, M.Next c d ∧ P d)
    {s c : σ} (hsc : M.Reaches s c) (hc : P c) (t : σ) : ¬ M.Ends s t := by
  intro hend
  have hct := hsc.to_end hend
  have ht : P t := by
    refine hct.invariant P hc fun a b _ hab ha => ?_
    obtain ⟨b', hab', hb'⟩ := htrap a ha
    rwa [Next.deterministic hab hab']
  obtain ⟨_, hnext, _⟩ := htrap t ht
  exact absurd hend.2 (by simp [hnext.1])

/-- A forward simulation: the turns of one run are answered by turns of the other, so
that the second ends where the first does. -/
theorem Ends.simulate {s t : σ} {s' : τ} (hst : M.Ends s t) (R : σ → τ → Prop) (hs : R s s')
    (hstep : ∀ c c' d, M.Reaches s c → R c c' → M.Next c d → ∃ d', N.Reaches c' d' ∧ R d d')
    (hend : ∀ c c', R c c' → M.halted c = true → ∃ d', N.Ends c' d' ∧ R c d') :
    ∃ t', N.Ends s' t' ∧ R t t' := by
  have hrun : ∃ c', N.Reaches s' c' ∧ R t c' :=
    hst.1.invariant (fun c => ∃ c', N.Reaches s' c' ∧ R c c') ⟨s', Reaches.refl s', hs⟩
      fun c d hc hcd ⟨c', hc', hR⟩ => by
        obtain ⟨d', hd', hRd⟩ := hstep c c' d hc hR hcd
        exact ⟨d', hc'.trans hd', hRd⟩
  obtain ⟨c', hc', hR⟩ := hrun
  obtain ⟨t', ⟨ht', hhalt⟩, hRt⟩ := hend t c' hR hst.2
  exact ⟨t', ⟨hc'.trans ht', hhalt⟩, hRt⟩

end Loop

end FzDaq.Machine
