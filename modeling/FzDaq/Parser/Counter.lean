import FzDaq.Parser.Stage

/-!
# One event counter

The counter of an event is kept in `tmp_ec`, in the `ec` of the event and in the
`ec` of every hit. The EC words behind a FEE and at the head of a further block
are stored without a comparison ("verify (tmp_ec == ev->ec())" is a comment), so
a good event is made of one counter exactly if the words happen to agree.
-/

namespace FzDaq.Parser

open Machine

/-- Every hit of the block carries the counter `ec`. -/
def FzBlock.HasEc (ec : Option UInt32) (b : FzBlock) : Prop :=
  ∀ r ∈ b.fee, ∀ h ∈ r.hit, FzHit.ec h = ec

instance (ec : Option UInt32) (b : FzBlock) : Decidable (b.HasEc ec) :=
  inferInstanceAs (Decidable (∀ r ∈ b.fee, ∀ h ∈ r.hit, FzHit.ec h = ec))

namespace Fsm

variable {E : Env} {s t r : Fsm} {ch : Chunk} {fuel : Nat}

/-- The turn stores the counter of an EC word. -/
def StoresEc (E : Env) (c : Fsm) (w : Word) : Prop :=
  c.Takes E w .t02 ∨ c.Takes E w .t13 ∨ c.Takes E w .t17

/-- From here on the event under construction is not thrown away. -/
def Lasting (E : Env) (c : Fsm) : Prop :=
  ∀ d x, E.loop.Visits c d → ¬ d.Takes E x .notValid

/-- `w` is one of the EC words of the event that the call delivers. -/
def EcWord (E : Env) (s c : Fsm) (w : Word) : Prop :=
  E.loop.Visits (E.entry s) c ∧ c.StoresEc E w ∧ c.Lasting E

/-- The comparison that `trans13` and `trans17` leave out. -/
def EcAgrees (E : Env) (c : Fsm) : Prop :=
  ∀ w, c.Takes E w .t13 ∨ c.Takes E w .t17 → ecOf w = c.tmpEc

/-- All that has been built carries the counter of the last EC word. -/
def OneEc (s : Fsm) (σ : Site) : Prop :=
  match σ with
  | .none => True
  | .blk bs b => s.ev.ec = some s.tmpEc.toUInt32 ∧ (∀ x ∈ bs, FzBlock.HasEc s.ev.ec x) ∧
      b.HasEc s.ev.ec
  | .hit bs b r h => s.ev.ec = some s.tmpEc.toUInt32 ∧ (∀ x ∈ bs, FzBlock.HasEc s.ev.ec x) ∧
      b.HasEc s.ev.ec ∧ (∀ x ∈ r.hit, FzHit.ec x = s.ev.ec) ∧ h.ec = s.ev.ec
  | .data bs b r h _ => s.ev.ec = some s.tmpEc.toUInt32 ∧ (∀ x ∈ bs, FzBlock.HasEc s.ev.ec x) ∧
      b.HasEc s.ev.ec ∧ (∀ x ∈ r.hit, FzHit.ec x = s.ev.ec) ∧ h.ec = s.ev.ec
  | .fee bs b r => s.ev.ec = some s.tmpEc.toUInt32 ∧ (∀ x ∈ bs, FzBlock.HasEc s.ev.ec x) ∧
      b.HasEc s.ev.ec ∧ ∀ x ∈ r.hit, FzHit.ec x = s.ev.ec
  | .done bs => s.ev.ec = some s.tmpEc.toUInt32 ∧ ∀ x ∈ bs, FzBlock.HasEc s.ev.ec x

theorem OneEc.advance {σ : Site} (hc : s.OneEc σ) : s.advance.OneEc σ := hc

theorem oneEc_congr {σ : Site} (htmp : t.tmpEc = s.tmpEc) (hev : t.ev.ec = s.ev.ec) :
    t.OneEc σ ↔ s.OneEc σ := by
  unfold OneEc
  rw [htmp, hev]

theorem OneEc.step_kept {w : Word} {tr : Trans} {σ σ' : Site} (hc : s.OneEc σ)
    (hσ : Site.Step E.evformat s t w tr σ σ') (htr : tr ∉ [.notValid, .t02, .t13, .t17]) :
    s.OneEc σ' := by
  cases hσ with
  | reset | t02 | t13 | t17 => simp at htr
  | t01 | t04 | t05Dettag | t05Trigpat | t06 | t07 | t08 | t14 | t15 => exact hc
  | t03 =>
      obtain ⟨heq, hbs, hfees⟩ := hc
      exact ⟨heq, hbs, hfees, by simp [newFee], heq.symm⟩
  | t09 | t10 =>
      obtain ⟨heq, hbs, hfees, hhits, hhit⟩ := hc
      exact ⟨heq, hbs, hfees, forall_mem_concat hhits hhit, by rw [heq]; rfl⟩
  | t11 =>
      obtain ⟨heq, hbs, hfees, hhits, hhit⟩ := hc
      exact ⟨heq, hbs, hfees, forall_mem_concat hhits hhit⟩
  | t12 =>
      obtain ⟨heq, hbs, hfees, hhits⟩ := hc
      exact ⟨heq, hbs, forall_mem_concat hfees hhits⟩
  | t16 =>
      obtain ⟨heq, hbs, hfees⟩ := hc
      exact ⟨heq, forall_mem_concat hbs hfees⟩
  | t16Trigger => exact ⟨hc.1, hc.2.1⟩

theorem OneEc.step {w : Word} {tr : Trans} {σ σ' : Site} (hc : s.OneEc σ)
    (htakes : s.Takes E w tr) (hfires : Fires E s w tr t)
    (hσ : Site.Step E.evformat s t w tr σ σ') (hturn : s.EcAgrees E) : t.OneEc σ' := by
  by_cases htr : tr ∈ [.notValid, .t02, .t13, .t17]
  · cases hσ with
    | reset => trivial
    | t02 =>
        cases hfires
        exact ⟨rfl, by simp, by simp [newBlk, FzBlock.HasEc]⟩
    | t13 =>
        have hec := hturn w (.inl htakes)
        cases hfires
        obtain ⟨heq, hrest⟩ := hc
        exact ⟨heq.trans (by rw [← hec]; rfl), hrest⟩
    | t17 =>
        have hec := hturn w (.inr htakes)
        cases hfires
        obtain ⟨heq, hbs⟩ := hc
        rw [← hec] at heq
        refine ⟨rfl, ?_, by simp [newBlk, FzBlock.HasEc]⟩
        rw [heq] at hbs
        exact hbs
    | _ => simp at htr
  · have hregid : tr ≠ .t18 := by
      rintro rfl
      cases hσ
    have hframe := hfires.frame htakes.1 (by simp at htr ⊢; tauto)
    exact (oneEc_congr hframe.tmpEc hframe.ec).2 (hc.step_kept hσ htr)

/-! ## Runs -/

theorem Lasting.head {c d : Fsm} (hcd : E.loop.Next c d) (hd : d.Lasting E)
    (hreset : ∀ x, ¬ c.Takes E x .notValid) : c.Lasting E := by
  rintro e x ⟨hce, he⟩ htakes
  rcases Relation.ReflTransGen.cases_head hce with rfl | ⟨d', hcd', hde⟩
  · exact hreset x htakes
  · rw [Loop.Next.deterministic hcd' hcd] at hde
    exact hd e x ⟨hde, he⟩ htakes

theorem Lasting.of_reaches {c d : Fsm} (hc : c.Lasting E) (hcd : E.loop.Reaches c d) :
    d.Lasting E := fun e x ⟨hde, he⟩ => hc e x ⟨hcd.trans hde, he⟩

theorem visits_oneEc (hE : E.Carries ch)
    (hturns : ∀ c, E.loop.Visits (E.entry s) c → c.Lasting E → c.EcAgrees E) {c : Fsm}
    (hc : E.loop.Visits (E.entry s) c) : ∃ σ, c.At E σ ∧ (c.Lasting E → c.OneEc σ) := by
  refine visits_site hE (fun c σ => c.Lasting E → c.OneEc σ) (fun _ => trivial) ?_ ?_ hc
  · intro c σ hempty hnext hI hlast
    exact (hI (hlast.head hnext fun x => hempty.not_takes)).advance
  · intro c w tr u σ σ' hvisit htakes hfires hnext ha hσ hI hlast
    by_cases hreset : tr = .notValid
    · subst hreset
      cases hσ
      trivial
    · have hc := hlast.head hnext fun x hx => hreset (htakes.unique hx).2.symm
      exact ((hI hc).step htakes hfires hσ (hturns c hvisit hc)).advance

theorem target_ne_idle {tr : Trans} (hreset : tr ≠ .notValid) (hidle : tr ≠ .t01)
    (hregid : tr ≠ .t18) : tr.target ≠ .idle := by
  cases tr <;> simp_all [Trans.target]

/-- The counter of an EC word of a lasting event stays in `tmp_ec`. -/
theorem EcWord.tmpEc (hE : E.Carries ch)
    (hturns : ∀ c, E.loop.Visits (E.entry s) c → c.Lasting E → c.EcAgrees E) {c d : Fsm}
    {w : Word} (hc : EcWord E s c w) (hcd : E.loop.Reaches c d) (hne : d ≠ c)
    (hd : E.loop.halted d = false) : d.tmpEc = ecOf w := by
  obtain ⟨hvisit, hstores, hlast⟩ := hc
  have hsize (e : Fsm) (he : E.loop.halted e = false) : ¬ E.eventSize ≤ e.eventIndex := by
    simpa [Env.loop] using he
  let P (e : Fsm) : Prop := (e.tmpEc = ecOf w ∧ e.stateId ≠ .idle) ∨ E.eventSize ≤ e.eventIndex
  rcases Relation.ReflTransGen.cases_head hcd with rfl | ⟨c₁, hcc₁, hc₁d⟩
  · exact absurd rfl hne
  have hstart : P c₁ := by
    obtain ⟨_, ⟨hempty, _⟩ | ⟨x, tr, u, htakes, hfires, rfl⟩⟩ := next_cases hcc₁
    · rcases hstores with h | h | h <;> exact absurd h hempty.not_takes
    · rcases hstores with h | h | h <;> obtain ⟨rfl, rfl⟩ := h.unique htakes <;> cases hfires <;>
        exact .inl ⟨rfl, by simp [advance]⟩
  have hP : P d := by
    refine Loop.Reaches.invariant hc₁d P hstart fun e f hce hef hP => ?_
    obtain ⟨htmp, hidle⟩ := hP.resolve_right (hsize e hef.1)
    have hreach : E.loop.Reaches c e := hcc₁.reaches.trans hce
    have he : E.loop.Visits (E.entry s) e := ⟨hvisit.1.trans hreach, hef.1⟩
    have hlast' := hlast.of_reaches hreach
    obtain ⟨hidx, ⟨_, rfl⟩ | ⟨x, tr, u, htakes, hfires, rfl⟩⟩ := next_cases hef
    · exact .inl ⟨htmp, hidle⟩
    · have hstate := ttable_eq htakes.2.2
      by_cases hregid : tr = .t18
      · subst hregid
        obtain ⟨hend, _⟩ := hE.regid_last hidx htakes.1 htakes.regid
        have hmove := hfires.eventIndex (by decide)
        exact .inr (Nat.le_of_eq (hend.symm.trans (congrArg (· + 1) hmove.symm)))
      have hreset : tr ≠ .notValid := fun h => hlast' e x ⟨Loop.Reaches.refl e, hef.1⟩ (h ▸ htakes)
      have hnot : tr ≠ .t01 := fun h => hidle (by subst h; exact hstate.1)
      have hnot' : tr ≠ .t02 := fun h => hidle (by subst h; exact hstate.1)
      have hid : u.stateId ≠ .idle := by
        rw [hfires.stateId (fun h => absurd h hnot)]
        exact target_ne_idle hreset hnot hregid
      refine .inl ⟨?_, hid⟩
      by_cases hec : tr = .t13 ∨ tr = .t17
      · have hagree := hturns e he hlast' x
        rcases hec with rfl | rfl <;> cases hfires
        · exact (hagree (.inl htakes)).trans htmp
        · exact (hagree (.inr htakes)).trans htmp
      · have hframe := hfires.frame htakes.1 (by simp_all)
        exact hframe.tmpEc.trans htmp
  exact (hP.resolve_right (hsize d hd)).1

/-- Outside of idle `tmp_ec` comes from an EC word, and no reset lies between. -/
theorem visits_ecWord (hE : E.Carries ch) {c : Fsm} (hc : E.loop.Visits (E.entry s) c) :
    c.stateId ≠ .idle → ∃ c' w, E.loop.Visits (E.entry s) c' ∧ c'.StoresEc E w ∧
      c.tmpEc = ecOf w ∧ (c.Lasting E → c'.Lasting E) := by
  refine visits_induction hE (fun c => c.stateId ≠ .idle → ∃ c' w, E.loop.Visits (E.entry s) c' ∧
    c'.StoresEc E w ∧ c.tmpEc = ecOf w ∧ (c.Lasting E → c'.Lasting E)) ?_ ?_ ?_ hc
  · intro hidle
    exact absurd rfl hidle
  · intro c hempty hnext hP hidle
    obtain ⟨c', w, hc', hstores, htmp, hlast⟩ := hP hidle
    exact ⟨c', w, hc', hstores, htmp,
      fun h => hlast (h.head hnext fun x => hempty.not_takes)⟩
  · intro c w tr u hc htakes hregid hfires hnext hP hidle
    have hstate := ttable_eq htakes.2.2
    have hreset : tr ≠ .notValid := by
      rintro rfl
      cases hfires
      exact hidle rfl
    have hlast (h : u.advance.Lasting E) : c.Lasting E :=
      h.head hnext fun x hx => hreset (htakes.unique hx).2.symm
    by_cases hstores : tr = .t02 ∨ tr = .t13 ∨ tr = .t17
    · refine ⟨c, w, hc, ?_, ?_, hlast⟩
      · rcases hstores with rfl | rfl | rfl
        · exact .inl htakes
        · exact .inr (.inl htakes)
        · exact .inr (.inr htakes)
      · rcases hstores with rfl | rfl | rfl <;> cases hfires <;> rfl
    · have hframe := hfires.frame htakes.1 (by simp_all)
      have hbefore : c.stateId ≠ .idle := by
        intro hs
        have hid : tr = .t01 := by
          have := htakes.2.2
          rw [hs] at this
          cases hw : getwordId w <;> simp_all [ttable]
        subst hid
        cases hfires
        exact hidle hs
      obtain ⟨c', w', hc', hstores', htmp, hlast'⟩ := hP hbefore
      exact ⟨c', w', hc', hstores', hframe.tmpEc.trans htmp, fun h => hlast' (hlast h)⟩

/-- A good event is made of one event counter exactly if every EC word behind a
FEE or at the head of a further block carries the counter of the one before it. -/
theorem good_oneEc_iff (hE : E.Carries ch) (hrun : s.parse E fuel = .ended r)
    (hgood : s.report.eventsGood < r.report.eventsGood) :
    ((∀ c w, EcWord E s c w → r.ev.ec = some (ecOf w).toUInt32) ∧
        ∀ b ∈ r.ev.block, b.HasEc r.ev.ec) ↔
      ∀ c, E.loop.Visits (E.entry s) c → c.Lasting E → c.EcAgrees E := by
  obtain ⟨e, he, htakes, _, hev⟩ := good_verdict hE hrun hgood
  have hlast : e.Lasting E := by
    intro d x hd hreset
    rw [htakes.last hE hd] at hreset
    exact absurd (htakes.unique hreset).2 (by decide)
  constructor
  · rintro ⟨hwords, _⟩ c hc hlast' w hw
    have hcw : EcWord E s c w :=
      ⟨hc, hw.elim (fun h => .inr (.inl h)) fun h => .inr (.inr h), hlast'⟩
    have hidle : c.stateId ≠ .idle := by
      rcases hw with h | h <;> simp [(ttable_eq h.2.2).1]
    obtain ⟨c', w', hc', hstores, htmp, hlast''⟩ := visits_ecWord hE hc hidle
    have h₁ := hwords c w hcw
    have h₂ := hwords c' w' ⟨hc', hstores, hlast'' hlast'⟩
    rw [h₁, Option.some.injEq] at h₂
    rw [htmp]
    exact UInt16.toUInt32_inj.1 h₂
  · intro hturns
    obtain ⟨σ, ha, hone⟩ := visits_oneEc hE hturns he
    obtain rfl := ha.of_s10 htakes.stateId_s10
    obtain ⟨hec, hbs⟩ := hone hlast
    rw [hev]
    refine ⟨fun c w hcw => ?_, hbs⟩
    have hce : E.loop.Reaches c e := by
      rcases hcw.1.1.total he.1 with h | h
      · exact h
      · rw [htakes.last hE ⟨h, hcw.1.2⟩]
        exact Loop.Reaches.refl e
    have hne : e ≠ c := by
      rintro rfl
      rcases hcw.2.1 with h | h | h <;> exact absurd (htakes.unique h).2 (by decide)
    change e.ev.ec = _
    rw [hec, hcw.tmpEc hE hturns hce hne he.2]

/-- Two blocks of the event counter 1. -/
def twoBlocks : Chunk where
  body := [0xE001, 0x9800, 1, 2, 3, 0x9000, 0x3030, 0xA007, 0xBE90, 0xE001, 0xC001, 0xA00D, 0xDED0, 
    0xE001, 0x9802, 4, 5, 6, 0x9002, 0x3030, 0xA007, 0xBEE0, 0xE001, 0xC002, 0xA00D, 0xD990]
  regid := 0xC800
  regid_id := getwordId_c800
  body_id := Chunk.ne_regid_of_all rfl

/-- `good_oneEc_iff` on two blocks. -/
theorem twoBlocks_oneEc :
    ∃ r, Fsm.parse (twoBlocks.env .tag .zero) 27 {} = .ended r ∧ r.report.eventsGood = 1 ∧
      (∀ c w, EcWord (twoBlocks.env .tag .zero) {} c w → r.ev.ec = some (ecOf w).toUInt32) ∧
      ∀ b ∈ r.ev.block, b.HasEc r.ev.ec := by
  obtain ⟨r, hrun, hgood⟩ : ∃ r, Fsm.parse (twoBlocks.env .tag .zero) 27 {} = .ended r ∧
      r.report.eventsGood = 1 := ⟨_, rfl, rfl⟩
  have hturns := takes_of_everyTurn
    (P := fun c w tr => (tr != .t13 && tr != .t17) || ecOf w == c.tmpEc) hrun rfl
  refine ⟨r, hrun, hgood, (good_oneEc_iff (twoBlocks.env_carries .tag .zero) hrun
    (by rw [hgood]; exact Nat.one_pos)).2 fun c hc _ w hw => ?_⟩
  rcases hw with hw | hw
  · simpa using hturns c w _ hc hw
  · simpa using hturns c w _ hc hw

/-- A block of the event counter 1 and one of the event counter 2. -/
def twoCounters : Chunk where
  body := [0xE001, 0x9800, 1, 2, 3, 0x9000, 0x3030, 0xA007, 0xBE90, 0xE001, 0xC001, 0xA00D, 0xDED0, 
    0xE002, 0x9802, 4, 5, 6, 0x9002, 0x3030, 0xA007, 0xBED0, 0xE002, 0xC002, 0xA00D, 0xDA90]
  regid := 0xC800
  regid_id := getwordId_c800
  body_id := Chunk.ne_regid_of_all rfl

/-- They make up a good event. -/
theorem twoCounters_not_oneEc :
    ∃ r, Fsm.parse (twoCounters.env .tag .zero) 27 {} = .ended r ∧
      r.report.eventsGood = 1 ∧ r.ev.ec = some 2 ∧ ¬ ∀ b ∈ r.ev.block, b.HasEc r.ev.ec :=
  ⟨_, rfl, rfl, rfl, by decide⟩

end Fsm

end FzDaq.Parser
