import FzDaq.Parser.TagAgree
import FzDaq.Parser.Progress

/-!
# Two runs over the same words

Two objects parse the same words, the second one with EMPTY words between them.
Its run skips those and otherwise answers each turn of the first run by the same
turn, as long as no EMPTY word stands among the words of one turn and no turn
restores checksums that the two objects have not saved alike.
-/

namespace FzDaq.Parser

open Machine

/-! ## Padded words -/

def Env.EmptyAt (E : Env) (k : Nat) : Prop := ∃ w, E.event k = some w ∧ getwordId w = .empty

/-- `E'` holds the words of `E` in their order, the `k`-th at `pos k`, and EMPTY
words between them. -/
structure Env.Pads (E E' : Env) (pos : Nat → Nat) : Prop where
  word : ∀ k, E'.event (pos k) = E.event k
  lt : ∀ k, pos k < pos (k + 1)
  gap : ∀ k j, pos k < j → j < pos (k + 1) → E'.EmptyAt j
  front : ∀ j, j < pos 0 → E'.EmptyAt j
  size : E'.eventSize = pos E.eventSize

namespace Env.Pads

variable {E E' : Env} {pos : Nat → Nat}

theorem mono (h : E.Pads E' pos) {k m : Nat} (hkm : k ≤ m) : pos k ≤ pos m := by
  induction hkm with
  | refl => exact Nat.le_refl _
  | step _ ih => exact Nat.le_of_lt (Nat.lt_of_le_of_lt ih (h.lt _))

theorem strictMono (h : E.Pads E' pos) {k m : Nat} (hkm : k < m) : pos k < pos m :=
  Nat.lt_of_lt_of_le (h.lt k) (h.mono hkm)

/-- Words between which nothing is inserted stay together. -/
theorem together {i m : Nat} (h : ∀ k, i ≤ k → k < m → pos (k + 1) = pos k + 1) {k : Nat}
    (hk : i + k ≤ m) : pos (i + k) = pos i + k := by
  induction k with
  | zero => rfl
  | succ k ih =>
      rw [← Nat.add_assoc, h (i + k) (by omega) (by omega), ih (by omega), Nat.add_assoc]

theorem behind (h : E.Pads E' pos) {k : Nat} {x : Word} (hx : E.event (k + 1) = some x) :
    ∃ x', E'.event (pos k + 1) = some x' ∧ (x' ≤ 0x7FFF → x ≤ 0x7FFF) := by
  by_cases hnext : pos (k + 1) = pos k + 1
  · exact ⟨x, by rw [← hnext, h.word, hx], id⟩
  · have hlt := h.lt k
    obtain ⟨x', hx', hempty⟩ := h.gap k (pos k + 1) (Nat.lt_succ_self _) (by omega)
    refine ⟨x', hx', fun hdata => ?_⟩
    rw [← getwordId_data_iff, hempty] at hdata
    cases hdata

end Env.Pads

namespace Fsm

variable {E E' : Env} {pos : Nat → Nat} {s s' c c' d u r : Fsm} {w : Word} {tr : Trans}
  {ch ch' : Chunk}

/-! ## Saved checksums -/

/-- The next word is a DATA word in S5. -/
def readsData (E : Env) (c : Fsm) : Bool :=
  c.stateId == .s5 && (E.event c.eventIndex).any fun w => getwordId w == .data

/-- The next turn ends a record of a waveform of `rd_wflen` samples. -/
def endsWaveform (E : Env) (c : Fsm) : Bool :=
  c.readsData E && E.evformat == .tag && c.tagDone && c.wflenDone && c.tag == TAG_WAVEFORM

/-- The next turn goes on with the checksums that it finds saved: a gathering loop of
the basic format, or a waveform record of length zero. -/
def restores (E : Env) (c : Fsm) : Bool :=
  match E.evformat with
  | .basic => c.readsData E && c.gathers
  | .tag => c.endsWaveform E && c.rdWflen == 0

theorem takes_of_readsData (h : c.readsData E = true) : ∃ w, c.Takes E w .t08 := by
  simp only [readsData, Bool.and_eq_true, beq_iff_eq, Option.any_eq_true] at h
  obtain ⟨hst, w, hw, hid⟩ := h
  exact ⟨w, hw, by rw [hid]; decide, by rw [hid, hst]; rfl⟩

theorem takes_of_endsWaveform (h : c.endsWaveform E = true) : ∃ w, c.Takes E w .t08 := by
  simp only [endsWaveform, Bool.and_eq_true] at h
  exact takes_of_readsData h.1.1.1.1

/-- The run comes to `c`; `saved` says that a waveform record has saved the checksums on
the way. -/
inductive Comes (E : Env) (s : Fsm) : Bool → Fsm → Prop
  | entry : Comes E s false (E.entry s)
  | next {saved : Bool} {c d : Fsm} (hc : Comes E s saved c) (hcd : E.loop.Next c d) :
      Comes E s (saved || c.endsWaveform E) d

theorem Comes.reaches {saved : Bool} (h : Comes E s saved c) : E.loop.Reaches (E.entry s) c := by
  induction h with
  | entry => exact .refl _
  | next _ hcd ih => exact ih.tail hcd

/-- The state, the event and the return value are live in every state. -/
theorem Agree.result {fmt : Format} (h : Agree fmt c c') :
    c'.stateId = c.stateId ∧ c'.ev = c.ev ∧ c'.retval = c.retval := by
  cases hst : c.stateId <;> obtain ⟨j, rfl⟩ := h.at hst
  case s5 => cases fmt <;> exact ⟨rfl, rfl, rfl⟩
  all_goals exact ⟨rfl, rfl, rfl⟩

theorem Agree.moved {fmt : Format} (h : Agree fmt c c') (m n : Nat) :
    Agree fmt { c with eventIndex := m } { c' with eventIndex := n } := by
  cases hst : c.stateId <;> obtain ⟨j, rfl⟩ := h.at hst
  case s5 => cases fmt <;> exact .of_at rfl rfl
  all_goals exact .of_at rfl rfl

/-! ## One turn -/

theorem data_agree (hE : E.Akin E') {σ σ' : Site} (hat : c.At E σ) (hat' : c'.At E' σ')
    (hagree : Agree E.evformat c c') (hst : c.stateId = .s5) (hdata : getwordId w = .data)
    (hpos : 0 < c.eventIndex) (hpos' : 0 < c'.eventIndex)
    (hsaves : c.restores E = true → SameSaves c c')
    (hw : E.event c.eventIndex = some w) (hw' : E'.event c'.eventIndex = some w)
    (hs : c.fire E .t08 w = some u) (hwords : SameWords E E' c c' u) :
    ∃ u', c'.fire E' .t08 w = some u' ∧ SameTurn E.evformat c u c' u' ∧
      (c.endsWaveform E = true → SameSaves u u') := by
  have hptr := hat.samePointers hat' hagree (.inr hst)
  have hreads : c.readsData E = true := by simp [readsData, hst, hw, hdata]
  simp only [fire, hE.evformat] at hs ⊢
  cases hf : E.evformat with
  | basic =>
      simp only [hf] at hs ⊢
      rw [hf] at hagree
      obtain ⟨v, hv, rfl⟩ := Option.map_eq_some_iff.1 hs
      obtain ⟨hwf, hen⟩ := hat.basic_pointers (.inr hst) hf hptr
      obtain ⟨v', hv', hturn⟩ := trans08Basic_agree hE hagree hst hwf hen hpos hpos'
        (fun h => hsaves (by simp [restores, hf, hreads, h])) hv ⟨hwords.word, hwords.stop⟩
      exact ⟨_, by rw [hv', Option.map_some], hturn, by simp [endsWaveform, hf]⟩
  | tag =>
      simp only [hf] at hs ⊢
      rw [hf] at hagree
      obtain ⟨v, hv, rfl⟩ := Option.map_eq_some_iff.1 hs
      obtain ⟨_, _, _, _, d, _, hdat, _, htag⟩ := hat.of_data (.inr hst)
      have hopen := htag hst hf
      rw [← hdat.getData] at hopen
      obtain ⟨v', hv', hturn, hsame⟩ := trans08Tag_agree hE hagree hst
        (fun hdone h => hptr.wf ((hopen hdone).1 h)) (fun hdone h => hptr.en ((hopen hdone).2 h))
        hpos hpos'
        (fun hdone hlen hwav hzero => hsaves (by
          simp [restores, endsWaveform, hf, hreads, hdone, hlen, hwav, hzero]))
        hw hw' hv ⟨hwords.word, hwords.stop⟩
      refine ⟨_, by rw [hv', Option.map_some], hturn, fun h => ?_⟩
      simp only [endsWaveform, Bool.and_eq_true, beq_iff_eq] at h
      exact hsame h.1.1.2 h.1.2 h.2

theorem fire_follows (hE : E.Akin E') {σ σ' : Site} (hat : c.At E σ) (hat' : c'.At E' σ')
    (hagree : Agree E.evformat c c') (hstart : c.stateId ≠ .idle → 0 < c.eventIndex)
    (hstart' : c.stateId ≠ .idle → 0 < c'.eventIndex)
    (hragged : tr = .t16 → c.ragged E w = false ∨ E'.pastSample = E.pastSample)
    (hsaves : c.restores E = true → SameSaves c c') (htakes : c.Takes E w tr)
    (hw' : E'.event c'.eventIndex = some w) (hs : c.fire E tr w = some u)
    (hwords : tr = .t08 → SameWords E E' c c' u) :
    ∃ u', c'.fire E' tr w = some u' ∧ SameTurn E.evformat c u c' u' ∧
      (c.endsWaveform E = true → SameSaves u u') := by
  by_cases hdata : tr = .t08
  · subst hdata
    obtain ⟨hst, hid⟩ := ttable_eq htakes.2.2
    have hne : c.stateId ≠ .idle := by simp [hst]
    exact data_agree hE hat hat' hagree hst hid (hstart hne) (hstart' hne) hsaves htakes.1 hw' hs
      (hwords rfl)
  · obtain ⟨u', hu', hturn⟩ := fire_agree hat hagree (hat.samePointers hat' hagree) htakes.2.2
      hdata hs
    have hrag' : tr = .t16 → c'.ragged E w = false ∨ E'.pastSample = E.pastSample := by
      rintro rfl
      obtain ⟨j, rfl⟩ := hagree.at (ttable_eq htakes.2.2).1
      exact hragged rfl
    refine ⟨u', fire_akin hE hdata hrag' hu', hturn, fun h => ?_⟩
    obtain ⟨x, hx⟩ := takes_of_endsWaveform h
    exact absurd (htakes.unique hx).2.symm hdata

/-- Over EMPTY words the cursor moves on and nothing else happens. -/
theorem reaches_over {m : Nat} (hempty : ∀ j, c.eventIndex ≤ j → j < m → E.EmptyAt j)
    (hle : c.eventIndex ≤ m) (hm : m ≤ E.eventSize) :
    E.loop.Reaches c { c with eventIndex := m } := by
  induction hle with
  | refl => exact .refl c
  | @step m hle ih =>
      have hbefore := ih (fun j hj hjm => hempty j hj (by omega)) (by omega)
      obtain ⟨w, hw, hid⟩ := hempty m hle (Nat.lt_succ_self m)
      refine hbefore.tail ⟨?_, ?_⟩
      · simp only [Env.loop, decide_eq_false_iff_not]
        omega
      · change (E.event m).bind _ = _
        rw [hw, Option.bind_some, dispatch, if_pos hid]
        rfl

/-- What the two runs have to have in common. -/
structure Parallel (E E' : Env) (pos : Nat → Nat) (s s' : Fsm) : Prop where
  akin : E.Akin E'
  pads : E.Pads E' pos
  ragged : ∀ c w, E.loop.Visits (E.entry s) c → c.Takes E w .t16 →
    c.ragged E w = false ∨ E'.pastSample = E.pastSample
  together : ∀ c d, E.loop.Visits (E.entry s) c → E.loop.Next c d →
    ∀ k, c.eventIndex ≤ k → k + 1 < d.eventIndex → pos (k + 1) = pos k + 1
  restores : ∀ saved c, Comes E s saved c → E.loop.halted c = false → c.restores E = true →
    SameSaves s s' ∨ saved = true

/-- The state `c'` of the second run answers the state `c` of the first. -/
structure Follows (E E' : Env) (pos : Nat → Nat) (s s' c c' : Fsm) : Prop where
  reaches : E'.loop.Reaches (E'.entry s') c'
  agree : Agree E.evformat c c'
  le : c'.eventIndex ≤ pos c.eventIndex
  gap : ∀ j, c'.eventIndex ≤ j → j < pos c.eventIndex → E'.EmptyAt j
  started : c.stateId ≠ .idle → 0 < c.eventIndex
  report : ∃ δ, c.report = (E.entry s).report.add δ ∧ c'.report = (E'.entry s').report.add δ
  saves : ∃ saved, Comes E s saved c ∧ (SameSaves s s' ∨ saved = true → SameSaves c c')

theorem Parallel.entry (hp : Parallel E E' pos s s') :
    Follows E E' pos s s' (E.entry s) (E'.entry s') := by
  refine ⟨.refl _, rfl, Nat.zero_le _, fun j _ hj => hp.pads.front j hj, fun h => absurd rfl h,
    ⟨{}, rfl, rfl⟩, false, .entry, fun h => ?_⟩
  rcases h with h | h
  · exact h
  · cases h

theorem Follows.catchUp (h : Follows E E' pos s s' c c') {m : Nat} (hm : m ≤ pos c.eventIndex)
    (hle : c'.eventIndex ≤ m) (hsize : m ≤ E'.eventSize) :
    Follows E E' pos s s' c { c' with eventIndex := m } ∧
      E'.loop.Reaches c' { c' with eventIndex := m } := by
  have hover := reaches_over (fun j hj hjm => h.gap j hj (by omega)) hle hsize
  exact ⟨⟨h.reaches.trans hover, h.agree.moved c.eventIndex m, hm,
    fun j hj hjm => h.gap j (Nat.le_trans hle hj) hjm, h.started, h.report, h.saves⟩, hover⟩

theorem Parallel.sameWords (hp : Parallel E E' pos s s')
    (hidx : c'.eventIndex = pos c.eventIndex) (hle : c.eventIndex ≤ u.eventIndex + 1)
    (htogether : ∀ k, c.eventIndex + k ≤ u.eventIndex →
      pos (c.eventIndex + k) = pos c.eventIndex + k) : SameWords E E' c c' u := by
  refine ⟨fun k hk => by rw [hidx, ← htogether k hk, hp.pads.word], fun x hx => ?_⟩
  by_cases hback : u.eventIndex + 1 = c.eventIndex
  · refine ⟨x, ?_, id⟩
    rw [hback, Nat.sub_self, Nat.add_zero, hidx, hp.pads.word, ← hback, hx]
  · obtain ⟨x', hx', hdata⟩ := hp.pads.behind hx
    refine ⟨x', ?_, hdata⟩
    have hlast := htogether (u.eventIndex - c.eventIndex) (by omega)
    rw [show c.eventIndex + (u.eventIndex - c.eventIndex) = u.eventIndex by omega] at hlast
    rw [hidx, show pos c.eventIndex + (u.eventIndex + 1 - c.eventIndex) = pos u.eventIndex + 1 by
      omega, hx']

theorem Parallel.runs_on (hp : Parallel E E' pos s s') (hidx : c'.eventIndex = pos c.eventIndex)
    (hsize : c.eventIndex < E.eventSize) : E'.loop.halted c' = false := by
  have := hp.pads.strictMono hsize
  simp only [Env.loop, decide_eq_false_iff_not, hidx, hp.pads.size]
  omega

theorem Follows.skip (hp : Parallel E E' pos s s') (h : Follows E E' pos s s' c c')
    (hidx : c'.eventIndex = pos c.eventIndex) (hskip : c.Skips E)
    (hcd : E.loop.Next c c.advance) :
    ∃ d', E'.loop.Next c' d' ∧ Follows E E' pos s s' c.advance d' := by
  obtain ⟨w, hw, hempty⟩ := hskip
  obtain ⟨saved, hcomes, hsame⟩ := h.saves
  have hword : E'.event c'.eventIndex = E.event c.eventIndex := by rw [hidx, hp.pads.word]
  have hnext : E'.loop.Next c' c'.advance := by
    refine ⟨hp.runs_on hidx (next_cases hcd).1, ?_⟩
    change (E'.event c'.eventIndex).bind _ = _
    rw [hword, hw, Option.bind_some, dispatch, if_pos hempty]
  have hmove : c'.advance.eventIndex = pos c.eventIndex + 1 := congrArg (· + 1) hidx
  have hlt := hp.pads.lt c.eventIndex
  refine ⟨_, hnext, h.reaches.tail hnext, h.agree.moved _ _, ?_, ?_, fun _ => Nat.succ_pos _,
    h.report, _, hcomes.next hcd, fun hsaved => ?_⟩
  · rw [hmove]
    exact hlt
  · rw [hmove]
    exact hp.pads.gap _
  · rcases hsaved with hsaved | hsaved
    · exact hsame (.inl hsaved)
    rcases Bool.or_eq_true_iff.1 hsaved with hsaved | hends
    · exact hsame (.inr hsaved)
    · obtain ⟨x, hx⟩ := takes_of_endsWaveform hends
      exact absurd hx (Skips.not_takes ⟨w, hw, hempty⟩)

/-- Behind a turn both cursors stand before the same word, or before EMPTY words. -/
theorem SameTurn.where_eq {u' : Fsm} (hturn : SameTurn E.evformat c u c' u')
    (hidx : c'.eventIndex = pos c.eventIndex) (hle : c.eventIndex ≤ u.eventIndex + 1)
    (htogether : ∀ k, c.eventIndex + k ≤ u.eventIndex →
      pos (c.eventIndex + k) = pos c.eventIndex + k) :
    u'.eventIndex + 1 = pos (u.eventIndex + 1) ∨ u'.eventIndex = pos u.eventIndex := by
  have hindex := hturn.index
  by_cases hback : u.eventIndex + 1 = c.eventIndex
  · left
    rw [hback]
    omega
  · right
    have := htogether (u.eventIndex - c.eventIndex) (by omega)
    rw [show c.eventIndex + (u.eventIndex - c.eventIndex) = u.eventIndex by omega] at this
    omega

/-- What a turn that both runs make keeps of their agreement. -/
theorem Follows.next {u' : Fsm} (hp : Parallel E E' pos s s') (h : Follows E E' pos s s' c c')
    (hturn : SameTurn E.evformat c u c' u') (hcd : E.loop.Next c u.advance)
    (hnext : E'.loop.Next c' u'.advance)
    (hwhere : u'.eventIndex + 1 = pos (u.eventIndex + 1) ∨ u'.eventIndex = pos u.eventIndex)
    (hends : c.endsWaveform E = true → SameSaves u u') :
    Follows E E' pos s s' u.advance u'.advance := by
  obtain ⟨saved, hcomes, hsame⟩ := h.saves
  obtain ⟨δ, hδ, hδ'⟩ := h.report
  obtain ⟨ε, hε, hε'⟩ := hturn.report
  refine ⟨h.reaches.tail hnext, hturn.agree.moved _ _, ?_, ?_,
    fun _ => Nat.succ_pos _, ⟨δ.add ε, ?_, ?_⟩, _, hcomes.next hcd, fun hsaved => ?_⟩
  · change u'.eventIndex + 1 ≤ pos (u.eventIndex + 1)
    have := hp.pads.lt u.eventIndex
    omega
  · change ∀ j, u'.eventIndex + 1 ≤ j → j < pos (u.eventIndex + 1) → _
    intro j hj hjm
    rcases hwhere with hwhere | hwhere
    · omega
    · exact hp.pads.gap u.eventIndex j (by omega) hjm
  · rw [← FsmReport.add_add, ← hδ]
    exact hε
  · rw [← FsmReport.add_add, ← hδ']
    exact hε'
  · rcases hsaved with hsaved | hsaved
    · exact hturn.saves (hsame (.inl hsaved))
    rcases Bool.or_eq_true_iff.1 hsaved with hsaved | hsaved
    · exact hturn.saves (hsame (.inr hsaved))
    · exact hends hsaved

/-- The turns of the two runs at the same word. -/
theorem Follows.turn (hp : Parallel E E' pos s s') (hE : E.Carries ch) (hE' : E'.Carries ch')
    (hc : E.loop.Visits (E.entry s) c) (h : Follows E E' pos s s' c c')
    (hidx : c'.eventIndex = pos c.eventIndex) (hcd : E.loop.Next c d) :
    ∃ d', E'.loop.Next c' d' ∧ Follows E E' pos s s' d d' := by
  obtain ⟨hsize, ⟨hskip, rfl⟩ | ⟨w, tr, _, htakes, _, _⟩⟩ := next_cases hcd
  · exact h.skip hp hidx hskip hcd
  have hhalt' := hp.runs_on hidx hsize
  have hword : E'.event c'.eventIndex = E.event c.eventIndex := by rw [hidx, hp.pads.word]
  obtain ⟨saved, hcomes, hsame⟩ := h.saves
  obtain ⟨u, hu, rfl⟩ := htakes.fire_of_next hcd
  obtain ⟨σ, hat⟩ := visits_at hE hc
  obtain ⟨σ', hat'⟩ := visits_at hE' ⟨h.reaches, hhalt'⟩
  have htogether (k : Nat) (hk : c.eventIndex + k ≤ u.eventIndex) :
      pos (c.eventIndex + k) = pos c.eventIndex + k :=
    Env.Pads.together (fun k hk hku => hp.together c _ hc hcd k hk (Nat.succ_lt_succ hku)) hk
  have hle : c.eventIndex ≤ u.eventIndex + 1 := next_eventIndex_le hcd
  obtain ⟨u', hu', hturn, hends⟩ := fire_follows hp.akin hat hat' h.agree h.started
    (fun hs => by
      have := h.started hs
      have := hp.pads.strictMono this
      omega)
    (fun htr => hp.ragged c w hc (htr ▸ htakes))
    (fun hr => hsame (hp.restores saved c hcomes hc.2 hr)) htakes (hword.trans htakes.1) hu
    (fun _ => hp.sameWords hidx hle htogether)
  have htakes' : c'.Takes E' w tr :=
    ⟨hword.trans htakes.1, htakes.2.1, by rw [h.agree.result.1]; exact htakes.2.2⟩
  have hnext := htakes'.next hhalt' hu'
  exact ⟨_, hnext, h.next hp hturn hcd hnext (hturn.where_eq hidx hle htogether) hends⟩

theorem Parallel.ends (hp : Parallel E E' pos s s') (hE : E.Carries ch) (hE' : E'.Carries ch')
    {t : Fsm} (ht : E.loop.Ends (E.entry s) t) :
    ∃ t', E'.loop.Ends (E'.entry s') t' ∧ Follows E E' pos s s' t t' := by
  refine ht.simulate (Follows E E' pos s s') hp.entry (fun c c' d hc h hcd => ?_)
    fun c c' h hhalt => ?_
  · have hsize : c.eventIndex < E.eventSize := by simpa [Env.loop] using hcd.1
    have hpos := hp.pads.strictMono hsize
    rw [← hp.pads.size] at hpos
    obtain ⟨hfollows, hreach⟩ := h.catchUp (Nat.le_refl _) h.le (Nat.le_of_lt hpos)
    obtain ⟨d', hnext, hd'⟩ := hfollows.turn hp hE hE' ⟨hc, hcd.1⟩ rfl hcd
    exact ⟨d', hreach.tail hnext, hd'⟩
  · have hsize : E.eventSize ≤ c.eventIndex := by simpa [Env.loop] using hhalt
    have hpos := hp.pads.mono hsize
    rw [← hp.pads.size] at hpos
    by_cases hdone : E'.eventSize ≤ c'.eventIndex
    · exact ⟨c', ⟨.refl c', by simpa [Env.loop] using hdone⟩, h⟩
    · obtain ⟨hfollows, hreach⟩ := h.catchUp hpos (by omega) (Nat.le_refl _)
      exact ⟨_, ⟨hreach, by simp [Env.loop]⟩, hfollows⟩

/-! ## The call -/

/-- What a call adds to the counters of traffic. -/
def traffic (E : Env) : FsmReport where
  inEvents := 1
  inBytes := E.eventSize * 2
  outEvents := 1
  outBytes := E.eventSize * 2

/-- `event_is_empty` behind a verdict is a property of the event. -/
theorem parse_eventIsEmpty (hE : E.Carries ch) {fuel : Nat} (hrun : s.parse E fuel = .ended r)
    (hok : r.retval = .PARSE_OK) : r.eventIsEmpty = noData r.ev := by
  rcases parse_verdict hE hrun with ⟨hfail, _⟩ | ⟨c, _, _, _, rfl⟩
  · rw [hok] at hfail
    cases hfail
  · change (c.trans18 ch.regid).eventIsEmpty = noData (c.trans18 ch.regid).ev
    rw [trans18_eq]
    rfl

/-- The run lemma for whole calls. -/
theorem Parallel.parse (hp : Parallel E E' pos s s') (hE : E.Carries ch) (hE' : E'.Carries ch')
    {fuel : Nat} (hrun : s.parse E fuel = .ended r) :
    ∃ (fuel' : Nat) (r' : Fsm) (δ : FsmReport),
      s'.parse E' fuel' = .ended r' ∧ r'.retval = r.retval ∧ r'.ev = r.ev ∧
      (r.retval = .PARSE_OK → r'.eventIsEmpty = r.eventIsEmpty) ∧
      r.report = s.report.add (δ.add (traffic E)) ∧
      r'.report = s'.report.add (δ.add (traffic E')) := by
  obtain ⟨t, ht, rfl⟩ := parse_ended hrun
  obtain ⟨t', ht', hfollows⟩ := hp.ends hE hE' ht
  obtain ⟨fuel', hrun'⟩ := parse_ended_iff.2 ⟨t', ht', rfl⟩
  obtain ⟨_, hev, hret⟩ := hfollows.agree.result
  obtain ⟨δ, hδ, hδ'⟩ := hfollows.report
  have htotal (F : Env) (c e : Fsm) (hc : e.report = (F.entry c).report.add δ) :
      (e.finish F).report = c.report.add (δ.add (traffic F)) := by
    have hsum : (e.finish F).report = e.report.add
        { outEvents := 1, outBytes := F.eventSize * 2 } := rfl
    have hentry : (F.entry c).report = c.report.add
        { inEvents := 1, inBytes := F.eventSize * 2 } := rfl
    rw [hsum, hc, hentry]
    simp only [FsmReport.add, traffic, FsmReport.mk.injEq]
    omega
  refine ⟨fuel', t'.finish E', δ, hrun', hret, hev, fun hok => ?_, htotal E s t hδ,
    htotal E' s' t' hδ'⟩
  rw [parse_eventIsEmpty hE hrun hok, parse_eventIsEmpty hE' hrun' (hret.trans hok)]
  exact congrArg noData hev

end Fsm

end FzDaq.Parser
