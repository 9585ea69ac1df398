import FzDaq.Parser.Agree

/-!
# What a DATA word in S5 depends on

The turns that look ahead. Two objects that agree on the live members agree
after such a turn if they find the same words up to where the turn ends, and if
the checksums that it restores have been saved alike.
-/

namespace FzDaq.Parser

open Machine

namespace Fsm

/-- From `s'` on `E'` holds the words that `E` holds from `s` on, as far as the turn
from `s` to `u` consumes them; the word behind them is not DATA where it was not. -/
structure SameWords (E E' : Env) (s s' u : Fsm) : Prop where
  word : ∀ k, s.eventIndex + k ≤ u.eventIndex →
    E'.event (s'.eventIndex + k) = E.event (s.eventIndex + k)
  stop : ∀ x, E.event (u.eventIndex + 1) = some x →
    ∃ x', E'.event (s'.eventIndex + (u.eventIndex + 1 - s.eventIndex)) = some x' ∧
      (x' ≤ 0x7FFF → x ≤ 0x7FFF)

variable {E E' : Env} {s s' t u : Fsm} {w : Word} {fmt : Format}

theorem SameWords.reads (h : SameWords E E' s s' u) {m : Nat} {ws : List Word}
    (hreads : E.Reads (s.eventIndex + m) ws)
    (hlen : s.eventIndex + m + ws.length ≤ u.eventIndex + 1) :
    E'.Reads (s'.eventIndex + m) ws := by
  apply Env.reads_of_get
  intro k hk
  rw [Nat.add_assoc, h.word (m + k) (by omega), ← Nat.add_assoc]
  exact hreads.get hk

theorem Agree.at_saves (h : Agree fmt s s') {st : FsmState} (hst : s.stateId = st) :
    ∃ j en wf x y, s' = { ({ s with stateId := st }.keep fmt j : Fsm) with
      en := en, wf := wf, saveBlkcrc := x, saveFeecrc := y } := by
  refine ⟨s', s'.en, s'.wf, s'.saveBlkcrc, s'.saveFeecrc, ?_⟩
  rw [← hst]
  exact congrArg (fun x : Fsm => { x with
    en := s'.en, wf := s'.wf, saveBlkcrc := s'.saveBlkcrc, saveFeecrc := s'.saveFeecrc }) h

theorem Agree.of_at {st : FsmState} (hst : s.stateId = st)
    (h : s' = { s with stateId := st }.keep fmt s') : Agree fmt s s' := by
  subst hst
  exact h

/-! ## The basic format -/

/-- The next DATA word starts a gathering loop of the basic format. -/
def gathers (s : Fsm) : Bool :=
  if s.dType.hasEnergy then
    s.energy1Done && (s.dType != .Q3 || s.energy2Done) && s.pretrigDone && s.wflenDone
  else s.wflenDone

theorem modValue_agree {k : Nat} {f : UInt32 → UInt32} (hev : s'.ev = s.ev) (hen : s'.en = s.en)
    (hs : s.modValue E k f = some t) : s'.modValue E k f = some { s' with ev := t.ev } := by
  obtain ⟨v, hv, hs⟩ := Option.bind_eq_some_iff.1 hs
  have hcur : s'.curEnergy = s.curEnergy := by rw [curEnergy, curEnergy, hev, hen]
  cases hs
  simp only [modValue, hcur, hv, Option.bind_eq_bind, Option.bind_some, onEn, hev, hen]

theorem lowEnergy1_agree (hE : E.Akin E') (hk : Agree .basic s s') (hst : s.stateId = .s5)
    (hen : s'.en = s.en) (hs : s.lowEnergy1 E w = some u) :
    ∃ u', s'.lowEnergy1 E' w = some u' ∧
      SameTurn .basic s { u with stateId := .s5 } s' { u' with stateId := .s5 } := by
  obtain ⟨v, hv, hs⟩ := Option.bind_eq_some_iff.1 hs
  cases hs
  obtain ⟨j, en, wf, rfl⟩ := hk.at_pointers hst
  have hv' := modValue_agree (s := s)
    (show ({ (keep .basic { s with stateId := .s5 } j : Fsm) with en := en, wf := wf } : Fsm).ev = _
      from rfl) hen (modValue_akin hE hv)
  obtain ⟨x, rfl⟩ := modValue_eq_some hv
  refine ⟨_, by rw [lowEnergy1, hv', Option.bind_eq_bind, Option.bind_some], ?_⟩
  exact .of_agree rfl rfl rfl rfl rfl id

theorem energy2_agree (hE : E.Akin E') (hk : Agree .basic s s') (hst : s.stateId = .s5)
    (hen : s'.en = s.en) (hs : s.energy2 E w = some u) :
    ∃ u', s'.energy2 E' w = some u' ∧
      SameTurn .basic s { u with stateId := .s5 } s' { u' with stateId := .s5 } := by
  obtain ⟨j, en, wf, rfl⟩ := hk.at_pointers hst
  have hcur : ({ (keep .basic { s with stateId := .s5 } j : Fsm) with en := en, wf := wf } :
      Fsm).curEnergy = s.curEnergy := by
    cases hen
    rfl
  unfold energy2 at hs ⊢
  rw [hcur]
  split at hs
  · rename_i hlen
    rw [if_pos hlen]
    cases hs
    cases hen
    exact ⟨_, rfl, .of_agree rfl rfl rfl rfl rfl id⟩
  · rename_i hlen
    rw [if_neg hlen]
    obtain ⟨v, hv, hs⟩ := Option.bind_eq_some_iff.1 hs
    cases hs
    have hv' := modValue_agree (s := s)
      (show ({ (keep .basic { s with stateId := .s5 } j : Fsm) with
        en := en, wf := wf } : Fsm).ev = _ from rfl) hen (modValue_akin hE hv)
    obtain ⟨x, rfl⟩ := modValue_eq_some hv
    refine ⟨_, by rw [hv', Option.bind_eq_bind, Option.bind_some], ?_⟩
    exact .of_agree rfl rfl rfl rfl rfl id

/-- The words `ws` gathered into the waveform, and the step back behind them. -/
theorem gathered_agree (hk : Agree .basic s s') (hst : s.stateId = .s5) (hwf : s'.wf = s.wf)
    (hsaves : SameSaves s s') (hpos : 0 < s.eventIndex) (hpos' : 0 < s'.eventIndex)
    (ws : List Word) :
    SameTurn .basic s { (s.gathered ws).stepBack with stateId := .s5 }
      s' { (s'.gathered ws).stepBack with stateId := .s5 } := by
  obtain ⟨j, en, wf, x, y, rfl⟩ := hk.at_saves hst
  cases hwf
  cases hsaves.1
  cases hsaves.2
  rw [gathered_eq, gathered_eq]
  refine ⟨rfl, ?_, ⟨{}, rfl, rfl⟩, fun _ => ⟨rfl, rfl⟩⟩
  change 0 < j.eventIndex at hpos'
  change j.eventIndex + ws.length - 1 + s.eventIndex = s.eventIndex + ws.length - 1 + j.eventIndex
  omega

theorem restoreCrc_agree (hk : Agree .basic s s') (hst : s.stateId = .s5)
    (hsaves : SameSaves s s') : Agree .basic s.restoreCrc s'.restoreCrc := by
  obtain ⟨j, en, wf, x, y, rfl⟩ := hk.at_saves hst
  cases hsaves.1
  cases hsaves.2
  exact .of_at hst rfl

theorem sineCosineRead_agree (hk : Agree .basic s s') (hst : s.stateId = .s5)
    (w0 w1 w2 w3 w4 w5 : Word) :
    Agree .basic (s.sineCosineRead w0 w1 w2 w3 w4 w5) (s'.sineCosineRead w0 w1 w2 w3 w4 w5) ∧
      SameSaves (s.sineCosineRead w0 w1 w2 w3 w4 w5) (s'.sineCosineRead w0 w1 w2 w3 w4 w5) := by
  obtain ⟨j, rfl⟩ := hk.at hst
  exact ⟨.of_at hst rfl, rfl, rfl⟩

theorem stepBack_gathered_index (s : Fsm) (ws : List Word) (hpos : 0 < s.eventIndex) :
    ((s.gathered ws).stepBack).eventIndex + 1 = s.eventIndex + ws.length := by
  rw [gathered_eq]
  change s.eventIndex + ws.length - 1 + 1 = _
  omega

theorem waveformByData_agree (hE : E.Akin E') (hk : Agree .basic s s') (hst : s.stateId = .s5)
    (hwf : s'.wf = s.wf) (hpos : 0 < s.eventIndex) (hpos' : 0 < s'.eventIndex)
    (hsaves : s.pretrigDone = true → s.wflenDone = true → SameSaves s s')
    (hs : s.waveformByData E w = some u) (hwords : SameWords E E' s s' u) :
    ∃ u', s'.waveformByData E' w = some u' ∧
      SameTurn .basic s { u with stateId := .s5 } s' { u' with stateId := .s5 } := by
  have hpre : s'.pretrigDone = s.pretrigDone := by
    obtain ⟨j, rfl⟩ := hk.at hst
    rfl
  have hdone : s'.wflenDone = s.wflenDone := by
    obtain ⟨j, rfl⟩ := hk.at hst
    rfl
  unfold waveformByData at hs ⊢
  rw [hpre, hdone]
  split at hs
  · rename_i hp
    rw [if_pos hp]
    cases hs
    obtain ⟨j, en, wf, rfl⟩ := hk.at_pointers hst
    cases hwf
    exact ⟨_, rfl, .of_agree rfl rfl rfl rfl rfl id⟩
  rename_i hp
  rw [if_neg hp]
  split at hs
  · rename_i hd
    rw [if_pos hd]
    cases hs
    obtain ⟨j, rfl⟩ := hk.at hst
    exact ⟨_, rfl, .of_agree rfl rfl rfl rfl rfl id⟩
  rename_i hd
  rw [if_neg hd]
  obtain ⟨v, hv, hs⟩ := Option.bind_eq_some_iff.1 hs
  cases hs
  obtain ⟨ws, stop, hlen, hreads, hdata, hstop, rfl⟩ := gatherData_eq_some.1 hv
  have hsame := hsaves (by simpa using hp) (by simpa using hd)
  have hturn := gathered_agree (restoreCrc_agree hk hst hsame) hst hwf hsame hpos hpos' ws
  obtain ⟨hbefore, hfirst, _⟩ := Env.reads_append.1 hreads
  have hend : ((s.restoreCrc.gathered ws).stepBack).eventIndex + 1 = s.eventIndex + ws.length :=
    stepBack_gathered_index s.restoreCrc ws hpos
  obtain ⟨stop', hfirst', hstop'⟩ := hwords.stop stop (by rw [hend]; exact hfirst)
  have hlast : s'.eventIndex + (s.eventIndex + ws.length - s.eventIndex) =
      s'.eventIndex + ws.length := by omega
  rw [hend, hlast] at hfirst'
  have hv' : s'.restoreCrc.gatherData E' E'.eventSize = some (s'.restoreCrc.gathered ws) :=
    gatherData_eq_some.2 ⟨ws, stop', Nat.lt_of_lt_of_le hlen hE.eventSize,
      Env.reads_append.2 ⟨hwords.reads (m := 0) hbefore (by omega), hfirst', trivial⟩, hdata,
      fun h => hstop (hstop' h), rfl⟩
  refine ⟨_, by rw [hv', Option.bind_eq_bind, Option.bind_some], ?_⟩
  exact ⟨hturn.agree, hturn.index, hturn.report, hturn.saves⟩

theorem waveformByCount_agree (hk : Agree .basic s s') (hst : s.stateId = .s5)
    (hwf : s'.wf = s.wf) (hpos : 0 < s.eventIndex) (hpos' : 0 < s'.eventIndex)
    (hsaves : s.wflenDone = true → SameSaves s s')
    (hs : s.waveformByCount E w = some u) (hwords : SameWords E E' s s' u) :
    ∃ u', s'.waveformByCount E' w = some u' ∧
      SameTurn .basic s { u with stateId := .s5 } s' { u' with stateId := .s5 } := by
  have hdone : s'.wflenDone = s.wflenDone := by
    obtain ⟨j, rfl⟩ := hk.at hst
    rfl
  have htype : s'.dType = s.dType := by
    obtain ⟨j, rfl⟩ := hk.at hst
    rfl
  have hlen' : s'.rdWflen = s.rdWflen := by
    obtain ⟨j, rfl⟩ := hk.at hst
    rfl
  rcases waveformByCount_eq_some hs with ⟨hd, rfl⟩ | ⟨hd, hadc, ws, hlen, hreads, rfl⟩ |
    ⟨hd, hadc, v, ws, hv, hlen, hreads, rfl⟩
  · refine ⟨_, by rw [waveformByCount, if_pos (by rw [hdone, hd]; rfl)], ?_⟩
    obtain ⟨j, rfl⟩ := hk.at hst
    exact .of_agree rfl rfl rfl rfl rfl id
  · have hsame := hsaves hd
    have hturn := gathered_agree (restoreCrc_agree hk hst hsame) hst hwf hsame hpos hpos' ws
    have hend : ((s.restoreCrc.gathered ws).stepBack).eventIndex + 1 =
        s.eventIndex + ws.length := stepBack_gathered_index s.restoreCrc ws hpos
    have hreads' : E'.Reads s'.restoreCrc.eventIndex ws :=
      hwords.reads (m := 0) hreads (by omega)
    refine ⟨_, ?_, ⟨hturn.agree, hturn.index, hturn.report, hturn.saves⟩⟩
    rw [waveformByCount_done (hdone.trans hd), htype, if_neg hadc, Option.bind_some, hlen',
      gatherCount_eq_some.2 ⟨ws, hlen, hreads', rfl⟩, Option.map_some]
  · have hsame := hsaves hd
    obtain ⟨w0, w1, w2, w3, w4, w5, hsix, rfl⟩ := readSineCosine_eq_some.1 hv
    have hend : (((s.restoreCrc.sineCosineRead w0 w1 w2 w3 w4 w5).gathered ws).stepBack).eventIndex
        + 1 = s.eventIndex + 6 + ws.length :=
      stepBack_gathered_index (s.restoreCrc.sineCosineRead w0 w1 w2 w3 w4 w5) ws (Nat.succ_pos _)
    have hsix' : E'.Reads s'.restoreCrc.eventIndex [w0, w1, w2, w3, w4, w5] :=
      hwords.reads (m := 0) hsix (by rw [hend]; simp)
    have hreads' : E'.Reads (s'.eventIndex + 6) ws :=
      hwords.reads (m := 6) hreads (by omega)
    have hv' := readSineCosine_eq_some.2 ⟨w0, w1, w2, w3, w4, w5, hsix', rfl⟩
    obtain ⟨hk', hsame'⟩ :=
      sineCosineRead_agree (restoreCrc_agree hk hst hsame) hst w0 w1 w2 w3 w4 w5
    have hturn := gathered_agree hk' hst hwf hsame' (Nat.succ_pos _) (Nat.succ_pos _) ws
    refine ⟨_, ?_, ⟨hturn.agree, ?_, hturn.report, fun _ => hturn.saves hsame'⟩⟩
    · rw [waveformByCount_done (hdone.trans hd), htype, if_pos hadc, hv', Option.bind_some, hlen',
        gatherCount_eq_some.2 ⟨ws, hlen, hreads', rfl⟩, Option.map_some]
    · have hindex : ((s'.restoreCrc.sineCosineRead w0 w1 w2 w3 w4 w5).gathered
          ws).stepBack.eventIndex + (s.eventIndex + 6) =
          ((s.restoreCrc.sineCosineRead w0 w1 w2 w3 w4 w5).gathered ws).stepBack.eventIndex +
            (s'.eventIndex + 6) := hturn.index
      exact Nat.add_right_cancel (m := 6) hindex

theorem trans08Basic_agree (hE : E.Akin E') (hk : Agree .basic s s') (hst : s.stateId = .s5)
    (hwf : s'.wf = s.wf) (hen : s.dType.hasEnergy = true → s'.en = s.en)
    (hpos : 0 < s.eventIndex) (hpos' : 0 < s'.eventIndex)
    (hsaves : s.gathers = true → SameSaves s s') (hs : s.trans08Basic E w = some u)
    (hwords : SameWords E E' s s' u) :
    ∃ u', s'.trans08Basic E' w = some u' ∧
      SameTurn .basic s { u with stateId := .s5 } s' { u' with stateId := .s5 } := by
  let c := (s.updateBlk w).updateFee w
  let c' := (s'.updateBlk w).updateFee w
  have hk' : Agree .basic c c' := by
    obtain ⟨j, rfl⟩ := hk.at hst
    exact .of_at hst rfl
  obtain ⟨htype, hfirst, hsecond⟩ : s'.dType = s.dType ∧ s'.energy1Done = s.energy1Done ∧
      s'.energy2Done = s.energy2Done := by
    obtain ⟨j, rfl⟩ := hk.at hst
    exact ⟨rfl, rfl, rfl⟩
  have hback {u' : Fsm} (h : SameTurn .basic c { u with stateId := .s5 } c'
      { u' with stateId := .s5 }) :
      SameTurn .basic s { u with stateId := .s5 } s' { u' with stateId := .s5 } :=
    ⟨h.agree, h.index, h.report, h.saves⟩
  have hwords' : SameWords E E' c c' u := ⟨hwords.word, hwords.stop⟩
  rw [trans08Basic_eq] at hs ⊢
  rw [htype, hfirst, hsecond]
  unfold gathers at hsaves
  split_ifs at hs with henergy h₁ h₂
  · rw [if_pos henergy, if_pos h₁]
    obtain ⟨u', hu', hturn⟩ := lowEnergy1_agree hE hk' hst (hen henergy) hs
    exact ⟨u', hu', hback hturn⟩
  · rw [if_pos henergy, if_neg h₁, if_pos h₂]
    obtain ⟨u', hu', hturn⟩ := energy2_agree hE hk' hst (hen henergy) hs
    exact ⟨u', hu', hback hturn⟩
  · rw [if_pos henergy, if_neg h₁, if_neg h₂]
    obtain ⟨u', hu', hturn⟩ := waveformByData_agree hE hk' hst hwf hpos hpos'
      (fun hp hd => hsaves (by
        have hp : s.pretrigDone = true := hp
        have hd : s.wflenDone = true := hd
        rw [if_pos henergy, hp, hd]
        cases hd2 : s.energy2Done <;> simp_all)) hs hwords'
    exact ⟨u', hu', hback hturn⟩
  · rw [if_neg henergy]
    obtain ⟨u', hu', hturn⟩ := waveformByCount_agree hk' hst hwf hpos hpos'
      (fun hd => hsaves (by rw [if_neg henergy]; exact hd)) hs hwords'
    exact ⟨u', hu', hback hturn⟩

end Fsm

end FzDaq.Parser
