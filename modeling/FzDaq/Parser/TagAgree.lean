import FzDaq.Parser.DataAgree

/-!
# What a record of the tag format depends on

The turn at the first word of a payload reads the record to its end. Its words are the only
ones that count, and the checksums that a waveform record restores.
-/

namespace FzDaq.Parser

open Machine

namespace Fsm

variable {E E' : Env} {s s' t u : Fsm} {w : Word} {fmt : Format}

theorem addTagInfo_agree (hE : E.Akin E') {id : UInt32} {tb : Table} {k : Nat} {v : UInt64}
    (hs : s.addTagInfo E id tb k v = some t) :
    ∃ tri, t = s.addTrinfos [tri] ∧
      ∀ c : Fsm, c.addTagInfo E' id tb k v = some (c.addTrinfos [tri]) := by
  obtain ⟨attr, hattr, hs⟩ := Option.bind_eq_some_iff.1 hs
  cases hs
  refine ⟨_, rfl, fun c => ?_⟩
  rw [addTagInfo, hE.str, hattr]
  rfl

theorem readCounters_agree (hE : E.Akin E') {i left : Nat}
    (hs : s.readCounters E i left = some t) :
    ∃ ws ts, ws.length = left - 1 ∧ E.Reads (s.eventIndex + 1) ws ∧
      t = (s.movedOver ws).addTrinfos ts ∧
      ∀ c : Fsm, (left ≠ 0 → E'.event c.eventIndex = E.event s.eventIndex) →
        E'.Reads (c.eventIndex + 1) ws →
        c.readCounters E' i left = some ((c.movedOver ws).addTrinfos ts) := by
  induction left generalizing s i with
  | zero =>
      cases hs
      exact ⟨[], [], rfl, trivial, by simp, fun c _ _ => by simp [readCounters]⟩
  | succ left ih =>
      obtain ⟨attr, hattr, hs⟩ := Option.bind_eq_some_iff.1 hs
      obtain ⟨w, hw, hs⟩ := Option.bind_eq_some_iff.1 hs
      dsimp only at hs
      by_cases hleft : left = 0
      · rw [if_pos hleft] at hs
        cases hs
        refine ⟨[], [_], by simp [hleft], trivial, rfl, fun c hc _ => ?_⟩
        simp only [readCounters, hE.str, hattr, hc (Nat.succ_ne_zero _), hw, hleft, if_true,
          Option.bind_eq_bind, Option.bind_some]
        rfl
      · rw [if_neg hleft] at hs
        obtain ⟨⟨x, u⟩, hu, hs⟩ := Option.bind_eq_some_iff.1 hs
        obtain ⟨hx, rfl⟩ := nextEventWord_eq_some.1 hu
        obtain ⟨ws, ts, hlen, hreads, rfl, hall⟩ := ih hs
        refine ⟨x :: ws, ⟨some (0x100 + UInt32.ofNat i), some attr, some w.toUInt64⟩ :: ts,
          by rw [List.length_cons, hlen]; omega, ⟨hx, hreads⟩, ?_, fun c hc hcreads => ?_⟩
        · simp only [addTrinfo_eq, addTrinfos_movedOver, movedOver_movedOver,
            addTrinfos_addTrinfos]
          rfl
        · obtain ⟨hcx, hcreads⟩ := hcreads
          simp only [readCounters, hE.str, hattr, hc (Nat.succ_ne_zero _), hw, hleft, if_false,
            Option.bind_eq_bind, Option.bind_some]
          rw [(nextEventWord_eq_some (s := c.addTrinfo _) (w := x)).2 ⟨hcx, rfl⟩, Option.bind_some]
          dsimp only
          rw [hall _ (fun _ => hcx.trans hx.symm) hcreads]
          simp only [addTrinfo_eq, addTrinfos_movedOver, movedOver_movedOver,
            addTrinfos_addTrinfos]
          rfl

theorem addTrinfos_agree (hk : Agree .tag s s') (hst : s.stateId = .s5) (ws : List Word)
    (ts : List FzTrigInfo) :
    SameTurn .tag s ((s.movedOver ws).addTrinfos ts) s' ((s'.movedOver ws).addTrinfos ts) := by
  obtain ⟨j, rfl⟩ := hk.at hst
  refine ⟨.of_at hst rfl, ?_, ⟨{}, rfl, rfl⟩, id⟩
  change j.eventIndex + ws.length + s.eventIndex = s.eventIndex + ws.length + j.eventIndex
  omega

theorem readPair_agree (hE : E.Akin E') (hk : Agree .tag s s') (hst : s.stateId = .s5)
    {id : UInt32} {k : Nat} {value : Word → FzHit → UInt64} (hs : s.readPair E id k value = some u)
    (hwords : SameWords E E' s s' u) :
    ∃ u', s'.readPair E' id k value = some u' ∧ SameTurn .tag s u s' u' := by
  obtain ⟨⟨low, t⟩, hnext, hs⟩ := Option.bind_eq_some_iff.1 hs
  obtain ⟨hlow, rfl⟩ := nextEventWord_eq_some.1 hnext
  have hhit : s'.ev.getHit s'.hit = s.ev.getHit s.hit := by
    obtain ⟨j, rfl⟩ := hk.at hst
    rfl
  obtain ⟨tri, rfl, hall⟩ := addTagInfo_agree hE hs
  have hlow' : E'.event (s'.eventIndex + 1) = some low :=
    (hwords.word 1 (Nat.le_refl _)).trans hlow
  refine ⟨(s'.movedOver [low]).addTrinfos [tri], ?_, addTrinfos_agree hk hst [low] [tri]⟩
  rw [readPair, nextEventWord_eq_some.2 ⟨hlow', rfl⟩]
  have hinfo := hall (s'.movedOver [low])
  change Fsm.addTagInfo _ _ _ _ _ (value low (s.ev.getHit s.hit)) = _ at hinfo
  rwa [← hhit] at hinfo

theorem readSingle_agree (hE : E.Akin E') (hk : Agree .tag s s') (hst : s.stateId = .s5)
    {id : UInt32} {k : Nat} {v : UInt64} (hs : s.addTagInfo E id .triggerInfoBasic k v = some u) :
    ∃ u', s'.addTagInfo E' id .triggerInfoBasic k v = some u' ∧ SameTurn .tag s u s' u' := by
  obtain ⟨tri, rfl, hall⟩ := addTagInfo_agree hE hs
  exact ⟨_, hall s', addTrinfos_agree hk hst [] [tri]⟩

theorem readBaseline_agree (hk : Agree .tag s s') (hst : s.stateId = .s5)
    (hs : Payload.read E s w .baseline = some u) (hwords : SameWords E E' s s' u) :
    ∃ u', Payload.read E' s' w .baseline = some u' ∧ SameTurn .tag s u s' u' := by
  obtain ⟨⟨x, v⟩, hnext, hs⟩ := Option.bind_eq_some_iff.1 hs
  obtain ⟨hx, rfl⟩ := nextEventWord_eq_some.1 hnext
  cases hs
  have hx' : E'.event (s'.eventIndex + 1) = some x := (hwords.word 1 (Nat.le_refl _)).trans hx
  refine ⟨_, by rw [Payload.read, nextEventWord_eq_some (w := x) |>.2 ⟨hx', rfl⟩]; rfl, ?_⟩
  obtain ⟨j, rfl⟩ := hk.at hst
  refine ⟨.of_at hst rfl, ?_, ⟨{}, rfl, rfl⟩, id⟩
  change j.eventIndex + 1 + s.eventIndex = s.eventIndex + 1 + j.eventIndex
  omega

theorem readCentrum_agree (hE : E.Akin E') (hk : Agree .tag s s') (hst : s.stateId = .s5)
    {v : UInt64}
    (hs : s.readCentrum E v = some u)
    (hwords : SameWords E E' s s' u) :
    ∃ u', s'.readCentrum E' v = some u' ∧
      SameTurn .tag s u s' u' := by
  simp only [readCentrum, Option.bind_eq_bind, Option.bind_eq_some_iff] at hs
  obtain ⟨x₀, h₀, ⟨w1, x₁⟩, h₁, ⟨w2, x₂⟩, h₂, x₃, h₃, ⟨w3, x₄⟩, h₄, ⟨w4, x₅⟩, h₅, x₆, h₆,
    ⟨w5, x₇⟩, h₇, ⟨w6, x₈⟩, h₈, h₉⟩ := hs
  obtain ⟨t0, rfl, a₀⟩ := addTagInfo_agree hE h₀
  obtain ⟨e1, rfl⟩ := nextEventWord_eq_some.1 h₁
  obtain ⟨e2, rfl⟩ := nextEventWord_eq_some.1 h₂
  obtain ⟨t1, rfl, a₁⟩ := addTagInfo_agree hE h₃
  obtain ⟨e3, rfl⟩ := nextEventWord_eq_some.1 h₄
  obtain ⟨e4, rfl⟩ := nextEventWord_eq_some.1 h₅
  obtain ⟨t2, rfl, a₂⟩ := addTagInfo_agree hE h₆
  obtain ⟨e5, rfl⟩ := nextEventWord_eq_some.1 h₇
  obtain ⟨e6, rfl⟩ := nextEventWord_eq_some.1 h₈
  obtain ⟨t3, rfl, a₃⟩ := addTagInfo_agree hE h₉
  have hreads : E.Reads (s.eventIndex + 1) [w1, w2, w3, w4, w5, w6] :=
    ⟨e1, e2, e3, e4, e5, e6, trivial⟩
  obtain ⟨f1, f2, f3, f4, f5, f6, _⟩ := hwords.reads (m := 1) hreads (Nat.le_of_eq rfl)
  have hchain (c : Fsm) : (((((((((c.addTrinfos [t0]).movedOver [w1]).movedOver [w2]).addTrinfos
      [t1]).movedOver [w3]).movedOver [w4]).addTrinfos [t2]).movedOver [w5]).movedOver
      [w6]).addTrinfos [t3] =
      (c.movedOver [w1, w2, w3, w4, w5, w6]).addTrinfos [t0, t1, t2, t3] := by
    simp only [addTrinfos_movedOver, movedOver_movedOver, addTrinfos_addTrinfos]
    rfl
  have next (c : Fsm) {x : Word} (h : E'.event (c.eventIndex + 1) = some x) :
      c.nextEventWord E' = some (x, c.movedOver [x]) := nextEventWord_eq_some.2 ⟨h, rfl⟩
  have n1 := next (s'.addTrinfos [t0]) f1
  have n2 := next ((s'.addTrinfos [t0]).movedOver [w1]) f2
  have n3 := next ((((s'.addTrinfos [t0]).movedOver [w1]).movedOver [w2]).addTrinfos [t1]) f3
  have n4 := next (((((s'.addTrinfos [t0]).movedOver [w1]).movedOver [w2]).addTrinfos
    [t1]).movedOver [w3]) f4
  have n5 := next (((((((s'.addTrinfos [t0]).movedOver [w1]).movedOver [w2]).addTrinfos
    [t1]).movedOver [w3]).movedOver [w4]).addTrinfos [t2]) f5
  have n6 := next ((((((((s'.addTrinfos [t0]).movedOver [w1]).movedOver [w2]).addTrinfos
    [t1]).movedOver [w3]).movedOver [w4]).addTrinfos [t2]).movedOver [w5]) f6
  refine ⟨(s'.movedOver [w1, w2, w3, w4, w5, w6]).addTrinfos [t0, t1, t2, t3], ?_, ?_⟩
  · rw [← hchain]
    simp only [readCentrum, a₀, a₁, a₂, a₃, n1, n2, n3, n4, n5, n6, Option.bind_eq_bind,
      Option.bind_some]
  · rw [hchain]
    exact addTrinfos_agree hk hst _ _

theorem readEnergy_agree (hE : E.Akin E') (hk : Agree .tag s s') (hst : s.stateId = .s5)
    (hen : s'.en = s.en) (k : Nat)
    (hs : s.readEnergy E w k = some u)
    (hwords : SameWords E E' s s' u) :
    ∃ u', s'.readEnergy E' w k = some u' ∧ SameTurn .tag s u s' u' := by
  simp only [readEnergy, Option.bind_eq_bind, Option.bind_eq_some_iff] at hs
  obtain ⟨⟨high, x₁⟩, h₁, ⟨low, x₂⟩, h₂, x₃, h₃, h₄⟩ := hs
  rw [nextEventWord_eq_some] at h₁ h₂
  obtain ⟨hhigh, rfl⟩ := h₁
  obtain ⟨hlow, rfl⟩ := h₂
  obtain ⟨v₁, h₃'⟩ := modValue_eq_some h₃
  obtain ⟨v₂, h₄'⟩ := modValue_eq_some h₄
  have hend : u.eventIndex = s.eventIndex + 2 := by
    rw [h₄', h₃']
    rfl
  have n₁ := nextEventWord_eq_some (s := s') |>.2
    ⟨(hwords.word 1 (by omega)).trans hhigh, rfl⟩
  have n₂ := nextEventWord_eq_some (s := (s'.movedOver [high]).addValue high.toUInt32) |>.2
    ⟨(hwords.word 2 (by omega)).trans hlow, rfl⟩
  obtain ⟨c, hc⟩ : ∃ c, c = ((s'.movedOver [high]).addValue high.toUInt32).movedOver [low] :=
    ⟨_, rfl⟩
  have hev : c.ev = (((s.movedOver [high]).addValue high.toUInt32).movedOver [low]).ev := by
    obtain ⟨j, en, wf, rfl⟩ := hk.at_pointers hst
    cases hen
    rw [hc]
    rfl
  have hcen : c.en = s.en := by rw [hc, ← hen]; rfl
  have h₅ := modValue_agree hev hcen (modValue_akin hE h₃)
  have h₆ : ({ c with ev := x₃.ev } : Fsm).modValue E' k (fun v => E.scaleEnergy v w) =
      some { c with ev := u.ev } :=
    modValue_agree (s := x₃) rfl (by rw [h₃']; exact hcen) (modValue_akin hE h₄)
  refine ⟨{ c with ev := u.ev }, ?_, ?_⟩
  · rw [← hc] at n₂
    simp only [readEnergy, hE.scaleEnergy, n₁, n₂, h₅, h₆, Option.bind_eq_bind, Option.bind_some]
  · subst hc h₄' h₃'
    obtain ⟨j, rfl⟩ := hk.at hst
    refine ⟨.of_at hst rfl, ?_, ⟨{}, rfl, rfl⟩, id⟩
    change j.eventIndex + 1 + 1 + s.eventIndex = s.eventIndex + 1 + 1 + j.eventIndex
    omega

theorem readWaveform_agree (hk : Agree .tag s s') (hst : s.stateId = .s5)
    (htag : s.tag = TAG_WAVEFORM) (hwf : s'.wf = s.wf)
    (hsaves : s.rdWflen = 0 → SameSaves s s') (hpos : 0 < s.eventIndex) (hpos' : 0 < s'.eventIndex)
    (hw : E.event s.eventIndex = some w) (hw' : E'.event s'.eventIndex = some w)
    (hs : s.readRecord E w = some u) (hwords : SameWords E E' s s' u) :
    ∃ u', s'.readRecord E' w = some u' ∧ SameTurn .tag s u s' u' ∧ SameSaves u u' := by
  obtain ⟨htag', hlen'⟩ : s'.tag = s.tag ∧ s'.rdWflen = s.rdWflen := by
    obtain ⟨j, rfl⟩ := hk.at hst
    exact ⟨rfl, rfl⟩
  cases hlen : s.rdWflen.toNat with
  | zero =>
      have hzero : s.rdWflen = 0 := UInt16.toNat_inj.1 hlen
      rw [readRecord_waveform_zero htag hzero, Option.some.injEq] at hs
      subst hs
      refine ⟨_, readRecord_waveform_zero (htag'.trans htag) (hlen'.trans hzero), ?_⟩
      have hsame := hsaves hzero
      obtain ⟨j, en, wf, x, y, rfl⟩ := hk.at_saves hst
      cases hsame.1
      cases hsame.2
      refine ⟨⟨.of_at hst rfl, ?_, ⟨{}, rfl, rfl⟩, id⟩, rfl, rfl⟩
      change 0 < j.eventIndex at hpos'
      change j.eventIndex - 1 + s.eventIndex = s.eventIndex - 1 + j.eventIndex
      omega
  | succ n =>
      obtain ⟨ws, stop, hn, hreads, rfl⟩ := (readRecord_waveform_succ htag hlen hw).1 hs
      obtain ⟨hbefore, hfirst, _⟩ := Env.reads_append.1 hreads
      have hend : (s.waveformRead w ws).eventIndex + 1 = s.eventIndex + 1 + ws.length :=
        Nat.add_right_comm _ _ _
      obtain ⟨stop', hfirst', _⟩ := hwords.stop stop (by rw [hend]; exact hfirst)
      have hlast : s'.eventIndex + (s.eventIndex + 1 + ws.length - s.eventIndex) =
          s'.eventIndex + 1 + ws.length := by omega
      rw [hend, hlast] at hfirst'
      refine ⟨s'.waveformRead w ws, ?_, ?_⟩
      · refine (readRecord_waveform_succ (htag'.trans htag) (by rw [hlen', hlen]) hw').2
          ⟨ws, stop', hn, Env.reads_append.2 ⟨?_, hfirst', trivial⟩, rfl⟩
        exact hwords.reads (m := 1) hbefore (by omega)
      · obtain ⟨j, en, wf, rfl⟩ := hk.at_pointers hst
        cases hwf
        refine ⟨⟨.of_at hst rfl, ?_, ⟨{}, rfl, rfl⟩, fun _ => ⟨rfl, rfl⟩⟩, rfl, rfl⟩
        change j.eventIndex + ws.length + s.eventIndex = s.eventIndex + ws.length + j.eventIndex
        omega

theorem readRecord_agree (hE : E.Akin E') (hk : Agree .tag s s') (hst : s.stateId = .s5)
    (hwav : s.tag ≠ TAG_WAVEFORM) (hwf : s.tag = TAG_PRETRIGGER → s'.wf = s.wf)
    (hen : s.tag = TAG_SLOW ∨ s.tag = TAG_FAST → s'.en = s.en)
    (hw : E.event s.eventIndex = some w) (hw' : E'.event s'.eventIndex = some w)
    (hs : s.readRecord E w = some u) (hwords : SameWords E E' s s' u) :
    ∃ u', s'.readRecord E' w = some u' ∧ SameTurn .tag s u s' u' := by
  obtain ⟨htag', hlen'⟩ : s'.tag = s.tag ∧ s'.rdWflen = s.rdWflen := by
    obtain ⟨j, rfl⟩ := hk.at hst
    exact ⟨rfl, rfl⟩
  have htag := Payload.ofTag_tagged s.tag
  rw [readRecord_eq] at hs ⊢
  rw [htag']
  cases hread : Payload.ofTag s.tag with rw [hread] at hs htag
  | pretrig =>
      cases hs
      have hwf := hwf htag
      obtain ⟨j, en, wf, rfl⟩ := hk.at_pointers hst
      cases hwf
      exact ⟨_, rfl, ⟨.of_at hst rfl, Nat.add_comm _ _, ⟨{}, rfl, rfl⟩, id⟩⟩
  | waveform => exact absurd htag hwav
  | energy k => exact readEnergy_agree hE hk hst (hen htag) k hs hwords
  | baseline => exact readBaseline_agree hk hst hs hwords
  | counters =>
      obtain ⟨ws, ts, _, hreads, rfl, hall⟩ := readCounters_agree hE hs
      have hreads' := hwords.reads (m := 1) hreads (Nat.le_of_eq (Nat.add_right_comm _ _ _))
      refine ⟨_, ?_, addTrinfos_agree hk hst ws ts⟩
      rw [Payload.read, hlen']
      exact hall s' (fun _ => hw'.trans hw.symm) hreads'
  | pair id k value => exact readPair_agree hE hk hst hs hwords
  | single id k => exact readSingle_agree hE hk hst hs
  | centrum => exact readCentrum_agree hE hk hst hs hwords
  | unknown =>
      cases hs
      exact ⟨s', rfl, hk, Nat.add_comm _ _, ⟨{}, rfl, rfl⟩, id⟩

theorem SameTurn.endRecord (h : SameTurn .tag s u s' t) (hst : u.stateId = .s5) (e : FzEvent)
    (err : Bool) :
    SameTurn .tag s
      { u with
        ev := e, errInEvent := err, tagDone := false, wflenDone := false, rdWflen := 0
        stateId := .s5 }
      s'
      { t with
        ev := e, errInEvent := err, tagDone := false, wflenDone := false, rdWflen := 0
        stateId := .s5 } := by
  obtain ⟨hk, hindex, hreport, hsaves⟩ := h
  obtain ⟨j, rfl⟩ := hk.at hst
  exact ⟨rfl, hindex, hreport, hsaves⟩

theorem SameTurn.endRecord_self (h : SameTurn .tag s u s' t) (hst : u.stateId = .s5) :
    SameTurn .tag s
      { u with tagDone := false, wflenDone := false, rdWflen := 0, stateId := .s5 } s'
      { t with tagDone := false, wflenDone := false, rdWflen := 0, stateId := .s5 } := by
  obtain ⟨hk, hindex, hreport, hsaves⟩ := h
  obtain ⟨j, rfl⟩ := hk.at hst
  exact ⟨rfl, hindex, hreport, hsaves⟩

/-- A waveform that has been read is judged at once. -/
theorem endWaveform_agree {x x' y : Fsm} (hE : E.Akin E') (hturn : SameTurn .tag s x s' x')
    (hst : x.stateId = .s5) (hwf : x'.wf = x.wf) (hy : x.verifyWaveform E = some y) :
    ∃ y', x'.verifyWaveform E' = some y' ∧ (SameSaves x x' → SameSaves y y') ∧
      SameTurn .tag s
        { y with tagDone := false, wflenDone := false, rdWflen := 0, stateId := .s5 } s'
        { y' with tagDone := false, wflenDone := false, rdWflen := 0, stateId := .s5 } := by
  obtain ⟨bad, _, rfl⟩ := verifyWaveform_eq_some hy
  obtain ⟨hev, hhit, hdata, hlen, herr⟩ : x'.ev = x.ev ∧ x'.hit = x.hit ∧ x'.d = x.d ∧
      x'.rdWflen = x.rdWflen ∧ x'.errInEvent = x.errInEvent := by
    obtain ⟨j, rfl⟩ := hturn.agree.at hst
    exact ⟨rfl, rfl, rfl, rfl, rfl⟩
  have hverify := verifyWaveform_agree hev hwf hhit hdata hlen herr (verifyWaveform_akin hE hy)
  exact ⟨_, hverify, id, hturn.endRecord hst _ _⟩

theorem trans08Tag_agree (hE : E.Akin E') (hk : Agree .tag s s') (hst : s.stateId = .s5)
    (hwf : s.tagDone = true → s.tag = TAG_PRETRIGGER ∨ s.tag = TAG_WAVEFORM → s'.wf = s.wf)
    (hen : s.tagDone = true → s.tag = TAG_SLOW ∨ s.tag = TAG_FAST → s'.en = s.en)
    (hpos : 0 < s.eventIndex) (hpos' : 0 < s'.eventIndex)
    (hsaves : s.tagDone = true → s.wflenDone = true → s.tag = TAG_WAVEFORM → s.rdWflen = 0 →
      SameSaves s s')
    (hw : E.event s.eventIndex = some w) (hw' : E'.event s'.eventIndex = some w)
    (hs : s.trans08Tag E w = some u) (hwords : SameWords E E' s s' u) :
    ∃ u', s'.trans08Tag E' w = some u' ∧
      SameTurn .tag s { u with stateId := .s5 } s' { u' with stateId := .s5 } ∧
      (s.tagDone = true → s.wflenDone = true → s.tag = TAG_WAVEFORM → SameSaves u u') := by
  let c := (s.updateBlk w).updateFee w
  let c' := (s'.updateBlk w).updateFee w
  have hk' : Agree .tag c c' := by
    obtain ⟨j, rfl⟩ := hk.at hst
    exact .of_at hst rfl
  obtain ⟨hdone, hlen⟩ : s'.tagDone = s.tagDone ∧ s'.wflenDone = s.wflenDone := by
    obtain ⟨j, rfl⟩ := hk.at hst
    exact ⟨rfl, rfl⟩
  rcases trans08Tag_cases hw hs with ⟨htag, rfl⟩ | ⟨htag, hd, rfl⟩ | ⟨htag, hd, x, y, hx, hy, rfl⟩
  · rw [trans08Tag_eq, hdone, htag]
    refine ⟨_, rfl, ?_, nofun⟩
    obtain ⟨j, rfl⟩ := hk.at hst
    exact .of_agree (readTag_agree rfl w) readTag_frame.2 readTag_frame.2 readTag_frame.1.report
      readTag_frame.1.report (SameSaves.square (readTag_saves _ w) (readTag_saves _ w))
  · rw [trans08Tag_eq, hdone, hlen, htag, hd]
    refine ⟨_, rfl, ?_, nofun⟩
    obtain ⟨j, rfl⟩ := hk.at hst
    exact .of_agree rfl rfl rfl rfl rfl id
  · have hxst : x.stateId = .s5 := (readRecord_stateId (s := c) hw hx).trans hst
    have hxtag : x.tag = s.tag := congrArg Flags.tag (readRecord_frame (s := c) hw hx).2
    have hback {v : Fsm} (h : SameTurn .tag c x c' v) : SameTurn .tag s x s' v :=
      ⟨h.agree, h.index, h.report, h.saves⟩
    have hxtag' {x' : Fsm} (h : SameTurn .tag c x c' x') : x'.tag = s.tag := by
      obtain ⟨j, rfl⟩ := h.agree.at hxst
      exact hxtag
    by_cases hwav : s.tag = TAG_WAVEFORM
    · rw [if_pos hwav] at hy
      obtain ⟨bad, _, rfl⟩ := verifyWaveform_eq_some hy
      obtain ⟨x', hx', hturn, hsame⟩ := readWaveform_agree hk' hst hwav (hwf htag (.inr hwav))
        (hsaves htag hd hwav) hpos hpos' hw hw' hx ⟨hwords.word, hwords.stop⟩
      have hcur : x.wf = s.wf := congrArg Cursors.wf (readRecord_cursors (s := c) hw hx)
      have hcur' : x'.wf = s'.wf := congrArg Cursors.wf (readRecord_cursors (s := c') hw' hx')
      obtain ⟨y', hy', hsaved, hend⟩ := endWaveform_agree hE (hback hturn) hxst
        (hcur'.trans ((hwf htag (.inr hwav)).trans hcur.symm)) hy
      refine ⟨_, trans08Tag_of_record (hdone.trans htag) (hlen.trans hd) hx' ?_, hend,
        fun _ _ _ => hsaved hsame⟩
      rw [if_pos ((hxtag' hturn).trans hwav), hy']
    · rw [if_neg hwav] at hy
      subst hy
      obtain ⟨x', hx', hturn⟩ := readRecord_agree hE hk' hst hwav (fun h => hwf htag (.inl h))
        (fun h => hen htag h) hw hw' hx ⟨hwords.word, hwords.stop⟩
      exact ⟨_, trans08Tag_of_record (hdone.trans htag) (hlen.trans hd) hx'
        (if_neg fun h => hwav ((hxtag' hturn).symm.trans h)), (hback hturn).endRecord_self hxst,
        fun _ _ h => absurd h hwav⟩

end Fsm

end FzDaq.Parser
