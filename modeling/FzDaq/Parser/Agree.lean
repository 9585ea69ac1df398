import FzDaq.Parser.Memory
import FzDaq.Parser.Stage

/-!
# What a turn depends on

A turn depends on the members that the machine has written since it left idle
and on the words that it reads. `keep` says for each state which members these
are: two objects that agree on them come out of the turn agreeing again, with
the same additions to the report.
-/

namespace FzDaq.Parser

open Machine

def FsmReport.add (r δ : FsmReport) : FsmReport where
  inEvents := r.inEvents + δ.inEvents
  inBytes := r.inBytes + δ.inBytes
  outEvents := r.outEvents + δ.outEvents
  outBytes := r.outBytes + δ.outBytes
  stateInvalid := r.stateInvalid + δ.stateInvalid
  eventsEmpty := r.eventsEmpty + δ.eventsEmpty
  eventsGood := r.eventsGood + δ.eventsGood
  eventsBad := r.eventsBad + δ.eventsBad

theorem FsmReport.add_add (r δ ε : FsmReport) : (r.add δ).add ε = r.add (δ.add ε) := by
  simp only [FsmReport.add, Nat.add_assoc]

namespace Fsm

/-! ## Live members -/

/-- The members that are live in a block. -/
def keepBlk (s j : Fsm) : Fsm :=
  { j with
    stateId := s.stateId
    ev := s.ev
    retval := s.retval
    blk := s.blk
    blklen := s.blklen
    blkcrc := s.blkcrc
    tmpEc := s.tmpEc
    tmpRawec := s.tmpRawec
    errInEvent := s.errInEvent }

/-- The members that are live in a fee. -/
def keepFee (s j : Fsm) : Fsm :=
  { s.keepBlk j with fee := s.fee, feelen := s.feelen, feecrc := s.feecrc }

/-- The members that are live in a section. -/
def keepData (s j : Fsm) : Fsm := { s.keepFee j with hit := s.hit, d := s.d }

/-- The object `j` with the live members of `s`, but for `en`, `wf` and the saved checksums. -/
def keep (fmt : Format) (s j : Fsm) : Fsm :=
  match s.stateId, fmt with
  | .idle, _ => { j with stateId := .idle, ev := s.ev, retval := s.retval }
  | .s1, _ | .s7, _ | .s8, _ | .s10, _ => s.keepBlk j
  | .s2, _ => { s.keepFee j with hit := s.hit }
  | .s3, _ => { s.keepFee j with hit := s.hit, dettagDone := s.dettagDone }
  | .s4, _ => s.keepData j
  | .s5, .basic =>
      { s.keepData j with
        energy1Done := s.energy1Done
        energy2Done := s.energy2Done
        pretrigDone := s.pretrigDone
        wflenDone := s.wflenDone
        rdWflen := s.rdWflen }
  | .s5, .tag =>
      { s.keepData j with
        tag := s.tag
        tagDone := s.tagDone
        wflenDone := s.wflenDone
        rdWflen := s.rdWflen }
  | .s6, _ => { s.keepFee j with rdFeelen := s.rdFeelen }
  | .s9, _ => { s.keepBlk j with rdBlklen := s.rdBlklen }

/-- `s'` has the live members of `s`. -/
def Agree (fmt : Format) (s s' : Fsm) : Prop := s' = s.keep fmt s'

/-- The parts of the open data message that exist are pointed to alike. -/
structure SamePointers (s s' : Fsm) : Prop where
  en : (s.ev.getData s.d).energy.isSome → s'.en = s.en
  wf : (s.ev.getData s.d).waveform.isSome → s'.wf = s.wf

/-- The saved checksums are the same. -/
def SameSaves (s s' : Fsm) : Prop :=
  s'.saveBlkcrc = s.saveBlkcrc ∧ s'.saveFeecrc = s.saveFeecrc

/-- The turn from `s'` to `u'` does what the turn from `s` to `u` does. -/
structure SameTurn (fmt : Format) (s u s' u' : Fsm) : Prop where
  agree : Agree fmt u u'
  index : u'.eventIndex + s.eventIndex = u.eventIndex + s'.eventIndex
  report : ∃ δ, u.report = s.report.add δ ∧ u'.report = s'.report.add δ
  saves : SameSaves s s' → SameSaves u u'

variable {E E' : Env} {s s' t u : Fsm} {w : Word} {tr : Trans} {fmt : Format}

/-- Both objects are in a section: their pointers are the cursor of the data message. -/
theorem At.samePointers {σ σ' : Site} (ha : s.At E σ) (ha' : s'.At E' σ')
    (h : Agree fmt s s') (hst : s.stateId = .s4 ∨ s.stateId = .s5) : SamePointers s s' := by
  obtain ⟨hst', hev, hd⟩ : s'.stateId = s.stateId ∧ s'.ev = s.ev ∧ s'.d = s.d := by
    unfold Agree keep at h
    rcases hst with hst | hst
    · rw [hst] at h ⊢
      rw [h]
      exact ⟨hst, rfl, rfl⟩
    · rw [hst] at h ⊢
      cases fmt <;> (rw [h]; exact ⟨hst, rfl, rfl⟩)
  obtain ⟨_, _, _, _, _, _, hat, hsec, _⟩ := ha.of_data hst
  obtain ⟨_, _, _, _, _, _, hat', hsec', _⟩ := ha'.of_data (hst' ▸ hst)
  have hget := hat'.getData
  rw [hev, hd, hat.getData] at hget
  subst hget
  refine ⟨fun h => ?_, fun h => ?_⟩ <;> rw [hat.getData] at h
  · exact (hsec'.en h).trans (hd.trans (hsec.en h).symm)
  · exact (hsec'.wf h).trans (hd.trans (hsec.wf h).symm)

/-! ## Transitions that do not look ahead -/

theorem verifyWaveform_agree (hev : s'.ev = s.ev) (hwf : s'.wf = s.wf) (hhit : s'.hit = s.hit)
    (hd : s'.d = s.d) (hlen : s'.rdWflen = s.rdWflen) (herr : s'.errInEvent = s.errInEvent)
    (hs : s.verifyWaveform E = some t) :
    s'.verifyWaveform E = some { s' with ev := t.ev, errInEvent := t.errInEvent } := by
  have hcur : s'.curWaveform = s.curWaveform := by rw [curWaveform, curWaveform, hev, hwf]
  have hnames : s'.logNames E = s.logNames E := by simp only [logNames, dType, hev, hhit, hd]
  unfold verifyWaveform at hs ⊢
  rw [hcur, hlen, hnames]
  split at hs
  · rename_i h
    rw [if_pos h]
    cases hs
    simp only [onWf, hev, hwf, herr]
  · rename_i h
    obtain ⟨_, hn, hs⟩ := Option.bind_eq_some_iff.1 hs
    rw [if_neg h, hn]
    cases hs
    simp only [onWf, hev, hwf, Option.bind_eq_bind, Option.bind_some]

theorem verifyEnergyLen_agree {n : Nat} (hev : s'.ev = s.ev) (hen : s'.en = s.en)
    (hhit : s'.hit = s.hit) (hd : s'.d = s.d) (herr : s'.errInEvent = s.errInEvent)
    (hs : s.verifyEnergyLen E n = some t) :
    s'.verifyEnergyLen E n = some { s' with ev := t.ev, errInEvent := t.errInEvent } := by
  have hcur : s'.curEnergy = s.curEnergy := by rw [curEnergy, curEnergy, hev, hen]
  have hnames : s'.logNames E = s.logNames E := by simp only [logNames, dType, hev, hhit, hd]
  unfold verifyEnergyLen at hs ⊢
  rw [hcur, hnames]
  split at hs
  · rename_i h
    rw [if_pos h]
    cases hs
    simp only [onEn, hev, hen, herr]
  · rename_i h
    obtain ⟨_, hn, hs⟩ := Option.bind_eq_some_iff.1 hs
    rw [if_neg h, hn]
    cases hs
    simp only [onEn, hev, hen, Option.bind_eq_bind, Option.bind_some]

theorem verifyEnergy_agree (hev : s'.ev = s.ev) (hen : s.dType.hasEnergy = true → s'.en = s.en)
    (hhit : s'.hit = s.hit) (hd : s'.d = s.d) (herr : s'.errInEvent = s.errInEvent)
    (hs : s.verifyEnergy E = some t) :
    s'.verifyEnergy E = some { s' with ev := t.ev, errInEvent := t.errInEvent } := by
  have htype : s'.dType = s.dType := by rw [dType, dType, hev, hd]
  unfold verifyEnergy at hs ⊢
  rw [htype]
  cases hdt : s.dType <;> rw [hdt] at hen <;> simp only [hdt] at hs ⊢ <;>
    first
    | exact verifyEnergyLen_agree hev (hen rfl) hhit hd herr hs
    | (cases hs; rw [← hev, ← herr])

theorem dType_modData {p : DataPtr} {f : FzData → FzData} (hf : ∀ d, (f d).type = d.type)
    (hev : t.ev = s.ev.modData p f) (hd : t.d = s.d) : t.dType = s.dType := by
  rw [dType, dType, hev, hd, FzEvent.getData_modData_proj FzData.type s.ev p s.d hf]

theorem verifySection_agree (hev : s'.ev = s.ev) (hwf : s'.wf = s.wf)
    (hen : s.dType.hasEnergy = true → s'.en = s.en) (hhit : s'.hit = s.hit) (hd : s'.d = s.d)
    (hlen : s'.rdWflen = s.rdWflen) (herr : s'.errInEvent = s.errInEvent)
    (h₁ : s.verifyWaveform E = some t) (h₂ : t.verifyEnergy E = some u) :
    ∃ t', s'.verifyWaveform E = some t' ∧
      t'.verifyEnergy E = some { s' with ev := u.ev, errInEvent := u.errInEvent } := by
  obtain ⟨t', ht'⟩ : ∃ t' : Fsm, t' = { s' with ev := t.ev, errInEvent := t.errInEvent } := ⟨_, rfl⟩
  have hfirst : s'.verifyWaveform E = some t' :=
    ht' ▸ verifyWaveform_agree hev hwf hhit hd hlen herr h₁
  obtain ⟨bad, _, ht⟩ := verifyWaveform_eq_some h₁
  have htype : t.dType = s.dType := by
    rw [ht]
    exact dType_modData (p := s.wf) (f := fun d => { d with waveform := d.waveform.map fun wf =>
      { wf with lenError := some bad } }) (fun _ => rfl) rfl rfl
  have hcur : t.toCursors = s.toCursors := by rw [ht]; rfl
  have hsecond := verifyEnergy_agree (E := E) (s := t) (show t'.ev = t.ev by rw [ht'])
    (fun h => by rw [ht', hcur]; exact hen (htype ▸ h)) (by rw [ht', hcur]; exact hhit)
    (by rw [ht', hcur]; exact hd) (by rw [ht']) h₂
  refine ⟨t', hfirst, ?_⟩
  rw [hsecond, ht']

theorem SameTurn.of_agree (hagree : Agree fmt u t) (hu : u.eventIndex = s.eventIndex)
    (ht : t.eventIndex = s'.eventIndex) (hreport : u.report = s.report)
    (hreport' : t.report = s'.report) (hsaves : SameSaves s s' → SameSaves u t) :
    SameTurn fmt s u s' t := by
  refine ⟨hagree, ?_, ⟨{}, hreport, hreport'⟩, hsaves⟩
  rw [hu, ht, Nat.add_comm]

theorem SameSaves.square {u' : Fsm} (hu : SameSaves s u) (hu' : SameSaves s' u')
    (h : SameSaves s s') : SameSaves u u' :=
  ⟨hu'.1.trans (h.1.trans hu.1.symm), hu'.2.trans (h.2.trans hu.2.symm)⟩

/-- A transition that starts from the live members of its state. -/
theorem Agree.at (h : Agree fmt s s') {st : FsmState} (hst : s.stateId = st) :
    ∃ j, s' = { s with stateId := st }.keep fmt j := ⟨s', by rw [← hst]; exact h⟩

theorem Agree.at_pointers (h : Agree fmt s s') {st : FsmState} (hst : s.stateId = st) :
    ∃ j en wf, s' = { ({ s with stateId := st }.keep fmt j : Fsm) with en := en, wf := wf } := by
  refine ⟨s', s'.en, s'.wf, ?_⟩
  rw [← hst]
  exact congrArg (fun x : Fsm => { x with en := s'.en, wf := s'.wf }) h

/-- In a section of the basic format the waveform exists, and the energy if the type has one. -/
theorem At.basic_pointers {σ : Site} (ha : s.At E σ) (hst : s.stateId = .s4 ∨ s.stateId = .s5)
    (hf : E.evformat = .basic) (hp : SamePointers s s') :
    s'.wf = s.wf ∧ (s.dType.hasEnergy = true → s'.en = s.en) := by
  obtain ⟨_, _, _, _, d, _, hat, hsec, _⟩ := ha.of_data hst
  obtain ⟨hwf, hen⟩ := hsec.basic hf
  refine ⟨hp.wf (by rwa [hat.getData]), fun h => hp.en ?_⟩
  rw [hat.getData, hen, ← hat.dType]
  exact h

theorem startSection_agree
    (hk : s' = { s.keepFee s' with hit := s.hit, stateId := s'.stateId }) (w : Word)
    (enError : Bool) :
    Agree E.evformat { s.startSection E w enError with stateId := .s4 }
        { s'.startSection E w enError with stateId := .s4 } := by
  obtain ⟨j, st, rfl⟩ : ∃ j st, s' = { s.keepFee j with hit := s.hit, stateId := st } :=
    ⟨s', s'.stateId, hk⟩
  unfold startSection
  cases E.evformat <;> dsimp only <;> split <;> rfl

theorem startSection_saves (s : Fsm) (w : Word) (enError : Bool) :
    SameSaves s (s.startSection E w enError) ∧
      (s.startSection E w enError).report = s.report := by
  unfold startSection
  cases E.evformat <;> dsimp only <;> split <;> exact ⟨⟨rfl, rfl⟩, rfl⟩

theorem addSection_agree (hk : s' = { s.keepFee s' with stateId := s'.stateId }) (hit : FzHit)
    (w : Word) :
    SameTurn E.evformat s { (s.addHit hit).startSection E w true with stateId := .s4 }
      s' { (s'.addHit hit).startSection E w true with stateId := .s4 } := by
  obtain ⟨j, st, rfl⟩ : ∃ j st, s' = { s.keepFee j with stateId := st } := ⟨s', s'.stateId, hk⟩
  have hstart := startSection_agree (E := E) (s := s.addHit hit)
    (show ({ s.keepFee j with stateId := st } : Fsm).addHit hit = _ from rfl) w true
  exact .of_agree hstart (startSection_frame _ w true).2 (startSection_frame _ w true).2
    (startSection_saves _ w true).2 (startSection_saves _ w true).2
    (SameSaves.square (startSection_saves _ w true).1 (startSection_saves _ w true).1)

theorem readTag_agree
    (hk : s' = { s.keepData s' with
      tagDone := s.tagDone
      wflenDone := s.wflenDone
      rdWflen := s.rdWflen
      stateId := s'.stateId }) (w : Word) :
    Agree .tag { s.readTag w with stateId := .s5 } { s'.readTag w with stateId := .s5 } := by
  obtain ⟨j, st, rfl⟩ : ∃ j st, s' = { s.keepData j with
      tagDone := s.tagDone
      wflenDone := s.wflenDone
      rdWflen := s.rdWflen
      stateId := st } := ⟨s', s'.stateId, hk⟩
  have hwf : ((keepData s j).ev.getData (keepData s j).d).waveform =
      (s.ev.getData s.d).waveform := rfl
  unfold readTag
  dsimp only
  simp only [hwf]
  split_ifs <;> rfl

theorem readTag_saves (s : Fsm) (w : Word) : SameSaves s (s.readTag w) := by
  unfold readTag
  dsimp only
  split_ifs <;> exact ⟨rfl, rfl⟩

theorem triggerInfos_agree {hit : FzHit} {wf : Waveform} {i left : Nat}
    (h : s.triggerInfos E hit wf i left = some t) :
    ∃ ts, t = s.addTrinfos ts ∧ ∀ s' : Fsm,
      s'.triggerInfos E hit wf i left = some (s'.addTrinfos ts) := by
  induction left generalizing s i with
  | zero =>
      cases h
      exact ⟨[], by simp, fun s' => by simp [triggerInfos]⟩
  | succ left ih =>
      obtain ⟨tri, htri, h⟩ := Option.bind_eq_some_iff.1 h
      obtain ⟨ts, rfl, hall⟩ := ih h
      refine ⟨tri :: ts, addTrinfos_addTrinfos s [tri] ts, fun s' => ?_⟩
      rw [triggerInfos, htri, Option.bind_eq_bind, Option.bind_some, hall, addTrinfo_eq,
        addTrinfos_addTrinfos]
      rfl

theorem endTriggerBlk_agree (hev : s'.ev = s.ev) (hblk : s'.blk = s.blk)
    (h : s.endTriggerBlk E = some t) : s'.endTriggerBlk E = some { s' with ev := t.ev } := by
  unfold endTriggerBlk readTriggerinfo at h ⊢
  simp only [hev, hblk] at h ⊢
  cases hf : E.evformat with
  | tag =>
      simp only [hf, Option.bind_eq_bind, Option.bind_some, Option.some.injEq] at h ⊢
      rw [← h, hev]
  | basic =>
      simp only [hf] at h ⊢
      split at h
      · rename_i hfee
        rw [if_pos hfee]
        obtain ⟨u, hu, h⟩ := Option.bind_eq_some_iff.1 h
        obtain ⟨ts, rfl, hall⟩ := triggerInfos_agree hu
        rw [hall, Option.bind_eq_bind, Option.bind_some]
        cases h
        simp only [addTrinfos, hev]
      · rename_i hfee
        rw [if_neg hfee]
        cases h
        simp only [Option.bind_eq_bind, Option.bind_some, hev]

theorem eq_of_false_iff {a b : Bool} {P : Prop} (ha : a = false ↔ P) (hb : b = false ↔ P) :
    a = b := by
  cases a <;> cases b <;> simp_all

theorem trans16_agree
    (hk : s' = { s.keepBlk s' with rdBlklen := s.rdBlklen, stateId := s'.stateId })
    (hs : s.trans16 E w = some u) :
    ∃ u', s'.trans16 E w = some u' ∧
      SameTurn fmt s { u with stateId := .s10 } s' { u' with stateId := .s10 } := by
  obtain ⟨j, st, rfl⟩ : ∃ j st, s' = { s.keepBlk j with rdBlklen := s.rdBlklen, stateId := st } :=
    ⟨s', s'.stateId, hk⟩
  obtain ⟨lenBad, crcBad, hlen, hcrc, heq⟩ := trans16_eq (E := E) s w
  obtain ⟨lenBad', crcBad', hlen', hcrc', heq'⟩ := trans16_eq (E := E)
    { s.keepBlk j with rdBlklen := s.rdBlklen, stateId := st } w
  obtain rfl : lenBad' = lenBad := eq_of_false_iff hlen' hlen
  obtain rfl : crcBad' = crcBad := eq_of_false_iff hcrc' hcrc
  rw [heq'] 
  rw [heq] at hs
  change ∃ u', (if crcBad' = false ∧ (s.ev.getBlk s.blk).blkid.getD 0 = 0x7FF then _ else _) = _ ∧ _
  split at hs
  · rename_i h
    rw [if_pos h]
    refine ⟨_, endTriggerBlk_agree (s := s.judged w lenBad' crcBad') rfl rfl hs, ?_⟩
    obtain ⟨ts, _, rfl⟩ := endTriggerBlk_eq_some hs
    exact .of_agree rfl rfl rfl rfl rfl id
  · rename_i h
    rw [if_neg h]
    cases hs
    exact ⟨_, rfl, .of_agree rfl rfl rfl rfl rfl id⟩

theorem trans05_agree (hk : Agree fmt s s') (hst : s.stateId = .s3) (w : Word) :
    SameTurn fmt s { s.trans05 w with stateId := .s3 } s' { s'.trans05 w with stateId := .s3 } := by
  obtain ⟨j, rfl⟩ := hk.at hst
  rw [trans05_eq, trans05_eq]
  have hdone : (keep fmt { s with stateId := .s3 } j).dettagDone = s.dettagDone := rfl
  rw [hdone]
  split <;> exact .of_agree rfl rfl rfl rfl rfl id

theorem trans06_agree (hk : Agree E.evformat s s') (hst : s.stateId = .s3) (w : Word) :
    SameTurn E.evformat s { s.trans06 E w with stateId := .s4 }
      s' { s'.trans06 E w with stateId := .s4 } := by
  obtain ⟨j, rfl⟩ := hk.at hst
  let hit (x : FzHit) : FzHit := { x with detid := some (detidOf w).toNat }
  let c := ((s.updateBlk w).updateFee w).onHit hit
  let c' := (((keep E.evformat { s with stateId := .s3 } j).updateBlk w).updateFee w).onHit hit
  have hstart := startSection_agree (E := E) (s := c) (show c' = _ from rfl) w false
  have hsaves := startSection_saves (E := E) c w false
  have hsaves' := startSection_saves (E := E) c' w false
  exact .of_agree hstart trans06_frame.2 trans06_frame.2 hsaves.2 hsaves'.2
    (SameSaves.square hsaves.1 hsaves'.1)

theorem trans07Basic_agree (hk : Agree .basic s s') (hst : s.stateId = .s4)
    (hwf : s'.wf = s.wf) (hen : s.dType.hasEnergy = true → s'.en = s.en) (w : Word) :
    SameTurn .basic s { s.trans07Basic w with stateId := .s5 }
      s' { s'.trans07Basic w with stateId := .s5 } := by
  obtain ⟨j, en, wf, rfl⟩ := hk.at_pointers hst
  rw [trans07Basic_eq, trans07Basic_eq]
  change SameTurn .basic s _ _ { (if s.dType.hasEnergy then _ else _ : Fsm) with stateId := _ }
  cases henergy : s.dType.hasEnergy with
  | true =>
      cases hen henergy
      exact .of_agree rfl rfl rfl rfl rfl id
  | false =>
      cases hwf
      exact .of_agree rfl rfl rfl rfl rfl id

theorem trans07Tag_agree (hk : Agree .tag s s') (hst : s.stateId = .s4) (w : Word) :
    SameTurn .tag s { s.trans07Tag w with stateId := .s5 }
      s' { s'.trans07Tag w with stateId := .s5 } := by
  obtain ⟨j, rfl⟩ := hk.at hst
  exact .of_agree (readTag_agree rfl w) readTag_frame.2 readTag_frame.2
    readTag_frame.1.report readTag_frame.1.report
    (SameSaves.square (readTag_saves _ w) (readTag_saves _ w))

theorem trans09Tag_agree (hf : E.evformat = .tag) (hk : Agree .tag s s') (hst : s.stateId = .s5)
    (w : Word) :
    SameTurn .tag s { s.trans09Tag E w with stateId := .s4 }
      s' { s'.trans09Tag E w with stateId := .s4 } := by
  obtain ⟨j, rfl⟩ := hk.at hst
  have hturn := addSection_agree (E := E) (s := (s.updateBlk w).updateFee w)
    (show ((keep .tag { s with stateId := .s5 } j).updateBlk w).updateFee w = _ from rfl)
    (sectionHit .tag (some (s.ev.ec.getD 0)) (s.ev.getHit s.hit) w) w
  rw [hf] at hturn
  exact ⟨hturn.agree, hturn.index, hturn.report, hturn.saves⟩

theorem trans09Basic_agree (hf : E.evformat = .basic) (hk : Agree .basic s s')
    (hst : s.stateId = .s5) (hwf : s'.wf = s.wf) (hen : s.dType.hasEnergy = true → s'.en = s.en)
    (hs : s.trans09Basic E w = some u) :
    ∃ u', s'.trans09Basic E w = some u' ∧
      SameTurn .basic s { u with stateId := .s4 } s' { u' with stateId := .s4 } := by
  obtain ⟨x, y, hit, hx, hy, rfl, hhit⟩ := trans09Basic_eq_some hs
  obtain ⟨j, en, wf, rfl⟩ := hk.at_pointers hst
  let c := (({ (keep .basic { s with stateId := .s5 } j : Fsm) with en := en, wf := wf } :
    Fsm).updateBlk w).updateFee w
  obtain ⟨x', hx', hy'⟩ := verifySection_agree (s := (s.updateBlk w).updateFee w)
    (show c.ev = s.ev from rfl) hwf hen rfl rfl rfl rfl hx hy
  obtain ⟨bs, bad, rfl⟩ := verifySection_eq_some hx hy
  refine ⟨_, by rw [trans09Basic, Option.bind_eq_bind, hx', Option.bind_some, hy']; rfl, ?_⟩
  rw [hhit]
  have hturn := addSection_agree (E := E)
    (s := { (s.updateBlk w).updateFee w with
      ev := { s.ev with block := bs }, errInEvent := s.errInEvent || bad })
    (show ({ c with ev := { s.ev with block := bs }, errInEvent := s.errInEvent || bad } : Fsm) = _
      from rfl)
  rw [hf] at hturn
  exact ⟨(hturn _ w).agree, (hturn _ w).index, (hturn _ w).report, (hturn _ w).saves⟩

theorem trans10Basic_agree (hk : Agree .basic s s')
    (hst : s.stateId = .s5) (hwf : s'.wf = s.wf) (hen : s.dType.hasEnergy = true → s'.en = s.en)
    (hs : s.trans10Basic E w = some u) :
    ∃ u', s'.trans10Basic E w = some u' ∧
      SameTurn .basic s { u with stateId := .s2 } s' { u' with stateId := .s2 } := by
  obtain ⟨x, y, hx, hy, rfl⟩ := trans10Basic_eq_some hs
  obtain ⟨j, en, wf, rfl⟩ := hk.at_pointers hst
  let c := (({ (keep .basic { s with stateId := .s5 } j : Fsm) with en := en, wf := wf } :
    Fsm).updateBlk w).updateFee w
  obtain ⟨x', hx', hy'⟩ := verifySection_agree (s := (s.updateBlk w).updateFee w)
    (show c.ev = s.ev from rfl) hwf hen rfl rfl rfl rfl hx hy
  obtain ⟨bs, bad, rfl⟩ := verifySection_eq_some hx hy
  refine ⟨_, by rw [trans10Basic, Option.bind_eq_bind, hx', Option.bind_some, hy']; rfl, ?_⟩
  exact .of_agree rfl rfl rfl rfl rfl id

theorem trans11Basic_agree (hk : Agree .basic s s')
    (hst : s.stateId = .s5) (hwf : s'.wf = s.wf) (hen : s.dType.hasEnergy = true → s'.en = s.en)
    (hs : s.trans11Basic E w = some u) :
    ∃ u', s'.trans11Basic E w = some u' ∧
      SameTurn .basic s { u with stateId := .s6 } s' { u' with stateId := .s6 } := by
  obtain ⟨x, hx, hy⟩ := trans11Basic_eq_some hs
  obtain ⟨j, en, wf, rfl⟩ := hk.at_pointers hst
  let m := { s with rdFeelen := lengthOf w }.updateBlk w
  let c := ({ ({ (keep .basic { s with stateId := .s5 } j : Fsm) with
      en := en, wf := wf } : Fsm) with rdFeelen := lengthOf w } : Fsm).updateBlk w
  have hmid : c.ev = m.ev ∧ c.wf = m.wf ∧ c.hit = m.hit ∧ c.d = m.d ∧ c.rdWflen = m.rdWflen ∧
      c.errInEvent = m.errInEvent := ⟨rfl, hwf, rfl, rfl, rfl, rfl⟩
  obtain ⟨hev, hwf', hhit, hd, hlen, herr⟩ := hmid
  have hen' : m.dType.hasEnergy = true → c.en = m.en := by
    intro h
    unfold dType at hen h
    exact hen h
  obtain ⟨x', hx', hy'⟩ := verifySection_agree hev hwf' hen' hhit hd hlen herr hx hy
  obtain ⟨bs, bad, rfl⟩ := verifySection_eq_some hx hy
  refine ⟨_, by rw [trans11Basic, Option.bind_eq_bind, hx', Option.bind_some, hy'], ?_⟩
  exact .of_agree rfl rfl rfl rfl rfl id

theorem trans12_agree (hk : Agree fmt s s') (hst : s.stateId = .s6) (w : Word) :
    SameTurn fmt s { s.trans12 w with stateId := .s7 } s' { s'.trans12 w with stateId := .s7 } := by
  obtain ⟨j, rfl⟩ := hk.at hst
  obtain ⟨lenBad, crcBad, hlen, hcrc, heq⟩ := trans12_eq s w
  obtain ⟨lenBad', crcBad', hlen', hcrc', heq'⟩ :=
    trans12_eq (keep fmt { s with stateId := .s6 } j) w
  obtain rfl : lenBad' = lenBad := eq_of_false_iff hlen' hlen
  obtain rfl : crcBad' = crcBad := eq_of_false_iff hcrc' hcrc
  rw [heq, heq']
  exact .of_agree rfl rfl rfl rfl rfl id

/-- No block of the event has a fee, and there are no trigger infos. -/
def noData (e : FzEvent) : Bool :=
  if e.trinfo.length > 0 then false else !e.block.any fun b => b.fee.length > 0

/-- What the REGID word adds to the report. -/
def verdict (e : FzEvent) (err : Bool) : FsmReport :=
  if noData e then { eventsEmpty := 1 }
  else if err then { eventsBad := 1 }
  else { eventsGood := 1 }

theorem trans18_eq (s : Fsm) (w : Word) :
    s.trans18 w = { s with
      ev := { s.ev with regid := some (regidOf w).toUInt32 }
      eventIsEmpty := noData s.ev
      errInEvent := noData s.ev && s.errInEvent
      report := s.report.add (verdict s.ev s.errInEvent) } := by
  unfold trans18 verdict noData
  dsimp only
  generalize (if s.ev.trinfo.length > 0 then false
    else !s.ev.block.any fun b => decide (b.fee.length > 0)) = isEmpty
  cases isEmpty <;> cases s.errInEvent <;> rfl

theorem trans18_agree (hk : Agree fmt s s') (hst : s.stateId = .s10) (w : Word) :
    SameTurn fmt s { s.trans18 w with stateId := .idle, retval := .PARSE_OK }
      s' { s'.trans18 w with stateId := .idle, retval := .PARSE_OK } := by
  obtain ⟨j, rfl⟩ := hk.at hst
  rw [trans18_eq, trans18_eq]
  exact ⟨rfl, Nat.add_comm _ _, ⟨_, rfl, rfl⟩, id⟩

theorem reset_agree (hk : Agree fmt s s') : SameTurn fmt s s.reset s' s'.reset := by
  have hret : s'.retval = s.retval := by
    rw [hk]
    unfold keep
    split <;> rfl
  refine ⟨?_, Nat.add_comm _ _, ⟨{ stateInvalid := 1 }, rfl, rfl⟩, id⟩
  change s'.reset = { s'.reset with retval := s.retval }
  rw [← hret]
  rfl

theorem fire_agree_end {σ : Site} (hat : s.At E σ) (hagree : Agree E.evformat s s')
    (hptr : SamePointers s s') (hst : s.stateId = .s5) (hends : tr ∈ [.t09, .t10, .t11])
    (hs : s.fire E tr w = some u) :
    ∃ u', s'.fire E tr w = some u' ∧ SameTurn E.evformat s u s' u' := by
  have hpointers (hf : E.evformat = .basic) := hat.basic_pointers (.inr hst) hf hptr
  cases tr with
  | t09 =>
      cases hf : E.evformat <;> rw [hf] at hagree <;> simp only [fire, hf] at hs ⊢
      · obtain ⟨hwf, hen⟩ := hpointers hf
        obtain ⟨v, hv, rfl⟩ := Option.map_eq_some_iff.1 hs
        obtain ⟨v', hv', hturn⟩ := trans09Basic_agree hf hagree hst hwf hen hv
        exact ⟨_, by rw [hv', Option.map_some], hturn⟩
      · cases hs
        exact ⟨_, rfl, trans09Tag_agree hf hagree hst w⟩
  | t10 =>
      cases hf : E.evformat <;> rw [hf] at hagree <;> simp only [fire, hf] at hs ⊢
      · obtain ⟨hwf, hen⟩ := hpointers hf
        obtain ⟨v, hv, rfl⟩ := Option.map_eq_some_iff.1 hs
        obtain ⟨v', hv', hturn⟩ := trans10Basic_agree hagree hst hwf hen hv
        exact ⟨_, by rw [hv', Option.map_some], hturn⟩
      · cases hs
        obtain ⟨j, rfl⟩ := hagree.at hst
        exact ⟨_, rfl, .of_agree rfl rfl rfl rfl rfl id⟩
  | t11 =>
      cases hf : E.evformat <;> rw [hf] at hagree <;> simp only [fire, hf] at hs ⊢
      · obtain ⟨hwf, hen⟩ := hpointers hf
        obtain ⟨v, hv, rfl⟩ := Option.map_eq_some_iff.1 hs
        obtain ⟨v', hv', hturn⟩ := trans11Basic_agree hagree hst hwf hen hv
        exact ⟨_, by rw [hv', Option.map_some], hturn⟩
      · cases hs
        obtain ⟨j, rfl⟩ := hagree.at hst
        exact ⟨_, rfl, .of_agree rfl rfl rfl rfl rfl id⟩
  | _ => simp at hends

/-- The step lemma for the transitions that read no word but their own. -/
theorem fire_agree {σ : Site} (hat : s.At E σ) (hagree : Agree E.evformat s s')
    (hptr : s.stateId = .s4 ∨ s.stateId = .s5 → SamePointers s s')
    (htr : ttable (getwordId w) s.stateId = tr) (hdata : tr ≠ .t08)
    (hs : s.fire E tr w = some u) :
    ∃ u', s'.fire E tr w = some u' ∧ SameTurn E.evformat s u s' u' := by
  have hentry := ttable_eq htr
  cases tr with
  | t08 => exact absurd rfl hdata
  | notValid =>
      cases hs
      exact ⟨_, rfl, reset_agree hagree⟩
  | t01 =>
      cases hs
      exact ⟨_, rfl, .of_agree hagree rfl rfl rfl rfl id⟩
  | t05 =>
      cases hs
      exact ⟨_, rfl, trans05_agree hagree hentry.1 w⟩
  | t06 =>
      cases hs
      exact ⟨_, rfl, trans06_agree hagree hentry.1 w⟩
  | t07 =>
      cases hf : E.evformat <;> rw [hf] at hagree <;> simp only [fire, hf] at hs ⊢ <;> cases hs
      · obtain ⟨hwf, hen⟩ := hat.basic_pointers (.inl hentry.1) hf (hptr (.inl hentry.1))
        exact ⟨_, rfl, trans07Basic_agree hagree hentry.1 hwf hen w⟩
      · exact ⟨_, rfl, trans07Tag_agree hagree hentry.1 w⟩
  | t09 | t10 | t11 =>
      exact fire_agree_end hat hagree (hptr (.inr hentry.1)) hentry.1 (by simp) hs
  | t12 =>
      cases hs
      exact ⟨_, rfl, trans12_agree hagree hentry.1 w⟩
  | t16 =>
      obtain ⟨v, hv, rfl⟩ := Option.map_eq_some_iff.1 hs
      obtain ⟨j, rfl⟩ := hagree.at hentry.1
      obtain ⟨v', hv', hturn⟩ := trans16_agree (s := s)
        (show keep E.evformat { s with stateId := .s9 } j = _ from rfl) hv
      exact ⟨_, by simp only [fire, hv', Option.map_some], hturn⟩
  | t18 =>
      cases hs
      exact ⟨_, rfl, trans18_agree hagree hentry.1 w⟩
  | _ =>
      obtain ⟨j, rfl⟩ := hagree.at hentry.1
      cases hs
      exact ⟨_, rfl, .of_agree rfl rfl rfl rfl rfl id⟩

end Fsm

end FzDaq.Parser
