import FzDaq.Parser.Content

/-!
# What the transitions build

The effect of each transition on the open parts of the event. The transitions of
a section are stated for an object whose cursors `en` and `wf` point into the
open data message, which `Section` says.
-/

namespace FzDaq.Parser

/-- The block that an EC word opens. -/
def newBlk : FzBlock := { lenError := some true, crcError := some true }

/-- The fee that a TELID word opens in S1. -/
def newFee (w : Word) : FzFee :=
  { feeid := some (checkFeeid (feeidOf w)), lenError := some true, crcError := some true }

/-- The hit that a TELID word opens. -/
def telescopeHit (ec : Option UInt32) (w : Word) : FzHit :=
  { ec := ec
    telid := some (checkTelid (telidOf w))
    feeid := some (checkFeeid (feeidOf w)) }

/-- The hit that a DETID word opens in S5, with the tags of the one before it. -/
def sectionHit (fmt : Format) (ec : Option UInt32) (last : FzHit) (w : Word) : FzHit :=
  { ec := ec
    gttag := some (last.gttag.getD 0)
    dettag := some (last.dettag.getD 0)
    trigpat := match fmt with
      | .basic => none
      | .tag => some (last.trigpat.getD 0)
    detid := some (detidOf w).toNat
    telid := some (checkTelid (telidOf w))
    feeid := some (checkFeeid (feeidOf w)) }

/-- The cursors `en` and `wf` point into the open data message `d`, whose parts the
basic format has laid out. -/
structure Cursors.Section (c : Cursors) (E : Env) (d : FzData) : Prop where
  wf : d.waveform.isSome → c.wf = c.d
  en : d.energy.isSome → c.en = c.d
  basic : E.evformat = .basic →
    d.waveform.isSome ∧ d.energy.isSome = (d.type.getD .QH1).hasEnergy

namespace Fsm

variable {E : Env} {s t : Fsm} {w : Word} {bs : List FzBlock} {b : FzBlock} {r : FzFee}
  {h : FzHit} {d : FzData}

/-! ## Blocks, fees and hits -/

theorem startBlk_at (s : Fsm) (w : Word) : (s.startBlk w).AtBlk s.ev.block newBlk := addBlk_at s _

theorem trans02_at (hev : s.ev.block = []) (w : Word) : (s.trans02 w).AtBlk [] newBlk := by
  have hat := startBlk_at { s with errInEvent := false } w
  rwa [show ({ s with errInEvent := false } : Fsm).ev.block = [] from hev] at hat

theorem AtBlk.trans03 (ha : s.AtBlk bs b) (w : Word) :
    (s.trans03 w).AtHit bs b (newFee w) (telescopeHit (some s.tmpEc.toUInt32) w) :=
  (AtBlk.addFee (s := { s.updateBlk w with feelen := 2, feecrc := s.tmpRawec ^^^ w })
    ha (newFee w)).addHit _

theorem AtHit.trans04 (ha : s.AtHit bs b r h) (w : Word) :
    (s.trans04 w).AtHit bs b r { h with gttag := some w.toUInt32 } :=
  AtHit.onHit (s := (s.updateBlk w).updateFee w) ha _

theorem trans05_eq (s : Fsm) (w : Word) :
    s.trans05 w =
      if s.dettagDone then
        ((s.updateBlk w).updateFee w).onHit fun h => { h with trigpat := some w.toUInt32 }
      else { ((s.updateBlk w).updateFee w).onHit fun h =>
        { h with dettag := some w.toUInt32 } with dettagDone := true } := by
  change (if !s.dettagDone then _ else _) = _
  cases s.dettagDone <;> rfl

theorem AtHit.trans05 (ha : s.AtHit bs b r h) (w : Word) :
    (s.trans05 w).AtHit bs b r (if s.dettagDone then { h with trigpat := some w.toUInt32 }
      else { h with dettag := some w.toUInt32 }) := by
  have hset := AtHit.onHit (s := (s.updateBlk w).updateFee w) ha
  rw [trans05_eq]
  cases s.dettagDone <;> exact hset _

theorem trans05_dettagDone (s : Fsm) (w : Word) : (s.trans05 w).dettagDone = true := by
  rw [trans05_eq]
  cases hdone : s.dettagDone
  · rfl
  · exact hdone

theorem AtHit.startSection (ha : s.AtHit bs b r h) (w : Word) (enError : Bool) :
    (s.startSection E w enError).AtData bs b r h
      (sectionData E.evformat (sectionType w) enError) := by
  have hadd := ha.addData (sectionData E.evformat (sectionType w) enError)
  unfold Fsm.startSection
  cases hf : E.evformat <;> rw [hf] at hadd <;> dsimp only <;> split <;> exact hadd

theorem AtHit.trans06 (ha : s.AtHit bs b r h) (w : Word) :
    (s.trans06 E w).AtData bs b r { h with detid := some (detidOf w).toNat }
      (sectionData E.evformat (sectionType w) false) :=
  (AtHit.onHit (s := (s.updateBlk w).updateFee w) ha _).startSection w false

theorem AtData.startTelescope (ha : s.AtData bs b r h d) (w : Word) :
    (s.startTelescope w).AtHit bs b (r.addHit (h.addData d))
      (telescopeHit (some (s.ev.ec.getD 0)) w) :=
  ha.1.1.addHit _

theorem AtData.trans10Tag (ha : s.AtData bs b r h d) (w : Word) :
    (s.trans10Tag w).AtHit bs b (r.addHit (h.addData d))
      (telescopeHit (some (s.ev.ec.getD 0)) w) :=
  AtData.startTelescope (s := (s.updateBlk w).updateFee w) ha w

theorem AtBlk.trans14 (ha : s.AtBlk bs b) (w : Word) :
    (s.trans14 w).AtBlk bs { b with blkid := some (blkidOf w).toUInt32 } :=
  AtBlk.onBlk (s := s.updateBlk w) ha _

/-! ## Sections -/

theorem startSection_section (s : Fsm) (w : Word) (enError : Bool) :
    (s.startSection E w enError).Section E (sectionData E.evformat (sectionType w) enError) := by
  unfold Fsm.startSection
  cases hf : E.evformat with
  | basic =>
      dsimp only
      cases ht : (sectionType w).hasEnergy <;> split <;>
        refine ⟨fun _ => rfl, fun hen => ?_, fun _ => ⟨rfl, ?_⟩⟩ <;>
        simp_all [sectionData]
  | tag =>
      refine ⟨?_, ?_, ?_⟩ <;> simp [sectionData, hf]

theorem startSection_unkdt (s : Fsm) (w : Word) (enError : Bool)
    (hw : sectionType w = .UNKDT) : (s.startSection E w enError).errInEvent = true := by
  rw [startSection_err, hw]
  simp

theorem AtData.fillWf (ha : s.AtData bs b r h d) (hsec : s.Section E d)
    (hwf : d.waveform.isSome) (f : Waveform → Waveform) :
    (s.onWf f).AtData bs b r h { d with waveform := d.waveform.map f } ∧
      (s.onWf f).Section E { d with waveform := d.waveform.map f } :=
  ⟨ha.onWf (hsec.wf hwf) f, ⟨fun _ => hsec.wf hwf, hsec.en,
    fun hf => ⟨by simp [hwf], (hsec.basic hf).2⟩⟩⟩

theorem AtData.fillEn (ha : s.AtData bs b r h d) (hsec : s.Section E d)
    (hen : d.energy.isSome) (f : Energy → Energy) :
    (s.onEn f).AtData bs b r h { d with energy := d.energy.map f } ∧
      (s.onEn f).Section E { d with energy := d.energy.map f } :=
  ⟨ha.onEn (hsec.en hen) f, ⟨hsec.wf, fun _ => hsec.en hen,
    fun hf => ⟨(hsec.basic hf).1, by simpa using (hsec.basic hf).2⟩⟩⟩

end Fsm

/-! ## The flags of a data message -/

/-- The field `len_error` of the energy, if there is one. -/
def FzData.enFlag (d : FzData) : Option (Option Bool) := d.energy.map (·.lenError)

/-- The field `len_error` of the waveform, if there is one. -/
def FzData.wfFlag (d : FzData) : Option (Option Bool) := d.waveform.map (·.lenError)

/-- What the words of a section do to its data message: the type stays, and a flag
that changes is set. -/
structure FzData.Filled (d d' : FzData) : Prop where
  type : d'.type = d.type
  en : d'.enFlag = d.enFlag ∨ d'.enFlag = some (some false)
  wf : d'.wfFlag = d.wfFlag ∨ ∃ bad, d'.wfFlag = some (some bad)

/-- What the checks at the end of a section do to its data message: the flags are
set, and one that is raised is known to `err_in_event`. -/
structure FzData.Judged (d d' : FzData) (err : Bool) : Prop where
  type : d'.type = d.type
  pretrig : d'.waveform.map (·.pretrig) = d.waveform.map (·.pretrig)
  wf : ∃ bad, d'.wfFlag = some (some bad) ∧ (bad = true → err = true)
  en : d'.enFlag = none ∨ ∃ bad, d'.enFlag = some (some bad) ∧ (bad = true → err = true)

theorem FzData.Judged.mono {d d' : FzData} {err err' : Bool} (hj : d.Judged d' err)
    (herr : err = true → err' = true) : d.Judged d' err' := by
  obtain ⟨bad, hwf, hbad⟩ := hj.wf
  refine ⟨hj.type, hj.pretrig, ⟨bad, hwf, herr ∘ hbad⟩, ?_⟩
  rcases hj.en with hnone | ⟨bad', hen, hbad'⟩
  · exact .inl hnone
  · exact .inr ⟨bad', hen, herr ∘ hbad'⟩

/-- The end of a section: only the basic format checks its data message. -/
def FzData.Closed (fmt : Format) (d d' : FzData) (err : Bool) : Prop :=
  match fmt with
  | .basic => d.Judged d' err
  | .tag => d' = d

namespace FzData.Filled

variable {d d' d'' : FzData}

theorem refl (d : FzData) : d.Filled d := ⟨rfl, .inl rfl, .inl rfl⟩

theorem trans (h₁ : d.Filled d') (h₂ : d'.Filled d'') : d.Filled d'' := by
  refine ⟨h₂.type.trans h₁.type, ?_, ?_⟩
  · rcases h₂.en with hen | hen
    · rw [hen]
      exact h₁.en
    · exact .inr hen
  · rcases h₂.wf with hwf | hwf
    · rw [hwf]
      exact h₁.wf
    · exact .inr hwf

theorem onWf (d : FzData) {f : Waveform → Waveform} (hf : ∀ wf, (f wf).lenError = wf.lenError) :
    d.Filled { d with waveform := d.waveform.map f } := by
  refine ⟨rfl, .inl rfl, .inl ?_⟩
  cases hwf : d.waveform <;> simp [wfFlag, hf, hwf]

theorem onEn (d : FzData) {f : Energy → Energy} (hf : ∀ en, (f en).lenError = en.lenError) :
    d.Filled { d with energy := d.energy.map f } := by
  refine ⟨rfl, .inl ?_, .inl rfl⟩
  cases hen : d.energy <;> simp [enFlag, hf, hen]

theorem verdict {d : FzData} (hwf : d.waveform.isSome) (bad : Bool) :
    d.Filled { d with waveform := d.waveform.map fun wf => { wf with lenError := some bad } } := by
  obtain ⟨wf, hwf⟩ := Option.isSome_iff_exists.1 hwf
  exact ⟨rfl, .inl rfl, .inr ⟨bad, by simp [wfFlag, hwf]⟩⟩

end FzData.Filled

/-! ## The words of a section, basic format -/

namespace Fsm

variable {E : Env} {s t : Fsm} {w : Word} {bs : List FzBlock} {b : FzBlock} {r : FzFee}
  {h : FzHit} {d : FzData}

theorem trans07Basic_eq (s : Fsm) (w : Word) :
    s.trans07Basic w =
      let u := ({ s with
        energy1Done := false
        energy2Done := false
        pretrigDone := false
        wflenDone := false
        rdWflen := 0 }.updateBlk w).updateFee w
      if s.dType.hasEnergy then u.addValue w.toUInt32
      else
        { u.onWf fun wf => { wf with pretrig := some w.toUInt32 } with pretrigDone := true } := by
  unfold trans07Basic
  dsimp only
  split
  all_goals
    rename_i htype
    rw [show s.dType = _ from htype]
    rfl

/-- The object is at the data message `d'`, which comes of `d`. -/
def Fills (E : Env) (t : Fsm) (bs : List FzBlock) (b : FzBlock) (r : FzFee) (h : FzHit)
    (d : FzData) : Prop :=
  ∃ d', t.AtData bs b r h d' ∧ t.Section E d' ∧ d.Filled d'

theorem Fills.of (ha : t.AtData bs b r h d) (hsec : t.Section E d) : t.Fills E bs b r h d :=
  ⟨d, ha, hsec, .refl d⟩

theorem AtData.fills_onWf (ha : s.AtData bs b r h d) (hsec : s.Section E d)
    (hwf : d.waveform.isSome) {f : Waveform → Waveform}
    (hf : ∀ wf, (f wf).lenError = wf.lenError) : (s.onWf f).Fills E bs b r h d :=
  ⟨_, (ha.fillWf hsec hwf f).1, (ha.fillWf hsec hwf f).2, .onWf d hf⟩

theorem AtData.fills_onEn (ha : s.AtData bs b r h d) (hsec : s.Section E d)
    (hen : d.energy.isSome) {f : Energy → Energy}
    (hf : ∀ en, (f en).lenError = en.lenError) : (s.onEn f).Fills E bs b r h d :=
  ⟨_, (ha.fillEn hsec hen f).1, (ha.fillEn hsec hen f).2, .onEn d hf⟩

theorem AtData.trans07Basic (ha : s.AtData bs b r h d) (hsec : s.Section E d)
    (hf : E.evformat = .basic) (w : Word) : (s.trans07Basic w).Fills E bs b r h d := by
  have hbasic := hsec.basic hf
  rw [trans07Basic_eq, ha.dType]
  dsimp only
  split
  · rename_i hen
    exact AtData.fills_onEn (s := Fsm.updateFee _ w) ha hsec (by rw [hbasic.2, hen])
      fun _ => rfl
  · exact AtData.fills_onWf (s := Fsm.updateFee _ w) ha hsec hbasic.1 fun _ => rfl

theorem AtData.gathered (ha : s.AtData bs b r h d) (hsec : s.Section E d)
    (hwf : d.waveform.isSome) (ws : List Word) :
    (s.gathered ws).stepBack.Fills E bs b r h d := by
  rw [gathered_eq]
  exact AtData.fills_onWf (s := s) ha hsec hwf fun _ => rfl

theorem AtData.sineCosineRead (ha : s.AtData bs b r h d) (hsec : s.Section E d)
    (w0 w1 w2 w3 w4 w5 : Word) :
    (s.sineCosineRead w0 w1 w2 w3 w4 w5).AtData bs b r h
        { d with sine := some (adcOf w0 w1 w2), cosine := some (adcOf w3 w4 w5) } ∧
      (s.sineCosineRead w0 w1 w2 w3 w4 w5).Section E
        { d with sine := some (adcOf w0 w1 w2), cosine := some (adcOf w3 w4 w5) } :=
  ⟨AtData.modData ha _, hsec.wf, hsec.en, hsec.basic⟩

theorem AtData.trans08Basic (ha : s.AtData bs b r h d) (hsec : s.Section E d)
    (hf : E.evformat = .basic) (hu : s.trans08Basic E w = some t) : t.Fills E bs b r h d := by
  obtain ⟨hwf, hen⟩ := hsec.basic hf
  rw [← ha.dType] at hen
  rcases trans08Basic_cases hu with ⟨htype, hu | hu | hu⟩ | ⟨_, hu⟩
  · obtain ⟨f, hflag, rfl⟩ := lowEnergy1_eq_some hu
    exact AtData.fills_onEn (s := (s.updateBlk w).updateFee w) ha hsec (hen.trans htype)
      fun en => (hflag en).1
  · obtain ⟨f, _, hflag, rfl⟩ := energy2_eq_some hu
    exact AtData.fills_onEn (s := (s.updateBlk w).updateFee w) ha hsec (hen.trans htype)
      fun en => (hflag en).1
  · rcases waveformByData_eq_some hu with ⟨_, rfl⟩ | ⟨_, rfl⟩ | ⟨_, _, ws, _, _, _, _, _, rfl⟩
    · exact AtData.fills_onWf (s := (s.updateBlk w).updateFee w) ha hsec hwf fun _ => rfl
    · exact .of ha hsec
    · exact AtData.gathered (s := ((s.updateBlk w).updateFee w).restoreCrc) ha hsec hwf ws
  · rcases waveformByCount_eq_some hu with ⟨_, rfl⟩ | ⟨_, _, ws, _, _, rfl⟩ |
      ⟨_, _, u, ws, hsine, _, _, rfl⟩
    · exact .of ha hsec
    · exact AtData.gathered (s := ((s.updateBlk w).updateFee w).restoreCrc) ha hsec hwf ws
    · obtain ⟨w0, w1, w2, w3, w4, w5, _, rfl⟩ := readSineCosine_eq_some.1 hsine
      obtain ⟨hat, hsec'⟩ := AtData.sineCosineRead
        (s := ((s.updateBlk w).updateFee w).restoreCrc) ha hsec w0 w1 w2 w3 w4 w5
      obtain ⟨d', hat', hsec'', hfill⟩ := hat.gathered hsec' hwf ws
      exact ⟨d', hat', hsec'', ⟨hfill.type, hfill.en, hfill.wf⟩⟩

theorem AtData.verifyWaveform {u : Fsm} (ha : s.AtData bs b r h d) (hsec : s.Section E d)
    (hwf : d.waveform.isSome) (hu : s.verifyWaveform E = some u) :
    ∃ bad d', u.AtData bs b r h d' ∧ u.Section E d' ∧ u.errInEvent = (s.errInEvent || bad) ∧
      d' = { d with waveform := d.waveform.map fun wf => { wf with lenError := some bad } } := by
  obtain ⟨bad, _, rfl⟩ := verifyWaveform_eq_some hu
  obtain ⟨hat, hsec'⟩ := ha.fillWf hsec hwf fun wf => { wf with lenError := some bad }
  exact ⟨bad, _, hat, hsec', rfl, rfl⟩

theorem AtData.verifyEnergy (ha : s.AtData bs b r h d) (hsec : s.Section E d)
    (hf : E.evformat = .basic) (ht : s.verifyEnergy E = some t) :
    (d.energy = none ∧ t = s) ∨
    ∃ bad d', t.AtData bs b r h d' ∧ t.errInEvent = (s.errInEvent || bad) ∧ d.energy.isSome ∧
      d' = { d with energy := d.energy.map fun en => { en with lenError := some bad } } := by
  have hen := (hsec.basic hf).2
  rw [← ha.dType] at hen
  rcases verifyEnergy_eq_some ht with ⟨hnone, rfl⟩ | ⟨hsome, bad, _, rfl⟩
  · rw [← hen] at hnone
    exact .inl ⟨by simpa using hnone, rfl⟩
  · rw [← hen] at hsome
    exact .inr ⟨bad, _, (ha.fillEn hsec hsome _).1, rfl, hsome, rfl⟩

theorem AtData.verifySection {u : Fsm} (ha : s.AtData bs b r h d) (hsec : s.Section E d)
    (hf : E.evformat = .basic) (hu : s.verifyWaveform E = some u)
    (ht : u.verifyEnergy E = some t) :
    ∃ d', t.AtData bs b r h d' ∧ d.Judged d' t.errInEvent ∧ d'.content = d.content := by
  have hwf := (hsec.basic hf).1
  obtain ⟨wf, hwf'⟩ := Option.isSome_iff_exists.1 hwf
  obtain ⟨bad, d₁, hat, hsec₁, herr, rfl⟩ := ha.verifyWaveform hsec hwf hu
  rcases hat.verifyEnergy hsec₁ hf ht with ⟨hnone, rfl⟩ | ⟨bad', d₂, hat₂, herr₂, hsome, rfl⟩
  · refine ⟨_, hat, ⟨rfl, ?_, ⟨bad, ?_, fun hbad => ?_⟩, .inl ?_⟩, d.content_wfFlag bad⟩
    · simp [hwf']
    · simp [FzData.wfFlag, hwf']
    · simp [herr, hbad]
    · simpa [FzData.enFlag] using hnone
  · obtain ⟨en, hen⟩ : ∃ en, d.energy = some en := Option.isSome_iff_exists.1 hsome
    refine ⟨_, hat₂, ⟨rfl, ?_, ⟨bad, ?_, fun hbad => ?_⟩, .inr ⟨bad', ?_, fun hbad => ?_⟩⟩,
      (FzData.content_enFlag _ bad').trans (d.content_wfFlag bad)⟩
    · simp [hwf']
    · simp [FzData.wfFlag, hwf']
    · simp [herr₂, herr, hbad]
    · simp [FzData.enFlag, hen]
    · simp [herr₂, hbad]

/-! ## The words of a section, tag format -/

/-- The data message after a word where a tag is expected. -/
def tagData (d : FzData) (w : Word) : FzData :=
  if w = TAG_PRETRIGGER ∨ w = TAG_WAVEFORM then
    if d.waveform.isNone then { d with waveform := some { lenError := some true } } else d
  else if w = TAG_SLOW ∨ w = TAG_FAST then
    { d with energy := some { d.energy.getD {} with lenError := some false } }
  else d

/-- Between a tag and its payload the part that the payload fills has been opened. -/
def Tagged (f : Flags) (d : FzData) : Prop :=
  f.tagDone = true →
    (f.tag = TAG_PRETRIGGER ∨ f.tag = TAG_WAVEFORM → d.waveform.isSome) ∧
    (f.tag = TAG_SLOW ∨ f.tag = TAG_FAST → d.energy.isSome)

theorem tagData_filled (d : FzData) (w : Word) : d.Filled (tagData d w) := by
  unfold tagData
  split_ifs
  · exact ⟨rfl, .inl rfl, .inr ⟨true, rfl⟩⟩
  · exact .refl d
  · exact ⟨rfl, .inr rfl, .inl rfl⟩
  · exact .refl d

theorem readTag_flags (s : Fsm) (w : Word) :
    (s.readTag w).tag = w ∧ (s.readTag w).tagDone = (s.tagDone || decide (w ≠ TAG_VOID)) := by
  unfold readTag
  dsimp only
  split_ifs <;> simp_all [openWaveform, openEnergy]

theorem readTag_quiet (s : Fsm) (w : Word) :
    (s.readTag w).ev.trinfo = s.ev.trinfo ∧ (s.readTag w).wflenDone = s.wflenDone := by
  unfold readTag
  dsimp only
  split_ifs <;> exact ⟨rfl, rfl⟩

theorem AtData.readTag (ha : s.AtData bs b r h d) (hsec : s.Section E d)
    (hf : E.evformat = .tag) (w : Word) :
    (s.readTag w).AtData bs b r h (tagData d w) ∧ (s.readTag w).Section E (tagData d w) := by
  have hget : s.ev.getData s.d = d := ha.getData
  unfold Fsm.readTag tagData
  dsimp only
  by_cases hvoid : w = TAG_VOID
  · subst hvoid
    exact ⟨ha, hsec⟩
  rw [if_neg hvoid, hget]
  split_ifs with hwav hnone
  · have hnone : d.waveform = none := by simpa using hnone
    have hset := ha.modData fun d =>
      { d with waveform := some { d.waveform.getD {} with lenError := some true } }
    simp only [hnone] at hset
    exact ⟨hset, fun _ => rfl, hsec.en, fun hb => by simp [hf] at hb⟩
  · exact ⟨ha, hsec⟩
  · have hset := ha.modData fun d =>
      { d with energy := some { d.energy.getD {} with lenError := some false } }
    exact ⟨hset, hsec.wf, fun _ => rfl, fun hb => by simp [hf] at hb⟩
  · exact ⟨ha, hsec⟩

theorem readTag_tagged (s : Fsm) (d : FzData) (w : Word) :
    Tagged (s.readTag w).toFlags (tagData d w) := by
  intro _
  rw [(readTag_flags s w).1]
  unfold tagData
  constructor
  · intro hwav
    rw [if_pos hwav]
    split
    · rfl
    · rename_i hsome
      simpa [Option.isSome_iff_ne_none] using hsome
  · intro hen
    have hnot : ¬ (w = TAG_PRETRIGGER ∨ w = TAG_WAVEFORM) := by
      rcases hen with rfl | rfl <;> decide
    rw [if_neg hnot, if_pos hen]
    rfl

/-- The object is at the data message `d'`, which comes of `d`, in a section of the tag format. -/
def FillsTag (E : Env) (t : Fsm) (bs : List FzBlock) (b : FzBlock) (r : FzFee) (h : FzHit)
    (d : FzData) : Prop :=
  ∃ d', t.AtData bs b r h d' ∧ t.Section E d' ∧ Tagged t.toFlags d' ∧ d.Filled d'

theorem AtData.fillsTag_readTag (ha : s.AtData bs b r h d) (hsec : s.Section E d)
    (hf : E.evformat = .tag) (w : Word) : (s.readTag w).FillsTag E bs b r h d :=
  ⟨_, (ha.readTag hsec hf w).1, (ha.readTag hsec hf w).2, readTag_tagged s d w,
    tagData_filled d w⟩

theorem AtData.readRecord (ha : s.AtData bs b r h d) (hsec : s.Section E d)
    (htag : Tagged s.toFlags d) (hdone : s.tagDone = true) (hw : E.event s.eventIndex = some w)
    (ht : s.readRecord E w = some t) :
    ∃ d', t.AtData bs b r h d' ∧ t.Section E d' ∧ d.Filled d' ∧
      (s.tag = TAG_WAVEFORM → d'.waveform.isSome) := by
  obtain ⟨hwf, hen⟩ := htag hdone
  rcases readRecord_cases hw ht with ⟨hpre, rfl⟩ | ⟨hwav, _, rfl⟩ | ⟨hwav, ws, _, _, _, rfl⟩ |
    ⟨hslow, ws, f, _, _, hflag, rfl⟩ | ⟨hbase, x, v, _, rfl⟩ | ⟨hother, ws, ts, _, _, _, rfl⟩
  · obtain ⟨hat, hsec'⟩ := ha.fillWf hsec (hwf (.inl hpre)) fun wf =>
      { wf with pretrig := some w.toUInt32 }
    exact ⟨_, hat, hsec', .onWf d fun _ => rfl, fun _ => by simpa using hwf (.inl hpre)⟩
  · exact ⟨d, ha, hsec, .refl d, fun _ => hwf (.inr hwav)⟩
  · obtain ⟨hat, hsec'⟩ := ha.fillWf hsec (hwf (.inr hwav)) fun wf =>
      { wf with sample := wf.sample ++ (w :: ws).map (·.toNat) }
    exact ⟨_, hat, hsec', .onWf d fun _ => rfl, fun _ => by simpa using hwf (.inr hwav)⟩
  · obtain ⟨hat, hsec'⟩ := AtData.fillEn (s := s.movedOver ws) ha hsec (hen hslow) f
    refine ⟨_, hat, hsec', .onEn d fun en => (hflag en).1, fun hwav => ?_⟩
    rcases hslow with hslow | hslow <;> exact absurd (hwav.symm.trans hslow) (by decide)
  · have hset := ha.modData fun d => { d with baseline := some v }
    refine ⟨_, hset, ⟨hsec.wf, hsec.en, hsec.basic⟩, ⟨rfl, .inl rfl, .inl rfl⟩, fun hwav => ?_⟩
    exact absurd (hwav.symm.trans hbase) (by decide)
  · refine ⟨d, ha, hsec, .refl d, fun hwav => ?_⟩
    simp [hwav] at hother

theorem AtData.trans08Tag (ha : s.AtData bs b r h d) (hsec : s.Section E d)
    (htag : Tagged s.toFlags d) (hf : E.evformat = .tag) (hw : E.event s.eventIndex = some w)
    (ht : s.trans08Tag E w = some t) : t.FillsTag E bs b r h d := by
  rcases trans08Tag_cases hw ht with ⟨_, rfl⟩ | ⟨_, _, rfl⟩ | ⟨hdone, _, u, v, hu, hv, rfl⟩
  · exact AtData.fillsTag_readTag (s := (s.updateBlk w).updateFee w) ha hsec hf w
  · exact ⟨d, ha, hsec, htag, .refl d⟩
  · obtain ⟨d₁, hat, hsec₁, hfill, hwf⟩ :=
      AtData.readRecord (s := (s.updateBlk w).updateFee w) ha hsec htag hdone hw hu
    split at hv
    · rename_i hwav
      have hsome := hwf hwav
      obtain ⟨bad, d₂, hat₂, hsec₂, _, rfl⟩ := hat.verifyWaveform hsec₁ hsome hv
      exact ⟨_, hat₂, hsec₂, by simp [Tagged], hfill.trans (.verdict hsome bad)⟩
    · subst hv
      exact ⟨d₁, hat, hsec₁, by simp [Tagged], hfill⟩

/-! ## Ends of sections -/

theorem AtData.trans09Tag (ha : s.AtData bs b r h d) (hf : E.evformat = .tag) (w : Word) :
    (s.trans09Tag E w).AtData bs b (r.addHit (h.addData d))
        (sectionHit .tag (some (s.ev.ec.getD 0)) (h.addData d) w)
        (sectionData .tag (sectionType w) true) ∧
      (s.trans09Tag E w).Section E (sectionData .tag (sectionType w) true) ∧
      (sectionType w = .UNKDT → (s.trans09Tag E w).errInEvent = true) := by
  have hlast : ((s.updateBlk w).updateFee w).ev.getHit s.hit = h.addData d := ha.1.getHit
  have hadd := AtFee.addHit (s := (s.updateBlk w).updateFee w) ha.1.1
    (sectionHit .tag (some (s.ev.ec.getD 0)) (h.addData d) w)
  have hat := hadd.startSection (E := E) w true
  have hsec := startSection_section (E := E) (((s.updateBlk w).updateFee w).addHit
    (sectionHit .tag (some (s.ev.ec.getD 0)) (h.addData d) w)) w true
  rw [hf] at hat hsec
  unfold Fsm.trans09Tag
  dsimp only
  rw [show ((s.updateBlk w).updateFee w).hit = s.hit from rfl, hlast]
  exact ⟨hat, hsec, startSection_unkdt _ w true⟩

theorem AtData.trans09Basic (ha : s.AtData bs b r h d) (hsec : s.Section E d)
    (hf : E.evformat = .basic) (ht : s.trans09Basic E w = some t) :
    ∃ d', t.AtData bs b (r.addHit (h.addData d'))
        (sectionHit .basic (some (s.ev.ec.getD 0)) (h.addData d') w)
        (sectionData .basic (sectionType w) true) ∧
      t.Section E (sectionData .basic (sectionType w) true) ∧
      d.Closed .basic d' t.errInEvent ∧ (sectionType w = .UNKDT → t.errInEvent = true) ∧
      d'.content = d.content := by
  obtain ⟨u, v, hit, hu, hv, rfl, rfl⟩ := trans09Basic_eq_some ht
  obtain ⟨d', hat, hjudged, hcontent⟩ :=
    AtData.verifySection (s := (s.updateBlk w).updateFee w) ha hsec hf hu hv
  have hec : v.ev.ec = s.ev.ec := by
    obtain ⟨_, _, rfl⟩ := verifySection_eq_some hu hv
    rfl
  have hadd := hat.1.1.addHit (sectionHit .basic (some (s.ev.ec.getD 0)) (h.addData d') w)
  have hat' := hadd.startSection (E := E) w true
  have hsec' := startSection_section (E := E)
    (v.addHit (sectionHit .basic (some (s.ev.ec.getD 0)) (h.addData d') w)) w true
  rw [hf] at hat' hsec'
  rw [hat.1.getHit, hec]
  refine ⟨d', hat', hsec', hjudged.mono fun herr => ?_, startSection_unkdt _ w true, hcontent⟩
  rw [startSection_err, show (v.addHit _).errInEvent = v.errInEvent from rfl, herr]
  rfl

theorem AtData.trans10Basic (ha : s.AtData bs b r h d) (hsec : s.Section E d)
    (hf : E.evformat = .basic) (ht : s.trans10Basic E w = some t) :
    ∃ d', t.AtHit bs b (r.addHit (h.addData d')) (telescopeHit (some (s.ev.ec.getD 0)) w) ∧
      d.Closed .basic d' t.errInEvent ∧ d'.content = d.content := by
  obtain ⟨u, v, hu, hv, rfl⟩ := trans10Basic_eq_some ht
  obtain ⟨d', hat, hjudged, hcontent⟩ :=
    AtData.verifySection (s := (s.updateBlk w).updateFee w) ha hsec hf hu hv
  have hec : v.ev.ec = s.ev.ec := by
    obtain ⟨_, _, rfl⟩ := verifySection_eq_some hu hv
    rfl
  have hat' := hat.startTelescope w
  rw [hec] at hat'
  exact ⟨d', hat', hjudged, hcontent⟩

theorem AtData.trans11Basic (ha : s.AtData bs b r h d) (hsec : s.Section E d)
    (hf : E.evformat = .basic) (ht : s.trans11Basic E w = some t) :
    ∃ d', t.AtFee bs b (r.addHit (h.addData d')) ∧ d.Closed .basic d' t.errInEvent ∧
      d'.content = d.content := by
  obtain ⟨u, hu, hv⟩ := trans11Basic_eq_some ht
  obtain ⟨d', hat, hjudged, hcontent⟩ :=
    AtData.verifySection (s := { s with rdFeelen := lengthOf w }.updateBlk w) ha hsec hf hu hv
  exact ⟨d', hat.1.1, hjudged, hcontent⟩

/-! ## Ends of fees and blocks -/

theorem AtFee.trans12 (ha : s.AtFee bs b r) (w : Word) :
    ∃ lenBad crcBad : Bool,
      (s.trans12 w).AtFee bs b { r with lenError := some lenBad, crcError := some crcBad } ∧
      (s.trans12 w).errInEvent = (s.errInEvent || lenBad || crcBad) := by
  obtain ⟨lenBad, crcBad, _, _, heq⟩ := trans12_eq s w
  rw [heq]
  exact ⟨lenBad, crcBad, AtFee.onFee (s := s) ha _, rfl⟩

/-- A closed block stays in the event, or it was the block of trigger infos and is taken off. -/
theorem AtBlk.trans16 (ha : s.AtBlk bs b) (ht : s.trans16 E w = some t) :
    ∃ lenBad crcBad : Bool, t.errInEvent = (s.errInEvent || lenBad || crcBad) ∧
      (t.ev.block = bs ++ [{ b with lenError := some lenBad, crcError := some crcBad }] ∨
        t.ev.block = bs) := by
  obtain ⟨lenBad, crcBad, _, _, hcase⟩ := trans16_cases ht
  have hjudged : (s.judged w lenBad crcBad).ev.block =
      bs ++ [{ b with lenError := some lenBad, crcError := some crcBad }] :=
    (AtBlk.onBlk ha fun b => { b with lenError := some lenBad, crcError := some crcBad }).1
  rcases hcase with ⟨rfl, _⟩ | ⟨_, _, hend⟩
  · exact ⟨lenBad, crcBad, rfl, .inl hjudged⟩
  · obtain ⟨ts, _, rfl⟩ := endTriggerBlk_eq_some hend
    refine ⟨lenBad, crcBad, rfl, .inr ?_⟩
    change (s.judged w lenBad crcBad).ev.block.dropLast = bs
    rw [hjudged, List.dropLast_concat]

end Fsm

end FzDaq.Parser
