import FzDaq.Machine.Scanner
import FzDaq.Parser.Grammar
import FzDaq.Parser.Stage

/-!
# What the object shows

The assertions of the triples about `process`: the state number, the event
counters and the content of the event under construction. Each word outside of a
section has a triple, which says what its transition adds to that content.
-/

namespace FzDaq.Parser

open Machine Wire

/-- The words of an event under the cursor of `process`. -/
def Env.scanner (E : Env) : Scanner Fsm Word where
  loop := E.loop
  pos := Fsm.eventIndex
  word := E.event
  size := E.eventSize

theorem Env.reads_of_has {E : Env} {i : Nat} {ws : List Word} (h : E.scanner.Has i ws) :
    E.Reads i ws := by
  induction ws generalizing i with
  | nil => trivial
  | cons w ws ih => exact ⟨h.1, ih h.2.2⟩

def Site.content : Site → Site
  | .none => .none
  | .blk bs b => .blk (bs.map FzBlock.content) b.content
  | .hit bs b r h => .hit (bs.map FzBlock.content) b.content r.content h.content
  | .data bs b r h d => .data (bs.map FzBlock.content) b.content r.content h.content d.content
  | .fee bs b r => .fee (bs.map FzBlock.content) b.content r.content
  | .done bs => .done (bs.map FzBlock.content)

namespace Fsm

variable {E : Env} {s t u : Fsm} {w : Word} {tr : Trans}

/-! ## Turns -/

theorem not_halted (h : s.eventIndex < E.eventSize) : E.loop.halted s = false := by
  simpa [Env.loop] using h

theorem reads_word {P Q : Fsm → Prop} {N : List Word → Prop}
    (h : ∀ s, P s → E.event s.eventIndex = some w → ∃ tr u, s.Takes E w tr ∧
      s.fire E tr w = some u ∧ u.eventIndex = s.eventIndex ∧ Q u.advance) :
    E.scanner.Reads P [w] N Q := by
  intro s rest hs _ hhas
  obtain ⟨tr, u, htakes, hu, hidx, hQ⟩ := h s hs hhas.1
  exact ⟨u.advance, (htakes.next (not_halted hhas.2.1) hu).reaches, congrArg (· + 1) hidx, hQ⟩

theorem startSection_trinfo (s : Fsm) (w : Word) (enError : Bool) :
    (s.startSection E w enError).ev.trinfo = s.ev.trinfo := by
  unfold startSection
  cases E.evformat <;> dsimp only <;> split <;> rfl

/-! ## Assertions -/

/-- The state number, the event counter and the content of the event under construction. -/
structure Shows (E : Env) (ec : UInt32) (st : FsmState) (σ : Site) (s : Fsm) : Prop where
  state : s.stateId = st
  tmpEc : s.tmpEc.toUInt32 = ec
  ec : s.ev.ec = some ec
  trinfo : s.ev.trinfo = []
  site : ∃ τ, s.At E τ ∧ τ.content = σ

variable {ec : UInt32} {st : FsmState} {Bs : List FzBlock} {B : FzBlock} {R : FzFee} {H : FzHit}
  {D : FzData}

theorem Shows.of_blk (hs : s.Shows E ec st (.blk Bs B)) :
    ∃ bs b, s.AtBlk bs b ∧ bs.map FzBlock.content = Bs ∧ b.content = B := by
  obtain ⟨τ, hat, hτ⟩ := hs.site
  cases hat <;> cases hτ
  exact ⟨_, _, ‹_›, rfl, rfl⟩

theorem Shows.of_hit (hs : s.Shows E ec st (.hit Bs B R H)) :
    ∃ bs b r h, s.AtHit bs b r h ∧ bs.map FzBlock.content = Bs ∧ b.content = B ∧
      r.content = R ∧ h.content = H := by
  obtain ⟨τ, hat, hτ⟩ := hs.site
  cases hat <;> cases hτ
  exact ⟨_, _, _, _, ‹_›, rfl, rfl, rfl, rfl⟩

theorem Shows.of_data (hs : s.Shows E ec st (.data Bs B R H D)) :
    ∃ bs b r h d, s.AtData bs b r h d ∧ s.Section E d ∧
      (s.stateId = .s5 → E.evformat = .tag → Tagged s.toFlags d) ∧
      bs.map FzBlock.content = Bs ∧ b.content = B ∧ r.content = R ∧ h.content = H ∧
      d.content = D := by
  obtain ⟨τ, hat, hτ⟩ := hs.site
  cases hat <;> cases hτ
  exact ⟨_, _, _, _, _, ‹_›, ‹_›, ‹_›, rfl, rfl, rfl, rfl, rfl⟩

theorem Shows.of_fee (hs : s.Shows E ec st (.fee Bs B R)) :
    ∃ bs b r, s.AtFee bs b r ∧ bs.map FzBlock.content = Bs ∧ b.content = B ∧ r.content = R := by
  obtain ⟨τ, hat, hτ⟩ := hs.site
  cases hat <;> cases hτ
  exact ⟨_, _, _, ‹_›, rfl, rfl, rfl⟩

theorem Shows.of_done (hs : s.Shows E ec st (.done Bs)) :
    s.ev.block.map FzBlock.content = Bs := by
  obtain ⟨τ, hat, hτ⟩ := hs.site
  cases hat <;> cases hτ
  rename_i hev
  rw [hev]

theorem Shows.moved {σ σ' : Site} (hs : s.Shows E ec st σ) {st' : FsmState} {τ : Site}
    (hstate : u.stateId = st') (htmp : u.tmpEc = s.tmpEc) (hec : u.ev.ec = s.ev.ec)
    (htri : u.ev.trinfo = s.ev.trinfo) (hat : u.At E τ) (hτ : τ.content = σ') :
    u.advance.Shows E ec st' σ' :=
  ⟨hstate, by rw [← hs.tmpEc, ← htmp]; rfl, hec.trans hs.ec, htri.trans hs.trinfo,
    τ, hat.advance, hτ⟩

/-- What is shown does not depend on the lengths, the checksums and the cursor into the words. -/
theorem Shows.congr {σ : Site} (hs : s.Shows E ec st σ) (hcursors : u.toCursors = s.toCursors)
    (hflags : u.toFlags = s.toFlags) (hstate : u.stateId = s.stateId) (hev : u.ev = s.ev)
    (htmp : u.tmpEc = s.tmpEc) : u.Shows E ec st σ := by
  obtain ⟨τ, hat, hτ⟩ := hs.site
  refine ⟨hstate.trans hs.state, htmp ▸ hs.tmpEc, hev ▸ hs.ec, hev ▸ hs.trinfo, τ, ?_, hτ⟩
  cases u
  cases s
  dsimp only at hcursors hflags hstate hev
  subst hcursors hflags hstate hev
  cases hat with
  | none hs hev => exact .none hs hev
  | blk hs hat => exact .blk hs hat
  | hit hs hat => exact .hit hs hat
  | data hs hat hsec htag => exact .data hs hat hsec htag
  | fee hs hat => exact .fee hs hat
  | done hs hev => exact .done hs hev

theorem Shows.counted {σ : Site} (hs : s.Shows E ec st σ) (w : Word) :
    ((s.updateBlk w).updateFee w).Shows E ec st σ := hs.congr rfl rfl rfl rfl rfl

/-- Nor on the flags, but for a tag whose payload is still expected. -/
theorem Shows.reflag (hs : s.Shows E ec st (.data Bs B R H D)) {f : Flags}
    (hdone : E.evformat = .tag → f.tagDone = false) :
    Shows E ec st (.data Bs B R H D) { s with toFlags := f } := by
  obtain ⟨τ, hat, hτ⟩ := hs.site
  refine ⟨hs.state, hs.tmpEc, hs.ec, hs.trinfo, τ, ?_, hτ⟩
  cases hat <;> cases hτ
  exact .data ‹_› ‹_› ‹_› fun _ hf => by simp [Tagged, hdone hf]

theorem Shows.fillWf (hs : s.Shows E ec st (.data Bs B R H D)) (hwf : D.waveform.isSome)
    (f : Waveform → Waveform) (hf : ∀ wf : Waveform, (f wf).content = f wf.content) :
    (s.onWf f).Shows E ec st (.data Bs B R H { D with waveform := D.waveform.map f }) := by
  obtain ⟨τ, hat, hτ⟩ := hs.site
  cases hat <;> cases hτ
  rename_i d hstate hat hsec htag
  have hwf' : d.waveform.isSome := by simpa [FzData.content] using hwf
  obtain ⟨hat', hsec'⟩ := hat.fillWf hsec hwf' f
  refine ⟨hs.state, hs.tmpEc, hs.ec, hs.trinfo, _, .data hstate hat' hsec' fun h₁ h₂ hdone => ?_,
    by rw [Site.content, d.content_onWf hf]⟩
  exact ⟨fun _ => by simpa using hwf', (htag h₁ h₂ hdone).2⟩

theorem Shows.fillEn (hs : s.Shows E ec st (.data Bs B R H D)) (hen : D.energy.isSome)
    (f : Energy → Energy) (hf : ∀ en : Energy, (f en).content = f en.content) :
    (s.onEn f).Shows E ec st (.data Bs B R H { D with energy := D.energy.map f }) := by
  obtain ⟨τ, hat, hτ⟩ := hs.site
  cases hat <;> cases hτ
  rename_i d hstate hat hsec htag
  have hen' : d.energy.isSome := by simpa [FzData.content] using hen
  obtain ⟨hat', hsec'⟩ := hat.fillEn hsec hen' f
  refine ⟨hs.state, hs.tmpEc, hs.ec, hs.trinfo, _, .data hstate hat' hsec' fun h₁ h₂ hdone => ?_,
    by rw [Site.content, d.content_onEn hf]⟩
  exact ⟨(htag h₁ h₂ hdone).1, fun _ => by simpa using hen'⟩

theorem Shows.dType (hs : s.Shows E ec st (.data Bs B R H D)) : s.dType = D.type.getD .QH1 := by
  obtain ⟨bs, b, r, h, d, hat, _, _, rfl, rfl, rfl, rfl, rfl⟩ := hs.of_data
  rw [hat.dType]
  rfl

theorem Shows.curWaveform (hs : s.Shows E ec st (.data Bs B R H D)) {wf : Waveform}
    (hwf : D.waveform = some wf) : s.curWaveform.sample = wf.sample := by
  obtain ⟨bs, b, r, h, d, hat, hsec, _, rfl, rfl, rfl, rfl, rfl⟩ := hs.of_data
  obtain ⟨wf', hwf', rfl⟩ : ∃ wf', d.waveform = some wf' ∧ wf'.content = wf := by
    simpa [FzData.content] using hwf
  rw [hat.curWaveform (hsec.wf (by simp [hwf'])), hwf']
  rfl

theorem Shows.curEnergy (hs : s.Shows E ec st (.data Bs B R H D)) {en : Energy}
    (hen : D.energy = some en) : s.curEnergy.value = en.value := by
  obtain ⟨bs, b, r, h, d, hat, hsec, _, rfl, rfl, rfl, rfl, rfl⟩ := hs.of_data
  obtain ⟨en', hen', rfl⟩ : ∃ en', d.energy = some en' ∧ en'.content = en := by
    simpa [FzData.content] using hen
  rw [hat.curEnergy (hsec.en (by simp [hen'])), hen']
  rfl

theorem Shows.addValue (hs : s.Shows E ec st (.data Bs B R H D)) {en : Energy}
    (hen : D.energy = some en) (v : UInt32) :
    (s.addValue v).Shows E ec st
      (.data Bs B R H { D with energy := some { en with value := en.value ++ [v] } }) := by
  have hadd := hs.fillEn (by simp [hen])
    (fun en => { en with value := en.value ++ [v] }) fun _ => rfl
  rwa [hen] at hadd

theorem Shows.modLast (hs : s.Shows E ec st (.data Bs B R H D)) (en : Energy) {v : UInt32}
    (hen : D.energy = some { en with value := en.value ++ [v] }) (f : UInt32 → UInt32) :
    ∃ u, s.modValue E en.value.length f = some u ∧ u.eventIndex = s.eventIndex ∧
      u.toFlags = s.toFlags ∧ u.Shows E ec st
        (.data Bs B R H { D with energy := some { en with value := en.value ++ [f v] } }) := by
  have hcur : s.curEnergy.value = en.value ++ [v] := hs.curEnergy hen
  have hset := hs.fillEn (by simp [hen])
    (fun e => { e with value := e.value.set en.value.length (f v) }) fun _ => rfl
  refine ⟨s.onEn fun e => { e with value := e.value.set en.value.length (f v) },
    by simp [Fsm.modValue, Env.valueAt, hcur], rfl, rfl, ?_⟩
  rw [hen] at hset
  simpa using hset

/-- The check of a waveform that has as many samples as were announced. -/
theorem Shows.verifyWaveform (hs : s.Shows E ec st (.data Bs B R H D)) {wf : Waveform}
    (hwf : D.waveform = some wf) (hlen : wf.sample.length = s.rdWflen.toNat) :
    ∃ u, s.verifyWaveform E = some u ∧ u.eventIndex = s.eventIndex ∧
      u.Shows E ec st (.data Bs B R H D) := by
  have hcur : s.curWaveform.sample = wf.sample := hs.curWaveform hwf
  refine ⟨s.onWf fun wf => { wf with lenError := some false }, ?_, rfl, ?_⟩
  · rw [Fsm.verifyWaveform, if_pos (by rw [hcur, hlen])]
  · obtain ⟨τ, hat, hτ⟩ := hs.site
    cases hat <;> cases hτ
    rename_i d hstate hat hsec htag
    have hwf' : d.waveform.isSome := by
      have hsome : d.content.waveform.isSome := by simp [hwf]
      simpa [FzData.content] using hsome
    obtain ⟨hat', hsec'⟩ := hat.fillWf hsec hwf' fun wf => { wf with lenError := some false }
    refine ⟨hs.state, hs.tmpEc, hs.ec, hs.trinfo, _,
      .data hstate hat' hsec' fun h₁ h₂ hdone => ?_, by rw [Site.content, d.content_wfFlag]⟩
    exact ⟨fun _ => by simpa using hwf', (htag h₁ h₂ hdone).2⟩

/-! ## Headers of events, fees and hits -/

theorem reads_ec_first {c : Fin 4096} (N : List Word → Prop) :
    E.scanner.Reads (fun s => s.stateId = .idle ∧ s.ev = {}) [ecWord c] N
      (Shows E (UInt32.ofNat c) .s1 (.blk [] {})) := by
  refine reads_word fun s ⟨hstate, hev⟩ hw => ?_
  have hat : (s.trans02 (ecWord c)).AtBlk [] newBlk := trans02_at (by rw [hev]) _
  refine ⟨.t02, _, .of_kind hw (getwordId_ecWord ..) hstate nofun, rfl,
    rfl, rfl, ecOf_ecWord c, congrArg some (ecOf_ecWord c), ?_, _, .blk (.inl rfl) hat, rfl⟩
  change s.ev.trinfo = []
  rw [hev]

theorem reads_telid_first (spare : Fin 64) (feeid : Fin 16) (telid : Fin 2)
    (N : List Word → Prop) :
    E.scanner.Reads (Shows E ec .s1 (.blk Bs B)) [telidWord spare feeid telid] N
      (Shows E ec .s2 (.hit Bs B { feeid := some feeid }
        { ec := some ec, telid := some telid, feeid := some feeid })) := by
  refine reads_word fun s hs hw => ?_
  obtain ⟨bs, b, hat, hbs, hb⟩ := hs.of_blk
  refine ⟨.t03, _, .of_kind hw (getwordId_telidWord ..) hs.state nofun, rfl, rfl,
    hs.moved rfl rfl rfl rfl (.hit (.inl rfl) (hat.trans03 _)) ?_⟩
  simp only [Site.content, hbs, hb, newFee, telescopeHit, feeid_telidWord, telid_telidWord,
    hs.tmpEc]
  rfl

theorem reads_gttag (g : Data) (N : List Word → Prop) :
    E.scanner.Reads (Shows E ec .s2 (.hit Bs B R H)) [g.1] N
      (fun s => s.Shows E ec .s3 (.hit Bs B R { H with gttag := some g.1.toUInt32 }) ∧
        s.dettagDone = false) := by
  refine reads_word fun s hs hw => ?_
  obtain ⟨bs, b, r, h, hat, rfl, rfl, rfl, rfl⟩ := hs.of_hit
  refine ⟨.t04, _, .of_kind hw (getwordId_data g) hs.state nofun, rfl, rfl,
    hs.moved rfl rfl rfl rfl (.hit (.inr rfl) (hat.trans04 _)) rfl, rfl⟩

theorem reads_dettag (g : Data) (N : List Word → Prop) :
    E.scanner.Reads (fun s => s.Shows E ec .s3 (.hit Bs B R H) ∧ s.dettagDone = false) [g.1] N
      (fun s => s.Shows E ec .s3 (.hit Bs B R { H with dettag := some g.1.toUInt32 }) ∧
        s.dettagDone = true) := by
  refine reads_word fun s ⟨hs, hdone⟩ hw => ?_
  obtain ⟨bs, b, r, h, hat, rfl, rfl, rfl, rfl⟩ := hs.of_hit
  have hat := hat.trans05 g.1
  have hframe := (trans05_frame (s := s) (w := g.1)).1
  have htri : (s.trans05 g.1).ev.trinfo = s.ev.trinfo := by
    rw [trans05_eq, hdone]
    rfl
  rw [hdone] at hat
  refine ⟨.t05, _, .of_kind hw (getwordId_data g) hs.state nofun, rfl, trans05_frame.2,
    hs.moved rfl hframe.tmpEc hframe.ec htri (.hit (.inr rfl) hat) rfl, trans05_dettagDone s g.1⟩

theorem reads_trigpat (g : Data) (N : List Word → Prop) :
    E.scanner.Reads (fun s => s.Shows E ec .s3 (.hit Bs B R H) ∧ s.dettagDone = true) [g.1] N
      (Shows E ec .s3 (.hit Bs B R { H with trigpat := some g.1.toUInt32 })) := by
  refine reads_word fun s ⟨hs, hdone⟩ hw => ?_
  obtain ⟨bs, b, r, h, hat, rfl, rfl, rfl, rfl⟩ := hs.of_hit
  have hat := hat.trans05 g.1
  have hframe := (trans05_frame (s := s) (w := g.1)).1
  have htri : (s.trans05 g.1).ev.trinfo = s.ev.trinfo := by
    rw [trans05_eq, hdone]
    rfl
  rw [hdone] at hat
  refine ⟨.t05, _, .of_kind hw (getwordId_data g) hs.state nofun, rfl, trans05_frame.2,
    hs.moved rfl hframe.tmpEc hframe.ec htri (.hit (.inr rfl) hat) rfl⟩

/-! ## Sections -/

/-- The content of the data message that a DETID word adds. -/
def freshData (fmt : Format) (ty : FzDataType) : FzData := (sectionData fmt ty true).content

theorem sectionData_content (fmt : Format) (ty : FzDataType) (enError : Bool) :
    (sectionData fmt ty enError).content = freshData fmt ty := by
  cases fmt <;> cases ty <;> rfl

theorem reads_detid_first (hid : getwordId w = .detid) (N : List Word → Prop) :
    E.scanner.Reads (Shows E ec .s3 (.hit Bs B R H)) [w] N
      (Shows E ec .s4 (.data Bs B R { H with detid := some (detidOf w).toNat }
        (freshData E.evformat (sectionType w)))) := by
  refine reads_word fun s hs hw => ?_
  obtain ⟨bs, b, r, h, hat, rfl, rfl, rfl, rfl⟩ := hs.of_hit
  have hframe := trans06_frame (E := E) (s := s) (w := w)
  have htri : (s.trans06 E w).ev.trinfo = s.ev.trinfo := startSection_trinfo _ w false
  refine ⟨.t06, _, .of_kind hw hid hs.state nofun, rfl, hframe.2,
    hs.moved rfl hframe.1.tmpEc hframe.1.ec htri
      (.data (.inl rfl) (hat.trans06 w) (startSection_section _ w false) fun h => by cases h) ?_⟩
  rw [Site.content, sectionData_content]
  rfl

/-- In the basic format the checks at the end of a section with the content `D` find nothing. -/
def Closable (E : Env) (D : FzData) (s : Fsm) : Prop :=
  E.evformat = .basic →
    s.rdWflen.toNat = (D.waveform.getD {}).sample.length ∧
    ((D.type.getD .QH1).hasEnergy = true →
      (D.energy.getD {}).value.length = energyCount (D.type.getD .QH1))

/-- The end of a section that has the content `D`. -/
def EndsAs (E : Env) (ec : UInt32) (Bs : List FzBlock) (B : FzBlock) (R : FzFee) (H : FzHit)
    (D : FzData) (s : Fsm) : Prop :=
  s.Shows E ec .s5 (.data Bs B R H D) ∧ s.Closable E D

theorem verifyEnergy_eq (h : s.dType.hasEnergy = true →
    s.curEnergy.value.length = energyCount s.dType) : ∃ t, s.verifyEnergy E = some t := by
  unfold verifyEnergy
  cases hd : s.dType <;> rw [hd] at h
  case QH1 | Q2 | Q3 => exact ⟨_, if_pos (h rfl)⟩
  all_goals exact ⟨s, rfl⟩

theorem Shows.verifies (hs : s.Shows E ec st (.data Bs B R H D)) (hf : E.evformat = .basic)
    (hc : s.Closable E D) : ∃ u v, s.verifyWaveform E = some u ∧ u.verifyEnergy E = some v := by
  obtain ⟨bs, b, r, h, d, _, hsec, _, rfl, rfl, rfl, rfl, rfl⟩ := hs.of_data
  obtain ⟨hwf, hen⟩ := hsec.basic hf
  obtain ⟨hlen, hcount⟩ := hc hf
  obtain ⟨wf, hwf⟩ : ∃ wf, d.content.waveform = some wf := by
    obtain ⟨wf, hwf⟩ := Option.isSome_iff_exists.1 hwf
    exact ⟨wf.content, by simp [FzData.content, hwf]⟩
  rw [hwf] at hlen
  obtain ⟨u, hu, _, hus⟩ := hs.verifyWaveform hwf hlen.symm
  refine (verifyEnergy_eq fun henergy => ?_).elim fun v hv => ⟨u, v, hu, hv⟩
  rw [hus.dType] at henergy ⊢
  obtain ⟨en, hen⟩ := Option.isSome_iff_exists.1 (hen.trans henergy)
  have henc : d.content.energy = some en.content := by simp [FzData.content, hen]
  have hcount := hcount henergy
  rw [henc] at hcount
  rw [hus.curEnergy henc]
  exact hcount

theorem verifySection_trinfo (hu : s.verifyWaveform E = some u) (ht : u.verifyEnergy E = some t) :
    t.ev.trinfo = s.ev.trinfo := by
  obtain ⟨_, _, rfl⟩ := verifySection_eq_some hu ht
  rfl

theorem reads_detid (hid : getwordId w = .detid) (N : List Word → Prop) :
    E.scanner.Reads (EndsAs E ec Bs B R H D) [w] N
      (Shows E ec .s4 (.data Bs B (R.addHit (H.addData D))
        (sectionHit E.evformat (some ec) (H.addData D) w)
        (freshData E.evformat (sectionType w)))) := by
  refine reads_word fun s ⟨hs, hclose⟩ hw => ?_
  obtain ⟨bs, b, r, h, d, hat, hsec, _, rfl, rfl, rfl, rfl, rfl⟩ := hs.of_data
  have htakes : s.Takes E w .t09 := .of_kind hw hid hs.state nofun
  cases hf : E.evformat with
  | tag =>
      obtain ⟨hat', hsec', _⟩ := hat.trans09Tag hf w
      have hframe := trans09Tag_frame (E := E) (s := s) (w := w)
      have htri : (s.trans09Tag E w).ev.trinfo = s.ev.trinfo := startSection_trinfo _ w true
      refine ⟨.t09, { s.trans09Tag E w with stateId := .s4 }, htakes, by simp only [fire, hf],
        hframe.2,
        hs.moved rfl hframe.1.tmpEc hframe.1.ec htri
          (.data (.inl rfl) hat' hsec' fun h => by cases h) ?_⟩
      rw [hs.ec, Site.content, sectionData_content, FzFee.content_addHit, FzHit.content_addData]
      rfl
  | basic =>
      obtain ⟨u, v, hu, hv⟩ := (hs.counted w).verifies hf hclose
      obtain ⟨t, ht⟩ : ∃ t, s.trans09Basic E w = some t := by
        simp [trans09Basic, hu, hv]
      obtain ⟨d', hat', hsec', _, _, hcontent⟩ := hat.trans09Basic hsec hf ht
      have hframe := trans09Basic_frame ht
      have htri : t.ev.trinfo = s.ev.trinfo := by
        obtain ⟨u, v, hit, hu, hv, rfl, _⟩ := trans09Basic_eq_some ht
        have hcheck := verifySection_trinfo hu hv
        exact (startSection_trinfo _ w true).trans hcheck
      refine ⟨.t09, { t with stateId := .s4 }, htakes, by simp [fire, hf, ht], hframe.2,
        hs.moved rfl hframe.1.tmpEc hframe.1.ec htri
          (.data (.inl rfl) hat' hsec' fun h => by cases h) ?_⟩
      rw [hs.ec, Site.content, sectionData_content, FzFee.content_addHit, FzHit.content_addData,
        hcontent]
      rfl

theorem reads_telid (spare : Fin 64) (feeid : Fin 16) (telid : Fin 2) (N : List Word → Prop) :
    E.scanner.Reads (EndsAs E ec Bs B R H D)
      [telidWord spare feeid telid] N
      (Shows E ec .s2 (.hit Bs B (R.addHit (H.addData D))
        { ec := some ec, telid := some telid, feeid := some feeid })) := by
  refine reads_word fun s ⟨hs, hclose⟩ hw => ?_
  obtain ⟨bs, b, r, h, d, hat, hsec, _, rfl, rfl, rfl, rfl, rfl⟩ := hs.of_data
  have htakes : s.Takes E (telidWord spare feeid telid) .t10 :=
    .of_kind hw (getwordId_telidWord ..) hs.state nofun
  have hhit : telescopeHit (some (s.ev.ec.getD 0)) (telidWord spare feeid telid) =
      { ec := some ec, telid := some telid, feeid := some feeid } := by
    rw [hs.ec, telescopeHit, feeid_telidWord, telid_telidWord]
    rfl
  cases hf : E.evformat with
  | tag =>
      have hat' := hat.trans10Tag (telidWord spare feeid telid)
      rw [hhit] at hat'
      refine ⟨.t10, { s.trans10Tag (telidWord spare feeid telid) with stateId := .s2 }, htakes,
        by simp only [fire, hf], rfl, hs.moved rfl rfl rfl rfl (.hit (.inl rfl) hat') ?_⟩
      rw [Site.content, FzFee.content_addHit, FzHit.content_addData]
      rfl
  | basic =>
      obtain ⟨u, v, hu, hv⟩ := (hs.counted (telidWord spare feeid telid)).verifies hf hclose
      obtain ⟨t, ht⟩ : ∃ t, s.trans10Basic E (telidWord spare feeid telid) = some t := by
        simp [trans10Basic, hu, hv]
      obtain ⟨d', hat', _, hcontent⟩ := hat.trans10Basic hsec hf ht
      rw [hhit] at hat'
      have hframe := trans10Basic_frame ht
      have htri : t.ev.trinfo = s.ev.trinfo := by
        obtain ⟨u, v, hu, hv, rfl⟩ := trans10Basic_eq_some ht
        have hcheck := verifySection_trinfo hu hv
        exact hcheck
      refine ⟨.t10, { t with stateId := .s2 }, htakes, by simp [fire, hf, ht], hframe.2,
        hs.moved rfl hframe.1.tmpEc hframe.1.ec htri (.hit (.inl rfl) hat') ?_⟩
      rw [Site.content, FzFee.content_addHit, FzHit.content_addData, hcontent]
      rfl

theorem reads_length_fee (len : Fin 4096) (N : List Word → Prop) :
    E.scanner.Reads (EndsAs E ec Bs B R H D)
      [lengthWord len] N (Shows E ec .s6 (.fee Bs B (R.addHit (H.addData D)))) := by
  refine reads_word fun s ⟨hs, hclose⟩ hw => ?_
  obtain ⟨bs, b, r, h, d, hat, hsec, _, rfl, rfl, rfl, rfl, rfl⟩ := hs.of_data
  have htakes : s.Takes E (lengthWord len) .t11 :=
    .of_kind hw (getwordId_lengthWord ..) hs.state nofun
  cases hf : E.evformat with
  | tag =>
      refine ⟨.t11, { s.trans11Tag (lengthWord len) with stateId := .s6 }, htakes,
        by simp only [fire, hf], rfl, hs.moved rfl rfl rfl rfl (.fee rfl hat.1.1) ?_⟩
      rw [Site.content, FzFee.content_addHit, FzHit.content_addData]
  | basic =>
      obtain ⟨u, v, hu, hv⟩ := Shows.verifies
        (s := { s with rdFeelen := lengthOf (lengthWord len) }.updateBlk (lengthWord len))
        (hs.congr rfl rfl rfl rfl rfl) hf hclose
      obtain ⟨t, ht⟩ : ∃ t, s.trans11Basic E (lengthWord len) = some t := by
        simp [trans11Basic, hu, hv]
      obtain ⟨d', hat', _, hcontent⟩ := hat.trans11Basic hsec hf ht
      have hframe := trans11Basic_frame ht
      have htri : t.ev.trinfo = s.ev.trinfo := by
        obtain ⟨u, hu, hv⟩ := trans11Basic_eq_some ht
        have hcheck := verifySection_trinfo hu hv
        exact hcheck
      refine ⟨.t11, { t with stateId := .s6 }, htakes, by simp [fire, hf, ht], hframe.2,
        hs.moved rfl hframe.1.tmpEc hframe.1.ec htri (.fee rfl hat') ?_⟩
      rw [Site.content, FzFee.content_addHit, FzHit.content_addData, hcontent]

/-! ## Ends of fees, blocks and events -/

theorem reads_crcfe (crc : Fin 4096) (N : List Word → Prop) :
    E.scanner.Reads (Shows E ec .s6 (.fee Bs B R)) [crcfeWord crc] N
      (Shows E ec .s7 (.blk Bs (B.addFee R))) := by
  refine reads_word fun s hs hw => ?_
  obtain ⟨bs, b, r, hat, rfl, rfl, rfl⟩ := hs.of_fee
  obtain ⟨lenBad, crcBad, hat', _⟩ := hat.trans12 (crcfeWord crc)
  have hframe := trans12_frame (s := s) (w := crcfeWord crc)
  have htri : (s.trans12 (crcfeWord crc)).ev.trinfo = s.ev.trinfo := by
    obtain ⟨_, _, _, _, heq⟩ := trans12_eq s (crcfeWord crc)
    rw [heq]
    rfl
  refine ⟨.t12, _, .of_kind hw (getwordId_crcfeWord ..) hs.state nofun, rfl, hframe.2,
    hs.moved rfl hframe.1.tmpEc hframe.1.ec htri (.blk (.inr (.inl rfl)) hat'.1) ?_⟩
  rw [Site.content, FzBlock.content_addFee]
  rfl

theorem reads_ec_fee {c : Fin 4096} (N : List Word → Prop) :
    E.scanner.Reads (Shows E (UInt32.ofNat c) .s7 (.blk Bs B)) [ecWord c] N
      (Shows E (UInt32.ofNat c) .s1 (.blk Bs B)) := by
  refine reads_word fun s hs hw => ?_
  obtain ⟨bs, b, hat, rfl, rfl⟩ := hs.of_blk
  refine ⟨.t13, _, .of_kind hw (getwordId_ecWord ..) hs.state nofun, rfl,
    rfl, rfl, ecOf_ecWord c, hs.ec, hs.trinfo, _, .blk (.inl rfl) hat, rfl⟩

theorem reads_blkid {blkid : Fin 2048} (N : List Word → Prop) :
    E.scanner.Reads (Shows E ec .s1 (.blk Bs B)) [blkidWord blkid] N
      (Shows E ec .s8 (.blk Bs { B with blkid := some (UInt32.ofNat blkid) })) := by
  refine reads_word fun s hs hw => ?_
  obtain ⟨bs, b, hat, rfl, rfl⟩ := hs.of_blk
  refine ⟨.t14, _, .of_kind hw (getwordId_blkidWord ..) hs.state nofun, rfl, rfl,
    hs.moved rfl rfl rfl rfl (.blk (.inr (.inr (.inl rfl))) (hat.trans14 _)) ?_⟩
  rw [blkidOf_blkidWord]
  rfl

theorem reads_length_blk (len : Fin 4096) (N : List Word → Prop) :
    E.scanner.Reads (Shows E ec .s8 (.blk Bs B)) [lengthWord len] N
      (Shows E ec .s9 (.blk Bs B)) := by
  refine reads_word fun s hs hw => ?_
  obtain ⟨bs, b, hat, rfl, rfl⟩ := hs.of_blk
  refine ⟨.t15, _, .of_kind hw (getwordId_lengthWord ..) hs.state nofun, rfl, rfl,
    hs.moved rfl rfl rfl rfl (.blk (.inr (.inr (.inr rfl))) hat) rfl⟩

theorem reads_crcbl (crc : Fin 4096) (hid : B.blkid.getD 0 ≠ 0x7FF) (N : List Word → Prop) :
    E.scanner.Reads (Shows E ec .s9 (.blk Bs B)) [crcblWord crc] N
      (Shows E ec .s10 (.done (Bs ++ [B]))) := by
  refine reads_word fun s hs hw => ?_
  obtain ⟨bs, b, hat, rfl, rfl⟩ := hs.of_blk
  obtain ⟨lenBad, crcBad, _, _, heq⟩ := trans16_eq (E := E) s (crcblWord crc)
  rw [if_neg (by rw [hat.getBlk]; exact fun h => hid h.2)] at heq
  have hblock : (s.judged (crcblWord crc) lenBad crcBad).ev.block =
      bs ++ [{ b with lenError := some lenBad, crcError := some crcBad }] :=
    (AtBlk.onBlk hat fun b => { b with lenError := some lenBad, crcError := some crcBad }).1
  refine ⟨.t16, { s.judged (crcblWord crc) lenBad crcBad with stateId := .s10 },
    .of_kind hw (getwordId_crcblWord ..) hs.state nofun, by simp [fire, heq], rfl,
    hs.moved rfl rfl rfl rfl (.done rfl hblock) ?_⟩
  rw [Site.content, List.map_append]
  rfl

theorem reads_ec_blk {c : Fin 4096} (N : List Word → Prop) :
    E.scanner.Reads (Shows E (UInt32.ofNat c) .s10 (.done Bs)) [ecWord c] N
      (Shows E (UInt32.ofNat c) .s1 (.blk Bs {})) := by
  refine reads_word fun s hs hw => ?_
  have hat := startBlk_at s (ecWord c)
  obtain rfl := hs.of_done
  refine ⟨.t17, _, .of_kind hw (getwordId_ecWord ..) hs.state nofun, rfl,
    rfl, rfl, ecOf_ecWord c, congrArg some (ecOf_ecWord c), hs.trinfo, _, .blk (.inl rfl) hat, rfl⟩

theorem reads_regid {regid : Fin 2048} (N : List Word → Prop) :
    E.scanner.Reads (Shows E ec .s10 (.done Bs)) [regidWord regid] N
      (fun s => s.retval = .PARSE_OK ∧
        s.ev.content = { ec := some ec, block := Bs, regid := some (UInt32.ofNat regid) }) := by
  refine reads_word fun s hs hw => ?_
  have hev := (trans18_cases s (regidWord regid)).1
  have htakes : s.Takes E (regidWord regid) .t18 :=
    .of_kind hw (getwordId_regidWord ..) hs.state nofun
  obtain rfl := hs.of_done
  refine ⟨.t18, _, htakes, rfl, (Fires.t18 (E := E)).eventIndex (by decide), rfl, ?_⟩
  change (s.trans18 (regidWord regid)).ev.content = _
  rw [hev, FzEvent.content, hs.ec, hs.trinfo, regidOf_regidWord]

end Fsm

end FzDaq.Parser
