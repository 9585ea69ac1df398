import FzDaq.Parser.Record

/-!
# What one turn of the loop can do

Inversion lemmas for the transitions that may fault, the entries of the
transition table read backwards, and the members that a transition leaves alone.
-/

namespace FzDaq.Parser

/-! ## The transition table -/

/-- The state in which, and the word at which, a transition is taken. -/
theorem ttable_eq {wid : WordId} {st : FsmState} {t : Trans} (h : ttable wid st = t) :
    match t with
    | .notValid => wid = .empty ∨ st ≠ .idle
    | .t01 => st = .idle ∧ wid ≠ .ec
    | .t02 => st = .idle ∧ wid = .ec
    | .t03 => st = .s1 ∧ wid = .telid
    | .t04 => st = .s2 ∧ wid = .data
    | .t05 => st = .s3 ∧ wid = .data
    | .t06 => st = .s3 ∧ wid = .detid
    | .t07 => st = .s4 ∧ wid = .data
    | .t08 => st = .s5 ∧ wid = .data
    | .t09 => st = .s5 ∧ wid = .detid
    | .t10 => st = .s5 ∧ wid = .telid
    | .t11 => st = .s5 ∧ wid = .length
    | .t12 => st = .s6 ∧ wid = .crcfe
    | .t13 => st = .s7 ∧ wid = .ec
    | .t14 => st = .s1 ∧ wid = .blkid
    | .t15 => st = .s8 ∧ wid = .length
    | .t16 => st = .s9 ∧ wid = .crcbl
    | .t17 => st = .s10 ∧ wid = .ec
    | .t18 => st = .s10 ∧ wid = .regid := by
  subst h
  cases wid <;> cases st <;> simp [ttable]

namespace Fsm

variable {E : Env} {s t : Fsm} {w : Word}

/-! ## Checks at the end of a section -/

theorem verifyWaveform_eq_some (h : s.verifyWaveform E = some t) :
    ∃ bad : Bool, (bad = false ↔ s.rdWflen.toNat = s.curWaveform.sample.length) ∧
      t = { s.onWf fun wf => { wf with lenError := some bad } with
        errInEvent := s.errInEvent || bad } := by
  unfold verifyWaveform at h
  split at h
  · rename_i hlen
    refine ⟨false, by simp [hlen], ?_⟩
    cases h
    simp [onWf]
  · rename_i hlen
    refine ⟨true, by simp [hlen], ?_⟩
    simp only [Option.bind_eq_bind, Option.bind_eq_some_iff, Option.some.injEq] at h
    obtain ⟨_, _, rfl⟩ := h
    simp

theorem verifyEnergyLen_eq_some {n : Nat} (h : s.verifyEnergyLen E n = some t) :
    ∃ bad : Bool, (bad = false ↔ s.curEnergy.value.length = n) ∧
      t = { s.onEn fun en => { en with lenError := some bad } with
        errInEvent := s.errInEvent || bad } := by
  unfold verifyEnergyLen at h
  split at h
  · rename_i hlen
    refine ⟨false, by simp [hlen], ?_⟩
    cases h
    simp [onEn]
  · rename_i hlen
    refine ⟨true, by simp [hlen], ?_⟩
    simp only [Option.bind_eq_bind, Option.bind_eq_some_iff, Option.some.injEq] at h
    obtain ⟨_, _, rfl⟩ := h
    simp

/-- The number of energy words that each type requires. -/
def energyCount : FzDataType → Nat
  | .Q3 => 2
  | _ => 1

theorem verifyEnergy_eq_some (h : s.verifyEnergy E = some t) :
    (s.dType.hasEnergy = false ∧ t = s) ∨
    (s.dType.hasEnergy = true ∧ ∃ bad : Bool,
      (bad = false ↔ s.curEnergy.value.length = energyCount s.dType) ∧
      t = { s.onEn fun en => { en with lenError := some bad } with
        errInEvent := s.errInEvent || bad }) := by
  unfold verifyEnergy at h
  cases hd : s.dType <;> simp only [hd] at h <;>
    first
    | exact .inr ⟨rfl, verifyEnergyLen_eq_some h⟩
    | exact .inl ⟨rfl, (Option.some.inj h).symm⟩

theorem verifySection_eq_some {u : Fsm} (h₁ : s.verifyWaveform E = some u)
    (h₂ : u.verifyEnergy E = some t) :
    ∃ bs bad, t = { s with
      ev := { s.ev with block := bs }, errInEvent := s.errInEvent || bad } := by
  obtain ⟨bad₁, _, rfl⟩ := verifyWaveform_eq_some h₁
  rcases verifyEnergy_eq_some h₂ with ⟨_, rfl⟩ | ⟨_, bad₂, _, rfl⟩
  · exact ⟨_, bad₁, rfl⟩
  · exact ⟨_, bad₁ || bad₂, by rw [← Bool.or_assoc]; rfl⟩

/-! ## DATA words of the basic format in S5 -/

theorem lowEnergy1_eq_some (h : s.lowEnergy1 E w = some t) :
    ∃ f, (∀ en : Energy, (f en).lenError = en.lenError ∧
      en.value.length ≤ (f en).value.length) ∧ t = { s.onEn f with energy1Done := true } := by
  obtain ⟨u, hu, h⟩ := Option.bind_eq_some_iff.1 h
  obtain ⟨v, rfl⟩ := modValue_eq_some hu
  cases h
  exact ⟨fun en => { en with value := en.value.set 0 v }, fun _ => ⟨rfl, by simp⟩, rfl⟩

theorem energy2_eq_some (h : s.energy2 E w = some t) :
    ∃ f done, (∀ en : Energy, (f en).lenError = en.lenError ∧
      en.value.length ≤ (f en).value.length) ∧ t = { s.onEn f with energy2Done := done } := by
  unfold energy2 at h
  split at h
  · cases h
    exact ⟨fun en => { en with value := en.value ++ [w.toUInt32] }, s.energy2Done,
      fun _ => ⟨rfl, by simp⟩, rfl⟩
  · obtain ⟨u, hu, h⟩ := Option.bind_eq_some_iff.1 h
    obtain ⟨v, rfl⟩ := modValue_eq_some hu
    cases h
    exact ⟨fun en => { en with value := en.value.set 1 v }, true, fun _ => ⟨rfl, by simp⟩, rfl⟩

theorem waveformByData_eq_some (h : s.waveformByData E w = some t) :
    (s.pretrigDone = false ∧
      t = { s.onWf fun wf => { wf with pretrig := some w.toUInt32 } with pretrigDone := true }) ∨
    (s.wflenDone = false ∧ t = { s with rdWflen := w, wflenDone := true }) ∨
    (s.pretrigDone = true ∧ s.wflenDone = true ∧ ∃ ws stop, ws.length < E.eventSize ∧
      E.Reads s.eventIndex (ws ++ [stop]) ∧ (∀ x ∈ ws, x ≤ 0x7FFF) ∧ ¬ stop ≤ 0x7FFF ∧
      t = (s.restoreCrc.gathered ws).stepBack) := by
  unfold waveformByData at h
  split at h
  · rename_i hpre
    cases h
    exact .inl ⟨by simpa using hpre, rfl⟩
  rename_i hpre
  split at h
  · rename_i hlen
    cases h
    exact .inr (.inl ⟨by simpa using hlen, rfl⟩)
  · rename_i hlen
    obtain ⟨u, hu, h⟩ := Option.bind_eq_some_iff.1 h
    obtain ⟨ws, stop, hws, hreads, hdata, hstop, rfl⟩ := gatherData_eq_some.1 hu
    cases h
    exact .inr (.inr ⟨by simpa using hpre, by simpa using hlen, ws, stop, hws, hreads, hdata,
      hstop, rfl⟩)

/-- The object after sine and cosine have been read from six words. -/
def sineCosineRead (s : Fsm) (w0 w1 w2 w3 w4 w5 : Word) : Fsm :=
  { s.movedOver [w0, w1, w2, w3, w4, w5] with
    ev := s.ev.modData s.d fun d =>
      { d with sine := some (adcOf w0 w1 w2), cosine := some (adcOf w3 w4 w5) }
    saveBlkcrc := xorAll s.blkcrc [w0, w1, w2, w3, w4, w5]
    saveFeecrc := xorAll s.feecrc [w0, w1, w2, w3, w4, w5] }

theorem readSineCosine_eq_some :
    s.readSineCosine E = some t ↔
      ∃ w0 w1 w2 w3 w4 w5, E.Reads s.eventIndex [w0, w1, w2, w3, w4, w5] ∧
        t = s.sineCosineRead w0 w1 w2 w3 w4 w5 := by
  simp only [readSineCosine, Option.bind_eq_bind, Option.bind_eq_some_iff, Option.some.injEq,
    foldl_skipWord]
  constructor
  · rintro ⟨w0, h0, w1, h1, w2, h2, w3, h3, w4, h4, w5, h5, rfl⟩
    exact ⟨w0, w1, w2, w3, w4, w5, ⟨h0, h1, h2, h3, h4, h5, trivial⟩, rfl⟩
  · rintro ⟨w0, w1, w2, w3, w4, w5, ⟨h0, h1, h2, h3, h4, h5, _⟩, rfl⟩
    exact ⟨w0, h0, w1, h1, w2, h2, w3, h3, w4, h4, w5, h5, rfl⟩

/-- Length known: the samples, and for ADC data sine and cosine in front of them. -/
theorem waveformByCount_done (hdone : s.wflenDone = true) :
    s.waveformByCount E w =
      (if s.dType = .ADC then s.restoreCrc.readSineCosine E else some s.restoreCrc).bind
        fun u => (u.gatherCount E s.rdWflen.toNat).map stepBack := by
  rw [waveformByCount, if_neg (by simp [hdone])]
  have htype : s.restoreCrc.dType = s.dType := rfl
  simp only [htype, Option.bind_eq_bind]
  by_cases hadc : s.dType = .ADC
  · rw [if_pos hadc]
    cases hu : s.restoreCrc.readSineCosine E with
    | none => rfl
    | some u =>
        obtain ⟨_, _, _, _, _, _, _, rfl⟩ := readSineCosine_eq_some.1 hu
        rw [Option.bind_some, Option.bind_some, Option.map_eq_bind]
        rfl
  · rw [if_neg hadc, Option.bind_some, Option.bind_some, Option.map_eq_bind]
    rfl

theorem waveformByCount_eq_some (h : s.waveformByCount E w = some t) :
    (s.wflenDone = false ∧ t = { s with rdWflen := w, wflenDone := true }) ∨
    (s.wflenDone = true ∧ s.dType ≠ .ADC ∧ ∃ ws, ws.length = s.rdWflen.toNat ∧
      E.Reads s.eventIndex ws ∧ t = (s.restoreCrc.gathered ws).stepBack) ∨
    (s.wflenDone = true ∧ s.dType = .ADC ∧ ∃ u ws, s.restoreCrc.readSineCosine E = some u ∧
      ws.length = s.rdWflen.toNat ∧ E.Reads u.eventIndex ws ∧ t = (u.gathered ws).stepBack) := by
  cases hdone : s.wflenDone with
  | false =>
      rw [waveformByCount, if_pos (by simp [hdone])] at h
      exact .inl ⟨rfl, (Option.some.inj h).symm⟩
  | true =>
      rw [waveformByCount_done hdone] at h
      obtain ⟨u, hu, h⟩ := Option.bind_eq_some_iff.1 h
      obtain ⟨v, hv, rfl⟩ := Option.map_eq_some_iff.1 h
      obtain ⟨ws, hws, hreads, rfl⟩ := gatherCount_eq_some.1 hv
      by_cases hadc : s.dType = .ADC
      · rw [if_pos hadc] at hu
        exact .inr (.inr ⟨rfl, hadc, u, ws, hu, hws, hreads, rfl⟩)
      · rw [if_neg hadc] at hu
        cases hu
        exact .inr (.inl ⟨rfl, hadc, ws, hws, hreads, rfl⟩)

/-- What a DATA word of the basic format is taken for in S5, with the two shapes of
sections put together. -/
theorem trans08Basic_eq (s : Fsm) (w : Word) :
    s.trans08Basic E w =
      if s.dType.hasEnergy then
        if !s.energy1Done then ((s.updateBlk w).updateFee w).lowEnergy1 E w
        else if s.dType = .Q3 ∧ s.energy2Done = false then
          ((s.updateBlk w).updateFee w).energy2 E w
        else ((s.updateBlk w).updateFee w).waveformByData E w
      else ((s.updateBlk w).updateFee w).waveformByCount E w := by
  unfold trans08Basic
  have htype : ((s.updateBlk w).updateFee w).dType = s.dType := rfl
  have hfirst : ((s.updateBlk w).updateFee w).energy1Done = s.energy1Done := rfl
  have hsecond : ((s.updateBlk w).updateFee w).energy2Done = s.energy2Done := rfl
  simp only [htype, hfirst, hsecond]
  cases s.dType <;> cases s.energy2Done <;> rfl

theorem trans08Basic_eq_count (h : s.dType.hasEnergy = false) :
    s.trans08Basic E w = ((s.updateBlk w).updateFee w).waveformByCount E w := by
  rw [trans08Basic_eq, h]
  rfl

/-- Everything a DATA word can do in S5. The words of a waveform are consumed at once. -/
theorem trans08Basic_cases (h : s.trans08Basic E w = some t) :
    let c := (s.updateBlk w).updateFee w
    (s.dType.hasEnergy = true ∧
      (c.lowEnergy1 E w = some t ∨ c.energy2 E w = some t ∨ c.waveformByData E w = some t)) ∨
    (s.dType.hasEnergy = false ∧ c.waveformByCount E w = some t) := by
  intro c
  rw [trans08Basic_eq] at h
  split_ifs at h with henergy
  · exact .inl ⟨henergy, .inl h⟩
  · exact .inl ⟨henergy, .inr (.inl h)⟩
  · exact .inl ⟨henergy, .inr (.inr h)⟩
  · exact .inr ⟨by simpa using henergy, h⟩

/-! ## What a transition leaves alone -/

/-- From `s` to `t` the report, the return value and the event counters are kept,
trigger infos are only added, and `err_in_event` is not lowered. -/
structure Frame (s t : Fsm) : Prop where
  report : t.report = s.report
  retval : t.retval = s.retval
  tmpEc : t.tmpEc = s.tmpEc
  ec : t.ev.ec = s.ev.ec
  trinfo : ∃ ts, (∀ tri ∈ ts, FzTrigInfo.isInitialized tri = true) ∧
    t.ev.trinfo = s.ev.trinfo ++ ts
  err : s.errInEvent = true → t.errInEvent = true

theorem Frame.of_eq (hreport : t.report = s.report) (hretval : t.retval = s.retval)
    (htmp : t.tmpEc = s.tmpEc) (hec : t.ev.ec = s.ev.ec) (htri : t.ev.trinfo = s.ev.trinfo)
    (herr : s.errInEvent = true → t.errInEvent = true) : s.Frame t :=
  ⟨hreport, hretval, htmp, hec, ⟨[], by simp, by simp [htri]⟩, herr⟩

theorem Frame.trans {u : Fsm} (h₁ : s.Frame t) (h₂ : t.Frame u) : s.Frame u := by
  obtain ⟨ts, hts, htri⟩ := h₁.trinfo
  obtain ⟨us, hus, hure⟩ := h₂.trinfo
  refine ⟨h₂.report.trans h₁.report, h₂.retval.trans h₁.retval, h₂.tmpEc.trans h₁.tmpEc,
    h₂.ec.trans h₁.ec, ⟨ts ++ us, ?_, ?_⟩, h₂.err ∘ h₁.err⟩
  · intro tri htri
    rcases List.mem_append.1 htri with htri | htri
    · exact hts tri htri
    · exact hus tri htri
  · rw [hure, htri, List.append_assoc]

theorem addTrinfos_frame {ts : List FzTrigInfo}
    (hts : ∀ tri ∈ ts, FzTrigInfo.isInitialized tri = true) : s.Frame (s.addTrinfos ts) :=
  ⟨rfl, rfl, rfl, rfl, ⟨ts, hts, rfl⟩, id⟩

theorem startSection_err (s : Fsm) (w : Word) (enError : Bool) :
    (s.startSection E w enError).errInEvent =
      (s.errInEvent || decide (sectionType w = .UNKDT)) := by
  unfold startSection
  cases E.evformat <;> dsimp only <;> split <;> simp_all [addData]

theorem startSection_frame (s : Fsm) (w : Word) (enError : Bool) :
    s.Frame (s.startSection E w enError) ∧
      (s.startSection E w enError).eventIndex = s.eventIndex := by
  unfold startSection
  cases E.evformat <;> dsimp only <;> split <;>
    first
    | exact ⟨.of_eq rfl rfl rfl rfl rfl fun _ => rfl, rfl⟩
    | exact ⟨.of_eq rfl rfl rfl rfl rfl id, rfl⟩

theorem trans06_frame : s.Frame (s.trans06 E w) ∧ (s.trans06 E w).eventIndex = s.eventIndex := by
  obtain ⟨hframe, hidx⟩ := startSection_frame (E := E) (((s.updateBlk w).updateFee w).onHit
    fun h => { h with detid := some (detidOf w).toNat }) w false
  exact ⟨⟨hframe.report, hframe.retval, hframe.tmpEc, hframe.ec, hframe.trinfo, hframe.err⟩, hidx⟩

theorem trans09Tag_frame :
    s.Frame (s.trans09Tag E w) ∧ (s.trans09Tag E w).eventIndex = s.eventIndex := by
  have hstart (hit : FzHit) := startSection_frame (E := E)
    (((s.updateBlk w).updateFee w).addHit hit) w true
  obtain ⟨hframe, hidx⟩ := hstart _
  exact ⟨⟨hframe.report, hframe.retval, hframe.tmpEc, hframe.ec, hframe.trinfo, hframe.err⟩, hidx⟩

theorem trans05_frame : s.Frame (s.trans05 w) ∧ (s.trans05 w).eventIndex = s.eventIndex := by
  unfold trans05
  dsimp only
  split <;> exact ⟨.of_eq rfl rfl rfl rfl rfl id, rfl⟩

theorem trans07Basic_frame :
    s.Frame (s.trans07Basic w) ∧ (s.trans07Basic w).eventIndex = s.eventIndex := by
  unfold trans07Basic
  dsimp only
  split <;> exact ⟨.of_eq rfl rfl rfl rfl rfl id, rfl⟩

theorem readTag_frame : s.Frame (s.readTag w) ∧ (s.readTag w).eventIndex = s.eventIndex := by
  unfold readTag
  dsimp only
  split_ifs <;> exact ⟨.of_eq rfl rfl rfl rfl rfl id, rfl⟩

theorem verifyWaveform_frame (h : s.verifyWaveform E = some t) : s.Frame t := by
  obtain ⟨bad, _, rfl⟩ := verifyWaveform_eq_some h
  exact .of_eq rfl rfl rfl rfl rfl fun herr => by simp [herr]

theorem verifySection_frame {u : Fsm} (h₁ : s.verifyWaveform E = some u)
    (h₂ : u.verifyEnergy E = some t) : s.Frame t ∧ t.eventIndex = s.eventIndex := by
  obtain ⟨_, bad, rfl⟩ := verifySection_eq_some h₁ h₂
  exact ⟨.of_eq rfl rfl rfl rfl rfl fun herr => by simp [herr], rfl⟩

/-- The two checks and what follows them in `trans09_basic` to `trans11_basic`. -/
theorem trans09Basic_eq_some (h : s.trans09Basic E w = some t) :
    ∃ u v hit, ((s.updateBlk w).updateFee w).verifyWaveform E = some u ∧
      u.verifyEnergy E = some v ∧ t = (v.addHit hit).startSection E w true ∧
      hit = { ec := some (v.ev.ec.getD 0)
              gttag := some ((v.ev.getHit v.hit).gttag.getD 0)
              dettag := some ((v.ev.getHit v.hit).dettag.getD 0)
              detid := some (detidOf w).toNat
              telid := some (checkTelid (telidOf w))
              feeid := some (checkFeeid (feeidOf w)) } := by
  obtain ⟨u, hu, h⟩ := Option.bind_eq_some_iff.1 h
  obtain ⟨v, hv, h⟩ := Option.bind_eq_some_iff.1 h
  cases h
  exact ⟨u, v, _, hu, hv, rfl, rfl⟩

theorem trans10Basic_eq_some (h : s.trans10Basic E w = some t) :
    ∃ u v, ((s.updateBlk w).updateFee w).verifyWaveform E = some u ∧
      u.verifyEnergy E = some v ∧ t = v.startTelescope w := by
  obtain ⟨u, hu, h⟩ := Option.bind_eq_some_iff.1 h
  obtain ⟨v, hv, h⟩ := Option.bind_eq_some_iff.1 h
  cases h
  exact ⟨u, v, hu, hv, rfl⟩

theorem trans11Basic_eq_some (h : s.trans11Basic E w = some t) :
    ∃ u, ({ s with rdFeelen := lengthOf w }.updateBlk w).verifyWaveform E = some u ∧
      u.verifyEnergy E = some t := by
  obtain ⟨u, hu, h⟩ := Option.bind_eq_some_iff.1 h
  exact ⟨u, hu, h⟩

theorem triggerInfos_eq_some {hit : FzHit} {wf : Waveform} {i left : Nat}
    (h : s.triggerInfos E hit wf i left = some t) :
    ∃ ts, (∀ tri ∈ ts, FzTrigInfo.isInitialized tri = true) ∧ t = s.addTrinfos ts := by
  induction left generalizing s i with
  | zero =>
      cases h
      exact ⟨[], by simp, by simp⟩
  | succ left ih =>
      obtain ⟨tri, htri, h⟩ := Option.bind_eq_some_iff.1 h
      obtain ⟨ts, hts, rfl⟩ := ih h
      refine ⟨tri :: ts, List.forall_mem_cons.2 ⟨?_, hts⟩, ?_⟩
      · simp only [triggerInfo, Option.bind_eq_bind, Option.bind_eq_some_iff,
          Option.some.injEq] at htri
        obtain ⟨_, _, _, _, _, _, _, _, rfl⟩ := htri
        rfl
      · rw [addTrinfo_eq, addTrinfos_addTrinfos]
        rfl

theorem endTriggerBlk_eq_some (h : s.endTriggerBlk E = some t) :
    ∃ ts, (∀ tri ∈ ts, FzTrigInfo.isInitialized tri = true) ∧
      t = { s with ev := { s.ev with
        block := s.ev.block.dropLast, trinfo := s.ev.trinfo ++ ts } } := by
  obtain ⟨u, hu, h⟩ := Option.bind_eq_some_iff.1 h
  cases h
  have hread : ∃ ts, (∀ tri ∈ ts, FzTrigInfo.isInitialized tri = true) ∧ u = s.addTrinfos ts := by
    have hnone : ∃ ts, (∀ tri ∈ ts, FzTrigInfo.isInitialized tri = true) ∧ s = s.addTrinfos ts :=
      ⟨[], by simp, by simp⟩
    cases hfmt : E.evformat with
    | tag =>
        rw [hfmt] at hu
        cases hu
        exact hnone
    | basic =>
        simp only [hfmt] at hu
        split at hu
        · simp only [readTriggerinfo, hfmt] at hu
          exact triggerInfos_eq_some hu
        · cases hu
          exact hnone
  obtain ⟨ts, hts, rfl⟩ := hread
  exact ⟨ts, hts, rfl⟩

theorem trans12_eq (s : Fsm) (w : Word) :
    ∃ lenBad crcBad : Bool,
      (lenBad = false ↔ s.feelen &&& 0xFFF = s.rdFeelen.toNat) ∧
      (crcBad = false ↔ crcfeOf w = crcFold s.feecrc) ∧
      s.trans12 w = { s.updateBlk w with
        rdFeecrc := crcfeOf w
        ev := s.ev.modFee s.fee fun r =>
          { r with lenError := some lenBad, crcError := some crcBad }
        errInEvent := s.errInEvent || lenBad || crcBad } := by
  have hmod (a b : Bool) : (s.ev.modFee s.fee fun r => { r with lenError := some a }).modFee s.fee
        (fun r => { r with crcError := some b }) =
      s.ev.modFee s.fee fun r => { r with lenError := some a, crcError := some b } := by
    simp only [FzEvent.modFee, FzEvent.modBlk, List.modify_modify_eq]
    congr 2
    funext b
    simp only [Function.comp, List.modify_modify_eq]
    rfl
  refine ⟨!decide (s.feelen &&& 0xFFF = s.rdFeelen.toNat),
    !decide (crcfeOf w = crcFold s.feecrc), by simp, by simp, ?_⟩
  unfold trans12
  dsimp only [updateBlk, updateBlkLen, updateBlkCrc, onFee]
  by_cases hlen : s.feelen &&& 0xFFF = s.rdFeelen.toNat <;>
    by_cases hcrc : crcfeOf w = crcFold s.feecrc <;>
      simp [hlen, hcrc, hmod]

theorem trans12_frame : s.Frame (s.trans12 w) ∧ (s.trans12 w).eventIndex = s.eventIndex := by
  obtain ⟨lenBad, crcBad, _, _, heq⟩ := trans12_eq s w
  rw [heq]
  exact ⟨.of_eq rfl rfl rfl rfl rfl fun herr => by simp [herr], rfl⟩

/-- The verdict on the length and on the checksum of a block, before the block
of trigger infos is taken off. -/
def judged (s : Fsm) (w : Word) (lenBad crcBad : Bool) : Fsm :=
  { s with
    rdBlkcrc := crcblOf w
    ev := s.ev.modBlk s.blk fun b => { b with lenError := some lenBad, crcError := some crcBad }
    errInEvent := s.errInEvent || lenBad || crcBad }

theorem modBlk_verdicts (e : FzEvent) (p : BlkPtr) (lenBad crcBad : Bool) :
    (e.modBlk p fun b => { b with lenError := some lenBad }).modBlk p
        (fun b => { b with crcError := some crcBad }) =
      e.modBlk p fun b => { b with lenError := some lenBad, crcError := some crcBad } := by
  simp only [FzEvent.modBlk, List.modify_modify_eq]
  rfl

theorem trans16_eq (s : Fsm) (w : Word) :
    ∃ lenBad crcBad : Bool,
      (lenBad = false ↔ (s.blklen &&& 0x0FFF) + 2 = s.rdBlklen.toNat) ∧
      (crcBad = false ↔ crcblOf w = crcFold s.blkcrc) ∧
      s.trans16 E w =
        if crcBad = false ∧ (s.ev.getBlk s.blk).blkid.getD 0 = 0x7FF then
          (s.judged w lenBad crcBad).endTriggerBlk E
        else some (s.judged w lenBad crcBad) := by
  have hid (a b : Bool) : ((s.ev.modBlk s.blk fun r =>
      { r with lenError := some a, crcError := some b }).getBlk s.blk).blkid =
        (s.ev.getBlk s.blk).blkid := by
    simp only [FzEvent.modBlk, FzEvent.getBlk, List.getElem?_modify_eq]
    cases s.ev.block[s.blk]? <;> rfl
  refine ⟨!decide ((s.blklen &&& 0x0FFF) + 2 = s.rdBlklen.toNat),
    !decide (crcblOf w = crcFold s.blkcrc), by simp, by simp, ?_⟩
  unfold trans16
  dsimp only [onBlk]
  by_cases hlen : (s.blklen &&& 0x0FFF) + 2 = s.rdBlklen.toNat <;>
    by_cases hcrc : crcblOf w = crcFold s.blkcrc <;>
    by_cases hblk : (s.ev.getBlk s.blk).blkid.getD 0 = 0x7FF <;>
      simp [hlen, hcrc, hblk, modBlk_verdicts, hid, judged]

theorem trans16_cases (h : s.trans16 E w = some t) :
    ∃ lenBad crcBad : Bool,
      (lenBad = false ↔ (s.blklen &&& 0x0FFF) + 2 = s.rdBlklen.toNat) ∧
      (crcBad = false ↔ crcblOf w = crcFold s.blkcrc) ∧
      (t = s.judged w lenBad crcBad ∧
          (crcBad = true ∨ (s.ev.getBlk s.blk).blkid.getD 0 ≠ 0x7FF) ∨
        crcBad = false ∧ (s.ev.getBlk s.blk).blkid.getD 0 = 0x7FF ∧
          (s.judged w lenBad crcBad).endTriggerBlk E = some t) := by
  obtain ⟨lenBad, crcBad, hlen, hcrc, heq⟩ := trans16_eq (E := E) s w
  refine ⟨lenBad, crcBad, hlen, hcrc, ?_⟩
  rw [heq] at h
  split at h
  · rename_i hblk
    exact .inr ⟨hblk.1, hblk.2, h⟩
  · rename_i hblk
    refine .inl ⟨(Option.some.inj h).symm, ?_⟩
    cases crcBad
    · exact .inr fun hid => hblk ⟨rfl, hid⟩
    · exact .inl rfl

theorem readRecord_cursors (hw : E.event s.eventIndex = some w) (h : s.readRecord E w = some t) :
    t.toCursors = s.toCursors := by
  rcases readRecord_cases hw h with ⟨_, rfl⟩ | ⟨_, _, rfl⟩ | ⟨_, _, _, _, _, rfl⟩ |
    ⟨_, _, _, _, _, _, rfl⟩ | ⟨_, _, _, _, rfl⟩ | ⟨_, _, _, _, _, _, rfl⟩ <;> rfl

theorem readRecord_stateId (hw : E.event s.eventIndex = some w) (h : s.readRecord E w = some t) :
    t.stateId = s.stateId := by
  rcases readRecord_cases hw h with ⟨_, rfl⟩ | ⟨_, _, rfl⟩ | ⟨_, _, _, _, _, rfl⟩ |
    ⟨_, _, _, _, _, _, rfl⟩ | ⟨_, _, _, _, rfl⟩ | ⟨_, _, _, _, _, _, rfl⟩ <;> rfl

theorem readRecord_frame (hw : E.event s.eventIndex = some w) (h : s.readRecord E w = some t) :
    s.Frame t ∧ t.toFlags = s.toFlags := by
  rcases readRecord_cases hw h with ⟨_, rfl⟩ | ⟨_, _, rfl⟩ | ⟨_, _, _, _, _, rfl⟩ |
    ⟨_, _, _, _, _, _, rfl⟩ | ⟨_, _, _, _, rfl⟩ | ⟨_, ws, ts, _, _, hts, rfl⟩
  case inr.inr.inr.inr.inr =>
    have hadd := addTrinfos_frame (s := s.movedOver ws) hts
    exact ⟨⟨hadd.report, hadd.retval, hadd.tmpEc, hadd.ec, hadd.trinfo, hadd.err⟩, rfl⟩
  all_goals exact ⟨.of_eq rfl rfl rfl rfl rfl id, rfl⟩

theorem trans08Tag_eq (s : Fsm) (w : Word) :
    s.trans08Tag E w =
      if !s.tagDone then some (((s.updateBlk w).updateFee w).readTag w)
      else if !s.wflenDone then
        some { (s.updateBlk w).updateFee w with rdWflen := w, wflenDone := true }
      else (do
        let u ← ((s.updateBlk w).updateFee w).readRecord E w
        let u ← (if u.tag = TAG_WAVEFORM then u.verifyWaveform E else some u)
        some { u with tagDone := false, wflenDone := false, rdWflen := 0 }) := rfl

theorem trans08Tag_of_record {u v : Fsm} (hdone : s.tagDone = true) (hlen : s.wflenDone = true)
    (hu : ((s.updateBlk w).updateFee w).readRecord E w = some u)
    (hv : (if u.tag = TAG_WAVEFORM then u.verifyWaveform E else some u) = some v) :
    s.trans08Tag E w = some { v with tagDone := false, wflenDone := false, rdWflen := 0 } := by
  rw [trans08Tag_eq, hdone, hlen]
  simp only [Bool.not_true, Bool.false_eq_true, if_false, hu, hv, Option.bind_eq_bind,
    Option.bind_some]

/-- Everything a DATA word can do in S5. -/
theorem trans08Tag_cases (hw : E.event s.eventIndex = some w) (h : s.trans08Tag E w = some t) :
    let c := (s.updateBlk w).updateFee w
    (s.tagDone = false ∧ t = c.readTag w) ∨
    (s.tagDone = true ∧ s.wflenDone = false ∧ t = { c with rdWflen := w, wflenDone := true }) ∨
    (s.tagDone = true ∧ s.wflenDone = true ∧ ∃ u v, c.readRecord E w = some u ∧
      (if s.tag = TAG_WAVEFORM then u.verifyWaveform E = some v else v = u) ∧
      t = { v with tagDone := false, wflenDone := false, rdWflen := 0 }) := by
  intro c
  rw [trans08Tag_eq] at h
  split at h
  · rename_i hnot
    cases h
    exact .inl ⟨by simpa using hnot, rfl⟩
  split at h
  · rename_i hdone hnot
    cases h
    exact .inr (.inl ⟨by simpa using hdone, by simpa using hnot, rfl⟩)
  · rename_i hdone hlen'
    obtain ⟨u, hu, h⟩ := Option.bind_eq_some_iff.1 h
    obtain ⟨v, hv, h⟩ := Option.bind_eq_some_iff.1 h
    cases h
    have hflags := (readRecord_frame (s := c) hw hu).2
    have hutag : u.tag = s.tag := congrArg Flags.tag hflags
    rw [hutag] at hv
    refine .inr (.inr ⟨by simpa using hdone, by simpa using hlen', u, v, hu, ?_, rfl⟩)
    by_cases hwav : s.tag = TAG_WAVEFORM
    · simpa [hwav] using hv
    · simpa [hwav, eq_comm] using hv

end Fsm

end FzDaq.Parser
