import FzDaq.Parser.Guards
import FzDaq.Parser.Sections

/-!
# Indices into repeated fields

The energies of the basic format are indexed behind a check of their number or behind the
word that adds them. A record of the tag format takes it that the records before it have
added theirs: TAG_FAST writes to the second value of an energy and adds one value only. The
samples of a trigger block are taken in threes, and their number comes from the data.
-/

namespace FzDaq.Parser

open Machine

namespace Fsm

variable {E : Env} {s t u c d : Fsm} {w tg : Word} {tr : Trans} {bs : List FzBlock} {b : FzBlock}
  {r : FzFee} {h : FzHit} {D : FzData} {ch : Chunk}

/-- The values in the energy of the open data message. -/
def energies (c : Fsm) : List UInt32 := ((c.ev.getData c.d).energy.getD {}).value

/-! ## What an index finds -/

theorem AtData.energies (ha : s.AtData bs b r h D) : s.energies = (D.energy.getD {}).value := by
  rw [Fsm.energies, ha.getData]

theorem AtData.curEnergy_value (ha : s.AtData bs b r h D) (hsec : s.Section E D)
    (hen : D.energy.isSome) : s.curEnergy.value = s.energies := by
  rw [ha.curEnergy (hsec.en hen), ha.energies]

theorem AtData.energies_onEn (ha : s.AtData bs b r h D) (hsec : s.Section E D)
    (hen : D.energy.isSome) (f : Energy → Energy) :
    (s.onEn f).energies = (f (D.energy.getD {})).value := by
  obtain ⟨en, hen'⟩ := Option.isSome_iff_exists.1 hen
  rw [(ha.fillEn hsec hen f).1.energies, hen']
  rfl

theorem modValue_guardFields (s : Fsm) (k : Nat) (f : UInt32 → UInt32) :
    s.modValue E.guardFields k f =
      if k < s.curEnergy.value.length then s.modValue E k f else none := by
  rw [modValue, modValue, Env.valueAt_guardFields, Env.valueAt]
  split
  · rename_i hk
    rw [List.getElem?_eq_getElem hk]
  · rename_i hk
    rw [List.getElem?_eq_none (Nat.le_of_not_lt hk)]
    rfl

/-! ## Energies of the basic format -/

theorem lowEnergy1_guardFields (hpos : 0 < s.curEnergy.value.length) (w : Word) :
    s.lowEnergy1 E.guardFields w = s.lowEnergy1 E w := by
  rw [lowEnergy1, lowEnergy1, modValue_guardFields, if_pos hpos]

theorem energy2_guardFields (hpos : 0 < s.curEnergy.value.length) (w : Word) :
    s.energy2 E.guardFields w = s.energy2 E w := by
  unfold energy2
  split
  · rfl
  · rename_i hone
    have htwo : 1 < s.curEnergy.value.length := by omega
    rw [modValue_guardFields, if_pos htwo]

theorem AtData.trans08Basic_guardFields (ha : s.AtData bs b r h D) (hsec : s.Section E D)
    (hf : E.evformat = .basic) (hval : s.dType.hasEnergy = true → s.energies ≠ []) (w : Word) :
    s.trans08Basic E.guardFields w = s.trans08Basic E w := by
  have hword : E.guardFields.event = E.event := rfl
  have hsize : E.guardFields.eventSize = E.eventSize := rfl
  rw [trans08Basic_eq, trans08Basic_eq, waveformByData_congr hword hsize,
    waveformByCount_congr hword]
  split
  · rename_i htype
    have hen : D.energy.isSome := by rw [(hsec.basic hf).2, ← ha.dType, htype]
    have hpos : 0 < ((s.updateBlk w).updateFee w).curEnergy.value.length := by
      change 0 < s.curEnergy.value.length
      rw [ha.curEnergy_value hsec hen]
      exact List.length_pos_iff.2 (hval htype)
    rw [lowEnergy1_guardFields hpos, energy2_guardFields hpos]
  · rfl

/-! ## Records -/

theorem AtData.modValue_twice (ha : s.AtData bs b r h D) (hsec : s.Section E D)
    (hen : D.energy.isSome) (k : Nat) (f g : UInt32 → UInt32) :
    ((s.modValue E.guardFields k f).bind fun u => u.modValue E.guardFields k g) =
      if k < s.energies.length then (s.modValue E k f).bind fun u => u.modValue E k g
      else none := by
  rw [modValue_guardFields, ha.curEnergy_value hsec hen]
  split
  · rename_i hk
    refine Option.bind_congr fun u hu => ?_
    obtain ⟨v, rfl⟩ := modValue_eq_some hu
    obtain ⟨hat, hsec'⟩ := ha.fillEn hsec hen fun en => { en with value := en.value.set k v }
    have hlen :
        k < (s.onEn fun en => { en with value := en.value.set k v }).curEnergy.value.length := by
      rw [hat.curEnergy_value hsec' (by simpa using hen), ha.energies_onEn hsec hen,
        List.length_set, ← ha.energies]
      exact hk
    rw [modValue_guardFields, if_pos hlen]
  · rfl

/-- The one value that has been added is the last. -/
theorem AtData.readEnergy_guardFields (ha : s.AtData bs b r h D) (hsec : s.Section E D)
    (hen : D.energy.isSome) (w : Word) (k : Nat) :
    s.readEnergy E.guardFields w k =
      if k ≤ s.energies.length then s.readEnergy E w k else none := by
  have hword : E.guardFields.event = E.event := rfl
  unfold readEnergy
  simp only [nextEventWord_congr hword, Option.bind_eq_bind]
  cases hhigh : s.nextEventWord E with
  | none => simp
  | some p =>
      obtain ⟨high, u⟩ := p
      obtain ⟨_, rfl⟩ := nextEventWord_eq_some.1 hhigh
      simp only [Option.bind_some]
      cases hlow : ((s.movedOver [high]).addValue high.toUInt32).nextEventWord E with
      | none => simp
      | some p =>
          obtain ⟨low, u⟩ := p
          obtain ⟨_, rfl⟩ := nextEventWord_eq_some.1 hlow
          simp only [Option.bind_some]
          obtain ⟨hat, hsec'⟩ := AtData.fillEn (s := s.movedOver [high]) ha hsec hen
            fun en => { en with value := en.value ++ [high.toUInt32] }
          let u := ((s.movedOver [high]).addValue high.toUInt32).movedOver [low]
          have hlen : u.energies.length = s.energies.length + 1 := by
            change ((s.movedOver [high]).onEn _).energies.length = _
            rw [AtData.energies_onEn (s := s.movedOver [high]) ha hsec hen, List.length_append,
              ← ha.energies]
            rfl
          rw [AtData.modValue_twice (s := u) hat hsec' (by simpa using hen), hlen]
          simp only [Nat.lt_add_one_iff]
          rfl

theorem readRecord_guardFields_of_ne (hslow : s.tag ≠ TAG_SLOW) (hfast : s.tag ≠ TAG_FAST)
    (w : Word) : s.readRecord E.guardFields w = s.readRecord E w := by
  have hword : E.guardFields.event = E.event := rfl
  have hstr : E.guardFields.pastStr = E.pastStr := rfl
  simp only [readRecord, if_neg hslow, if_neg hfast, gatherTag_congr hword,
    readCounters_congr hword hstr]
  rfl

/-- TAG_FAST needs a value in the energy to which it adds its own. -/
theorem AtData.readRecord_guardFields (ha : s.AtData bs b r h D) (hsec : s.Section E D)
    (htag : Tagged s.toFlags D) (hdone : s.tagDone = true) (w : Word) :
    s.readRecord E.guardFields w =
      if s.tag = TAG_FAST ∧ s.energies = [] then none else s.readRecord E w := by
  by_cases hslow : s.tag = TAG_SLOW
  · have hen := (htag hdone).2 (.inl hslow)
    have hother : ¬ (s.tag = TAG_FAST ∧ s.energies = []) := by
      rintro ⟨hfast, _⟩
      exact absurd (hslow.symm.trans hfast) (by decide)
    rw [readRecord_slow hslow, readRecord_slow hslow, ha.readEnergy_guardFields hsec hen,
      if_pos (Nat.zero_le _), if_neg hother]
  by_cases hfast : s.tag = TAG_FAST
  · have hen := (htag hdone).2 (.inr hfast)
    rw [readRecord_fast hfast, readRecord_fast hfast, ha.readEnergy_guardFields hsec hen]
    by_cases hnone : s.energies = []
    · rw [if_neg (by simp [hnone]), if_pos ⟨hfast, hnone⟩]
    · have hpos : 1 ≤ s.energies.length := List.length_pos_iff.2 hnone
      rw [if_pos hpos, if_neg fun hboth => hnone hboth.2]
  · rw [readRecord_guardFields_of_ne hslow hfast, if_neg fun hboth => hfast hboth.1]

theorem AtData.trans08Tag_guardFields (ha : s.AtData bs b r h D) (hsec : s.Section E D)
    (htag : Tagged s.toFlags D) (w : Word) :
    s.trans08Tag E.guardFields w =
      if (s.tagDone = true ∧ s.wflenDone = true ∧ s.tag = TAG_FAST) ∧ s.energies = [] then none
      else s.trans08Tag E w := by
  rw [trans08Tag_eq, trans08Tag_eq]
  cases hdone : s.tagDone with
  | false => simp
  | true =>
      cases hlen : s.wflenDone with
      | false => simp
      | true =>
          have hread := AtData.readRecord_guardFields (s := (s.updateBlk w).updateFee w) ha hsec
            htag hdone w
          simp only [hread, true_and]
          change (if s.tag = TAG_FAST ∧ s.energies = [] then none else _ : Option Fsm).bind _ = _
          split
          · rfl
          · rfl

/-! ## Samples of a trigger block -/

theorem triggerInfos_inside {hit : FzHit} {wf : Waveform} {i left : Nat}
    (ht : s.triggerInfos E.guardFields hit wf i left = some t) :
    left = 0 ∨ i + 3 * left ≤ wf.sample.length := by
  induction left generalizing s i with
  | zero => exact .inl rfl
  | succ left ih =>
      obtain ⟨tri, htri, ht⟩ := Option.bind_eq_some_iff.1 ht
      obtain ⟨_, _, htri⟩ := Option.bind_eq_some_iff.1 htri
      obtain ⟨_, _, htri⟩ := Option.bind_eq_some_iff.1 htri
      obtain ⟨_, _, htri⟩ := Option.bind_eq_some_iff.1 htri
      obtain ⟨low, hlow, _⟩ := Option.bind_eq_some_iff.1 htri
      rw [Env.sampleAt_guardFields] at hlow
      obtain ⟨hlast, _⟩ := List.getElem?_eq_some_iff.1 hlow
      right
      rcases ih ht with rfl | hrest
      · omega
      · omega

/-- The samples of a block that has been read can be taken in threes. -/
theorem endTriggerBlk_inside (hf : E.evformat = .basic)
    (ht : s.endTriggerBlk E.guardFields = some t) :
    (triggerWaveform (s.ev.getBlk s.blk)).sample.length % 3 = 0 := by
  have hf : E.guardFields.evformat = .basic := hf
  rw [endTriggerBlk_eq hf] at ht
  obtain ⟨u, hu, _⟩ := Option.map_eq_some_iff.1 ht
  split at hu
  · have hinside := triggerInfos_inside hu
    omega
  · rename_i hfee
    rw [triggerWaveform_of_fee hfee]
    rfl

theorem triggerWaveform_judged (s : Fsm) (w : Word) (lenBad crcBad : Bool) :
    triggerWaveform ((s.judged w lenBad crcBad).ev.getBlk s.blk) =
      triggerWaveform (s.ev.getBlk s.blk) := by
  have hset (b : FzBlock) : triggerWaveform
      { b with lenError := some lenBad, crcError := some crcBad } = triggerWaveform b := rfl
  exact getD_modify_proj triggerWaveform hset s.ev.block s.blk s.blk {}

theorem trans16_guardFields (hp : E.PastTotal) (s : Fsm) (w : Word) :
    s.trans16 E.guardFields w = if s.ragged E w = true then none else s.trans16 E w := by
  have hakin : E.guardFields.Akin E := ⟨rfl, Nat.le_refl _, rfl, rfl, hp⟩
  cases hr : s.ragged E w with
  | false => exact (trans16_akin hakin (.inl hr)).symm
  | true =>
      rw [if_pos rfl]
      cases ht : s.trans16 E.guardFields w with
      | none => rfl
      | some t =>
          simp only [ragged, Bool.and_eq_true, beq_iff_eq, bne_iff_ne] at hr
          obtain ⟨⟨⟨hf, hid⟩, hcrc⟩, hthree⟩ := hr
          obtain ⟨lenBad, crcBad, _, hbad, ⟨_, hor⟩ | ⟨_, _, hend⟩⟩ := trans16_cases ht
          · rcases hor with hor | hor
            · rw [hbad.2 hcrc] at hor
              cases hor
            · exact absurd hid hor
          · have hinside := endTriggerBlk_inside hf hend
            change (triggerWaveform ((s.judged w lenBad crcBad).ev.getBlk s.blk)).sample.length % 3
              = 0 at hinside
            rw [triggerWaveform_judged] at hinside
            exact absurd hinside hthree

/-! ## One turn -/

/-- The turn at the word `w` indexes a repeated field behind its end. -/
inductive IndexesPast (E : Env) (c : Fsm) (w : Word) : Trans → Prop
  | value (hread : c.ReadsRecord E w TAG_FAST) (hnone : c.energies = []) : IndexesPast E c w .t08
  | sample (hragged : c.ragged E w = true) : IndexesPast E c w .t16

theorem fire_guardFields (hdata : tr ≠ .t08) (hblk : tr ≠ .t16) :
    s.fire E.guardFields tr w = s.fire E tr w := by
  cases tr <;> first | rfl | contradiction

/-- In S5 of the basic format the types with energies have one. -/
def Valued (E : Env) (c : Fsm) : Prop :=
  E.evformat = .basic → c.stateId = .s5 → c.dType.hasEnergy = true → c.energies ≠ []

theorem turn_guardFields (hp : E.PastTotal) {σ : Site} (ha : c.At E σ) (hval : Valued E c)
    (htakes : c.Takes E w tr) :
    (IndexesPast E c w tr ∧ c.turn E.guardFields = none) ∨
      (¬ IndexesPast E c w tr ∧ c.turn E.guardFields = c.turn E) := by
  have htakes' : c.Takes E.guardFields w tr := htakes
  rw [turn_of_takes htakes, turn_of_takes htakes']
  have hstate := ttable_eq htakes.2.2
  by_cases hdata : tr = .t08
  · subst hdata
    obtain ⟨bs, b, r, h, d, rfl, hat, hsec, htag⟩ := ha.of_data (.inr hstate.1)
    cases hf : E.evformat with
    | basic =>
        right
        refine ⟨fun hbad => ?_, ?_⟩
        · cases hbad with
          | value hread =>
              rw [hread.evformat] at hf
              cases hf
        · simp only [fire, hf, show E.guardFields.evformat = .basic from hf,
            hat.trans08Basic_guardFields hsec hf (hval hf hstate.1)]
    | tag =>
        simp only [fire, hf, show E.guardFields.evformat = .tag from hf,
          hat.trans08Tag_guardFields hsec (htag hstate.1 hf)]
        by_cases hbad : (c.tagDone = true ∧ c.wflenDone = true ∧ c.tag = TAG_FAST) ∧ c.energies = []
        · obtain ⟨⟨hdone, hlen, hfast⟩, hnone⟩ := hbad
          exact .inl ⟨.value ⟨hf, htakes, hdone, hlen, hfast⟩ hnone,
            by rw [if_pos ⟨⟨hdone, hlen, hfast⟩, hnone⟩]; rfl⟩
        · refine .inr ⟨fun hpast => hbad ?_, by rw [if_neg hbad]⟩
          cases hpast with
          | value hread hnone => exact ⟨⟨hread.tagDone, hread.wflenDone, hread.tag⟩, hnone⟩
  by_cases hblk : tr = .t16
  · subst hblk
    simp only [fire, trans16_guardFields hp]
    cases hr : c.ragged E w with
    | false =>
        refine .inr ⟨fun hpast => ?_, rfl⟩
        cases hpast with
        | sample hragged =>
            rw [hr] at hragged
            cases hragged
    | true => exact .inl ⟨.sample hr, rfl⟩
  · rw [fire_guardFields hdata hblk]
    refine .inr ⟨fun hpast => ?_, rfl⟩
    cases hpast with
    | value => exact hdata rfl
    | sample => exact hblk rfl

/-! ## The number of values -/

theorem energies_onWf (s : Fsm) (f : Waveform → Waveform) : (s.onWf f).energies = s.energies :=
  FzEvent.getData_modData_proj (fun D : FzData => (D.energy.getD {}).value) s.ev s.wf s.d
    fun _ => rfl

theorem energies_modData (s : Fsm) {f : FzData → FzData} (hf : ∀ D, (f D).energy = D.energy) :
    { s with ev := s.ev.modData s.d f }.energies = s.energies :=
  FzEvent.getData_modData_proj (fun D : FzData => (D.energy.getD {}).value) s.ev s.d s.d
    fun D => by rw [hf]

theorem AtData.energies_le_onEn (ha : s.AtData bs b r h D) (hsec : s.Section E D)
    (hen : D.energy.isSome) {f : Energy → Energy}
    (hf : ∀ en : Energy, en.value.length ≤ (f en).value.length) :
    s.energies.length ≤ (s.onEn f).energies.length := by
  rw [ha.energies_onEn hsec hen, ha.energies]
  exact hf _

theorem AtData.energies_trans07Basic (ha : s.AtData bs b r h D) (hsec : s.Section E D)
    (hf : E.evformat = .basic) (htype : s.dType.hasEnergy = true) (w : Word) :
    (s.trans07Basic w).energies ≠ [] := by
  have hen : D.energy.isSome := by rw [(hsec.basic hf).2, ← ha.dType, htype]
  rw [trans07Basic_eq, htype]
  have hadd := AtData.energies_onEn (s := ({ s with
    energy1Done := false
    energy2Done := false
    pretrigDone := false
    wflenDone := false
    rdWflen := 0 }.updateBlk w).updateFee w) ha hsec hen
    fun en => { en with value := en.value ++ [w.toUInt32] }
  intro hnil
  exact absurd (hadd.symm.trans hnil) (by simp)

theorem energies_gathered (s : Fsm) (ws : List Word) :
    (s.gathered ws).stepBack.energies = s.energies := by
  rw [gathered_eq]
  exact energies_onWf s _

theorem AtData.energies_trans08Basic (ha : s.AtData bs b r h D) (hsec : s.Section E D)
    (hf : E.evformat = .basic) (ht : s.trans08Basic E w = some t) :
    s.energies.length ≤ t.energies.length := by
  have hen := (hsec.basic hf).2
  rw [← ha.dType] at hen
  rcases trans08Basic_cases ht with ⟨htype, ht | ht | ht⟩ | ⟨_, ht⟩
  · obtain ⟨f, hlen, rfl⟩ := lowEnergy1_eq_some ht
    exact AtData.energies_le_onEn (s := (s.updateBlk w).updateFee w) ha hsec (hen.trans htype)
      fun en => (hlen en).2
  · obtain ⟨f, _, hlen, rfl⟩ := energy2_eq_some ht
    exact AtData.energies_le_onEn (s := (s.updateBlk w).updateFee w) ha hsec (hen.trans htype)
      fun en => (hlen en).2
  · rcases waveformByData_eq_some ht with ⟨_, rfl⟩ | ⟨_, rfl⟩ | ⟨_, _, ws, _, _, _, _, _, rfl⟩
    · exact Nat.le_of_eq (congrArg List.length (energies_onWf _ _).symm)
    · exact Nat.le_refl _
    · rw [energies_gathered]
      exact Nat.le_refl s.energies.length
  · rcases waveformByCount_eq_some ht with ⟨_, rfl⟩ | ⟨_, _, ws, _, _, rfl⟩ |
      ⟨_, _, u, ws, hsine, _, _, rfl⟩
    · exact Nat.le_refl _
    · rw [energies_gathered]
      exact Nat.le_refl s.energies.length
    · obtain ⟨w0, w1, w2, w3, w4, w5, _, rfl⟩ := readSineCosine_eq_some.1 hsine
      rw [energies_gathered]
      exact Nat.le_of_eq (congrArg List.length (energies_modData s
        (f := fun D => { D with sine := some (adcOf w0 w1 w2), cosine := some (adcOf w3 w4 w5) })
        fun _ => rfl).symm)

theorem tagData_energies (D : FzData) (w : Word) :
    ((tagData D w).energy.getD {}).value = (D.energy.getD {}).value := by
  unfold tagData
  split_ifs <;> rfl

theorem AtData.energies_readTag (ha : s.AtData bs b r h D) (hsec : s.Section E D)
    (hf : E.evformat = .tag) (w : Word) : (s.readTag w).energies = s.energies := by
  rw [(ha.readTag hsec hf w).1.energies, tagData_energies, ha.energies]

/-- Of the words in a section of the tag format only the payloads of TAG_SLOW and TAG_FAST
add a value, and they add one. -/
theorem AtData.energies_trans08Tag (ha : s.AtData bs b r h D) (hsec : s.Section E D)
    (htag : Tagged s.toFlags D) (hf : E.evformat = .tag) (hw : E.event s.eventIndex = some w)
    (ht : s.trans08Tag E w = some t) :
    t.energies.length = s.energies.length +
      if s.tagDone = true ∧ s.wflenDone = true ∧ (s.tag = TAG_SLOW ∨ s.tag = TAG_FAST) then 1
      else 0 := by
  rcases trans08Tag_cases hw ht with
    ⟨hdone, rfl⟩ | ⟨_, hlen, rfl⟩ | ⟨hdone, hlen, u, v, hu, hv, rfl⟩
  · rw [AtData.energies_readTag (s := (s.updateBlk w).updateFee w) ha hsec hf]
    simp [hdone]
    rfl
  · simp [hlen]
    rfl
  · have hread : u.energies.length = s.energies.length +
        if s.tag = TAG_SLOW ∨ s.tag = TAG_FAST then 1 else 0 := by
      rcases readRecord_cases (s := (s.updateBlk w).updateFee w) hw hu with ⟨hpre, rfl⟩ |
        ⟨hwav, _, rfl⟩ | ⟨hwav, ws, _, _, _, rfl⟩ | ⟨hslow, ws, f, _, _, hval, rfl⟩ |
        ⟨hbase, x, v, _, rfl⟩ | ⟨hother, ws, ts, _, _, _, rfl⟩
      · have hpre : s.tag = TAG_PRETRIGGER := hpre
        rw [energies_onWf, hpre]
        rfl
      · have hwav : s.tag = TAG_WAVEFORM := hwav
        rw [hwav]
        rfl
      · have hwav : s.tag = TAG_WAVEFORM := hwav
        rw [hwav]
        exact congrArg List.length (energies_onWf _ _)
      · have hslow : s.tag = TAG_SLOW ∨ s.tag = TAG_FAST := hslow
        rw [if_pos hslow, AtData.energies_onEn (s := ((s.updateBlk w).updateFee w).movedOver ws)
          ha hsec ((htag hdone).2 hslow), (hval _).2, ha.energies]
      · have hbase : s.tag = TAG_BASELINE := hbase
        rw [hbase]
        exact congrArg List.length (energies_modData s
          (f := fun D => { D with baseline := some v }) fun _ => rfl)
      · have hother : s.tag ∉ [TAG_PRETRIGGER, TAG_WAVEFORM, TAG_SLOW, TAG_FAST, TAG_BASELINE] :=
          hother
        rw [if_neg (by rintro (hslow | hslow) <;> simp [hslow] at hother)]
        rfl
    have hcheck : v.energies = u.energies := by
      split at hv
      · obtain ⟨bad, _, rfl⟩ := verifyWaveform_eq_some hv
        exact energies_onWf u _
      · rw [hv]
    change v.energies.length = _
    rw [hcheck, hread]
    simp [hdone, hlen]

/-! ## The values of a section -/

theorem visits_valued (hE : E.Carries ch) (hc : E.loop.Visits (E.entry s) c) :
    Valued E c := by
  refine visits_induction hE (Valued E) (fun _ hs => by cases hs) (fun c _ _ hI => hI)
    (fun c w tr u hc htakes hregid hfires _ hI => ?_) hc
  intro hf hs htype
  obtain ⟨σ, ha⟩ := visits_at hE hc
  have htarget : tr.target = .s5 :=
    (hfires.stateId fun hidle => (hidle ▸ htakes).stateId_idle).symm.trans hs
  have hstate := ttable_eq htakes.2.2
  change u.energies ≠ []
  have htype : u.dType.hasEnergy = true := htype
  cases hfires with
  | t07Basic =>
      obtain ⟨bs, b, r, h, d, rfl, hat, hsec, _⟩ := ha.of_data (.inl hstate.1)
      obtain ⟨d', hat', _, hfill⟩ := hat.trans07Basic hsec hf w
      have hsame : (c.trans07Basic w).dType = c.dType := by
        rw [hat'.dType, hat.dType, hfill.type]
      exact hat.energies_trans07Basic hsec hf (hsame ▸ htype) w
  | t08Basic _ hu =>
      obtain ⟨bs, b, r, h, d, rfl, hat, hsec, _⟩ := ha.of_data (.inr hstate.1)
      obtain ⟨d', hat', _, hfill⟩ := hat.trans08Basic hsec hf hu
      have hsame := hat'.dType
      rw [hfill.type, ← hat.dType] at hsame
      have hval := List.length_pos_iff.2 (hI hf hstate.1 (hsame ▸ htype))
      have hgrow := hat.energies_trans08Basic hsec hf hu
      exact List.length_pos_iff.1 (Nat.lt_of_lt_of_le hval hgrow)
  | t07Tag hf' =>
      rw [hf] at hf'
      cases hf'
  | t08Tag hf' =>
      rw [hf] at hf'
      cases hf'
  | _ => cases htarget

/-- A TAG_SLOW record has been read in the section in which the object stands. -/
def SlowRead (E : Env) (s : Fsm) : Fsm → Prop :=
  InSection E s fun c => ∃ w, c.ReadsRecord E w TAG_SLOW

theorem next_energies (hE : E.Carries ch) (hf : E.evformat = .tag)
    (hc : E.loop.Visits (E.entry s) c) (hs : c.stateId = .s5) (hnext : E.loop.Next c d)
    (hs' : d.stateId = .s5) :
    (d.energies.length = c.energies.length ∧
        ∀ w, ¬ c.ReadsRecord E w TAG_SLOW ∧ ¬ c.ReadsRecord E w TAG_FAST) ∨
      (d.energies.length = c.energies.length + 1 ∧
        ∃ w, c.ReadsRecord E w TAG_SLOW ∨ c.ReadsRecord E w TAG_FAST) := by
  obtain ⟨_, ⟨hskip, rfl⟩ | ⟨w, tr, u, htakes, hfires, rfl⟩⟩ := next_cases hnext
  · exact .inl ⟨rfl, fun w => ⟨fun h => hskip.not_takes h.takes, fun h => hskip.not_takes h.takes⟩⟩
  · have hstate := ttable_eq htakes.2.2
    have htarget : tr.target = .s5 :=
      (hfires.stateId fun hidle => (hidle ▸ htakes).stateId_idle).symm.trans hs'
    have hdata : tr = .t08 := by
      rw [← htakes.2.2, hs] at htarget ⊢
      cases hid : getwordId w <;> rw [hid] at htarget <;> first | rfl | cases htarget
    subst hdata
    cases hfires with
    | t08Basic hf' =>
        rw [hf] at hf'
        cases hf'
    | t08Tag _ hu =>
        obtain ⟨σ, ha⟩ := visits_at hE hc
        obtain ⟨bs, b, r, h, D, rfl, hat, hsec, htag⟩ := ha.of_data (.inr hs)
        have hlen := hat.energies_trans08Tag hsec (htag hs hf) hf htakes.1 hu
        by_cases hdue : c.tagDone = true ∧ c.wflenDone = true ∧
            (c.tag = TAG_SLOW ∨ c.tag = TAG_FAST)
        · rw [if_pos hdue] at hlen
          obtain ⟨hdone, hlendone, hslow | hfast⟩ := hdue
          · exact .inr ⟨hlen, w, .inl ⟨hf, htakes, hdone, hlendone, hslow⟩⟩
          · exact .inr ⟨hlen, w, .inr ⟨hf, htakes, hdone, hlendone, hfast⟩⟩
        · rw [if_neg hdue] at hlen
          exact .inl ⟨hlen, fun _ =>
            ⟨fun h => hdue ⟨h.tagDone, h.wflenDone, .inl h.tag⟩,
              fun h => hdue ⟨h.tagDone, h.wflenDone, .inr h.tag⟩⟩⟩

theorem SlowRead.energies (hE : E.Carries ch) (hf : E.evformat = .tag) (h : SlowRead E s c) :
    c.energies ≠ [] := by
  refine h.holds (Q := fun c => c.energies ≠ []) ?_ ?_
  · rintro b c hb ⟨w, hread⟩ hnext hs
    have hs' := (ttable_eq hread.takes.2.2).1
    rcases next_energies hE hf hb hs' hnext hs with ⟨_, hnone⟩ | ⟨hlen, _⟩
    · exact absurd hread (hnone w).1
    · exact List.length_pos_iff.1 (hlen ▸ Nat.succ_pos _)
  · intro b c hb hs hval hnext hs'
    have hpos := List.length_pos_iff.2 hval
    rcases next_energies hE hf hb hs hnext hs' with ⟨hlen, _⟩ | ⟨hlen, _⟩
    · exact List.length_pos_iff.1 (hlen ▸ hpos)
    · exact List.length_pos_iff.1 (hlen ▸ Nat.succ_pos _)

theorem energies_of_s4 (hE : E.Carries ch) (hc : E.loop.Visits (E.entry s) c)
    (hs : c.stateId = .s4) : c.energies = [] := by
  obtain ⟨t, enError, hdata⟩ := openData_of_s4 hE hc hs
  have hval : c.energies = (c.openData.energy.getD {}).value := rfl
  rw [hval, hdata]
  cases E.evformat <;> cases t <;> rfl

/-- As long as no index is behind an end, the first value of a section is that of TAG_SLOW. -/
theorem visits_slowRead (hE : E.Carries ch) (hf : E.evformat = .tag)
    (hsafe : ∀ c w, E.loop.Visits (E.entry s) c → ¬ IndexesPast E c w .t08)
    (hc : E.loop.Visits (E.entry s) c) (hs : c.stateId = .s5) (hval : c.energies ≠ []) :
    SlowRead E s c := by
  refine hc.1.since (Q := fun c => c.energies ≠ []) (fun hs => by cases hs)
    (fun b c hb hnext hs hval => ?_) hs hval
  rcases next_inSection hnext hs with ⟨_, hs', rfl⟩ | ⟨w, u, htakes, hfires, rfl⟩ |
    ⟨w, u, htakes, hfires, rfl⟩
  · exact .inr ⟨hs', hval⟩
  · have hs' := (ttable_eq htakes.2.2).1
    cases hfires with
    | t07Basic hf' => cases hf.symm.trans hf'
    | t07Tag =>
        obtain ⟨σ, ha⟩ := visits_at hE hb
        obtain ⟨bs, b', r, h, D, rfl, hat, hsec, _⟩ := ha.of_data (.inl hs')
        have hsame := AtData.energies_readTag (s := ({ b with
          tagDone := false
          wflenDone := false
          rdWflen := 0 }.updateBlk w).updateFee w) hat hsec hf w
        have hnil := energies_of_s4 hE hb hs'
        exact absurd (hsame.trans hnil) hval
  · have hs' := (ttable_eq htakes.2.2).1
    rcases next_energies hE hf hb hs' hnext hs with ⟨hlen, _⟩ | ⟨_, x, hslow | hfast⟩
    · have hpos : 0 < b.energies.length := hlen ▸ List.length_pos_iff.2 hval
      exact .inr ⟨hs', List.length_pos_iff.1 hpos⟩
    · exact .inl ⟨x, hslow⟩
    · by_cases hnone : b.energies = []
      · exact absurd (.value hfast hnone) (hsafe b x hb)
      · exact .inr ⟨hs', hnone⟩

/-! ## The run -/

/-- In a call no index into a value or a sample is behind the end of its field, exactly if
each TAG_FAST record has a TAG_SLOW record before it in its section, and no block of trigger
infos is read whose samples cannot be taken in threes. -/
theorem fields_inRange_iff (ch : Chunk) (fmt : Format) (past : Chunk.Past) (behind : Nat → Word)
    (s : Fsm) :
    let E := ch.envIn fmt past behind
    ¬ E.guardFields.loop.Faults (E.guardFields.entry s) ↔
      (∀ c w, E.loop.Visits (E.entry s) c → c.ReadsRecord E w TAG_FAST → SlowRead E s c) ∧
        ∀ c w, E.loop.Visits (E.entry s) c → c.Takes E w .t16 → c.ragged E w = false := by
  intro E
  have hE : E.Carries ch := ch.envIn_carries fmt past behind
  have hp : E.PastTotal := ch.envIn_pastTotal fmt past behind
  have hmem : ∀ k, (E.event k).isSome := fun _ => rfl
  have hturn (c : Fsm) (w : Word) (tr : Trans) (hc : E.loop.Visits (E.entry s) c)
      (htakes : c.Takes E w tr) : IndexesPast E c w tr ∧ c.turn E.guardFields = none ∨
        ¬ IndexesPast E c w tr ∧ c.turn E.guardFields = c.turn E := by
    obtain ⟨σ, ha⟩ := visits_at hE hc
    exact turn_guardFields hp ha (visits_valued hE hc) htakes
  have hentry : E.guardFields.entry s = E.entry s := rfl
  rw [hentry, not_faults_iff_of_checks (G := E.guardFields) hE hp hmem rfl rfl hturn]
  constructor
  · intro hsafe
    refine ⟨fun c w hc hread => ?_, fun c w hc htakes => ?_⟩
    · have hdata (c : Fsm) (x : Word) (hc : E.loop.Visits (E.entry s) c) :
          ¬ IndexesPast E c x .t08 := by
        intro hbad
        cases hbad with
        | value hread hnone => exact hsafe c x .t08 hc hread.takes (.value hread hnone)
      have hs := (ttable_eq hread.takes.2.2).1
      refine visits_slowRead hE hread.evformat hdata hc hs fun hnone => ?_
      exact hdata c w hc (.value hread hnone)
    · cases hragged : c.ragged E w with
      | false => rfl
      | true => exact absurd (.sample hragged) (hsafe c w .t16 hc htakes)
  · rintro ⟨hslow, hthree⟩ c w tr hc htakes hbad
    cases hbad with
    | value hread hnone =>
        exact SlowRead.energies hE hread.evformat (hslow c w hc hread) hnone
    | sample hragged =>
        rw [hthree c w hc htakes] at hragged
        cases hragged

/-- A TAG_FAST record in a section without a TAG_SLOW record. -/
def fastOnly : Chunk where
  body := [0xE001, 0x9800, 1, 2, 3, 0x9000, 0x7002, 3, 100, 1, 2, 0xA00B, 0xB000]
  regid := 0xC800
  regid_id := getwordId_c800
  body_id := Chunk.ne_regid_of_all rfl

/-- It indexes the second of one value. -/
theorem fastOnly_faults :
    (fastOnly.envIn .tag .zero fun _ => 0).guardFields.loop.Faults
      ((fastOnly.envIn .tag .zero fun _ => 0).guardFields.entry {}) := by
  obtain ⟨c, hrun⟩ : ∃ c, (fastOnly.envIn .tag .zero fun _ => 0).guardFields.loop.run 9
    ((fastOnly.envIn .tag .zero fun _ => 0).guardFields.entry {}) = .fault c := ⟨_, rfl⟩
  exact Loop.faults_of_run hrun

end Fsm

end FzDaq.Parser
