import FzDaq.Parser.Nesting

/-!
# The words of a section of the basic format

The words behind a DETID word are energies, the pretrigger, the number of samples
and the samples, as the type of data asks for. Four flags say how far a section
has been read; the samples are read in one turn, by one of two loops.
-/

namespace FzDaq.Parser

open Machine Wire

namespace Wire

/-- The words of a section, by its type of data. -/
inductive BasicBody : FzDataType → Type where
  | energy {ty : FzDataType} (hty : ty = .QH1 ∨ ty = .Q2) (high low pretrig : Data)
      (samples : Samples) : BasicBody ty
  | energies (high₁ low₁ high₂ low₂ pretrig : Data) (samples : Samples) : BasicBody .Q3
  | waveform {ty : FzDataType} (hty : ty = .I1 ∨ ty = .I2 ∨ ty = .QL1 ∨ ty = .UNKDT)
      (pretrig : Data) (samples : Samples) : BasicBody ty
  | adc (pretrig a₁ a₂ a₃ a₄ a₅ a₆ : Data) (samples : Samples) : BasicBody .ADC

namespace BasicBody

def words : {ty : FzDataType} → BasicBody ty → List Word
  | _, energy _ high low pretrig samples =>
      high.1 :: low.1 :: pretrig.1 :: samples.count.1 :: samples.words
  | _, energies high₁ low₁ high₂ low₂ pretrig samples =>
      high₁.1 :: low₁.1 :: high₂.1 :: low₂.1 :: pretrig.1 :: samples.count.1 :: samples.words
  | _, waveform _ pretrig samples => pretrig.1 :: samples.count.1 :: samples.words
  | _, adc pretrig a₁ a₂ a₃ a₄ a₅ a₆ samples =>
      pretrig.1 :: samples.count.1 :: a₁.1 :: a₂.1 :: a₃.1 :: a₄.1 :: a₅.1 :: a₆.1 ::
        samples.words

def waveformOf (pretrig : Data) (samples : Samples) : Waveform :=
  { pretrig := some pretrig.1.toUInt32, sample := samples.values }

theorem count_eq_length (pretrig : Data) (samples : Samples) :
    samples.count.1.toNat = (waveformOf pretrig samples).sample.length := by
  rw [samples.count_toNat, waveformOf, samples.length_values]

def toData (N : Numbers) : {ty : FzDataType} → BasicBody ty → FzData
  | ty, energy _ high low pretrig samples =>
      { type := some ty
        energy := some { value := [N.energy high.1 low.1] }
        waveform := some (waveformOf pretrig samples) }
  | _, energies high₁ low₁ high₂ low₂ pretrig samples =>
      { type := some .Q3
        energy := some { value := [N.energy high₁.1 low₁.1, N.energy high₂.1 low₂.1] }
        waveform := some (waveformOf pretrig samples) }
  | ty, waveform _ pretrig samples =>
      { type := some ty
        waveform := some (waveformOf pretrig samples) }
  | _, adc pretrig a₁ a₂ a₃ a₄ a₅ a₆ samples =>
      { type := some .ADC
        waveform := some (waveformOf pretrig samples)
        sine := some (N.adc a₁.1 a₂.1 a₃.1)
        cosine := some (N.adc a₄.1 a₅.1 a₆.1) }

/-- Sine and cosine fit in an `int`. -/
def Exact : {ty : FzDataType} → BasicBody ty → Prop
  | _, adc _ a₁ _ _ a₄ _ _ _ => a₁.1.toNat < 512 ∧ a₄.1.toNat < 512
  | _, _ => True

/-- The parser makes of a section what it means exactly if sine and cosine fit in an `int`. -/
theorem exact_of_toData {ty : FzDataType} {bd : BasicBody ty} {E : Env} {N : Numbers}
    (hN : N.Right) (h : bd.toData E.numbers = bd.toData N) : bd.Exact := by
  cases bd with
  | adc pretrig a₁ a₂ a₃ a₄ a₅ a₆ samples =>
      have hsine : adcOf a₁.1 a₂.1 a₃.1 = N.adc a₁.1 a₂.1 a₃.1 :=
        Option.some.inj (congrArg FzData.sine h)
      have hcosine : adcOf a₄.1 a₅.1 a₆.1 = N.adc a₄.1 a₅.1 a₆.1 :=
        Option.some.inj (congrArg FzData.cosine h)
      exact ⟨(adcOf_data_iff a₁ a₂ a₃).1 (hsine ▸ hN.adc a₁ a₂ a₃),
        (adcOf_data_iff a₄ a₅ a₆).1 (hcosine ▸ hN.adc a₄ a₅ a₆)⟩
  | _ => trivial

theorem toData_of_exact {ty : FzDataType} {bd : BasicBody ty} (E : Env) (h : bd.Exact) :
    bd.toData E.numbers = bd.toData E.rightNumbers := by
  cases bd with
  | adc pretrig a₁ a₂ a₃ a₄ a₅ a₆ samples =>
      have hsine : adcOf a₁.1 a₂.1 a₃.1 = E.rightNumbers.adc a₁.1 a₂.1 a₃.1 :=
        E.rightNumbers_right.adc_eq h.1
      have hcosine : adcOf a₄.1 a₅.1 a₆.1 = E.rightNumbers.adc a₄.1 a₅.1 a₆.1 :=
        E.rightNumbers_right.adc_eq h.2
      exact congrArg₂ (fun sine cosine => ({
        type := some .ADC
        waveform := some (waveformOf pretrig samples)
        sine := some sine
        cosine := some cosine } : FzData)) hsine hcosine
  | _ => simp only [toData, Env.rightNumbers_energy]

end BasicBody

def basicLayout : Layout where
  Body := BasicBody
  words := BasicBody.words
  toData N := BasicBody.toData N
  Exact := BasicBody.Exact
  Trigpat := Unit
  trigpat _ := none

end Wire

namespace Fsm

variable {E : Env} {s t u : Fsm} {w : Word} {ec : UInt32} {Bs : List FzBlock} {B : FzBlock}
  {R : FzFee} {H : FzHit} {D D' : FzData}

/-- How far the words of a section have been read: the flags that steer `trans08_basic`. -/
structure Progress where
  energy1Done : Bool := false
  energy2Done : Bool := false
  pretrigDone : Bool := false
  wflenDone : Bool := false
  rdWflen : Word := 0

/-- Inside a section of the basic format. -/
structure Within (E : Env) (ec : UInt32) (Bs : List FzBlock) (B : FzBlock) (R : FzFee)
    (H : FzHit) (D : FzData) (p : Progress) (s : Fsm) : Prop where
  shows : s.Shows E ec .s5 (.data Bs B R H D)
  energy1Done : s.energy1Done = p.energy1Done
  energy2Done : s.energy2Done = p.energy2Done
  pretrigDone : s.pretrigDone = p.pretrigDone
  wflenDone : s.wflenDone = p.wflenDone
  rdWflen : s.rdWflen = p.rdWflen

variable {p p' : Progress}

/-! ## Turns -/

theorem reads_turn (hf : E.evformat = .basic) (x : Data) (ps : List Word) {N : List Word → Prop}
    (hturn : ∀ (s : Fsm) (rest : List Word), s.Within E ec Bs B R H D p → N rest →
      E.scanner.Has s.eventIndex (x.1 :: ps ++ rest) →
      ∃ u, s.trans08Basic E x.1 = some u ∧ u.eventIndex = s.eventIndex + ps.length ∧
        u.Within E ec Bs B R H D' p') :
    E.scanner.Reads (Within E ec Bs B R H D p) (x.1 :: ps) N (Within E ec Bs B R H D' p') := by
  intro s rest hs hrest hhas
  obtain ⟨u, hu, hidx, hus⟩ := hturn s rest hs hrest hhas
  have htakes : s.Takes E x.1 .t08 := .of_kind hhas.1 (getwordId_data x) hs.shows.state nofun
  have hfire : s.fire E .t08 x.1 = some { u with stateId := .s5 } := by simp [fire, hf, hu]
  refine ⟨_, (htakes.next (not_halted hhas.2.1) hfire).reaches, congrArg (· + 1) hidx,
    hus.shows.congr rfl rfl hus.shows.state.symm rfl rfl, hus.energy1Done, hus.energy2Done,
    hus.pretrigDone, hus.wflenDone, hus.rdWflen⟩

theorem reads_turn_one (hf : E.evformat = .basic) (x : Data) {N : List Word → Prop}
    (hturn : ∀ s : Fsm, s.Within E ec Bs B R H D p → ∃ u, s.trans08Basic E x.1 = some u ∧
      u.eventIndex = s.eventIndex ∧ u.Within E ec Bs B R H D' p') :
    E.scanner.Reads (Within E ec Bs B R H D p) [x.1] N (Within E ec Bs B R H D' p') :=
  reads_turn hf x [] fun s _ hs _ _ => hturn s hs

/-- In the basic format the flags and the state number do not matter for what is shown. -/
theorem Shows.congr_basic (hf : E.evformat = .basic) {st : FsmState}
    (hs : s.Shows E ec st (.data Bs B R H D)) (hcursors : u.toCursors = s.toCursors)
    (hstate : u.stateId = .s5) (hev : u.ev = s.ev) (htmp : u.tmpEc = s.tmpEc) :
    u.Shows E ec .s5 (.data Bs B R H D) := by
  obtain ⟨bs, b, r, h, d, hat, hsec, _, rfl, rfl, rfl, rfl, rfl⟩ := hs.of_data
  refine ⟨hstate, htmp ▸ hs.tmpEc, hev ▸ hs.ec, hev ▸ hs.trinfo, _,
    .data (.inr hstate) (d := d) ?_ (hcursors ▸ hsec) fun _ htag => ?_, rfl⟩
  · cases u
    cases s
    dsimp only at hcursors hev
    subst hcursors hev
    exact hat
  · rw [hf] at htag
    cases htag

/-! ## The first word -/

/-- The object when the first word of a section has been counted. -/
def opened (s : Fsm) (w : Word) : Fsm :=
  { ({ s with
      energy1Done := false
      energy2Done := false
      pretrigDone := false
      wflenDone := false
      rdWflen := 0 }.updateBlk w).updateFee w with stateId := .s5 }

theorem reads_first_energy (hf : E.evformat = .basic)
    (hty : (D.type.getD .QH1).hasEnergy = true) (hen : D.energy = some {}) (x : Data)
    (N : List Word → Prop) :
    E.scanner.Reads (Shows E ec .s4 (.data Bs B R H D)) [x.1] N
      (Within E ec Bs B R H { D with energy := some { value := [x.1.toUInt32] } } {}) := by
  refine reads_word fun s hs hw => ?_
  have hopened : (s.opened x.1).Shows E ec .s5 (.data Bs B R H D) :=
    hs.congr_basic hf rfl rfl rfl rfl
  have hfire : s.fire E .t07 x.1 = some ((s.opened x.1).addValue x.1.toUInt32) := by
    simp only [fire, hf, trans07Basic_eq, hs.dType, hty, if_true]
    rfl
  exact ⟨.t07, _, .of_kind hw (getwordId_data x) hs.state (by decide), hfire, rfl,
    (hopened.addValue hen x.1.toUInt32).congr rfl rfl rfl rfl rfl, rfl, rfl, rfl, rfl, rfl⟩

theorem reads_first_pretrig (hf : E.evformat = .basic)
    (hty : (D.type.getD .QH1).hasEnergy = false) (hwf : D.waveform = some {}) (x : Data)
    (N : List Word → Prop) :
    E.scanner.Reads (Shows E ec .s4 (.data Bs B R H D)) [x.1] N
      (Within E ec Bs B R H { D with waveform := some { pretrig := some x.1.toUInt32 } }
        { pretrigDone := true }) := by
  refine reads_word fun s hs hw => ?_
  have hopened : (s.opened x.1).Shows E ec .s5 (.data Bs B R H D) :=
    hs.congr_basic hf rfl rfl rfl rfl
  have hfill := hopened.fillWf (by simp [hwf])
    (fun wf => { wf with pretrig := some x.1.toUInt32 }) fun _ => rfl
  rw [hwf] at hfill
  have hfire : s.fire E .t07 x.1 =
      some { (s.opened x.1).onWf fun wf => { wf with pretrig := some x.1.toUInt32 } with
        pretrigDone := true } := by
    simp only [fire, hf, trans07Basic_eq, hs.dType, hty]
    rfl
  exact ⟨.t07, _, .of_kind hw (getwordId_data x) hs.state (by decide), hfire, rfl,
    hfill.congr_basic hf rfl rfl rfl rfl, rfl, rfl, rfl, rfl, rfl⟩

/-! ## Energies -/

theorem Within.dType (hs : s.Within E ec Bs B R H D p) : s.dType = D.type.getD .QH1 :=
  hs.shows.dType

theorem Within.of_flags (hs : s.Within E ec Bs B R H D p)
    (hu : u.Shows E ec .s5 (.data Bs B R H D')) (hflags : u.toFlags = s.toFlags) :
    u.Within E ec Bs B R H D' p :=
  ⟨hu, (congrArg Flags.energy1Done hflags).trans hs.energy1Done,
    (congrArg Flags.energy2Done hflags).trans hs.energy2Done,
    (congrArg Flags.pretrigDone hflags).trans hs.pretrigDone,
    (congrArg Flags.wflenDone hflags).trans hs.wflenDone,
    (congrArg Flags.rdWflen hflags).trans hs.rdWflen⟩

theorem reads_low (hf : E.evformat = .basic) (hty : (D.type.getD .QH1).hasEnergy = true)
    {v : UInt32} (hen : D.energy = some { value := [v] }) (x : Data) (N : List Word → Prop) :
    E.scanner.Reads (Within E ec Bs B R H D {}) [x.1] N
      (Within E ec Bs B R H
        { D with energy := some { value := [(v <<< 15) + x.1.toUInt32] } }
        { energy1Done := true }) := by
  refine reads_turn_one hf x fun s hs => ?_
  obtain ⟨u, hu, hidx, hflags, hus⟩ := (hs.shows.counted x.1).modLast {} hen
    fun v => (v <<< 15) + x.1.toUInt32
  have hu : ((s.updateBlk x.1).updateFee x.1).modValue E 0 _ = some u := hu
  have hwithin := hs.of_flags hus hflags
  refine ⟨{ u with energy1Done := true }, ?_, hidx, hus.congr_basic hf rfl hus.state rfl rfl, rfl,
    hwithin.energy2Done, hwithin.pretrigDone, hwithin.wflenDone, hwithin.rdWflen⟩
  rw [trans08Basic_eq, hs.dType, hty, hs.energy1Done]
  simp [lowEnergy1, hu]

theorem reads_high_second (hf : E.evformat = .basic) (hty : D.type = some .Q3)
    {v : UInt32} (hen : D.energy = some { value := [v] }) (x : Data) (N : List Word → Prop) :
    E.scanner.Reads (Within E ec Bs B R H D { energy1Done := true }) [x.1] N
      (Within E ec Bs B R H { D with energy := some { value := [v, x.1.toUInt32] } }
        { energy1Done := true }) := by
  refine reads_turn_one hf x fun s hs => ?_
  have hcounted := hs.shows.counted x.1
  have hlen : ((s.updateBlk x.1).updateFee x.1).curEnergy.value.length = 1 := by
    rw [hcounted.curEnergy hen]
    rfl
  refine ⟨((s.updateBlk x.1).updateFee x.1).addValue x.1.toUInt32, ?_, rfl,
    hs.of_flags (hcounted.addValue hen x.1.toUInt32) rfl⟩
  rw [trans08Basic_eq, hs.dType, hty, hs.energy1Done, hs.energy2Done]
  simp [energy2, hlen, FzDataType.hasEnergy]

theorem reads_low_second (hf : E.evformat = .basic) (hty : D.type = some .Q3)
    {v₁ v₂ : UInt32} (hen : D.energy = some { value := [v₁, v₂] }) (x : Data)
    (N : List Word → Prop) :
    E.scanner.Reads (Within E ec Bs B R H D { energy1Done := true }) [x.1] N
      (Within E ec Bs B R H
        { D with energy := some { value := [v₁, (v₂ <<< 15) + x.1.toUInt32] } }
        { energy1Done := true, energy2Done := true }) := by
  refine reads_turn_one hf x fun s hs => ?_
  have hcounted := hs.shows.counted x.1
  have hlen : ((s.updateBlk x.1).updateFee x.1).curEnergy.value.length = 2 := by
    rw [hcounted.curEnergy hen]
    rfl
  obtain ⟨u, hu, hidx, hflags, hus⟩ := hcounted.modLast { value := [v₁] } hen
    fun v => (v <<< 15) + x.1.toUInt32
  have hu : ((s.updateBlk x.1).updateFee x.1).modValue E 1 _ = some u := hu
  have hwithin := hs.of_flags hus hflags
  refine ⟨{ u with energy2Done := true }, ?_, hidx, hus.congr_basic hf rfl hus.state rfl rfl,
    hwithin.energy1Done, rfl, hwithin.pretrigDone, hwithin.wflenDone, hwithin.rdWflen⟩
  rw [trans08Basic_eq, hs.dType, hty, hs.energy1Done, hs.energy2Done]
  simp [energy2, hlen, hu, FzDataType.hasEnergy]

end Fsm

end FzDaq.Parser
