import FzDaq.Parser.BasicWords

/-!
# Sections of the basic format

Behind the energies come the pretrigger, the number of samples and the samples. A section
whose words follow the grammar is read to the data that they stand for.
-/

namespace FzDaq.Parser

open Machine Wire

namespace Fsm

variable {E : Env} {s t u : Fsm} {w : Word} {ec : UInt32} {Bs : List FzBlock} {B : FzBlock}
  {R : FzFee} {H : FzHit} {D D' : FzData}
  {p p' : Progress}

/-! ## Pretrigger, length and samples behind the energies -/

/-- The energies have been read. -/
structure Energized (D : FzData) (p : Progress) : Prop where
  hasEnergy : (D.type.getD .QH1).hasEnergy = true
  energy1Done : p.energy1Done = true
  energy2Done : D.type.getD .QH1 = .Q3 → p.energy2Done = true

theorem Within.byData (hs : s.Within E ec Bs B R H D p) (hp : Energized D p) :
    s.trans08Basic E w = ((s.updateBlk w).updateFee w).waveformByData E w := by
  rw [trans08Basic_eq, hs.dType, hp.hasEnergy, hs.energy1Done, hp.energy1Done, hs.energy2Done,
    if_pos rfl, if_neg (by simp), if_neg]
  rintro ⟨hq3, hdone⟩
  rw [hp.energy2Done hq3] at hdone
  cases hdone

theorem reads_pretrig (hf : E.evformat = .basic) (hp : Energized D p)
    (hdone : p.pretrigDone = false) (hwf : D.waveform = some {}) (x : Data)
    (N : List Word → Prop) :
    E.scanner.Reads (Within E ec Bs B R H D p) [x.1] N
      (Within E ec Bs B R H { D with waveform := some { pretrig := some x.1.toUInt32 } }
        { p with pretrigDone := true }) := by
  refine reads_turn_one hf x fun s hs => ?_
  have hfill := (hs.shows.counted x.1).fillWf (by simp [hwf])
    (fun wf => { wf with pretrig := some x.1.toUInt32 }) fun _ => rfl
  rw [hwf] at hfill
  refine ⟨{ ((s.updateBlk x.1).updateFee x.1).onWf fun wf =>
      { wf with pretrig := some x.1.toUInt32 } with pretrigDone := true }, ?_, rfl,
    hfill.congr_basic hf rfl hfill.state rfl rfl, hs.energy1Done, hs.energy2Done, rfl,
    hs.wflenDone, hs.rdWflen⟩
  rw [hs.byData hp, waveformByData, if_pos]
  change (!s.pretrigDone) = true
  rw [hs.pretrigDone, hdone]
  rfl

theorem reads_wflen (hf : E.evformat = .basic) (hp : Energized D p)
    (hpre : p.pretrigDone = true) (hdone : p.wflenDone = false) (x : Data)
    (N : List Word → Prop) :
    E.scanner.Reads (Within E ec Bs B R H D p) [x.1] N
      (Within E ec Bs B R H D { p with wflenDone := true, rdWflen := x.1 }) := by
  refine reads_turn_one hf x fun s hs => ?_
  have hcounted := hs.shows.counted x.1
  refine ⟨{ (s.updateBlk x.1).updateFee x.1 with rdWflen := x.1, wflenDone := true }, ?_, rfl,
    hcounted.congr_basic hf rfl hcounted.state rfl rfl, hs.energy1Done, hs.energy2Done,
    hs.pretrigDone, rfl, rfl⟩
  rw [hs.byData hp, waveformByData, if_neg, if_pos]
  · change (!s.wflenDone) = true
    rw [hs.wflenDone, hdone]
    rfl
  · change ¬ (!s.pretrigDone) = true
    rw [hs.pretrigDone, hpre]
    simp

theorem Within.gathered (hs : s.Within E ec Bs B R H D p) {wf : Waveform}
    (hwf : D.waveform = some wf) (ws : List Word) :
    (s.gathered ws).stepBack.Within E ec Bs B R H
      { D with waveform := some { wf with sample := wf.sample ++ ws.map (·.toNat) } } p := by
  have hfill := hs.shows.fillWf (by simp [hwf])
    (fun wf => { wf with sample := wf.sample ++ ws.map (·.toNat) }) fun _ => rfl
  rw [hwf] at hfill
  rw [gathered_eq]
  exact hs.of_flags (hfill.congr rfl rfl rfl rfl rfl) rfl

theorem gathered_stepBack_eventIndex (s : Fsm) (ws : List Word) :
    (s.gathered ws).stepBack.eventIndex = s.eventIndex + ws.length - 1 := by
  rw [gathered_eq]
  rfl

/-- The samples of a section, when there are any, are read in the turn of the first one. -/
theorem reads_samples (hf : E.evformat = .basic) {N : List Word → Prop} {wf : Waveform}
    (hwf : D.waveform = some wf) (xs : Samples)
    (hturn : ∀ (s : Fsm) (x : Data) (rest : List Word), s.Within E ec Bs B R H D p → N rest →
      E.scanner.Has s.eventIndex (xs.words ++ rest) → s.trans08Basic E x.1 =
        some (((s.updateBlk x.1).updateFee x.1).restoreCrc.gathered xs.words).stepBack) :
    E.scanner.Reads (Within E ec Bs B R H D p) xs.words N
      (Within E ec Bs B R H
        { D with waveform := some { wf with sample := wf.sample ++ xs.values } } p) := by
  cases hxs : xs.list with
  | nil =>
      have hwords : xs.words = [] := by rw [Samples.words, hxs]; rfl
      rw [Samples.values, hwords]
      refine .nil fun s hs => ?_
      rw [List.map_nil, List.append_nil, ← hwf]
      exact hs
  | cons x ps =>
      have hwords : xs.words = x.1 :: ps.map (·.1) := by rw [Samples.words, hxs]; rfl
      rw [Samples.values, hwords]
      rw [hwords] at hturn
      refine reads_turn hf x (ps.map (·.1)) fun s rest hs hrest hhas => ?_
      have hcounted : ((s.updateBlk x.1).updateFee x.1).restoreCrc.Within E ec Bs B R H D p :=
        hs.of_flags (hs.shows.congr rfl rfl rfl rfl rfl) rfl
      exact ⟨_, hturn s x rest hs hrest hhas, gathered_stepBack_eventIndex _ _,
        hcounted.gathered hwf _⟩

/-- The samples behind energies are the DATA words up to the next other word. -/
theorem reads_samples_data (hf : E.evformat = .basic) (hp : Energized D p)
    (hpre : p.pretrigDone = true) (hlen : p.wflenDone = true) {wf : Waveform}
    (hwf : D.waveform = some wf) (xs : Samples) :
    E.scanner.Reads (Within E ec Bs B R H D p) xs.words Closes
      (Within E ec Bs B R H
        { D with waveform := some { wf with sample := wf.sample ++ xs.values } } p) := by
  refine reads_samples hf hwf xs ?_
  rintro s x _ hs ⟨stop, rest, rfl, hstop⟩ hhas
  have hreads : E.Reads s.eventIndex (xs.words ++ [stop]) := by
    have hall := Env.reads_of_has hhas
    rw [show stop :: rest = [stop] ++ rest from rfl, ← List.append_assoc] at hall
    exact (Env.reads_append.1 hall).1
  have hsize : xs.words.length < E.eventSize :=
    Nat.lt_of_le_of_lt (Nat.le_add_left _ _) hhas.right.2.1
  have hgather : ((s.updateBlk x.1).updateFee x.1).restoreCrc.gatherData E E.eventSize =
      some (((s.updateBlk x.1).updateFee x.1).restoreCrc.gathered xs.words) :=
    gatherData_eq_some.2 ⟨_, stop, hsize, hreads, fun _ => xs.le_of_mem, hstop, rfl⟩
  rw [hs.byData hp, waveformByData, if_neg, if_neg, hgather]
  · rfl
  · change ¬ (!s.wflenDone) = true
    rw [hs.wflenDone, hlen]
    simp
  · change ¬ (!s.pretrigDone) = true
    rw [hs.pretrigDone, hpre]
    simp

/-! ## Length and samples without energies -/

theorem Within.byCount (hs : s.Within E ec Bs B R H D p)
    (hty : (D.type.getD .QH1).hasEnergy = false) :
    s.trans08Basic E w = ((s.updateBlk w).updateFee w).waveformByCount E w :=
  trans08Basic_eq_count (by rw [hs.dType, hty])

theorem reads_wflen_count (hf : E.evformat = .basic)
    (hty : (D.type.getD .QH1).hasEnergy = false) (hdone : p.wflenDone = false) (x : Data)
    (N : List Word → Prop) :
    E.scanner.Reads (Within E ec Bs B R H D p) [x.1] N
      (Within E ec Bs B R H D { p with wflenDone := true, rdWflen := x.1 }) := by
  refine reads_turn_one hf x fun s hs => ?_
  have hcounted := hs.shows.counted x.1
  refine ⟨{ (s.updateBlk x.1).updateFee x.1 with rdWflen := x.1, wflenDone := true }, ?_, rfl,
    hcounted.congr_basic hf rfl hcounted.state rfl rfl, hs.energy1Done, hs.energy2Done,
    hs.pretrigDone, rfl, rfl⟩
  rw [hs.byCount hty, waveformByCount, if_pos]
  change (!s.wflenDone) = true
  rw [hs.wflenDone, hdone]
  rfl

theorem reads_samples_count (hf : E.evformat = .basic)
    (hty : (D.type.getD .QH1).hasEnergy = false) (hadc : D.type.getD .QH1 ≠ .ADC)
    (hlen : p.wflenDone = true) {wf : Waveform} (hwf : D.waveform = some wf) (xs : Samples)
    (hcount : p.rdWflen = xs.count.1) (N : List Word → Prop) :
    E.scanner.Reads (Within E ec Bs B R H D p) xs.words N
      (Within E ec Bs B R H
        { D with waveform := some { wf with sample := wf.sample ++ xs.values } } p) := by
  refine reads_samples hf hwf xs fun s x rest hs _ hhas => ?_
  have hdone : ((s.updateBlk x.1).updateFee x.1).wflenDone = true := hs.wflenDone.trans hlen
  have htype : ((s.updateBlk x.1).updateFee x.1).dType ≠ .ADC := by
    rw [(hs.shows.counted x.1).dType]
    exact hadc
  have hgather : ((s.updateBlk x.1).updateFee x.1).restoreCrc.gatherCount E
      ((s.updateBlk x.1).updateFee x.1).rdWflen.toNat =
      some (((s.updateBlk x.1).updateFee x.1).restoreCrc.gathered xs.words) := by
    refine gatherCount_eq_some.2 ⟨_, ?_, (Env.reads_append.1 (Env.reads_of_has hhas)).1, rfl⟩
    change xs.words.length = s.rdWflen.toNat
    rw [hs.rdWflen, hcount, xs.count_toNat, xs.length_words]
  rw [hs.byCount hty, waveformByCount_done hdone, if_neg htype, Option.bind_some, hgather]
  rfl

/-- In ADC data sine and cosine stand before the samples. -/
theorem reads_samples_adc (hf : E.evformat = .basic) (hty : D.type = some .ADC)
    (hlen : p.wflenDone = true) {wf : Waveform} (hwf : D.waveform = some wf) (xs : Samples)
    (hcount : p.rdWflen = xs.count.1) (a₁ a₂ a₃ a₄ a₅ a₆ : Data) (N : List Word → Prop) :
    E.scanner.Reads (Within E ec Bs B R H D p)
      (a₁.1 :: a₂.1 :: a₃.1 :: a₄.1 :: a₅.1 :: a₆.1 :: xs.words) N
      (Within E ec Bs B R H
        { D with
          waveform := some { wf with sample := wf.sample ++ xs.values }
          sine := some (adcOf a₁.1 a₂.1 a₃.1)
          cosine := some (adcOf a₄.1 a₅.1 a₆.1) } p) := by
  refine reads_turn hf a₁ (a₂.1 :: a₃.1 :: a₄.1 :: a₅.1 :: a₆.1 :: xs.words)
    fun s rest hs _ hhas => ?_
  have hreads : E.Reads s.eventIndex ([a₁.1, a₂.1, a₃.1, a₄.1, a₅.1, a₆.1] ++ (xs.words ++ rest)) :=
    Env.reads_of_has hhas
  obtain ⟨hsix, hrest⟩ := Env.reads_append.1 hreads
  let c : Fsm := (((s.updateBlk a₁.1).updateFee a₁.1).restoreCrc)
  let u : Fsm := c.sineCosineRead a₁.1 a₂.1 a₃.1 a₄.1 a₅.1 a₆.1
  have hsine : c.readSineCosine E = some u :=
    readSineCosine_eq_some.2 ⟨_, _, _, _, _, _, hsix, rfl⟩
  have hu : u.Within E ec Bs B R H { D with
      sine := some (adcOf a₁.1 a₂.1 a₃.1), cosine := some (adcOf a₄.1 a₅.1 a₆.1) } p := by
    obtain ⟨bs, b, r, h, d, hat, hsec, _, rfl, rfl, rfl, rfl, rfl⟩ := hs.shows.of_data
    obtain ⟨hset, hsec'⟩ := AtData.sineCosineRead (s := c) hat hsec a₁.1 a₂.1 a₃.1 a₄.1 a₅.1 a₆.1
    refine hs.of_flags ⟨hs.shows.state, hs.shows.tmpEc, hs.shows.ec, hs.shows.trinfo, _,
      .data (.inr hs.shows.state) hset hsec' fun _ htag => ?_, rfl⟩ rfl
    rw [hf] at htag
    cases htag
  have hgather : u.gatherCount E s.rdWflen.toNat = some (u.gathered xs.words) := by
    refine gatherCount_eq_some.2 ⟨_, ?_, (Env.reads_append.1 hrest).1, rfl⟩
    rw [hs.rdWflen, hcount, xs.count_toNat, xs.length_words]
  refine ⟨_, ?_, ?_, hu.gathered hwf xs.words⟩
  · have hdone : ((s.updateBlk a₁.1).updateFee a₁.1).wflenDone = true := hs.wflenDone.trans hlen
    have htype : ((s.updateBlk a₁.1).updateFee a₁.1).dType = .ADC := by
      rw [(hs.shows.counted a₁.1).dType, hty]
      rfl
    rw [hs.byCount (by rw [hty]; rfl), waveformByCount_done hdone, if_pos htype, hsine,
      Option.bind_some]
    exact congrArg (Option.map stepBack) hgather
  · rw [gathered_stepBack_eventIndex]
    change s.eventIndex + 6 + xs.words.length - 1 = s.eventIndex + (xs.words.length + 5)
    omega

/-! ## Sections -/

theorem Within.endsAs {wf : Waveform} (hs : s.Within E ec Bs B R H D p)
    (hwf : D.waveform = some wf) (hlen : p.rdWflen.toNat = wf.sample.length)
    (hen : (D.type.getD .QH1).hasEnergy = true →
      (D.energy.getD {}).value.length = energyCount (D.type.getD .QH1)) :
    s.EndsAs E ec Bs B R H D := by
  refine ⟨hs.shows, fun _ => ⟨?_, hen⟩⟩
  rw [hs.rdWflen, hwf, hlen]
  rfl

theorem reads_behind_energies (hf : E.evformat = .basic) (hp : Energized D p)
    (hpre : p.pretrigDone = false) (hlen : p.wflenDone = false) (hwf : D.waveform = some {})
    (hen : (D.energy.getD {}).value.length = energyCount (D.type.getD .QH1)) (pretrig : Data)
    (xs : Samples) :
    E.scanner.Reads (Within E ec Bs B R H D p) (pretrig.1 :: xs.count.1 :: xs.words) Closes
      (EndsAs E ec Bs B R H { D with waveform := some (BasicBody.waveformOf pretrig xs) }) := by
  have hp₁ : Energized { D with waveform := some { pretrig := some pretrig.1.toUInt32 } }
      { p with pretrigDone := true } := ⟨hp.hasEnergy, hp.energy1Done, hp.energy2Done⟩
  have hp₂ : Energized { D with waveform := some { pretrig := some pretrig.1.toUInt32 } }
      { p with pretrigDone := true, wflenDone := true, rdWflen := xs.count.1 } :=
    ⟨hp.hasEnergy, hp.energy1Done, hp.energy2Done⟩
  refine .cons (reads_pretrig hf hp hpre hwf pretrig _) <|
    .cons (reads_wflen hf hp₁ rfl hlen xs.count _) <|
    (reads_samples_data hf hp₂ rfl rfl rfl xs).consequence (fun _ h => h) fun s hs => ?_
  exact hs.endsAs rfl (BasicBody.count_eq_length pretrig xs) fun _ => hen

theorem reads_energy_once (hf : E.evformat = .basic) (hty : D.type = some .QH1 ∨ D.type = some .Q2)
    (hen : D.energy = some {}) (hwf : D.waveform = some {}) (high low pretrig : Data)
    (xs : Samples) :
    E.scanner.Reads (Shows E ec .s4 (.data Bs B R H D))
      (high.1 :: low.1 :: pretrig.1 :: xs.count.1 :: xs.words) Closes
      (EndsAs E ec Bs B R H { D with
        energy := some { value := [E.numbers.energy high.1 low.1] }
        waveform := some (BasicBody.waveformOf pretrig xs) }) := by
  have henergy : (D.type.getD .QH1).hasEnergy = true := by
    rcases hty with hty | hty <;> rw [hty] <;> rfl
  have hcount : energyCount (D.type.getD .QH1) = 1 := by
    rcases hty with hty | hty <;> rw [hty] <;> rfl
  have honce : D.type.getD .QH1 ≠ .Q3 := by rcases hty with hty | hty <;> rw [hty] <;> decide
  refine .cons (reads_first_energy hf henergy hen high _) (.cons (reads_low hf ?_ rfl low _)
    (reads_behind_energies hf ⟨?_, rfl, fun h => absurd h ?_⟩ rfl rfl ?_ ?_ pretrig xs))
  · exact henergy
  · exact henergy
  · exact honce
  · exact hwf
  · exact hcount.symm

theorem reads_energy_twice (hf : E.evformat = .basic) (hty : D.type = some .Q3)
    (hen : D.energy = some {}) (hwf : D.waveform = some {})
    (high₁ low₁ high₂ low₂ pretrig : Data) (xs : Samples) :
    E.scanner.Reads (Shows E ec .s4 (.data Bs B R H D))
      (high₁.1 :: low₁.1 :: high₂.1 :: low₂.1 :: pretrig.1 :: xs.count.1 :: xs.words) Closes
      (EndsAs E ec Bs B R H { D with
        energy := some
          { value := [E.numbers.energy high₁.1 low₁.1, E.numbers.energy high₂.1 low₂.1] }
        waveform := some (BasicBody.waveformOf pretrig xs) }) := by
  have henergy : (D.type.getD .QH1).hasEnergy = true := by rw [hty]; rfl
  have hcount : energyCount (D.type.getD .QH1) = 2 := by rw [hty]; rfl
  refine .cons (reads_first_energy hf henergy hen high₁ _) (.cons (reads_low hf ?_ rfl low₁ _)
    (.cons (reads_high_second hf ?_ rfl high₂ _) (.cons (reads_low_second hf ?_ rfl low₂ _)
      (reads_behind_energies hf ⟨?_, rfl, fun _ => rfl⟩ rfl rfl ?_ ?_ pretrig xs))))
  · exact henergy
  · exact hty
  · exact hty
  · exact henergy
  · exact hwf
  · exact hcount.symm

/-- The two words behind the DETID word of a section without energies. -/
theorem reads_pretrig_count (hf : E.evformat = .basic)
    (hty : (D.type.getD .QH1).hasEnergy = false) (hwf : D.waveform = some {})
    (pretrig : Data) (xs : Samples) (N : List Word → Prop) :
    E.scanner.Reads (Shows E ec .s4 (.data Bs B R H D)) [pretrig.1, xs.count.1] N
      (Within E ec Bs B R H { D with waveform := some { pretrig := some pretrig.1.toUInt32 } }
        { pretrigDone := true, wflenDone := true, rdWflen := xs.count.1 }) := by
  refine .cons (reads_first_pretrig hf hty hwf pretrig _) (reads_wflen_count hf ?_ rfl xs.count N)
  exact hty

theorem Within.endsAs_count (hs : s.Within E ec Bs B R H D p)
    (hty : (D.type.getD .QH1).hasEnergy = false) {pretrig : Data} {xs : Samples}
    (hwf : D.waveform = some (BasicBody.waveformOf pretrig xs)) (hlen : p.rdWflen = xs.count.1) :
    s.EndsAs E ec Bs B R H D := by
  refine hs.endsAs hwf (hlen ▸ BasicBody.count_eq_length pretrig xs) fun henergy => ?_
  rw [hty] at henergy
  cases henergy

theorem reads_waveform_only (hf : E.evformat = .basic) (hty : (D.type.getD .QH1).hasEnergy = false)
    (hadc : D.type.getD .QH1 ≠ .ADC) (hwf : D.waveform = some {}) (pretrig : Data)
    (xs : Samples) :
    E.scanner.Reads (Shows E ec .s4 (.data Bs B R H D)) (pretrig.1 :: xs.count.1 :: xs.words)
      Closes (EndsAs E ec Bs B R H
        { D with waveform := some (BasicBody.waveformOf pretrig xs) }) := by
  refine (reads_pretrig_count hf hty hwf pretrig xs fun _ => True).append
    ((reads_samples_count hf ?_ ?_ rfl rfl xs rfl Closes).consequence (fun _ h => h)
      fun s hs => hs.endsAs_count hty rfl rfl) fun _ _ => trivial
  · exact hty
  · exact hadc

theorem reads_adc (hf : E.evformat = .basic) (hty : D.type = some .ADC)
    (hwf : D.waveform = some {}) (pretrig a₁ a₂ a₃ a₄ a₅ a₆ : Data) (xs : Samples) :
    E.scanner.Reads (Shows E ec .s4 (.data Bs B R H D))
      (pretrig.1 :: xs.count.1 :: a₁.1 :: a₂.1 :: a₃.1 :: a₄.1 :: a₅.1 :: a₆.1 :: xs.words) Closes
      (EndsAs E ec Bs B R H { D with
        waveform := some (BasicBody.waveformOf pretrig xs)
        sine := some (adcOf a₁.1 a₂.1 a₃.1)
        cosine := some (adcOf a₄.1 a₅.1 a₆.1) }) := by
  have henergy : (D.type.getD .QH1).hasEnergy = false := by rw [hty]; rfl
  refine (reads_pretrig_count hf henergy hwf pretrig xs fun _ => True).append
    ((reads_samples_adc hf ?_ rfl rfl xs rfl a₁ a₂ a₃ a₄ a₅ a₆ Closes).consequence (fun _ h => h)
      fun s hs => hs.endsAs_count henergy rfl rfl) fun _ _ => trivial
  exact hty

/-- The section shapes, each from its DETID word to the word behind it. -/
theorem reads_basicBody (hf : E.evformat = .basic) {ty : FzDataType} (bd : BasicBody ty) :
    E.scanner.Reads (Shows E ec .s4 (.data Bs B R H (freshData .basic ty))) bd.words Closes
      (EndsAs E ec Bs B R H (bd.toData E.numbers)) := by
  cases bd with
  | energy hty high low pretrig xs =>
      rcases hty with rfl | rfl
      · exact reads_energy_once hf (.inl rfl) rfl rfl high low pretrig xs
      · exact reads_energy_once hf (.inr rfl) rfl rfl high low pretrig xs
  | energies high₁ low₁ high₂ low₂ pretrig xs =>
      exact reads_energy_twice hf rfl rfl rfl high₁ low₁ high₂ low₂ pretrig xs
  | waveform hty pretrig xs =>
      rcases hty with rfl | rfl | rfl | rfl
      all_goals exact reads_waveform_only hf rfl (by decide) rfl pretrig xs
  | adc pretrig a₁ a₂ a₃ a₄ a₅ a₆ xs =>
      exact reads_adc hf rfl rfl pretrig a₁ a₂ a₃ a₄ a₅ a₆ xs

end Fsm

/-- The basic format is decoded: what `FMT_BASIC` adds to the common grammar. -/
theorem Wire.basicLayout_decodes : basicLayout.Decodes .basic where
  trigpat _ := ⟨nofun, nofun⟩
  body bd _ _ _ _ _ _ hf := Fsm.reads_basicBody hf bd
  exact _ E h := BasicBody.toData_of_exact E h

namespace Fsm

/-- Any call that ends has built the event as the parser reads the numbers. -/
theorem holds_iff_exact {e : Event basicLayout} {E : Env} {ev : FzEvent}
    (h : ev.content = e.toEvent E.numbers) :
    ev.Holds e ↔ e.EverySection basicLayout.Exact := by
  constructor
  · rintro ⟨N, hN, hev⟩ b hb f hf t ht sec hsec
    have hsame := Event.toEvent_eq_iff.1 (h.symm.trans hev) b hb f hf t ht sec hsec
    exact BasicBody.exact_of_toData hN hsame
  · intro hexact
    refine ⟨E.rightNumbers, E.rightNumbers_right, h.trans (Event.toEvent_eq_iff.2 ?_)⟩
    intro b hb f hf t ht sec hsec
    exact BasicBody.toData_of_exact E (hexact b hb f hf t ht sec hsec)

/-- Decoding undoes encoding in the basic format exactly if every sine and cosine fits in
an `int`. -/
theorem parse_basic_words (e : Event basicLayout) (E : Env) (hf : E.evformat = .basic)
    (hE : E.Delivers e.words) (s : Fsm) :
    (∃ fuel r, s.parse E fuel = .ended r ∧ r.retval = .PARSE_OK ∧ r.ev.Holds e) ↔
      e.EverySection basicLayout.Exact := by
  obtain ⟨fuel, r, hrun, hret, hev⟩ := parse_words basicLayout_decodes e hf hE s
  rw [← holds_iff_exact hev]
  constructor
  · rintro ⟨fuel', r', hrun', -, hholds⟩
    rwa [← parse_unique hrun hrun']
  · exact fun hholds => ⟨fuel, r, hrun, hret, hholds⟩

end Fsm

/-- A telescope with an energy and two samples in one section and no samples in the other,
and one of ADC data with the first word `a` of the sine. -/
def sampleBasicEvent (a : Data) : Event basicLayout where
  ec := (0x123#12).toFin
  first :=
    { fees :=
        [{ first :=
             { spare := (0#6).toFin
               feeid := (2#4).toFin
               telid := (1#1).toFin
               gttag := dataWord 0x11
               dettag := dataWord 0x12
               trigpat := ()
               first :=
                 { dtype := (0#3).toFin
                   detid := (0#2).toFin
                   body := .energy (.inl rfl) (dataWord 1) (dataWord 2) (dataWord 3)
                     ⟨[dataWord 7, dataWord 8], by decide⟩ }
               others :=
                 [{ dtype := (1#3).toFin
                    detid := (0#2).toFin
                    body := .waveform (.inl rfl) (dataWord 3) .empty }] }
           others :=
             [{ spare := (0#6).toFin
                feeid := (15#4).toFin
                telid := (1#1).toFin
                gttag := dataWord 0x11
                dettag := dataWord 0x12
                trigpat := ()
                first :=
                  { dtype := (0#3).toFin
                    detid := (0#2).toFin
                    body := .adc (dataWord 3) a (dataWord 1) (dataWord 0x100) (dataWord 511)
                      (dataWord 0) (dataWord 0) .empty }
                others := [] }]
           length := (0#12).toFin
           crcfe := (0#12).toFin }]
      blkid := (5#11).toFin
      length := (0#12).toFin
      crcbl := (0#12).toFin
      blkid_ne := blkid_five_ne }
  others := []
  regid := (0x42#11).toFin

theorem sampleBasicEvent_exact_iff (a : Data) :
    (sampleBasicEvent a).EverySection basicLayout.Exact ↔ a.1.toNat < 512 := by
  constructor
  · intro h
    exact (h _ (.head _) _ (.head _) _ (.tail _ (.head _)) _ (.head _)).1
  · intro ha b hb f hf t ht sec hsec
    obtain rfl := List.mem_singleton.1 hb
    obtain rfl := List.mem_singleton.1 hf
    rcases List.mem_pair.1 ht with rfl | rfl
    · rcases List.mem_pair.1 hsec with rfl | rfl <;> trivial
    · obtain rfl := List.mem_singleton.1 hsec
      exact ⟨ha, by decide⟩

/-- `parse_basic_words` at the highest first words that fit. -/
theorem Fsm.parse_basic_words_sample : ∃ fuel r,
    ({} : Fsm).parse (.ofWords .basic (sampleBasicEvent (dataWord 511)).words) fuel = .ended r ∧
      r.retval = .PARSE_OK ∧ r.ev.Holds (sampleBasicEvent (dataWord 511)) :=
  (Fsm.parse_basic_words (sampleBasicEvent (dataWord 511)) _ rfl (Env.ofWords_delivers _ _) {}).2
    ((sampleBasicEvent_exact_iff _).2 (by decide))

/-- The sine 2147483777 is stored as a negative number. -/
theorem Fsm.wideAdc_not_holds : adcValue 512 1 0x100 = 2147483777 ∧
    (adcOf 512 1 0x100).toInt = -139586436991 ∧ ¬∃ fuel r,
      ({} : Fsm).parse (.ofWords .basic (sampleBasicEvent (dataWord 512)).words) fuel = .ended r ∧
        r.retval = .PARSE_OK ∧ r.ev.Holds (sampleBasicEvent (dataWord 512)) := by
  refine ⟨by decide, by decide, ?_⟩
  rintro ⟨fuel, r, hrun, -, hholds⟩
  obtain ⟨fuel', r', hrun', -, hev⟩ := parse_words basicLayout_decodes
    (sampleBasicEvent (dataWord 512)) (E := .ofWords .basic _) rfl (Env.ofWords_delivers _ _) {}
  rw [parse_unique hrun' hrun] at hholds
  have hfits := (sampleBasicEvent_exact_iff _).1 ((holds_iff_exact hev).1 hholds)
  exact absurd hfits (by decide)

end FzDaq.Parser
