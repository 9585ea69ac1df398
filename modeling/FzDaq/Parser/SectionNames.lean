import FzDaq.Parser.Fields
import FzDaq.Parser.Required
import FzDaq.Parser.Samples

/-!
# Names of hits and of trigger infos

A name is looked up by a number that the data gave: a counter of a TAG_RB_COUNTERS record, the
low byte of the id of a trigger info, and the FEEID, TELID, detector and type of a hit, when a
message says that its section has a wrong length. TELID and FEEID pass a range check on their
way into the hit and the type is one of the declared ones; the detector has three bits in the
word and four names.
-/

namespace FzDaq.Parser

open Machine

theorem checkFeeid_lt (n : Word) : checkFeeid n < 17 := by
  unfold checkFeeid
  split
  · decide
  · rename_i hrange
    simp [FzFec.FEC0, FzFec.ADCF] at hrange
    exact Nat.lt_succ_of_le (Nat.le_succ_of_le hrange)

theorem checkTelid_lt (n : Word) : checkTelid n < 3 := by
  have hle : checkTelid n ≤ FzTelescope.UNKT := of_decide_eq_true (checkTelid_isValid n)
  exact Nat.lt_succ_of_le hle

theorem FzDataType.index_lt (t : FzDataType) : t.index < 8 := by cases t <;> decide

/-- FEEID and TELID of the hit have names. -/
structure FzHit.Named (h : FzHit) : Prop where
  feeid : h.feeid.getD 0 < 17
  telid : h.telid.getD 0 < 3

/-- The number of the detector of the hit at the cursor. -/
def Fsm.detid (s : Fsm) : Nat := (s.ev.getHit s.hit).detid.getD 0

/-- A property of hits that does not look at the data is read as before, through any pointer. -/
theorem FzEvent.getHit_modData_proj {β : Type} (π : FzHit → β)
    (hπ : ∀ h x, π { h with data := x } = π h) (e : FzEvent) (p : DataPtr) (q : HitPtr)
    (f : FzData → FzData) : π ((e.modData p f).getHit q) = π (e.getHit q) := by
  have hfee (r : FzFee) := getD_modify_proj π
    (f := fun h => { h with data := h.data.modify p.data f }) (fun h => hπ h _) r.hit p.hit q.hit {}
  have hblk (b : FzBlock) := getD_modify_proj
    (f := fun r => { r with hit := r.hit.modify p.hit fun h =>
      { h with data := h.data.modify p.data f } })
    (fun r : FzFee => π (r.hit[q.hit]?.getD {})) hfee b.fee p.fee q.fee {}
  exact getD_modify_proj (fun b : FzBlock => π ((b.fee[q.fee]?.getD {}).hit[q.hit]?.getD {})) hblk
    e.block p.blk q.blk {}

namespace Fsm

variable {E : Env} {s t u c d : Fsm} {w : Word} {tr : Trans} {bs : List FzBlock} {b : FzBlock}
  {r : FzFee} {h : FzHit} {D : FzData} {ch : Chunk}

/-! ## The names in a message -/

theorem logNames_guardNames (hn : (s.ev.getHit s.hit).Named) :
    s.logNames E.guardNames = if s.detid < 4 then some () else none := by
  have hname (t : Table) (k : Nat) (hk : k < t.entries.length) :
      ∃ name, E.guardNames.str t k = some name := by
    rw [Env.str_guardNames, List.getElem?_eq_getElem hk]
    exact ⟨_, rfl⟩
  obtain ⟨_, hfec⟩ := hname .fec _ hn.feeid
  obtain ⟨_, htel⟩ := hname .telescope _ hn.telid
  obtain ⟨_, htype⟩ := hname .dataType _ s.dType.index_lt
  split
  · rename_i hdet
    obtain ⟨_, hdet⟩ := hname .detector _ hdet
    unfold detid at hdet
    simp [logNames, hfec, htel, hdet, htype]
  · rename_i hdet
    have hnone : E.guardNames.str .detector ((s.ev.getHit s.hit).detid.getD 0) = none := by
      rw [Env.str_guardNames, List.getElem?_eq_none (Nat.le_of_not_lt hdet)]
    simp [logNames, hfec, htel, hnone]

theorem verifyWaveform_guardNames (hp : E.PastTotal) (hn : (s.ev.getHit s.hit).Named) :
    s.verifyWaveform E.guardNames =
      if s.rdWflen.toNat ≠ s.curWaveform.sample.length ∧ 4 ≤ s.detid then none
      else s.verifyWaveform E := by
  unfold verifyWaveform
  rw [logNames_guardNames hn, logNames_total hp]
  by_cases hlen : s.rdWflen.toNat = s.curWaveform.sample.length
  · simp [hlen]
  · by_cases hdet : s.detid < 4
    · simp [hlen, hdet]
    · simp [hlen, hdet, Nat.le_of_not_lt hdet]

theorem verifyEnergyLen_guardNames (hp : E.PastTotal) (hn : (s.ev.getHit s.hit).Named) (n : Nat) :
    s.verifyEnergyLen E.guardNames n =
      if s.curEnergy.value.length ≠ n ∧ 4 ≤ s.detid then none else s.verifyEnergyLen E n := by
  unfold verifyEnergyLen
  rw [logNames_guardNames hn, logNames_total hp]
  by_cases hlen : s.curEnergy.value.length = n
  · simp [hlen]
  · by_cases hdet : s.detid < 4
    · simp [hlen, hdet]
    · simp [hlen, hdet, Nat.le_of_not_lt hdet]

theorem verifyEnergy_guardNames (hp : E.PastTotal) (hn : (s.ev.getHit s.hit).Named) :
    s.verifyEnergy E.guardNames =
      if (s.dType.hasEnergy = true ∧ s.curEnergy.value.length ≠ energyCount s.dType) ∧ 4 ≤ s.detid
      then none else s.verifyEnergy E := by
  unfold verifyEnergy
  cases hd : s.dType <;>
    simp [verifyEnergyLen_guardNames hp hn, FzDataType.hasEnergy, energyCount]

/-! ## The ends of sections -/

/-- A check at the end of a section of the basic format finds a wrong length. -/
def lengthsDiffer (s : Fsm) : Bool :=
  s.rdWflen.toNat != s.curWaveform.sample.length ||
    s.dType.hasEnergy && s.curEnergy.value.length != energyCount s.dType

/-- Both checks. -/
def verifySection (E : Env) (s : Fsm) : Option Fsm :=
  (s.verifyWaveform E).bind fun u => u.verifyEnergy E

theorem onWf_kept (s : Fsm) (f : Waveform → Waveform) :
    (s.onWf f).dType = s.dType ∧ (s.onWf f).curEnergy = s.curEnergy ∧
      (s.onWf f).detid = s.detid ∧
      ((s.ev.getHit s.hit).Named → ((s.onWf f).ev.getHit s.hit).Named) := by
  have hdata {β : Type} (π : FzData → β) (hπ : ∀ D x, π { D with waveform := x } = π D)
      (q : DataPtr) : π ((s.onWf f).ev.getData q) = π (s.ev.getData q) :=
    FzEvent.getData_modData_proj π s.ev s.wf q fun D => hπ D _
  have hhit {β : Type} (π : FzHit → β) (hπ : ∀ h x, π { h with data := x } = π h) :
      π ((s.onWf f).ev.getHit s.hit) = π (s.ev.getHit s.hit) :=
    FzEvent.getHit_modData_proj π hπ s.ev s.wf s.hit _
  refine ⟨hdata (fun D => D.type.getD .QH1) (fun _ _ => rfl) s.d,
    hdata (fun D => D.energy.getD {}) (fun _ _ => rfl) s.en,
    hhit (fun h => h.detid.getD 0) fun _ _ => rfl, fun hn => ⟨?_, ?_⟩⟩
  · rw [hhit (fun h => h.feeid) fun _ _ => rfl]
    exact hn.feeid
  · rw [hhit (fun h => h.telid) fun _ _ => rfl]
    exact hn.telid

theorem verifyWaveform_kept (hu : s.verifyWaveform E = some u) :
    u.dType = s.dType ∧ u.curEnergy = s.curEnergy ∧ u.detid = s.detid ∧
      ((s.ev.getHit s.hit).Named → (u.ev.getHit u.hit).Named) := by
  obtain ⟨bad, _, rfl⟩ := verifyWaveform_eq_some hu
  exact onWf_kept s _

theorem verifySection_guardNames (hp : E.PastTotal) (hn : (s.ev.getHit s.hit).Named) :
    s.verifySection E.guardNames =
      if s.lengthsDiffer = true ∧ 4 ≤ s.detid then none else s.verifySection E := by
  unfold verifySection
  rw [verifyWaveform_guardNames hp hn]
  by_cases hwf : s.rdWflen.toNat ≠ s.curWaveform.sample.length ∧ 4 ≤ s.detid
  · have hbad : s.lengthsDiffer = true := by simp [lengthsDiffer, hwf.1]
    rw [if_pos hwf, if_pos ⟨hbad, hwf.2⟩]
    rfl
  · have henergy : ((s.verifyWaveform E).bind fun u => u.verifyEnergy E.guardNames) =
        (s.verifyWaveform E).bind fun u =>
          if (s.dType.hasEnergy = true ∧ s.curEnergy.value.length ≠ energyCount s.dType) ∧
            4 ≤ s.detid then none else u.verifyEnergy E := by
      refine Option.bind_congr fun u hu => ?_
      obtain ⟨htype, hen, hdet, hnamed⟩ := verifyWaveform_kept hu
      rw [verifyEnergy_guardNames hp (hnamed hn), htype, hen, hdet]
    rw [if_neg hwf, henergy]
    by_cases hbad : s.lengthsDiffer = true ∧ 4 ≤ s.detid
    · have hdiff := hbad.1
      rw [lengthsDiffer, Bool.or_eq_true, bne_iff_ne] at hdiff
      have hdiff := hdiff.resolve_left fun hwave => hwf ⟨hwave, hbad.2⟩
      rw [Bool.and_eq_true, bne_iff_ne] at hdiff
      rw [if_pos hbad]
      simp [hdiff, hbad.2]
    · have hgood : ¬ ((s.dType.hasEnergy = true ∧
          s.curEnergy.value.length ≠ energyCount s.dType) ∧ 4 ≤ s.detid) := by
        rintro ⟨⟨htype, hlen⟩, hdet⟩
        exact hbad ⟨by simp [lengthsDiffer, htype, hlen], hdet⟩
      rw [if_neg hbad]
      simp only [if_neg hgood]

theorem trans09Basic_eq (E : Env) (s : Fsm) (w : Word) :
    s.trans09Basic E w = (((s.updateBlk w).updateFee w).verifySection E).map fun v =>
      (v.addHit
        { ec := some (v.ev.ec.getD 0)
          gttag := some ((v.ev.getHit v.hit).gttag.getD 0)
          dettag := some ((v.ev.getHit v.hit).dettag.getD 0)
          detid := some (detidOf w).toNat
          telid := some (checkTelid (telidOf w))
          feeid := some (checkFeeid (feeidOf w)) }).startSection E w true := by
  unfold trans09Basic verifySection
  dsimp only
  cases ((s.updateBlk w).updateFee w).verifyWaveform E with
  | none => rfl
  | some u => cases hu : u.verifyEnergy E <;> simp [hu]

theorem trans10Basic_eq (E : Env) (s : Fsm) (w : Word) :
    s.trans10Basic E w =
      (((s.updateBlk w).updateFee w).verifySection E).map fun v => v.startTelescope w := by
  unfold trans10Basic verifySection
  dsimp only
  cases ((s.updateBlk w).updateFee w).verifyWaveform E with
  | none => rfl
  | some u => cases hu : u.verifyEnergy E <;> simp [hu]

theorem fire_end_guardNames (hp : E.PastTotal) (hf : E.evformat = .basic)
    (hn : (s.ev.getHit s.hit).Named) (htr : tr ∈ [.t09, .t10, .t11]) (w : Word) :
    s.fire E.guardNames tr w =
      if s.lengthsDiffer = true ∧ 4 ≤ s.detid then none else s.fire E tr w := by
  have hf' : E.guardNames.evformat = .basic := hf
  have hcount := verifySection_guardNames (s := (s.updateBlk w).updateFee w) hp hn
  have hlength :=
    verifySection_guardNames (s := { s with rdFeelen := lengthOf w }.updateBlk w) hp hn
  simp only [List.mem_cons, List.not_mem_nil, or_false] at htr
  rcases htr with rfl | rfl | rfl
  · simp only [fire, hf, hf', trans09Basic_eq, hcount]
    change Option.map _ (Option.map _ (if s.lengthsDiffer = true ∧ 4 ≤ s.detid then _ else _)) = _
    split <;> rfl
  · simp only [fire, hf, hf', trans10Basic_eq, hcount]
    change Option.map _ (Option.map _ (if s.lengthsDiffer = true ∧ 4 ≤ s.detid then _ else _)) = _
    split <;> rfl
  · simp only [fire, hf, hf']
    change Option.map _ (({ s with rdFeelen := lengthOf w }.updateBlk w).verifySection _) = _
    rw [hlength]
    change Option.map _ (if s.lengthsDiffer = true ∧ 4 ≤ s.detid then _ else _) = _
    split <;> rfl

/-! ## Records -/

/-- There are names for seventeen counters. -/
theorem readCounters_guardNames {i n : Nat} (hi : i ≤ 17) (s : Fsm) :
    s.readCounters E.guardNames i n = if 17 < i + n then none else s.readCounters E i n := by
  have hlen : Table.triggerInfoBasic.entries.length = 17 := rfl
  induction n generalizing s i with
  | zero => rw [if_neg (by omega), readCounters, readCounters]
  | succ n ih =>
      rw [readCounters, readCounters, Env.str_guardNames]
      by_cases hlast : i = 17
      · rw [if_pos (by omega), List.getElem?_eq_none (by omega)]
        rfl
      · have hin : i < Table.triggerInfoBasic.entries.length := by omega
        have hstr : E.str .triggerInfoBasic i = some Table.triggerInfoBasic.entries[i] := by
          rw [Env.str, List.getElem?_eq_getElem hin]
        rw [List.getElem?_eq_getElem hin, hstr]
        simp only [Option.bind_eq_bind, Option.bind_some]
        have hword : E.guardNames.event = E.event := rfl
        rw [hword]
        cases E.event s.eventIndex with
        | none => simp
        | some w =>
            simp only [Option.bind_some, nextEventWord_congr hword]
            by_cases hn : n = 0
            · rw [if_pos hn, if_pos hn, if_neg (by omega)]
            · rw [if_neg hn, if_neg hn, show i + (n + 1) = i + 1 + n by omega]
              simp only [ih (show i + 1 ≤ 17 by omega)]
              split
              · cases (s.addTrinfo _).nextEventWord E <;> rfl
              · rfl

theorem readRecord_guardNames (s : Fsm) (w : Word) :
    s.readRecord E.guardNames w =
      if s.tag = TAG_RB_COUNTERS ∧ 17 < s.rdWflen.toNat then none else s.readRecord E w := by
  have hword : E.guardNames.event = E.event := rfl
  by_cases hcounters : s.tag = TAG_RB_COUNTERS
  · have hread (F : Env) : s.readRecord F w = s.readCounters F 0 s.rdWflen.toNat := by
      rw [readRecord, hcounters]
      rfl
    rw [hread, hread, readCounters_guardNames (Nat.zero_le _), Nat.zero_add]
    simp only [hcounters, true_and]
  · rw [if_neg fun hboth => hcounters hboth.1]
    simp only [readRecord, if_neg hcounters, gatherTag_congr hword]
    rfl

/-- The samples of a waveform record are added to those that are there. -/
theorem AtData.samples_readRecord (ha : s.AtData bs b r h D) (hsec : s.Section E D)
    (htag : Tagged s.toFlags D) (hdone : s.tagDone = true) (hwav : s.tag = TAG_WAVEFORM)
    (hw : E.event s.eventIndex = some w) (hu : s.readRecord E w = some u) :
    u.curWaveform.sample.length = s.curWaveform.sample.length + s.rdWflen.toNat ∧
      u.rdWflen = s.rdWflen ∧ u.detid = s.detid ∧
      ((s.ev.getHit s.hit).Named → (u.ev.getHit u.hit).Named) := by
  obtain ⟨wf, hwf⟩ := Option.isSome_iff_exists.1 ((htag hdone).1 (.inr hwav))
  have hshape : D.shape = some (wf.lenError, wf.sample) := by
    rw [FzData.shape, hwf]
    rfl
  obtain ⟨d', ws, hat', hsec', hlen, _, hshape', hrd⟩ :=
    ha.readRecord_samples hsec hshape hwav hw hu
  rw [hat'.sample hsec' hshape', ha.sample hsec hshape, List.length_append, List.length_map, hlen,
    detid, detid, hat'.1.getHit, ha.1.getHit]
  exact ⟨rfl, hrd, rfl, fun hn => ⟨hn.feeid, hn.telid⟩⟩

/-- The check of a waveform behind its record needs a name if there were samples before. -/
theorem AtData.endWaveform_guardNames (hp : E.PastTotal) (ha : s.AtData bs b r h D)
    (hsec : s.Section E D) (htag : Tagged s.toFlags D) (hn : (s.ev.getHit s.hit).Named)
    (hdone : s.tagDone = true) (hw : E.event s.eventIndex = some w) :
    ((((s.updateBlk w).updateFee w).readRecord E w).bind fun u =>
        if u.tag = TAG_WAVEFORM then u.verifyWaveform E.guardNames else some u) =
      (((s.updateBlk w).updateFee w).readRecord E w).bind fun u =>
        if s.tag = TAG_WAVEFORM ∧ s.curWaveform.sample ≠ [] ∧ 4 ≤ s.detid then none
        else if u.tag = TAG_WAVEFORM then u.verifyWaveform E else some u := by
  let c := (s.updateBlk w).updateFee w
  refine Option.bind_congr fun u hu => ?_
  have hutag : u.tag = s.tag := congrArg Flags.tag (readRecord_frame (s := c) hw hu).2
  rw [hutag]
  by_cases hwav : s.tag = TAG_WAVEFORM
  · obtain ⟨hcount, hrd, hdet, hnamed⟩ :=
      AtData.samples_readRecord (s := c) ha hsec htag hdone hwav hw hu
    have hold : c.curWaveform.sample = s.curWaveform.sample := rfl
    have hdiff : u.rdWflen.toNat ≠ u.curWaveform.sample.length ↔ s.curWaveform.sample ≠ [] := by
      rw [hcount, hrd, hold, ← List.length_pos_iff]
      change s.rdWflen.toNat ≠ _ + s.rdWflen.toNat ↔ _
      omega
    have hdet : u.detid = s.detid := hdet
    rw [if_pos hwav, if_pos hwav, verifyWaveform_guardNames hp (hnamed hn)]
    simp only [hdiff, hdet, hwav, true_and]
  · rw [if_neg hwav, if_neg hwav, if_neg fun hall => hwav hall.1]

theorem AtData.trans08Tag_guardNames (hp : E.PastTotal) (ha : s.AtData bs b r h D)
    (hsec : s.Section E D) (htag : Tagged s.toFlags D) (hn : (s.ev.getHit s.hit).Named)
    (hw : E.event s.eventIndex = some w) :
    s.trans08Tag E.guardNames w =
      if s.tagDone = true ∧ s.wflenDone = true ∧
        (s.tag = TAG_RB_COUNTERS ∧ 17 < s.rdWflen.toNat ∨
          s.tag = TAG_WAVEFORM ∧ s.curWaveform.sample ≠ [] ∧ 4 ≤ s.detid) then none
      else s.trans08Tag E w := by
  rw [trans08Tag_eq, trans08Tag_eq]
  cases hdone : s.tagDone with
  | false => simp
  | true =>
      cases hlen : s.wflenDone with
      | false => simp
      | true =>
          let c := (s.updateBlk w).updateFee w
          have hread : c.readRecord E.guardNames w = if s.tag = TAG_RB_COUNTERS ∧
            17 < s.rdWflen.toNat then none else c.readRecord E w := readRecord_guardNames c w
          have hcheck : ((c.readRecord E w).bind fun u =>
              if u.tag = TAG_WAVEFORM then u.verifyWaveform E.guardNames else some u) =
              (c.readRecord E w).bind fun u =>
                if s.tag = TAG_WAVEFORM ∧ s.curWaveform.sample ≠ [] ∧ 4 ≤ s.detid then none
                else if u.tag = TAG_WAVEFORM then u.verifyWaveform E else some u :=
            ha.endWaveform_guardNames hp hsec htag hn hdone hw
          let close (v : Fsm) : Option Fsm :=
            some { v with tagDone := false, wflenDone := false, rdWflen := 0 }
          change ((c.readRecord E.guardNames w).bind fun u =>
              (if u.tag = TAG_WAVEFORM then u.verifyWaveform E.guardNames else some u).bind close) =
            if true = true ∧ true = true ∧ _ then none
            else (c.readRecord E w).bind fun u =>
              (if u.tag = TAG_WAVEFORM then u.verifyWaveform E else some u).bind close
          rw [hread, ← Option.bind_assoc, ← Option.bind_assoc]
          by_cases hmany : s.tag = TAG_RB_COUNTERS ∧ 17 < s.rdWflen.toNat
          · rw [if_pos hmany, if_pos ⟨rfl, rfl, .inl hmany⟩]
            rfl
          · rw [if_neg hmany, hcheck]
            by_cases hwav : s.tag = TAG_WAVEFORM ∧ s.curWaveform.sample ≠ [] ∧ 4 ≤ s.detid
            · rw [if_pos ⟨rfl, rfl, .inr hwav⟩]
              simp [hwav]
            · rw [if_neg fun hall => hall.2.2.elim hmany hwav]
              simp only [if_neg hwav]

end Fsm

end FzDaq.Parser
