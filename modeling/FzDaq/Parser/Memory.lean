import FzDaq.Parser.Faults

/-!
# Reads from outside of a field

`en->value(k)` and `wf.sample(k)` are not checked against the size of the field,
nor are the name tables. A value from behind the end of an energy is written
back to where it came from, a name goes into a log message: only the trigger
infos show what was found there.
-/

namespace FzDaq.Parser

open Machine

/-! ## Updates behind a pointer -/

theorem modify_congr_getD {α : Type} (l : List α) (i : Nat) (x : α) {f g : α → α}
    (h : f (l[i]?.getD x) = g (l[i]?.getD x)) : l.modify i f = l.modify i g := by
  apply List.ext_getElem?
  intro k
  rw [List.getElem?_modify, List.getElem?_modify]
  split
  · rename_i hik
    subst hik
    cases hx : l[i]? with
    | none => rfl
    | some y =>
        rw [hx, Option.getD_some] at h
        simp [h]
  · rfl

theorem getD_modify_proj {α β : Type} (π : α → β) {f : α → α} (hf : ∀ x, π (f x) = π x)
    (l : List α) (i k : Nat) (x : α) : π ((l.modify i f)[k]?.getD x) = π (l[k]?.getD x) := by
  rw [List.getElem?_modify]
  cases l[k]? with
  | none => rfl
  | some y =>
      split
      · exact hf y
      · rfl

namespace FzEvent

theorem modData_congr (e : FzEvent) (p : DataPtr) {f g : FzData → FzData}
    (h : f (e.getData p) = g (e.getData p)) : e.modData p f = e.modData p g := by
  have hdata := modify_congr_getD (e.getHit ⟨p.blk, p.fee, p.hit⟩).data p.data {} h
  have hhit := modify_congr_getD (e.getFee ⟨p.blk, p.fee⟩).hit p.hit {}
    (f := fun h => { h with data := h.data.modify p.data f })
    (g := fun h => { h with data := h.data.modify p.data g })
    (congrArg (fun ds => { e.getHit ⟨p.blk, p.fee, p.hit⟩ with data := ds }) hdata)
  have hfee := modify_congr_getD (e.getBlk p.blk).fee p.fee {}
    (f := fun r => { r with hit := r.hit.modify p.hit fun h =>
      { h with data := h.data.modify p.data f } })
    (g := fun r => { r with hit := r.hit.modify p.hit fun h =>
      { h with data := h.data.modify p.data g } })
    (congrArg (fun hs => { e.getFee ⟨p.blk, p.fee⟩ with hit := hs }) hhit)
  have hblk := modify_congr_getD e.block p.blk {}
    (f := fun b => { b with fee := b.fee.modify p.fee fun r =>
      { r with hit := r.hit.modify p.hit fun h => { h with data := h.data.modify p.data f } } })
    (g := fun b => { b with fee := b.fee.modify p.fee fun r =>
      { r with hit := r.hit.modify p.hit fun h => { h with data := h.data.modify p.data g } } })
    (congrArg (fun rs => { e.getBlk p.blk with fee := rs }) hfee)
  exact congrArg (fun bs => { e with block := bs }) hblk

/-- A property of data messages that an update keeps is read as before, through any pointer. -/
theorem getData_modData_proj {β : Type} (π : FzData → β) (e : FzEvent) (p q : DataPtr)
    {f : FzData → FzData} (hf : ∀ d, π (f d) = π d) :
    π ((e.modData p f).getData q) = π (e.getData q) := by
  have hhit (h : FzHit) :
      π (({ h with data := h.data.modify p.data f } : FzHit).data[q.data]?.getD {}) =
        π (h.data[q.data]?.getD {}) := getD_modify_proj π hf ..
  have hfee (r : FzFee) := getD_modify_proj (fun h : FzHit => π (h.data[q.data]?.getD {})) hhit
    r.hit p.hit q.hit {}
  have hblk (b : FzBlock) := getD_modify_proj
    (f := fun r => { r with hit := r.hit.modify p.hit fun h =>
      { h with data := h.data.modify p.data f } })
    (fun r : FzFee => π ((r.hit[q.hit]?.getD {}).data[q.data]?.getD {})) hfee b.fee p.fee q.fee {}
  exact getD_modify_proj
    (fun b : FzBlock => π (((b.fee[q.fee]?.getD {}).hit[q.hit]?.getD {}).data[q.data]?.getD {}))
    hblk e.block p.blk q.blk {}

end FzEvent

/-! ## Environments -/

/-- `E'` has the format and the name tables of `E`, and room for as many words. What
repeated fields read as behind their ends may be something else. -/
structure Env.Akin (E E' : Env) : Prop where
  evformat : E'.evformat = E.evformat
  eventSize : E.eventSize ≤ E'.eventSize
  pastStr : E'.pastStr = E.pastStr
  pastRange : E'.pastRange = E.pastRange
  past : E'.PastTotal

theorem Env.Akin.scaleEnergy {E E' : Env} (h : E.Akin E') : E'.scaleEnergy = E.scaleEnergy := by
  unfold Env.scaleEnergy
  rw [h.pastRange]

theorem Env.Akin.str {E E' : Env} (h : E.Akin E') (tb : Table) (k : Nat) :
    E'.str tb k = E.str tb k := by
  unfold Env.str
  rw [h.pastStr]

namespace Fsm

variable {E E' : Env} {s t u : Fsm} {w : Word} {tr : Trans}

/-- A value read from behind the end of the field is lost when it is written back. -/
theorem modValue_akin (h : E.Akin E') {k : Nat} {f : UInt32 → UInt32}
    (hs : s.modValue E k f = some t) : s.modValue E' k f = some t := by
  have hval (F : Env) : s.modValue F k f = (F.valueAt s.curEnergy k).map fun v =>
      s.onEn fun en => { en with value := en.value.set k (f v) } := by
    rw [modValue, Option.map_eq_bind]
    rfl
  rw [hval] at hs ⊢
  cases hk : s.curEnergy.value[k]? with
  | some v =>
      have hv (F : Env) : F.valueAt s.curEnergy k = some v := by rw [Env.valueAt, hk]
      rwa [hv] at hs ⊢
  | none =>
      obtain ⟨v, _, rfl⟩ := Option.map_eq_some_iff.1 hs
      obtain ⟨x, hx⟩ := h.past.valueAt s.curEnergy k
      rw [hx, Option.map_some, Option.some.injEq]
      have hnoop (y : UInt32) : s.curEnergy.value.set k y = s.curEnergy.value :=
        List.set_eq_of_length_le (List.getElem?_eq_none_iff.1 hk)
      have hev := s.ev.modData_congr s.en
        (f := fun d => { d with energy := d.energy.map fun en =>
          { en with value := en.value.set k (f x) } })
        (g := fun d => { d with energy := d.energy.map fun en =>
          { en with value := en.value.set k (f v) } }) (by
            have hcur : s.curEnergy = (s.ev.getData s.en).energy.getD {} := rfl
            cases hen : (s.ev.getData s.en).energy with
            | none => simp
            | some en =>
                rw [hcur, hen, Option.getD_some] at hnoop
                simp [hnoop])
      exact congrArg (fun e => { s with ev := e }) hev

theorem verifyWaveform_akin (h : E.Akin E') (hs : s.verifyWaveform E = some t) :
    s.verifyWaveform E' = some t := by
  unfold verifyWaveform at hs ⊢
  split at hs
  · rename_i hlen
    rwa [if_pos hlen]
  · rename_i hlen
    rw [if_neg hlen, logNames_total h.past]
    obtain ⟨_, _, hs⟩ := Option.bind_eq_some_iff.1 hs
    exact hs

theorem verifyEnergyLen_akin (h : E.Akin E') {n : Nat} (hs : s.verifyEnergyLen E n = some t) :
    s.verifyEnergyLen E' n = some t := by
  unfold verifyEnergyLen at hs ⊢
  split at hs
  · rename_i hlen
    rwa [if_pos hlen]
  · rename_i hlen
    rw [if_neg hlen, logNames_total h.past]
    obtain ⟨_, _, hs⟩ := Option.bind_eq_some_iff.1 hs
    exact hs

theorem verifyEnergy_akin (h : E.Akin E') (hs : s.verifyEnergy E = some t) :
    s.verifyEnergy E' = some t := by
  unfold verifyEnergy at hs ⊢
  cases hd : s.dType <;> simp only [hd] at hs ⊢ <;>
    first
    | exact verifyEnergyLen_akin h hs
    | exact hs

/-- The waveform in which a block carries its trigger infos. -/
def triggerWaveform (blk : FzBlock) : Waveform :=
  let fee : FzFee := blk.fee[0]?.getD ({} : FzFee)
  let hit : FzHit := fee.hit[0]?.getD ({} : FzHit)
  let data : FzData := hit.data[0]?.getD ({} : FzData)
  data.waveform.getD {}

/-- The CRCBL word `w` ends a block of trigger infos whose samples cannot be taken in
threes: the last of them is read from behind the end. -/
def ragged (E : Env) (s : Fsm) (w : Word) : Bool :=
  E.evformat == .basic && (s.ev.getBlk s.blk).blkid.getD 0 == 0x7FF &&
    crcblOf w == crcFold s.blkcrc &&
    (triggerWaveform (s.ev.getBlk s.blk)).sample.length % 3 != 0

/-- The samples of a waveform that are read in threes are found alike. -/
def SameSamples (E E' : Env) (wf : Waveform) : Prop :=
  wf.sample.length % 3 = 0 ∨ E'.pastSample = E.pastSample

theorem triggerInfo_akin (h : E.Akin E') {hit : FzHit} {wf : Waveform} {i : Nat}
    (hi : i + 2 < wf.sample.length ∨ E'.pastSample = E.pastSample) :
    triggerInfo E' hit wf i = triggerInfo E hit wf i := by
  have hsample (k : Nat) (hk : k ≤ i + 2) : E'.sampleAt wf k = E.sampleAt wf k := by
    unfold Env.sampleAt
    rcases hi with hi | hi
    · rw [List.getElem?_eq_getElem (by omega)]
    · rw [hi]
  unfold triggerInfo
  rw [hsample i (by omega), hsample (i + 1) (by omega), hsample (i + 2) (Nat.le_refl _)]
  simp only [Env.Akin.str h]

theorem triggerInfos_akin (h : E.Akin E') {hit : FzHit} {wf : Waveform} {i left : Nat}
    (hi : i + 3 * left ≤ wf.sample.length ∨ E'.pastSample = E.pastSample) :
    s.triggerInfos E' hit wf i left = s.triggerInfos E hit wf i left := by
  induction left generalizing s i with
  | zero => rfl
  | succ left ih =>
      simp only [triggerInfos,
        triggerInfo_akin h (hi.imp_left fun hi => show i + 2 < wf.sample.length by omega)]
      congr 1
      funext tri
      exact ih (hi.imp_left fun hi => by omega)

theorem endTriggerBlk_akin (h : E.Akin E')
    (hs : E.evformat = .basic → SameSamples E E' (triggerWaveform (s.ev.getBlk s.blk))) :
    s.endTriggerBlk E' = s.endTriggerBlk E := by
  unfold endTriggerBlk readTriggerinfo
  rw [h.evformat]
  cases hf : E.evformat with
  | tag => rfl
  | basic =>
      dsimp only
      rw [triggerInfos_akin h ((hs hf).imp_left fun hthree => ?_)]
      change (triggerWaveform (s.ev.getBlk s.blk)).sample.length % 3 = 0 at hthree
      change 0 + 3 * (((triggerWaveform (s.ev.getBlk s.blk)).sample.length + 2) / 3) ≤
        (triggerWaveform (s.ev.getBlk s.blk)).sample.length
      omega

theorem trans16_akin (h : E.Akin E') (hs : s.ragged E w = false ∨ E'.pastSample = E.pastSample) :
    s.trans16 E' w = s.trans16 E w := by
  -- The flags that are set on the block before it is read do not change its samples.
  have hread (v : Fsm) (hcrc : crcblOf w = crcFold s.blkcrc)
      (hid : (v.ev.getBlk v.blk).blkid = (s.ev.getBlk s.blk).blkid)
      (hwf : triggerWaveform (v.ev.getBlk v.blk) = triggerWaveform (s.ev.getBlk s.blk))
      (hblk : (v.ev.getBlk v.blk).blkid.getD 0 = 0x7FF) :
      v.endTriggerBlk E' = v.endTriggerBlk E := by
    refine endTriggerBlk_akin h fun hf => hs.imp_left fun hs => ?_
    rw [hid] at hblk
    rw [hwf]
    simpa [ragged, hf, hblk, hcrc] using hs
  have htwice {β : Type} (π : FzBlock → β) {x y : Option Bool}
      (hlen : ∀ b x, π { b with lenError := x } = π b)
      (hcrc : ∀ b x, π { b with crcError := x } = π b) :
      π (((s.ev.modBlk s.blk fun b => { b with lenError := x }).modBlk s.blk
        fun b => { b with crcError := y }).getBlk s.blk) = π (s.ev.getBlk s.blk) :=
    (getD_modify_proj π (fun b => hcrc b y) ..).trans (getD_modify_proj π (fun b => hlen b x) ..)
  unfold trans16
  dsimp only
  split_ifs with hlen hcrc hblk hcrc hblk
  · exact hread _ hcrc (htwice (·.blkid) (fun _ _ => rfl) fun _ _ => rfl)
      (htwice triggerWaveform (fun _ _ => rfl) fun _ _ => rfl) hblk
  · rfl
  · rfl
  · exact hread _ hcrc (htwice (·.blkid) (fun _ _ => rfl) fun _ _ => rfl)
      (htwice triggerWaveform (fun _ _ => rfl) fun _ _ => rfl) hblk
  · rfl
  · rfl

theorem trans09Basic_akin (h : E.Akin E') (hs : s.trans09Basic E w = some t) :
    s.trans09Basic E' w = some t := by
  obtain ⟨u, hu, hs⟩ := Option.bind_eq_some_iff.1 hs
  obtain ⟨v, hv, hs⟩ := Option.bind_eq_some_iff.1 hs
  simp only [trans09Basic, verifyWaveform_akin h hu, verifyEnergy_akin h hv, startSection,
    h.evformat, Option.bind_eq_bind, Option.bind_some]
  exact hs

theorem trans10Basic_akin (h : E.Akin E') (hs : s.trans10Basic E w = some t) :
    s.trans10Basic E' w = some t := by
  obtain ⟨u, hu, hs⟩ := Option.bind_eq_some_iff.1 hs
  obtain ⟨v, hv, hs⟩ := Option.bind_eq_some_iff.1 hs
  simp only [trans10Basic, verifyWaveform_akin h hu, verifyEnergy_akin h hv,
    Option.bind_eq_bind, Option.bind_some]
  exact hs

theorem trans11Basic_akin (h : E.Akin E') (hs : s.trans11Basic E w = some t) :
    s.trans11Basic E' w = some t := by
  obtain ⟨u, hu, hs⟩ := Option.bind_eq_some_iff.1 hs
  simp only [trans11Basic, verifyWaveform_akin h hu, Option.bind_eq_bind, Option.bind_some]
  exact verifyEnergy_akin h hs

theorem fire_akin (h : E.Akin E') (hdata : tr ≠ .t08)
    (hragged : tr = .t16 → s.ragged E w = false ∨ E'.pastSample = E.pastSample)
    (hs : s.fire E tr w = some t) :
    s.fire E' tr w = some t := by
  cases tr with
  | t08 => exact absurd rfl hdata
  | t09 =>
      simp only [fire, h.evformat] at hs ⊢
      cases hf : E.evformat <;> simp only [hf] at hs ⊢
      · obtain ⟨u, hu, rfl⟩ := Option.map_eq_some_iff.1 hs
        rw [trans09Basic_akin h hu, Option.map_some]
      · simpa only [trans09Tag, startSection, h.evformat] using hs
  | t10 =>
      simp only [fire, h.evformat] at hs ⊢
      cases hf : E.evformat <;> simp only [hf] at hs ⊢
      · obtain ⟨u, hu, rfl⟩ := Option.map_eq_some_iff.1 hs
        rw [trans10Basic_akin h hu, Option.map_some]
      · exact hs
  | t11 =>
      simp only [fire, h.evformat] at hs ⊢
      cases hf : E.evformat <;> simp only [hf] at hs ⊢
      · obtain ⟨u, hu, rfl⟩ := Option.map_eq_some_iff.1 hs
        rw [trans11Basic_akin h hu, Option.map_some]
      · exact hs
  | t06 => simpa only [fire, trans06, startSection, h.evformat] using hs
  | t07 => simpa only [fire, h.evformat] using hs
  | t16 => simpa only [fire, trans16_akin h (hragged rfl)] using hs
  | _ => exact hs

end Fsm

end FzDaq.Parser
