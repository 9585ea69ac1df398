import FzDaq.Parser.Progress

/-!
# Reads behind the chunk

The bound of the `for` loop covers the word at the head of a turn only. Which
words a transition reads behind it is its `lookahead`; with a memory that ends
with the chunk a turn faults exactly if the look-ahead reaches the end.
-/

namespace FzDaq.Parser

open Machine

/-- Repeated fields and name tables may be indexed behind their ends. -/
structure Env.PastTotal (E : Env) : Prop where
  value : ∀ k, (E.pastValue k).isSome
  sample : ∀ k, (E.pastSample k).isSome
  str : ∀ t k, (E.pastStr t k).isSome

theorem Chunk.env_pastTotal (ch : Chunk) (fmt : Format) (past : Chunk.Past) :
    (ch.env fmt past).PastTotal := ⟨fun _ => rfl, fun _ => rfl, fun _ _ => rfl⟩

theorem Chunk.envIn_pastTotal (ch : Chunk) (fmt : Format) (past : Chunk.Past)
    (behind : Nat → Word) : (ch.envIn fmt past behind).PastTotal :=
  ⟨fun _ => rfl, fun _ => rfl, fun _ _ => rfl⟩

namespace Env

variable {E : Env}

theorem PastTotal.valueAt (hp : E.PastTotal) (en : Energy) (k : Nat) :
    ∃ v, E.valueAt en k = some v := by
  unfold Env.valueAt
  split
  · exact ⟨_, rfl⟩
  · exact Option.isSome_iff_exists.1 (hp.value k)

theorem PastTotal.sampleAt (hp : E.PastTotal) (wf : Waveform) (k : Nat) :
    ∃ v, E.sampleAt wf k = some v := by
  unfold Env.sampleAt
  split
  · exact ⟨_, rfl⟩
  · exact Option.isSome_iff_exists.1 (hp.sample k)

theorem PastTotal.strAt (hp : E.PastTotal) (t : Table) (k : Nat) : ∃ v, E.str t k = some v := by
  unfold Env.str
  split
  · exact ⟨_, rfl⟩
  · exact Option.isSome_iff_exists.1 (hp.str t k)

theorem exists_reads_iff {i n : Nat} :
    (∃ ws, ws.length = n ∧ E.Reads i ws) ↔ ∀ k < n, (E.event (i + k)).isSome := by
  constructor
  · rintro ⟨ws, rfl, hreads⟩ k hk
    rw [hreads.get hk]
    rfl
  · induction n generalizing i with
    | zero => exact fun _ => ⟨[], rfl, trivial⟩
    | succ n ih =>
        intro hsome
        obtain ⟨w, hw⟩ := Option.isSome_iff_exists.1 (hsome 0 (Nat.succ_pos n))
        obtain ⟨ws, hlen, hreads⟩ := ih (i := i + 1) fun k hk => by
          rw [show i + 1 + k = i + (k + 1) by omega]
          exact hsome (k + 1) (Nat.succ_lt_succ hk)
        exact ⟨w :: ws, by simp [hlen], hw, hreads⟩

end Env

namespace Fsm

variable {E : Env} {s t c : Fsm} {w : Word} {tr : Trans} {ch : Chunk}

/-! ## Transitions that do not look ahead -/

theorem modValue_total (hp : E.PastTotal) (s : Fsm) (k : Nat) (f : UInt32 → UInt32) :
    ∃ t, s.modValue E k f = some t := by
  obtain ⟨v, hv⟩ := hp.valueAt s.curEnergy k
  simp only [modValue, hv, Option.bind_eq_bind, Option.bind_some]
  exact ⟨_, rfl⟩

theorem logNames_total (hp : E.PastTotal) (s : Fsm) : s.logNames E = some () := by
  obtain ⟨_, h₁⟩ := hp.strAt .fec ((s.ev.getHit s.hit).feeid.getD 0)
  obtain ⟨_, h₂⟩ := hp.strAt .telescope ((s.ev.getHit s.hit).telid.getD 0)
  obtain ⟨_, h₃⟩ := hp.strAt .detector ((s.ev.getHit s.hit).detid.getD 0)
  obtain ⟨_, h₄⟩ := hp.strAt .dataType s.dType.index
  simp [logNames, h₁, h₂, h₃, h₄]

theorem verifyWaveform_total (hp : E.PastTotal) (s : Fsm) : ∃ t, s.verifyWaveform E = some t := by
  unfold verifyWaveform
  split
  · exact ⟨_, rfl⟩
  · exact ⟨_, by rw [logNames_total hp]; rfl⟩

theorem verifyEnergyLen_total (hp : E.PastTotal) (s : Fsm) (n : Nat) :
    ∃ t, s.verifyEnergyLen E n = some t := by
  unfold verifyEnergyLen
  split
  · exact ⟨_, rfl⟩
  · exact ⟨_, by rw [logNames_total hp]; rfl⟩

theorem verifyEnergy_total (hp : E.PastTotal) (s : Fsm) : ∃ t, s.verifyEnergy E = some t := by
  unfold verifyEnergy
  split
  · exact verifyEnergyLen_total hp s 2
  · exact verifyEnergyLen_total hp s 1
  · exact verifyEnergyLen_total hp s 1
  · exact ⟨s, rfl⟩

theorem triggerInfo_total (hp : E.PastTotal) (hit : FzHit) (wf : Waveform) (i : Nat) :
    ∃ tri, triggerInfo E hit wf i = some tri := by
  obtain ⟨id, hid⟩ := hp.sampleAt wf i
  obtain ⟨high, hhigh⟩ := hp.sampleAt wf (i + 1)
  obtain ⟨low, hlow⟩ := hp.sampleAt wf (i + 2)
  obtain ⟨a, ha⟩ := hp.strAt .centrumInfo (id % 256)
  obtain ⟨b, hb⟩ := hp.strAt .triggerInfoBasic (id % 256)
  simp only [triggerInfo, hid, hhigh, hlow, ha, hb, Option.bind_eq_bind, Option.bind_some]
  split_ifs <;> exact ⟨_, rfl⟩

theorem triggerInfos_total (hp : E.PastTotal) (hit : FzHit) (wf : Waveform) (i left : Nat)
    (s : Fsm) : ∃ t, s.triggerInfos E hit wf i left = some t := by
  induction left generalizing s i with
  | zero => exact ⟨s, rfl⟩
  | succ left ih =>
      obtain ⟨tri, htri⟩ := triggerInfo_total hp hit wf i
      obtain ⟨t, ht⟩ := ih (i + 3) (s.addTrinfo tri)
      exact ⟨t, by simp only [triggerInfos, htri, Option.bind_eq_bind, Option.bind_some, ht]⟩

theorem endTriggerBlk_total (hp : E.PastTotal) (s : Fsm) : ∃ t, s.endTriggerBlk E = some t := by
  unfold endTriggerBlk readTriggerinfo
  cases E.evformat with
  | tag => exact ⟨_, rfl⟩
  | basic =>
      dsimp only
      split
      · obtain ⟨t, ht⟩ := triggerInfos_total hp _ _ _ _ s
        exact ⟨_, by rw [ht]; rfl⟩
      · exact ⟨_, rfl⟩

theorem trans16_total (hp : E.PastTotal) (s : Fsm) (w : Word) : ∃ t, s.trans16 E w = some t := by
  unfold trans16
  dsimp only
  split_ifs
  all_goals first | exact endTriggerBlk_total hp _ | exact ⟨_, rfl⟩

theorem trans09Basic_total (hp : E.PastTotal) (s : Fsm) (w : Word) :
    ∃ t, s.trans09Basic E w = some t := by
  obtain ⟨u, hu⟩ := verifyWaveform_total hp ((s.updateBlk w).updateFee w)
  obtain ⟨v, hv⟩ := verifyEnergy_total hp u
  simp only [trans09Basic, hu, hv, Option.bind_eq_bind, Option.bind_some]
  exact ⟨_, rfl⟩

theorem trans10Basic_total (hp : E.PastTotal) (s : Fsm) (w : Word) :
    ∃ t, s.trans10Basic E w = some t := by
  obtain ⟨u, hu⟩ := verifyWaveform_total hp ((s.updateBlk w).updateFee w)
  obtain ⟨v, hv⟩ := verifyEnergy_total hp u
  simp only [trans10Basic, hu, hv, Option.bind_eq_bind, Option.bind_some]
  exact ⟨_, rfl⟩

theorem trans11Basic_total (hp : E.PastTotal) (s : Fsm) (w : Word) :
    ∃ t, s.trans11Basic E w = some t := by
  obtain ⟨u, hu⟩ := verifyWaveform_total hp ({ s with rdFeelen := lengthOf w }.updateBlk w)
  obtain ⟨v, hv⟩ := verifyEnergy_total hp u
  exact ⟨v, by simp only [trans11Basic, hu, hv, Option.bind_eq_bind, Option.bind_some]⟩

theorem fire_total (hp : E.PastTotal) (hdata : tr ≠ .t08) : ∃ t, s.fire E tr w = some t := by
  cases hf : E.evformat <;> cases tr <;> simp only [fire, hf] <;>
    first
    | exact ⟨_, rfl⟩
    | exact absurd rfl hdata
    | (obtain ⟨t, ht⟩ := trans09Basic_total hp s w; exact ⟨_, by rw [ht]; rfl⟩)
    | (obtain ⟨t, ht⟩ := trans10Basic_total hp s w; exact ⟨_, by rw [ht]; rfl⟩)
    | (obtain ⟨t, ht⟩ := trans11Basic_total hp s w; exact ⟨_, by rw [ht]; rfl⟩)
    | (obtain ⟨t, ht⟩ := trans16_total hp s w; exact ⟨_, by rw [ht]; rfl⟩)

/-! ## DATA words in S5 -/

/-- How many words behind its own the turn at a DATA word in S5 reads. The loops
that stop at the first word that is not DATA need none: the REGID word stops them. -/
def lookahead (E : Env) (c : Fsm) : Nat :=
  match E.evformat with
  | .basic =>
      if c.wflenDone = false then 0
      else match c.dType with
        | .QH1 | .Q2 | .Q3 => 0
        | .ADC => 5 + c.rdWflen.toNat
        | .I1 | .I2 | .QL1 | .UNKDT => c.rdWflen.toNat - 1
  | .tag => if c.tagDone && c.wflenDone then recordExtra c.tag c.rdWflen else 0

/-- The words up to the look-ahead can be read. -/
def Ahead (E : Env) (i n : Nat) : Prop := ∀ k ≤ n, (E.event (i + k)).isSome

theorem gatherData_total (hE : E.Carries ch) (hidx : s.eventIndex < E.eventSize) :
    ∃ t, s.gatherData E E.eventSize = some t := by
  have hlast : ¬ ch.regid ≤ 0x7FFF := by
    intro h
    rw [← getwordId_data_iff, ch.regid_id] at h
    cases h
  have hfuel : ∀ turns (s : Fsm), E.eventSize - s.eventIndex ≤ turns →
      s.eventIndex < E.eventSize → ∃ t, s.gatherData E turns = some t := by
    intro turns
    induction turns with
    | zero => intro s _ _; omega
    | succ turns ih =>
        intro s hturns hidx
        have hword : E.event s.eventIndex = ch.words[s.eventIndex]? := hE.word _ hidx
        have hsome : s.eventIndex < ch.words.length := hE.size ▸ hidx
        rw [List.getElem?_eq_getElem hsome] at hword
        simp only [gatherData, hword, Option.bind_eq_bind, Option.bind_some]
        split
        · rename_i hdata
          have hne : s.eventIndex ≠ E.eventSize - 1 := by
            intro h
            have hregid := hE.last
            rw [← h, hword, Option.some.injEq] at hregid
            exact hlast (hregid ▸ hdata)
          have hmove : (s.gatherSample ch.words[s.eventIndex]).eventIndex = s.eventIndex + 1 := rfl
          exact ih _ (by rw [hmove]; omega) (by rw [hmove]; omega)
        · exact ⟨_, rfl⟩
  exact hfuel _ s (Nat.sub_le _ _) hidx

theorem gatherCount_total_iff {n : Nat} :
    (∃ t, s.gatherCount E n = some t) ↔ ∀ k < n, (E.event (s.eventIndex + k)).isSome := by
  simp only [gatherCount_eq_some, ← Env.exists_reads_iff]
  exact ⟨fun ⟨_, ws, hlen, hreads, _⟩ => ⟨ws, hlen, hreads⟩,
    fun ⟨ws, hlen, hreads⟩ => ⟨_, ws, hlen, hreads, rfl⟩⟩

theorem waveformByCount_total_iff (hdone : s.wflenDone = true) :
    (∃ t, s.waveformByCount E w = some t) ↔
      ∀ k < (if s.dType = .ADC then 6 else 0) + s.rdWflen.toNat,
        (E.event (s.eventIndex + k)).isSome := by
  rw [waveformByCount_done hdone]
  simp only [Option.bind_eq_some_iff, Option.map_eq_some_iff]
  by_cases hadc : s.dType = .ADC
  · rw [if_pos hadc, if_pos hadc]
    constructor
    · rintro ⟨_, u, hu, v, hv, _⟩ k hk
      obtain ⟨_, _, _, _, _, _, hsix, rfl⟩ := readSineCosine_eq_some.1 hu
      by_cases hk' : k < 6
      · exact Env.exists_reads_iff.1 ⟨_, rfl, hsix⟩ k hk'
      · have hrest := gatherCount_total_iff.1 ⟨v, hv⟩ (k - 6) (by omega)
        change (E.event (s.eventIndex + 6 + (k - 6))).isSome = true at hrest
        rwa [show s.eventIndex + 6 + (k - 6) = s.eventIndex + k by omega] at hrest
    · intro hall
      obtain ⟨ws, hlen, hsix⟩ := Env.exists_reads_iff.2 fun k (hk : k < 6) => hall k (by omega)
      match ws, hlen with
      | [w0, w1, w2, w3, w4, w5], _ =>
        have hu := readSineCosine_eq_some.2 ⟨w0, w1, w2, w3, w4, w5,
          (show E.Reads s.restoreCrc.eventIndex _ from hsix), rfl⟩
        obtain ⟨v, hv⟩ := gatherCount_total_iff
          (s := s.restoreCrc.sineCosineRead w0 w1 w2 w3 w4 w5) |>.2 fun k hk => by
            change (E.event (s.eventIndex + 6 + k)).isSome = true
            rw [show s.eventIndex + 6 + k = s.eventIndex + (6 + k) by omega]
            exact hall (6 + k) (Nat.add_lt_add_left hk 6)
        exact ⟨_, _, hu, v, hv, rfl⟩
  · rw [if_neg hadc, if_neg hadc]
    constructor
    · rintro ⟨_, u, hu, v, hv, _⟩ k hk
      cases hu
      exact gatherCount_total_iff.1 ⟨v, hv⟩ k (by omega)
    · intro hall
      obtain ⟨v, hv⟩ := gatherCount_total_iff (s := s.restoreCrc) (n := s.rdWflen.toNat) |>.2
        fun k hk => hall k (by omega)
      exact ⟨_, _, rfl, v, hv, rfl⟩

theorem lowEnergy1_total (hp : E.PastTotal) (s : Fsm) (w : Word) :
    ∃ t, s.lowEnergy1 E w = some t := by
  obtain ⟨u, hu⟩ := modValue_total hp s 0 fun v => (v <<< 15) + w.toUInt32
  exact ⟨_, by rw [lowEnergy1, hu]; rfl⟩

theorem energy2_total (hp : E.PastTotal) (s : Fsm) (w : Word) : ∃ t, s.energy2 E w = some t := by
  unfold energy2
  split
  · exact ⟨_, rfl⟩
  · obtain ⟨u, hu⟩ := modValue_total hp s 1 fun v => (v <<< 15) + w.toUInt32
    exact ⟨_, by rw [hu]; rfl⟩

theorem waveformByData_total (hE : E.Carries ch) (hidx : s.eventIndex < E.eventSize) (w : Word) :
    ∃ t, s.waveformByData E w = some t := by
  unfold waveformByData
  split_ifs
  · exact ⟨_, rfl⟩
  · exact ⟨_, rfl⟩
  · obtain ⟨u, hu⟩ := gatherData_total (s := s.restoreCrc) hE hidx
    exact ⟨_, by rw [hu]; rfl⟩

theorem ahead_zero (hw : E.event s.eventIndex = some w) : Ahead E s.eventIndex 0 := by
  intro k hk
  obtain rfl : k = 0 := by omega
  simp [hw]

theorem trans08Basic_total_iff (hE : E.Carries ch) (hp : E.PastTotal)
    (hf : E.evformat = .basic) (hidx : s.eventIndex < E.eventSize)
    (hw : E.event s.eventIndex = some w) :
    (∃ t, s.trans08Basic E w = some t) ↔ Ahead E s.eventIndex (s.lookahead E) := by
  let c := (s.updateBlk w).updateFee w
  rw [trans08Basic_eq]
  cases henergy : s.dType.hasEnergy with
  | true =>
      have hzero : s.lookahead E = 0 := by
        cases hd : s.dType <;> rw [hd] at henergy <;>
          first | exact absurd henergy (by decide) | simp [lookahead, hf, hd]
      rw [hzero, if_pos rfl]
      refine iff_of_true ?_ (ahead_zero hw)
      split_ifs
      · exact lowEnergy1_total hp c w
      · exact energy2_total hp c w
      · exact waveformByData_total (s := c) hE hidx w
  | false =>
      rw [if_neg (by simp)]
      cases hdone : s.wflenDone with
      | false =>
          have hzero : s.lookahead E = 0 := by simp [lookahead, hf, hdone]
          rw [hzero]
          refine iff_of_true ⟨{ c with rdWflen := w, wflenDone := true }, ?_⟩ (ahead_zero hw)
          rw [waveformByCount, if_pos (by change (!s.wflenDone) = true; rw [hdone]; rfl)]
      | true =>
          -- The six words of ADC data and the samples, less the word under the cursor.
          have hlook : s.lookahead E =
              (if s.dType = .ADC then 6 else 0) + s.rdWflen.toNat - 1 := by
            cases hd : s.dType <;> rw [hd] at henergy <;>
              first | exact absurd henergy (by decide) | simp [lookahead, hf, hd, hdone]
          rw [hlook, waveformByCount_total_iff (s := c) hdone]
          change (∀ k < (if s.dType = .ADC then 6 else 0) + s.rdWflen.toNat,
            (E.event (s.eventIndex + k)).isSome) ↔ _
          generalize (if s.dType = .ADC then 6 else 0) + s.rdWflen.toNat = n
          constructor
          · intro hall k hk
            cases k with
            | zero => simp [hw]
            | succ k => exact hall (k + 1) (by omega)
          · intro hall k hk
            exact hall k (by omega)

/-! ## Records -/

theorem ahead_iff {n : Nat} (hw : E.event s.eventIndex = some w) :
    Ahead E s.eventIndex n ↔ ∃ ws, ws.length = n ∧ E.Reads (s.eventIndex + 1) ws := by
  rw [Env.exists_reads_iff]
  constructor
  · intro h k hk
    rw [show s.eventIndex + 1 + k = s.eventIndex + (k + 1) by omega]
    exact h (k + 1) hk
  · intro h k hk
    cases k with
    | zero => simp [hw]
    | succ k =>
        rw [show s.eventIndex + (k + 1) = s.eventIndex + 1 + k by omega]
        exact h k hk

theorem addTagInfo_total (hp : E.PastTotal) (s : Fsm) (id : UInt32) (tb : Table) (k : Nat)
    (v : UInt64) : ∃ ts, s.addTagInfo E id tb k v = some (s.addTrinfos ts) := by
  obtain ⟨attr, hattr⟩ := hp.strAt tb k
  exact ⟨_, by rw [addTagInfo, hattr]; rfl⟩

theorem readEnergy_total (hp : E.PastTotal) {high low : Word} (k : Nat)
    (hreads : E.Reads (s.eventIndex + 1) [high, low]) :
    ∃ t, s.readEnergy E w k = some t := by
  obtain ⟨hhigh, hlow, _⟩ := hreads
  have h₁ := nextEventWord_eq_some.2 ⟨hhigh, rfl⟩
  have h₂ := nextEventWord_eq_some (s := (s.movedOver [high]).addValue high.toUInt32) |>.2
    ⟨hlow, rfl⟩
  obtain ⟨u, hu⟩ := modValue_total hp
    (((s.movedOver [high]).addValue high.toUInt32).movedOver [low]) k
    fun v => (v <<< 15) + low.toUInt32
  obtain ⟨v, hv⟩ := modValue_total hp u k fun v => E.scaleEnergy v w
  exact ⟨v, by simp only [readEnergy, h₁, h₂, hu, hv, Option.bind_eq_bind, Option.bind_some]⟩

theorem readCounters_total (hp : E.PastTotal) {i left : Nat} {ws : List Word}
    (hlen : ws.length = left - 1) (hw : E.event s.eventIndex = some w)
    (hreads : E.Reads (s.eventIndex + 1) ws) : ∃ t, s.readCounters E i left = some t := by
  induction left generalizing s i w ws with
  | zero => exact ⟨s, rfl⟩
  | succ left ih =>
      obtain ⟨attr, hattr⟩ := hp.strAt .triggerInfoBasic i
      simp only [readCounters, hattr, hw, Option.bind_eq_bind, Option.bind_some]
      split
      · exact ⟨_, rfl⟩
      · rename_i hleft
        cases ws with
        | nil => simp at hlen; omega
        | cons x ws =>
            rw [(nextEventWord_eq_some (s := s.addTrinfo _) (w := x)).2 ⟨hreads.1, rfl⟩,
              Option.bind_some]
            exact ih (by rw [List.length_cons] at hlen; omega) hreads.1 hreads.2

theorem readCentrum_total (hp : E.PastTotal) {ws : List Word} (hlen : ws.length = 6)
    (hreads : E.Reads (s.eventIndex + 1) ws) (v : UInt64) :
    ∃ t, s.readCentrum E v = some t := by
  match ws, hlen with
  | [w1, w2, w3, w4, w5, w6], _ =>
    obtain ⟨h1, h2, h3, h4, h5, h6, _⟩ := hreads
    obtain ⟨_, a0⟩ := hp.strAt .centrumInfo 0
    obtain ⟨_, a1⟩ := hp.strAt .centrumInfo 1
    obtain ⟨_, a2⟩ := hp.strAt .centrumInfo 2
    obtain ⟨_, a3⟩ := hp.strAt .centrumInfo 3
    simp only [readCentrum, addTagInfo, nextEventWord, addTrinfo, updateBlk, updateBlkLen,
      updateBlkCrc, updateFee, updateFeeLen, updateFeeCrc, a0, a1, a2, a3, h1, h2, h3, h4, h5, h6,
      Option.bind_eq_bind, Option.bind_some]
    exact ⟨_, rfl⟩

theorem readWaveform_total {ws : List Word} (hwav : s.tag = TAG_WAVEFORM)
    (hlen : ws.length = s.rdWflen.toNat) (hw : E.event s.eventIndex = some w)
    (hreads : E.Reads (s.eventIndex + 1) ws) : ∃ t, s.readRecord E w = some t := by
  rcases List.eq_nil_or_concat ws with rfl | ⟨us, stop, rfl⟩
  · exact ⟨_, readRecord_waveform_zero hwav (UInt16.toNat_inj.1 hlen.symm)⟩
  · rw [List.concat_eq_append] at hlen hreads
    rw [List.length_append, List.length_singleton] at hlen
    exact ⟨_, (readRecord_waveform_succ hwav hlen.symm hw).2 ⟨us, stop, rfl, hreads, rfl⟩⟩

theorem readPair_total (hp : E.PastTotal) {low : Word} (id : UInt32) (k : Nat)
    (value : Word → FzHit → UInt64) (hreads : E.Reads (s.eventIndex + 1) [low]) :
    ∃ t, s.readPair E id k value = some t := by
  obtain ⟨ts, hts⟩ := addTagInfo_total hp (s.movedOver [low]) id .triggerInfoBasic k
    (value low ((s.movedOver [low]).ev.getHit (s.movedOver [low]).hit))
  rw [readPair, nextEventWord_eq_some (w := low) |>.2 ⟨hreads.1, rfl⟩]
  exact ⟨_, hts⟩

theorem readRecord_total (hp : E.PastTotal) {ws : List Word}
    (hlen : ws.length = recordExtra s.tag s.rdWflen) (hw : E.event s.eventIndex = some w)
    (hreads : E.Reads (s.eventIndex + 1) ws) : ∃ t, s.readRecord E w = some t := by
  have htag := Payload.ofTag_tagged s.tag
  have heq := readRecord_eq (E := E) s w
  rw [recordExtra_eq] at hlen
  cases hread : Payload.ofTag s.tag with rw [hread] at htag heq hlen
  | pretrig => exact ⟨_, heq⟩
  | waveform => exact readWaveform_total htag hlen hw hreads
  | energy k =>
      obtain ⟨high, low, rfl⟩ := List.length_eq_two.1 hlen
      rw [heq]
      exact readEnergy_total hp k hreads
  | baseline =>
      obtain ⟨x, rfl⟩ := List.length_eq_one_iff.1 hlen
      rw [heq, Payload.read, nextEventWord_eq_some (w := x) |>.2 ⟨hreads.1, rfl⟩]
      exact ⟨_, rfl⟩
  | counters =>
      rw [heq]
      exact readCounters_total hp hlen hw hreads
  | pair id k value =>
      obtain ⟨low, rfl⟩ := List.length_eq_one_iff.1 hlen
      rw [heq]
      exact readPair_total hp id k (value w) hreads
  | single id k =>
      obtain ⟨ts, hts⟩ := addTagInfo_total hp s id .triggerInfoBasic k w.toUInt64
      exact ⟨_, heq.trans hts⟩
  | centrum =>
      rw [heq]
      exact readCentrum_total hp hlen hreads _
  | unknown => exact ⟨s, heq⟩

theorem trans08Tag_total_iff (hp : E.PastTotal) (hf : E.evformat = .tag)
    (hw : E.event s.eventIndex = some w) :
    (∃ t, s.trans08Tag E w = some t) ↔ Ahead E s.eventIndex (s.lookahead E) := by
  have hlook : s.lookahead E =
      if s.tagDone && s.wflenDone then recordExtra s.tag s.rdWflen else 0 := by
    simp only [lookahead, hf]
  rw [hlook, ahead_iff hw]
  let c := (s.updateBlk w).updateFee w
  constructor
  · rintro ⟨t, ht⟩
    rcases trans08Tag_cases hw ht with ⟨htag, _⟩ | ⟨_, hlen, _⟩ | ⟨htag, hlen, u, v, hu, _⟩
    · exact ⟨[], by simp [htag], trivial⟩
    · exact ⟨[], by simp [hlen], trivial⟩
    · rw [htag, hlen, Bool.and_self, if_pos rfl, recordExtra]
      rcases readRecord_cases (s := c) hw hu with ⟨h, _⟩ | ⟨h, h', _⟩ |
        ⟨h, ws, stop, h', hreads, _⟩ | ⟨h, ws, _, h', hreads, _⟩ | ⟨h, x, _, hx, _⟩ |
        ⟨_, ws, _, h', hreads, _⟩
      · change s.tag = _ at h
        exact ⟨[], by rw [h]; rfl, trivial⟩
      · change s.tag = _ at h
        change s.rdWflen = 0 at h'
        exact ⟨[], by rw [if_pos h, h']; rfl, trivial⟩
      · change s.tag = _ at h
        exact ⟨ws ++ [stop], by rw [if_pos h, List.length_append]; exact h', hreads⟩
      · change s.tag = _ ∨ s.tag = _ at h
        refine ⟨ws, ?_, hreads⟩
        rcases h with h | h <;> rw [h, h'] <;> rfl
      · change s.tag = _ at h
        exact ⟨[x], by rw [h]; rfl, hx, trivial⟩
      · exact ⟨ws, h', hreads⟩
  · rintro ⟨ws, hlen, hreads⟩
    cases htag : s.tagDone with
    | false => exact ⟨_, by rw [trans08Tag_eq, htag]; rfl⟩
    | true =>
        cases hdone : s.wflenDone with
        | false => exact ⟨_, by rw [trans08Tag_eq, htag, hdone]; rfl⟩
        | true =>
            rw [htag, hdone, Bool.and_self, if_pos rfl] at hlen
            obtain ⟨u, hu⟩ := readRecord_total (s := c) hp hlen hw hreads
            obtain ⟨v, hv⟩ : ∃ v,
                (if u.tag = TAG_WAVEFORM then u.verifyWaveform E else some u) = some v := by
              split
              · exact verifyWaveform_total hp u
              · exact ⟨u, rfl⟩
            exact ⟨_, trans08Tag_of_record htag hdone hu hv⟩

/-! ## Turns -/

theorem fire_data_total_iff (hE : E.Carries ch) (hp : E.PastTotal)
    (hidx : s.eventIndex < E.eventSize) (hw : E.event s.eventIndex = some w) :
    (∃ t, s.fire E .t08 w = some t) ↔ Ahead E s.eventIndex (s.lookahead E) := by
  cases hf : E.evformat with
  | basic =>
      rw [← trans08Basic_total_iff hE hp hf hidx hw]
      simp only [fire, hf, Option.map_eq_some_iff]
      constructor
      · rintro ⟨_, u, hu, _⟩
        exact ⟨u, hu⟩
      · rintro ⟨u, hu⟩
        exact ⟨_, u, hu, rfl⟩
  | tag =>
      rw [← trans08Tag_total_iff hp hf hw]
      simp only [fire, hf, Option.map_eq_some_iff]
      constructor
      · rintro ⟨_, u, hu, _⟩
        exact ⟨u, hu⟩
      · rintro ⟨u, hu⟩
        exact ⟨_, u, hu, rfl⟩

/-- A turn goes through exactly if the look-ahead of its DATA word can be read. -/
theorem turn_total_iff (hE : E.Carries ch) (hp : E.PastTotal)
    (hidx : s.eventIndex < E.eventSize) :
    (∃ t, s.turn E = some t) ↔
      ∀ w, s.Takes E w .t08 → Ahead E s.eventIndex (s.lookahead E) := by
  obtain ⟨w, hw⟩ : ∃ w, E.event s.eventIndex = some w := by
    have hlen : s.eventIndex < ch.words.length := hE.size ▸ hidx
    exact ⟨_, (hE.word _ hidx).trans (List.getElem?_eq_getElem hlen)⟩
  have hturn : s.turn E = s.dispatch E w := by rw [turn, hw]; rfl
  rw [hturn, dispatch]
  by_cases hempty : getwordId w = .empty
  · rw [if_pos hempty]
    refine iff_of_true ⟨_, rfl⟩ fun x hx => ?_
    exact absurd hx (Skips.not_takes ⟨w, hw, hempty⟩)
  · rw [if_neg hempty]
    simp only [Option.map_eq_some_iff]
    by_cases hdata : ttable (getwordId w) s.stateId = .t08
    · rw [hdata]
      constructor
      · rintro ⟨_, u, hu, _⟩ _ _
        exact (fire_data_total_iff hE hp hidx hw).1 ⟨u, hu⟩
      · intro hahead
        obtain ⟨u, hu⟩ := (fire_data_total_iff hE hp hidx hw).2 (hahead w ⟨hw, hempty, hdata⟩)
        exact ⟨_, u, hu, rfl⟩
    · obtain ⟨u, hu⟩ := fire_total (s := s) (w := w) hp hdata
      refine iff_of_true ⟨_, u, hu, rfl⟩ fun x hx => ?_
      exact absurd (Takes.unique ⟨hw, hempty, rfl⟩ hx).2.symm hdata

theorem ahead_env_iff {fmt : Format} {past : Chunk.Past} {i n : Nat} :
    Ahead (ch.env fmt past) i n ↔ i + n < (ch.env fmt past).eventSize := by
  have hsome (k : Nat) : ((ch.env fmt past).event k).isSome ↔ k < ch.words.length := by
    change (ch.words[k]?).isSome ↔ _
    simp
  constructor
  · intro h
    exact (hsome _).1 (h n (Nat.le_refl n))
  · intro h k hk
    rw [hsome]
    change i + n < ch.words.length at h
    omega

/-- No access of a call is behind the chunk, exactly if at each DATA word in S5
the payload that the length word or the tag announces is inside of it. -/
theorem not_faults_iff (ch : Chunk) (fmt : Format) (past : Chunk.Past) (s : Fsm) :
    let E := ch.env fmt past
    ¬ E.loop.Faults (E.entry s) ↔
      ∀ c w, E.loop.Visits (E.entry s) c → c.Takes E w .t08 →
        c.eventIndex + c.lookahead E < E.eventSize := by
  intro E
  have hE := ch.env_carries fmt past
  have hp := ch.env_pastTotal fmt past
  have hinside {c : Fsm} (hc : E.loop.halted c = false) : c.eventIndex < E.eventSize := by
    simpa [Env.loop] using hc
  constructor
  · intro hsafe c w hc htakes
    rw [← ahead_env_iff]
    refine (turn_total_iff hE hp (hinside hc.2)).1 ?_ w htakes
    cases hturn : c.turn E with
    | none => exact absurd ⟨c, hc.1, hc.2, hturn⟩ hsafe
    | some t => exact ⟨t, rfl⟩
  · rintro hahead ⟨c, hreach, hhalt, hnone⟩
    obtain ⟨t, ht⟩ := (turn_total_iff hE hp (hinside hhalt)).2 fun w htakes =>
      ahead_env_iff.2 (hahead c w ⟨hreach, hhalt⟩ htakes)
    change c.turn E = none at hnone
    rw [ht] at hnone
    cases hnone

/-- A waveform record whose length word is larger than what is left of the chunk. -/
def overlong : Chunk where
  body := [0xE001, 0x9800, 1, 2, 0x9000, 0x7005, 5, 1]
  regid := 0xC800
  regid_id := getwordId_c800
  body_id := Chunk.ne_regid_of_all rfl

/-- The gathering loop reads behind the REGID word. -/
theorem overlong_faults :
    (overlong.env .tag .zero).loop.Faults ((overlong.env .tag .zero).entry {}) := by
  obtain ⟨c, hrun⟩ : ∃ c, (overlong.env .tag .zero).loop.run 9
    ((overlong.env .tag .zero).entry {}) = .fault c := ⟨_, rfl⟩
  exact Loop.faults_of_run hrun

end Fsm

end FzDaq.Parser
