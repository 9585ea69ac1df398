import FzDaq.Parser.SectionNames

/-!
# Indices into the name tables

No name is looked up behind the end of its table, exactly if the turns that look one up meet
what the code does not check.
-/

namespace FzDaq.Parser

open Machine

namespace Fsm

variable {E : Env} {s t u c d : Fsm} {w : Word} {tr : Trans} {bs : List FzBlock} {b : FzBlock}
  {r : FzFee} {h : FzHit} {D : FzData} {ch : Chunk}

/-! ## Trigger infos -/

/-- The id of a trigger info for which the range check finds a name that is not there. -/
def Unnamed (id : Nat) : Prop := 0x200 ≤ id ∧ id % 256 = 4

theorem triggerInfo_guardNames {hit : FzHit} {wf : Waveform} {i id : Nat}
    (hid : wf.sample[i]? = some id) :
    (Unnamed id → triggerInfo E.guardNames hit wf i = none) ∧
      (¬ Unnamed id → triggerInfo E.guardNames hit wf i = triggerInfo E hit wf i) := by
  have hsample (F : Env) : F.sampleAt wf i = some id := by rw [Env.sampleAt, hid]
  have hfour : Table.centrumInfo.entries.length = 4 := rfl
  have hmany : Table.triggerInfoBasic.entries.length = 17 := rfl
  constructor
  · rintro ⟨hhigh, hidx⟩
    have hnone : E.guardNames.str .centrumInfo 4 = none := by
      rw [Env.str_guardNames, List.getElem?_eq_none (by omega)]
    simp [triggerInfo, hsample, hhigh, hidx, hnone]
  · intro hgood
    have hcentrum (hhigh : 0x200 ≤ id) (hidx : id % 256 ≤ 4) :
        E.guardNames.str .centrumInfo (id % 256) = E.str .centrumInfo (id % 256) := by
      have hin : id % 256 < Table.centrumInfo.entries.length := by
        have hne : id % 256 ≠ 4 := fun h => hgood ⟨hhigh, h⟩
        omega
      rw [Env.str, Env.str, List.getElem?_eq_getElem hin]
    have hbasic (hidx : id % 256 ≤ 15) :
        E.guardNames.str .triggerInfoBasic (id % 256) = E.str .triggerInfoBasic (id % 256) := by
      rw [Env.str, Env.str, List.getElem?_eq_getElem (show id % 256 < _ by omega)]
    unfold triggerInfo
    rw [hsample, hsample]
    simp only [Option.bind_eq_bind, Option.bind_some]
    congr 1
    split_ifs with hhigh hidx hidx
    · exact hcentrum hhigh hidx
    · rfl
    · exact hbasic hidx
    · rfl

theorem triggerInfos_guardNames_none {hit : FzHit} {wf : Waveform} {i left j id : Nat}
    (hj : j < left) (hid : wf.sample[i + 3 * j]? = some id) (hbad : Unnamed id) (s : Fsm) :
    s.triggerInfos E.guardNames hit wf i left = none := by
  induction left generalizing s i j with
  | zero => omega
  | succ left ih =>
      rw [triggerInfos]
      cases j with
      | zero =>
          have hid : wf.sample[i]? = some id := hid
          rw [(triggerInfo_guardNames hid).1 hbad]
          rfl
      | succ j =>
          cases triggerInfo E.guardNames hit wf i with
          | none => rfl
          | some tri =>
              have hid : wf.sample[i + 3 + 3 * j]? = some id := by
                rwa [show i + 3 + 3 * j = i + 3 * (j + 1) by omega]
              exact ih (Nat.lt_of_succ_lt_succ hj) hid _

theorem triggerInfos_guardNames {hit : FzHit} {wf : Waveform} {i left : Nat}
    (hin : i + 3 * left < wf.sample.length + 3)
    (hgood : ∀ j id, wf.sample[i + 3 * j]? = some id → ¬ Unnamed id) (s : Fsm) :
    s.triggerInfos E.guardNames hit wf i left = s.triggerInfos E hit wf i left := by
  induction left generalizing s i with
  | zero => rfl
  | succ left ih =>
      have hi : i < wf.sample.length := by omega
      have hid : wf.sample[i]? = some wf.sample[i] := List.getElem?_eq_getElem hi
      have hrest : ∀ j id, wf.sample[i + 3 + 3 * j]? = some id → ¬ Unnamed id := by
        intro j id hj
        rw [show i + 3 + 3 * j = i + 3 * (j + 1) by omega] at hj
        exact hgood (j + 1) id hj
      rw [triggerInfos, triggerInfos, (triggerInfo_guardNames hid).2 (hgood 0 _ hid)]
      refine Option.bind_congr fun tri _ => ?_
      exact ih (by omega) hrest _

theorem endTriggerBlk_guardNames_none (hf : E.evformat = .basic) {j id : Nat}
    (hid : (triggerWaveform (s.ev.getBlk s.blk)).sample[3 * j]? = some id) (hbad : Unnamed id) :
    s.endTriggerBlk E.guardNames = none := by
  have hf : E.guardNames.evformat = .basic := hf
  obtain ⟨hlen, _⟩ := List.getElem?_eq_some_iff.1 hid
  have hfee : 0 < (s.ev.getBlk s.blk).fee.length := by
    by_contra hnone
    rw [triggerWaveform_of_fee hnone] at hlen
    exact absurd hlen (Nat.not_lt_zero _)
  have hj : j < ((triggerWaveform (s.ev.getBlk s.blk)).sample.length + 2) / 3 := by omega
  have hid : (triggerWaveform (s.ev.getBlk s.blk)).sample[0 + 3 * j]? = some id := by
    rwa [Nat.zero_add]
  rw [endTriggerBlk_eq hf, if_pos hfee, triggerInfos_guardNames_none hj hid hbad]
  rfl

theorem endTriggerBlk_guardNames
    (hgood : ∀ j id, (triggerWaveform (s.ev.getBlk s.blk)).sample[3 * j]? = some id →
      ¬ Unnamed id) : s.endTriggerBlk E.guardNames = s.endTriggerBlk E := by
  cases hf : E.evformat with
  | tag =>
      have hf' : E.guardNames.evformat = .tag := hf
      simp only [endTriggerBlk, hf, hf']
  | basic =>
      have hf' : E.guardNames.evformat = .basic := hf
      have hgood : ∀ j id, (triggerWaveform (s.ev.getBlk s.blk)).sample[0 + 3 * j]? = some id →
          ¬ Unnamed id := by
        intro j id hid
        rw [Nat.zero_add] at hid
        exact hgood j id hid
      rw [endTriggerBlk_eq hf, endTriggerBlk_eq hf', triggerInfos_guardNames (by omega) hgood]

/-- The CRCBL word `w` ends a block of trigger infos, which is read. -/
structure ReadsBlock (E : Env) (c : Fsm) (w : Word) : Prop where
  evformat : E.evformat = .basic
  takes : c.Takes E w .t16
  blkid : (c.ev.getBlk c.blk).blkid.getD 0 = 0x7FF
  crc : crcblOf w = crcFold c.blkcrc

theorem trans16_guardNames_none (hread : c.ReadsBlock E w) {j id : Nat}
    (hid : (triggerWaveform (c.ev.getBlk c.blk)).sample[3 * j]? = some id) (hbad : Unnamed id) :
    c.trans16 E.guardNames w = none := by
  cases ht : c.trans16 E.guardNames w with
  | none => rfl
  | some t =>
      obtain ⟨lenBad, crcBad, _, hcrc, ⟨_, hor⟩ | ⟨_, _, hend⟩⟩ := trans16_cases ht
      · rcases hor with hor | hor
        · rw [hcrc.2 hread.crc] at hor
          cases hor
        · exact absurd hread.blkid hor
      · have hid' : (triggerWaveform ((c.judged w lenBad crcBad).ev.getBlk
            (c.judged w lenBad crcBad).blk)).sample[3 * j]? = some id := by
          change (triggerWaveform ((c.judged w lenBad crcBad).ev.getBlk c.blk)).sample[3 * j]? = _
          rw [triggerWaveform_judged, hid]
        rw [endTriggerBlk_guardNames_none hread.evformat hid' hbad] at hend
        cases hend

theorem trans16_guardNames (htakes : c.Takes E w .t16)
    (hgood : c.ReadsBlock E w → ∀ j id,
      (triggerWaveform (c.ev.getBlk c.blk)).sample[3 * j]? = some id → ¬ Unnamed id) :
    c.trans16 E.guardNames w = c.trans16 E w := by
  obtain ⟨lenBad, crcBad, hlen, hcrc, heq⟩ := trans16_eq (E := E) c w
  obtain ⟨lenBad', crcBad', hlen', hcrc', heq'⟩ := trans16_eq (E := E.guardNames) c w
  obtain rfl : lenBad' = lenBad := Bool.eq_iff_iff.2 (by
    rw [← not_iff_not, Bool.not_eq_true, Bool.not_eq_true, hlen', hlen])
  obtain rfl : crcBad' = crcBad := Bool.eq_iff_iff.2 (by
    rw [← not_iff_not, Bool.not_eq_true, Bool.not_eq_true, hcrc', hcrc])
  rw [heq, heq']
  split
  · rename_i hblk
    cases hf : E.evformat with
    | tag =>
        have hf' : E.guardNames.evformat = .tag := hf
        simp only [endTriggerBlk, hf, hf']
    | basic =>
        refine endTriggerBlk_guardNames fun j id hid => ?_
        change (triggerWaveform ((c.judged w lenBad' crcBad').ev.getBlk c.blk)).sample[3 * j]? = _
          at hid
        rw [triggerWaveform_judged] at hid
        exact hgood ⟨hf, htakes, hblk.2, hcrc.1 hblk.1⟩ j id hid
  · rfl

/-! ## One turn -/

/-- The turn of the transition `tr` composes the message of a wrong length. -/
def complains (E : Env) (c : Fsm) : Trans → Bool
  | .t08 => E.evformat == .tag && c.tagDone && c.wflenDone && c.tag == TAG_WAVEFORM &&
      !c.curWaveform.sample.isEmpty
  | .t09 | .t10 | .t11 => E.evformat == .basic && c.lengthsDiffer
  | _ => false

/-- The turn at the word `w` indexes a name table behind its end. -/
inductive NamesPast (E : Env) (c : Fsm) (w : Word) : Trans → Prop
  | counters (hread : c.ReadsRecord E w TAG_RB_COUNTERS) (hmany : 17 < c.rdWflen.toNat) :
      NamesPast E c w .t08
  | triggers {j id : Nat} (hread : c.ReadsBlock E w)
      (hid : (triggerWaveform (c.ev.getBlk c.blk)).sample[3 * j]? = some id) (hbad : Unnamed id) :
      NamesPast E c w .t16
  | detector {tr : Trans} (htakes : c.Takes E w tr) (hlog : c.complains E tr = true)
      (hdet : 4 ≤ c.detid) : NamesPast E c w tr

theorem trans08Basic_guardNames (s : Fsm) (w : Word) :
    s.trans08Basic E.guardNames w = s.trans08Basic E w := by
  have hword : E.guardNames.event = E.event := rfl
  have hsize : E.guardNames.eventSize = E.eventSize := rfl
  rw [trans08Basic_eq, trans08Basic_eq, waveformByData_congr hword hsize,
    waveformByCount_congr hword]
  rfl

/-- A transition passes the checks of the names, or it indexes a table behind its end. -/
def Checked (E : Env) (c : Fsm) (w : Word) (tr : Trans) : Prop :=
  NamesPast E c w tr ∧ c.fire E.guardNames tr w = none ∨
    ¬ NamesPast E c w tr ∧ c.fire E.guardNames tr w = c.fire E tr w

theorem checked_data (hp : E.PastTotal) {σ : Site} (ha : c.At E σ)
    (hn : c.stateId = .s5 → (c.ev.getHit c.hit).Named) (htakes : c.Takes E w .t08) :
    Checked E c w .t08 := by
  have hs : c.stateId = .s5 := (ttable_eq htakes.2.2).1
  obtain ⟨bs, b, r, h, D, rfl, hat, hsec, htag⟩ := ha.of_data (.inr hs)
  cases hf : E.evformat with
  | basic =>
      have hf' : E.guardNames.evformat = .basic := hf
      refine .inr ⟨fun hbad => ?_, by simp only [fire, hf, hf', trans08Basic_guardNames]⟩
      cases hbad with
      | counters hread =>
          rw [hread.evformat] at hf
          cases hf
      | detector _ hlog => simp [complains, hf] at hlog
  | tag =>
      have hf' : E.guardNames.evformat = .tag := hf
      unfold Checked
      simp only [fire, hf, hf', hat.trans08Tag_guardNames hp hsec (htag hs hf) (hn hs) htakes.1]
      split
      · rename_i hbad
        left
        refine ⟨?_, rfl⟩
        obtain ⟨hdone, hlen, ⟨hcounters, hmany⟩ | ⟨hwav, hold, hdet⟩⟩ := hbad
        · exact .counters ⟨hf, htakes, hdone, hlen, hcounters⟩ hmany
        · exact .detector htakes (by simp [complains, hf, hdone, hlen, hwav, hold]) hdet
      · rename_i hgood
        right
        refine ⟨fun hbad => hgood ?_, rfl⟩
        cases hbad with
        | counters hread hmany =>
            exact ⟨hread.tagDone, hread.wflenDone, .inl ⟨hread.tag, hmany⟩⟩
        | detector _ hlog hdet =>
            simp only [complains, Bool.and_eq_true, beq_iff_eq, Bool.not_eq_true',
              List.isEmpty_eq_false_iff] at hlog
            obtain ⟨⟨⟨⟨_, hdone⟩, hlen⟩, hwav⟩, hold⟩ := hlog
            exact ⟨hdone, hlen, .inr ⟨hwav, hold, hdet⟩⟩

theorem checked_end (hp : E.PastTotal) (hn : c.stateId = .s5 → (c.ev.getHit c.hit).Named)
    (htakes : c.Takes E w tr) (htr : tr ∈ [.t09, .t10, .t11]) : Checked E c w tr := by
  have hs : c.stateId = .s5 := by
    have hstate := ttable_eq htakes.2.2
    simp only [List.mem_cons, List.not_mem_nil, or_false] at htr
    rcases htr with rfl | rfl | rfl <;> exact hstate.1
  have hcomplains : c.complains E tr = (E.evformat == .basic && c.lengthsDiffer) := by
    simp only [List.mem_cons, List.not_mem_nil, or_false] at htr
    rcases htr with rfl | rfl | rfl <;> rfl
  have honly (hbad : NamesPast E c w tr) : c.complains E tr = true ∧ 4 ≤ c.detid := by
    cases hbad with
    | detector _ hlog hdet => exact ⟨hlog, hdet⟩
    | counters | triggers => simp at htr
  cases hf : E.evformat with
  | tag =>
      refine .inr ⟨fun hbad => ?_, ?_⟩
      · have hlog := (honly hbad).1
        rw [hcomplains, hf] at hlog
        simp at hlog
      · have hf' : E.guardNames.evformat = .tag := hf
        simp only [List.mem_cons, List.not_mem_nil, or_false] at htr
        rcases htr with rfl | rfl | rfl
        · simp only [fire, hf, hf']
          rfl
        · simp only [fire, hf, hf']
        · simp only [fire, hf, hf']
  | basic =>
      unfold Checked
      rw [fire_end_guardNames hp hf (hn hs) htr]
      by_cases hbad : c.lengthsDiffer = true ∧ 4 ≤ c.detid
      · rw [if_pos hbad]
        exact .inl ⟨.detector htakes (by rw [hcomplains, hf, hbad.1]; rfl) hbad.2, rfl⟩
      · rw [if_neg hbad]
        refine .inr ⟨fun hpast => hbad ?_, rfl⟩
        obtain ⟨hlog, hdet⟩ := honly hpast
        rw [hcomplains, hf] at hlog
        exact ⟨by simpa using hlog, hdet⟩

theorem checked_blk (htakes : c.Takes E w .t16) : Checked E c w .t16 := by
  by_cases hbad : ∃ j id, c.ReadsBlock E w ∧
      (triggerWaveform (c.ev.getBlk c.blk)).sample[3 * j]? = some id ∧ Unnamed id
  · obtain ⟨j, id, hread, hid, hnone⟩ := hbad
    refine .inl ⟨.triggers hread hid hnone, ?_⟩
    simp only [fire, trans16_guardNames_none hread hid hnone, Option.map_none]
  · refine .inr ⟨fun hpast => ?_, ?_⟩
    · cases hpast with
      | triggers hread hid hnone => exact hbad ⟨_, _, hread, hid, hnone⟩
      | detector _ hlog => simp [complains] at hlog
    · have hsame := trans16_guardNames htakes fun hread j id hid hnone =>
        hbad ⟨j, id, hread, hid, hnone⟩
      simp only [fire, hsame]

theorem checked (hp : E.PastTotal) {σ : Site} (ha : c.At E σ)
    (hn : c.stateId = .s5 → (c.ev.getHit c.hit).Named) (htakes : c.Takes E w tr) :
    Checked E c w tr := by
  by_cases hdata : tr = .t08
  · subst hdata
    exact checked_data hp ha hn htakes
  by_cases hend : tr ∈ [.t09, .t10, .t11]
  · exact checked_end hp hn htakes hend
  by_cases hblk : tr = .t16
  · subst hblk
    exact checked_blk htakes
  · refine .inr ⟨fun hbad => ?_, ?_⟩
    · cases hbad with
      | counters => exact hdata rfl
      | triggers => exact hblk rfl
      | detector _ hlog => cases tr <;> simp_all [complains]
    · cases tr <;> first | rfl | simp_all

/-! ## The run -/

theorem sectionHit_named (fmt : Format) (ec : Option UInt32) (last : FzHit) (w : Word) :
    (sectionHit fmt ec last w).Named := ⟨checkFeeid_lt _, checkTelid_lt _⟩

theorem telescopeHit_named (ec : Option UInt32) (w : Word) : (telescopeHit ec w).Named :=
  ⟨checkFeeid_lt _, checkTelid_lt _⟩

/-- The hit at a site has its names. -/
def SiteNamed : Site → Prop
  | .hit _ _ _ h | .data _ _ _ h _ => h.Named
  | _ => True

theorem SiteNamed.step {fmt : Format} {σ σ' : Site} (hn : SiteNamed σ)
    (hstep : Site.Step fmt s t w tr σ σ') : SiteNamed σ' := by
  cases hstep with
  | t03 | t10 => exact telescopeHit_named _ _
  | t04 | t05Dettag | t05Trigpat | t06 => exact ⟨hn.feeid, hn.telid⟩
  | t07 | t08 => exact hn
  | t09 => exact sectionHit_named _ _ _ _
  | _ => trivial

theorem visits_named (hE : E.Carries ch) (hc : E.loop.Visits (E.entry s) c) :
    ∃ σ, c.At E σ ∧ (c.stateId = .s5 → (c.ev.getHit c.hit).Named) := by
  obtain ⟨σ, ha, hn⟩ := visits_site hE (fun _ σ => SiteNamed σ) trivial (fun _ _ _ _ hn => hn)
    (fun _ _ _ _ _ _ _ _ _ _ _ hstep hn => hn.step hstep) hc
  refine ⟨σ, ha, fun hs => ?_⟩
  obtain ⟨bs, b, r, h, D, rfl, hat, _⟩ := ha.of_data (.inr hs)
  rw [hat.1.getHit]
  exact ⟨hn.feeid, hn.telid⟩

theorem turn_guardNames (hE : E.Carries ch) (hp : E.PastTotal)
    (hc : E.loop.Visits (E.entry s) c) (htakes : c.Takes E w tr) :
    (NamesPast E c w tr ∧ c.turn E.guardNames = none) ∨
      (¬ NamesPast E c w tr ∧ c.turn E.guardNames = c.turn E) := by
  have htakes' : c.Takes E.guardNames w tr := htakes
  obtain ⟨σ, ha, hn⟩ := visits_named hE hc
  rw [turn_of_takes htakes, turn_of_takes htakes']
  rcases checked hp ha hn htakes with ⟨hbad, hnone⟩ | ⟨hgood, hsame⟩
  · exact .inl ⟨hbad, by rw [hnone]; rfl⟩
  · exact .inr ⟨hgood, by rw [hsame]⟩

/-- In a call no index into a name table is behind its end, exactly if a TAG_RB_COUNTERS
record announces seventeen counters at most, the blocks of trigger infos that are read have no
id of 0x200 or more whose low byte is 4, and no message says of a hit with a detector from 4 on
that its section has a wrong length. -/
theorem names_inRange_iff (ch : Chunk) (fmt : Format) (past : Chunk.Past) (behind : Nat → Word)
    (s : Fsm) :
    let E := ch.envIn fmt past behind
    ¬ E.guardNames.loop.Faults (E.guardNames.entry s) ↔
      (∀ c w, E.loop.Visits (E.entry s) c → c.ReadsRecord E w TAG_RB_COUNTERS →
        c.rdWflen.toNat ≤ 17) ∧
      (∀ c w, E.loop.Visits (E.entry s) c → c.ReadsBlock E w → ∀ j id,
        (triggerWaveform (c.ev.getBlk c.blk)).sample[3 * j]? = some id →
          ¬ (0x200 ≤ id ∧ id % 256 = 4)) ∧
      ∀ c w tr, E.loop.Visits (E.entry s) c → c.Takes E w tr → c.complains E tr = true →
        c.detid ≤ 3 := by
  intro E
  have hE : E.Carries ch := ch.envIn_carries fmt past behind
  have hp : E.PastTotal := ch.envIn_pastTotal fmt past behind
  have hmem : ∀ k, (E.event k).isSome := fun _ => rfl
  have hturn (c : Fsm) (w : Word) (tr : Trans) (hc : E.loop.Visits (E.entry s) c)
      (htakes : c.Takes E w tr) : NamesPast E c w tr ∧ c.turn E.guardNames = none ∨
        ¬ NamesPast E c w tr ∧ c.turn E.guardNames = c.turn E := turn_guardNames hE hp hc htakes
  have hentry : E.guardNames.entry s = E.entry s := rfl
  rw [hentry, not_faults_iff_of_checks (G := E.guardNames) hE hp hmem rfl rfl hturn]
  constructor
  · intro hgood
    refine ⟨fun c w hc hread => ?_, fun c w hc hread j id hid hbad => ?_,
      fun c w tr hc htakes hlog => ?_⟩
    · by_contra hmany
      exact hgood c w .t08 hc hread.takes (.counters hread (Nat.lt_of_not_le hmany))
    · exact hgood c w .t16 hc hread.takes (.triggers hread hid hbad)
    · by_contra hdet
      exact hgood c w tr hc htakes (.detector htakes hlog (Nat.lt_of_not_le hdet))
  · rintro ⟨hcounters, htriggers, hdetector⟩ c w tr hc htakes hbad
    cases hbad with
    | counters hread hmany => exact absurd (hcounters c w hc hread) (Nat.not_le_of_lt hmany)
    | triggers hread hid hnone => exact htriggers c w hc hread _ _ hid hnone
    | detector _ hlog hdet =>
        exact absurd (hdetector c w tr hc htakes hlog) (Nat.not_le_of_lt hdet)

/-- A TAG_RB_COUNTERS record with eighteen counters. -/
def eighteenCounters : Chunk where
  body := [0xE001, 0x9800, 1, 2, 3, 0x9000, 0x7100, 18, 0, 1, 2, 3, 4, 5, 6, 7, 8, 9, 10, 11, 12,
    13, 14, 15, 16, 17, 0xA018, 0xB000]
  regid := 0xC800
  regid_id := getwordId_c800
  body_id := Chunk.ne_regid_of_all rfl

/-- The last counter has no name. -/
theorem eighteenCounters_faults :
    (eighteenCounters.envIn .tag .zero fun _ => 0).guardNames.loop.Faults
      ((eighteenCounters.envIn .tag .zero fun _ => 0).guardNames.entry {}) := by
  obtain ⟨c, hrun⟩ : ∃ c, (eighteenCounters.envIn .tag .zero fun _ => 0).guardNames.loop.run 9
    ((eighteenCounters.envIn .tag .zero fun _ => 0).guardNames.entry {}) = .fault c := ⟨_, rfl⟩
  exact Loop.faults_of_run hrun

end Fsm

end FzDaq.Parser
