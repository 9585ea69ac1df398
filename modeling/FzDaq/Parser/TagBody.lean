import FzDaq.Parser.Nesting
import FzDaq.Parser.Records

/-!
# Reading the tag format

A record is read in three turns, and the triples of a section go from one place where
a tag is expected to the next. A waveform without samples is left behind with its
payload still expected; the next word makes up for it.
-/

namespace FzDaq.Parser

open Machine Wire

namespace Fsm

variable {E : Env} {s t u : Fsm} {w : Word} {ec : UInt32} {Bs : List FzBlock} {B : FzBlock}
  {R : FzFee} {H : FzHit} {D D' : FzData} {tg : Word}

/-! ## Places in a section -/

/-- A tag is expected, and not for the first time. -/
structure AtTag (E : Env) (ec : UInt32) (Bs : List FzBlock) (B : FzBlock) (R : FzFee) (H : FzHit)
    (D : FzData) (s : Fsm) : Prop where
  shows : s.Shows E ec .s5 (.data Bs B R H D)
  tagDone : s.tagDone = false
  wflenDone : s.wflenDone = false

/-- A length word is expected. -/
structure AtLength (E : Env) (ec : UInt32) (Bs : List FzBlock) (B : FzBlock) (R : FzFee)
    (H : FzHit) (D : FzData) (tg : Word) (s : Fsm) : Prop where
  shows : s.Shows E ec .s5 (.data Bs B R H D)
  tagDone : s.tagDone = true
  wflenDone : s.wflenDone = false
  tag : s.tag = tg

/-- The payload of a record with the length word `n` is expected. -/
structure AtPayload (E : Env) (ec : UInt32) (Bs : List FzBlock) (B : FzBlock) (R : FzFee)
    (H : FzHit) (D : FzData) (tg n : Word) (s : Fsm) : Prop where
  shows : s.Shows E ec .s5 (.data Bs B R H D)
  tagDone : s.tagDone = true
  wflenDone : s.wflenDone = true
  tag : s.tag = tg
  rdWflen : s.rdWflen = n
  moved : 0 < s.eventIndex

/-- A waveform without samples is left where its payload would stand. -/
def Unfinished (E : Env) (ec : UInt32) (Bs : List FzBlock) (B : FzBlock) (R : FzFee) (H : FzHit)
    (D : FzData) (s : Fsm) : Prop :=
  s.AtPayload E ec Bs B R H D TAG_WAVEFORM 0 ∧ ∃ wf, D.waveform = some wf ∧ wf.sample = []

/-- Behind a record. -/
def Between (E : Env) (ec : UInt32) (Bs : List FzBlock) (B : FzBlock) (R : FzFee) (H : FzHit)
    (D : FzData) (s : Fsm) : Prop :=
  s.AtTag E ec Bs B R H D ∨ s.Unfinished E ec Bs B R H D

/-- Before a record. -/
def Ready (E : Env) (ec : UInt32) (Bs : List FzBlock) (B : FzBlock) (R : FzFee) (H : FzHit)
    (D : FzData) (s : Fsm) : Prop :=
  s.Shows E ec .s4 (.data Bs B R H D) ∨ s.Between E ec Bs B R H D

/-! ## Tags -/

theorem tagData_content (d : FzData) (w : Word) :
    (tagData d w).content = (tagData d.content w).content := by
  unfold tagData
  cases d with
  | mk type energy waveform =>
      cases energy <;> cases waveform <;> split_ifs <;> simp_all [FzData.content] <;> rfl

/-- The content that a tag opens a waveform in. -/
theorem tagData_waveform (hD : D.content = D) (hw : w = TAG_PRETRIGGER ∨ w = TAG_WAVEFORM) :
    (tagData D w).content = { D with waveform := some (D.waveform.getD {}) } := by
  rw [tagData, if_pos hw]
  cases hwf : D.waveform with
  | none =>
      conv_rhs => rw [← hD]
      simp [FzData.content, Waveform.content]
  | some wf =>
      rw [if_neg (by simp), hD, Option.getD_some, ← hwf]

theorem tagData_energy (hD : D.content = D) (hw : w = TAG_SLOW ∨ w = TAG_FAST) :
    (tagData D w).content = { D with energy := some (D.energy.getD {}) } := by
  have hnot : ¬ (w = TAG_PRETRIGGER ∨ w = TAG_WAVEFORM) := by
    rcases hw with rfl | rfl <;> decide
  rw [tagData, if_neg hnot, if_pos hw]
  cases D with
  | mk type energy waveform =>
      cases energy <;> simp_all [FzData.content, Energy.content]

theorem Shows.readTag {st : FsmState} (hf : E.evformat = .tag)
    (hs : s.Shows E ec st (.data Bs B R H D)) (w : Word) :
    { s.readTag w with stateId := .s5 }.advance.Shows E ec .s5
      (.data Bs B R H (tagData D w).content) := by
  obtain ⟨bs, b, r, h, d, hat, hsec, _, rfl, rfl, rfl, rfl, rfl⟩ := hs.of_data
  obtain ⟨hat', hsec'⟩ := hat.readTag hsec hf w
  have hframe := (readTag_frame (s := s) (w := w)).1
  refine hs.moved rfl hframe.tmpEc hframe.ec (readTag_quiet s w).1
    (.data (.inr rfl) hat' hsec' fun _ _ => readTag_tagged s d w) ?_
  rw [Site.content, tagData_content]

/-- One turn where a tag is expected, by the transition of the first word or of a later one. -/
theorem tag_turn (hf : E.evformat = .tag)
    (hs : s.Shows E ec .s4 (.data Bs B R H D) ∨ s.AtTag E ec Bs B R H D) (w : Data)
    (hw : E.event s.eventIndex = some w.1) (hsize : s.eventIndex < E.eventSize) :
    ∃ u, E.loop.Next s u ∧ u.eventIndex = s.eventIndex + 1 ∧
      u.Shows E ec .s5 (.data Bs B R H (tagData D w.1).content) ∧ u.tag = w.1 ∧
      u.tagDone = decide (w.1 ≠ TAG_VOID) ∧ u.wflenDone = false := by
  have hturn (c : Fsm) (hidx : c.eventIndex = s.eventIndex) (htag : c.tagDone = false)
      (hlen : c.wflenDone = false) (tr : Trans) (htakes : s.Takes E w.1 tr)
      (hfire : s.fire E tr w.1 = some { c.readTag w.1 with stateId := .s5 })
      (hc : ∃ st, c.Shows E ec st (.data Bs B R H D)) :
      ∃ u, E.loop.Next s u ∧ u.eventIndex = s.eventIndex + 1 ∧
        u.Shows E ec .s5 (.data Bs B R H (tagData D w.1).content) ∧ u.tag = w.1 ∧
        u.tagDone = decide (w.1 ≠ TAG_VOID) ∧ u.wflenDone = false := by
    obtain ⟨st, hc⟩ := hc
    refine ⟨_, htakes.next (not_halted hsize) hfire,
      congrArg (· + 1) (readTag_frame.2.trans hidx), hc.readTag hf w.1, (readTag_flags c w.1).1, ?_,
      (readTag_quiet c w.1).2.trans hlen⟩
    exact (readTag_flags c w.1).2.trans (by rw [htag, Bool.false_or])
  rcases hs with hshows | ⟨hshows, htag, hlen⟩
  · refine hturn (({ s with tagDone := false, wflenDone := false, rdWflen := 0 }.updateBlk
      w.1).updateFee w.1) rfl rfl rfl .t07 (.of_kind hw (getwordId_data w) hshows.state nofun) ?_
      ⟨.s4, (hshows.reflag fun _ => rfl).counted w.1⟩
    simp only [fire, hf]
    rfl
  · refine hturn ((s.updateBlk w.1).updateFee w.1) rfl htag hlen .t08
      (.of_kind hw (getwordId_data w) hshows.state nofun) ?_ ⟨.s5, hshows.counted w.1⟩
    simp only [fire, hf, trans08Tag_eq, htag]
    rfl

/-! ## Payloads -/

theorem AtPayload.turn {n : Word} (hf : E.evformat = .tag)
    (hs : s.AtPayload E ec Bs B R H D tg n) (w : Data)
    (hw : E.event s.eventIndex = some w.1) (hsize : s.eventIndex < E.eventSize)
    (hu : ((s.updateBlk w.1).updateFee w.1).readRecord E w.1 = some u)
    (hshows : u.Shows E ec .s5 (.data Bs B R H D'))
    (hwav : tg = TAG_WAVEFORM → ∃ wf, D'.waveform = some wf ∧ wf.sample.length = n.toNat) :
    ∃ t, E.loop.Next s t ∧ t.eventIndex = u.eventIndex + 1 ∧ t.AtTag E ec Bs B R H D' := by
  have hflags : u.toFlags = s.toFlags :=
    (readRecord_frame (s := (s.updateBlk w.1).updateFee w.1) hw hu).2
  have htag : u.tag = tg := (congrArg Flags.tag hflags).trans hs.tag
  have hlen : u.rdWflen = n := (congrArg Flags.rdWflen hflags).trans hs.rdWflen
  obtain ⟨v, hv, hidx, hvshows⟩ : ∃ v,
      (if u.tag = TAG_WAVEFORM then u.verifyWaveform E else some u) = some v ∧
        v.eventIndex = u.eventIndex ∧ v.Shows E ec .s5 (.data Bs B R H D') := by
    by_cases hwave : tg = TAG_WAVEFORM
    · obtain ⟨wf, hwf, hcount⟩ := hwav hwave
      obtain ⟨v, hv, hrest⟩ := hshows.verifyWaveform hwf (by rw [hcount, hlen])
      exact ⟨v, by rw [if_pos (htag.trans hwave), hv], hrest⟩
    · exact ⟨u, if_neg (by rw [htag]; exact hwave), rfl, hshows⟩
  have hfire : s.fire E .t08 w.1 = some { v with
      tagDone := false, wflenDone := false, rdWflen := 0, stateId := .s5 } := by
    have ht : s.trans08Tag E w.1 =
        some { v with tagDone := false, wflenDone := false, rdWflen := 0 } := by
      rw [trans08Tag_eq, hs.tagDone, hs.wflenDone]
      simp [hu, hv]
    simp [fire, hf, ht]
  have htakes : s.Takes E w.1 .t08 :=
    .of_kind hw (getwordId_data w) hs.shows.state (by decide)
  refine ⟨_, htakes.next (not_halted hsize) hfire, congrArg (· + 1) hidx, ?_, rfl, rfl⟩
  have hreset := hvshows.reflag (f := { v.toFlags with
    tagDone := false, wflenDone := false, rdWflen := 0 }) fun _ => rfl
  exact hreset.congr rfl rfl hreset.state.symm rfl rfl

/-- The word behind a waveform without samples is met twice, first as the payload. -/
theorem Between.atTag (hf : E.evformat = .tag) (hs : s.Between E ec Bs B R H D) (w : Data)
    (hw : E.event s.eventIndex = some w.1) (hsize : s.eventIndex < E.eventSize) :
    ∃ t, E.loop.Reaches s t ∧ t.eventIndex = s.eventIndex ∧ t.AtTag E ec Bs B R H D := by
  rcases hs with hs | ⟨hs, wf, hwf, hsample⟩
  · exact ⟨s, Loop.Reaches.refl s, rfl, hs⟩
  · have hcounted := hs.shows.counted w.1
    obtain ⟨t, hnext, hidx, ht⟩ := hs.turn hf w hw hsize
      (readRecord_waveform_zero (s := (s.updateBlk w.1).updateFee w.1) hs.tag hs.rdWflen)
      (hcounted.congr rfl rfl rfl rfl rfl) fun _ => ⟨wf, hwf, by simp [hsample]⟩
    refine ⟨t, hnext.reaches, hidx.trans ?_, ht⟩
    change s.eventIndex - 1 + 1 = s.eventIndex
    have := hs.moved
    omega

/-! ## Triples -/

theorem reads_word_tag (hf : E.evformat = .tag) (w : Data) (N : List Word → Prop) :
    E.scanner.Reads (Ready E ec Bs B R H D) [w.1] N (fun u =>
      u.Shows E ec .s5 (.data Bs B R H (tagData D w.1).content) ∧ u.tag = w.1 ∧
        u.tagDone = decide (w.1 ≠ TAG_VOID) ∧ u.wflenDone = false) := by
  intro s rest hs _ hhas
  obtain ⟨t, hst, hidx, ht⟩ : ∃ t, E.loop.Reaches s t ∧ t.eventIndex = s.eventIndex ∧
      (t.Shows E ec .s4 (.data Bs B R H D) ∨ t.AtTag E ec Bs B R H D) := by
    rcases hs with hs | hs
    · exact ⟨s, Loop.Reaches.refl s, rfl, .inl hs⟩
    · obtain ⟨t, hst, hidx, ht⟩ := hs.atTag hf w hhas.1 hhas.2.1
      exact ⟨t, hst, hidx, .inr ht⟩
  obtain ⟨u, hnext, hidx', hu⟩ :=
    tag_turn hf ht w (by rw [hidx]; exact hhas.1) (by rw [hidx]; exact hhas.2.1)
  exact ⟨u, hst.trans hnext.reaches, hidx'.trans (congrArg (· + 1) hidx), hu⟩

theorem reads_void (hf : E.evformat = .tag) (hD : D.content = D) (N : List Word → Prop) :
    E.scanner.Reads (Ready E ec Bs B R H D) [TAG_VOID] N (Between E ec Bs B R H D) := by
  refine (reads_word_tag hf ⟨TAG_VOID, by decide⟩ N).consequence (fun _ h => h)
    fun s ⟨hshows, _, hdone, hlen⟩ => .inl ⟨?_, hdone, hlen⟩
  rwa [show tagData D TAG_VOID = D from rfl, hD] at hshows

theorem reads_tag (hf : E.evformat = .tag) (w : Data) (hw : w.1 ≠ TAG_VOID)
    (N : List Word → Prop) :
    E.scanner.Reads (Ready E ec Bs B R H D) [w.1] N
      (AtLength E ec Bs B R H (tagData D w.1).content w.1) :=
  (reads_word_tag hf w N).consequence (fun _ h => h) fun s ⟨hshows, htag, hdone, hlen⟩ =>
    ⟨hshows, hdone.trans (by simp [hw]), hlen, htag⟩

theorem reads_length_word (hf : E.evformat = .tag) (n : Data) (N : List Word → Prop) :
    E.scanner.Reads (AtLength E ec Bs B R H D tg) [n.1] N
      (AtPayload E ec Bs B R H D tg n.1) := by
  refine reads_word fun s hs hw => ?_
  obtain ⟨bs, b, r, h, d, hat, hsec, htag, rfl, rfl, rfl, rfl, rfl⟩ := hs.shows.of_data
  have hfire : s.fire E .t08 n.1 = some { (s.updateBlk n.1).updateFee n.1 with
      rdWflen := n.1, wflenDone := true, stateId := .s5 } := by
    simp [fire, hf, trans08Tag_eq, hs.tagDone, hs.wflenDone]
  exact ⟨.t08, _, .of_kind hw (getwordId_data n) hs.shows.state (by decide), hfire, rfl,
    ⟨hs.shows.moved rfl rfl rfl rfl (.data (.inr rfl) hat ⟨hsec.wf, hsec.en, hsec.basic⟩
      fun _ _ => htag hs.shows.state hf) rfl, hs.tagDone, rfl, hs.tag, rfl, Nat.succ_pos _⟩⟩

/-- The payload of a record. It may look at the word behind it. -/
theorem reads_payload (hf : E.evformat = .tag) {n : Word} (p : Data) (ps : List Word)
    (hread : ∀ (c : Fsm) (rest : List Word), c.Shows E ec .s5 (.data Bs B R H D) → c.tag = tg →
      c.rdWflen = n → rest ≠ [] → E.Reads c.eventIndex (p.1 :: ps ++ rest) →
      ∃ u, c.readRecord E p.1 = some u ∧ u.eventIndex = c.eventIndex + ps.length ∧
        u.Shows E ec .s5 (.data Bs B R H D'))
    (hwav : tg = TAG_WAVEFORM → ∃ wf, D'.waveform = some wf ∧ wf.sample.length = n.toNat) :
    E.scanner.Reads (AtPayload E ec Bs B R H D tg n) (p.1 :: ps) (fun rest => rest ≠ [])
      (Between E ec Bs B R H D') := by
  intro s rest hs hrest hhas
  obtain ⟨u, hu, hidx, hshows⟩ := hread ((s.updateBlk p.1).updateFee p.1) rest
    (hs.shows.counted p.1) hs.tag hs.rdWflen hrest (Env.reads_of_has hhas)
  obtain ⟨t, hnext, hidx', ht⟩ := hs.turn hf p hhas.1 hhas.2.1 hu hshows hwav
  refine ⟨t, hnext.reaches, ?_, .inl ht⟩
  change t.eventIndex = s.eventIndex + (ps.length + 1)
  rw [hidx', hidx, ← Nat.add_assoc]
  rfl

/-! ## Records -/

theorem reads_pretrigger (hf : E.evformat = .tag) (hD : D.content = D) (len p : Data) :
    E.scanner.Reads (Ready E ec Bs B R H D) (Record.pretrigger len p).words (fun rest => rest ≠ [])
      (Between E ec Bs B R H ((Record.pretrigger len p).fill E.numbers D)) := by
  have htag : E.scanner.Reads (Ready E ec Bs B R H D) [TAG_PRETRIGGER] (fun _ => True)
      (AtLength E ec Bs B R H { D with waveform := some (D.waveform.getD {}) } TAG_PRETRIGGER) := by
    rw [← tagData_waveform hD (.inl rfl)]
    exact reads_tag hf ⟨TAG_PRETRIGGER, by decide⟩ (by decide) _
  refine htag.cons ((reads_length_word hf len _).cons (reads_payload hf p [] ?_ ?_))
  · intro c rest hs htag _ _ _
    refine ⟨c.onWf fun wf => { wf with pretrig := some p.1.toUInt32 }, ?_, rfl,
      hs.fillWf rfl (fun wf => { wf with pretrig := some p.1.toUInt32 }) fun _ => rfl⟩
    rw [readRecord, if_pos htag]
  · intro hwav
    cases hwav

theorem reads_baseline (hf : E.evformat = .tag) (hD : D.content = D) (len first second : Data) :
    E.scanner.Reads (Ready E ec Bs B R H D) (Record.baseline len first second).words
      (fun rest => rest ≠ [])
      (Between E ec Bs B R H ((Record.baseline len first second).fill E.numbers D)) := by
  have htag : E.scanner.Reads (Ready E ec Bs B R H D) [TAG_BASELINE] (fun _ => True)
      (AtLength E ec Bs B R H D TAG_BASELINE) := by
    conv => rhs; rw [← hD]
    exact reads_tag hf ⟨TAG_BASELINE, by decide⟩ (by decide) _
  refine htag.cons ((reads_length_word hf len _).cons (reads_payload hf first [second.1] ?_ ?_))
  · intro c rest hs htag _ _ hreads
    have hnext := nextEventWord_eq_some.2 ⟨hreads.2.1, rfl⟩
    refine ⟨{ c.movedOver [second.1] with ev := c.ev.modData c.d fun d =>
      { d with baseline := some (baselineOf first.1 second.1) } }, ?_, rfl, ?_⟩
    · rw [readRecord, if_neg (by rw [htag]; decide), if_neg (by rw [htag]; decide),
        if_neg (by rw [htag]; decide), if_neg (by rw [htag]; decide), if_pos htag, hnext]
      rfl
    · obtain ⟨bs, b, r, h, d, hat, hsec, htagged, rfl, rfl, rfl, rfl, rfl⟩ := hs.of_data
      have hset := hat.modData fun d => { d with baseline := some (baselineOf first.1 second.1) }
      exact ⟨hs.state, hs.tmpEc, hs.ec, hs.trinfo, _, .data (.inr hs.state) hset
        ⟨hsec.wf, hsec.en, hsec.basic⟩ htagged, rfl⟩
  · intro hwav
    cases hwav

/-- The turns of the gathering loop and the step back. -/
theorem reads_waveform (hf : E.evformat = .tag) (hD : D.content = D) (xs : Samples)
    (hfit : (D.waveform.getD {}).sample = []) :
    E.scanner.Reads (Ready E ec Bs B R H D) (Record.waveform xs).words (fun rest => rest ≠ [])
      (Between E ec Bs B R H ((Record.waveform xs).fill E.numbers D)) := by
  have htag : E.scanner.Reads (Ready E ec Bs B R H D) [TAG_WAVEFORM] (fun _ => True)
      (AtLength E ec Bs B R H { D with waveform := some (D.waveform.getD {}) } TAG_WAVEFORM) := by
    rw [← tagData_waveform hD (.inr rfl)]
    exact reads_tag hf ⟨TAG_WAVEFORM, by decide⟩ (by decide) _
  refine htag.cons ?_
  have hlength (N : List Word → Prop) : E.scanner.Reads
      (AtLength E ec Bs B R H { D with waveform := some (D.waveform.getD {}) } TAG_WAVEFORM)
      [xs.count.1] N
      (AtPayload E ec Bs B R H { D with waveform := some (D.waveform.getD {}) } TAG_WAVEFORM
        xs.count.1) := reads_length_word hf xs.count N
  cases hxs : xs.list with
  | nil =>
      have hwords : xs.words = [] := by rw [Samples.words, hxs]; rfl
      have hcount : xs.count.1 = 0 := by
        rw [← UInt16.toNat_inj, xs.count_toNat, hxs]
        rfl
      have hfill : (Record.waveform xs).fill E.numbers D =
          { D with waveform := some (D.waveform.getD {}) } := by
        simp [Record.fill, Samples.values, hwords]
      rw [hwords, hfill]
      refine (hlength _).consequence (fun _ h => h) fun s hs => .inr ⟨?_, _, rfl, hfit⟩
      rwa [hcount] at hs
  | cons p ps =>
      have hwords : xs.words = p.1 :: ps.map (·.1) := by rw [Samples.words, hxs]; rfl
      have hcount : xs.count.1.toNat = ps.length + 1 := by
        rw [xs.count_toNat, hxs]
        rfl
      rw [hwords]
      refine (hlength _).cons (reads_payload hf p (ps.map (·.1)) ?_ ?_)
      · intro c rest hs htag hlen hrest hreads
        obtain ⟨stop, rest, rfl⟩ := List.exists_cons_of_ne_nil hrest
        have hstop : E.Reads (c.eventIndex + 1) (ps.map (·.1) ++ [stop]) := by
          have hall : E.Reads (c.eventIndex + 1) (ps.map (·.1) ++ ([stop] ++ rest)) := hreads.2
          rw [← List.append_assoc] at hall
          exact (Env.reads_append.1 hall).1
        refine ⟨c.waveformRead p.1 (ps.map (·.1)),
          (readRecord_waveform_succ htag (by rw [hlen, hcount]) hreads.1).2
            ⟨_, stop, by simp, hstop, rfl⟩, rfl, ?_⟩
        have hfill := hs.fillWf rfl
          (fun wf => { wf with sample := wf.sample ++ xs.values }) fun _ => rfl
        refine hfill.congr rfl rfl rfl ?_ rfl
        rw [Samples.values, hwords]
        rfl
      · exact fun _ => ⟨_, rfl, by simp [hfit, hcount, hxs]⟩

theorem Shows.readEnergy {st : FsmState} (hs : s.Shows E ec st (.data Bs B R H D)) {en : Energy}
    (hen : D.energy = some en) {k : Nat} (hk : en.value.length = k) {high low : Word}
    (hreads : E.Reads (s.eventIndex + 1) [high, low]) :
    ∃ u, s.readEnergy E w k = some u ∧
      u.eventIndex = s.eventIndex + 2 ∧
      u.Shows E ec st (.data Bs B R H { D with energy := some { en with
        value := en.value ++ [E.numbers.units w high low] } }) := by
  subst hk
  obtain ⟨hhigh, hlow, -⟩ := hreads
  have h₁ : s.nextEventWord E = some (high, s.movedOver [high]) :=
    nextEventWord_eq_some.2 ⟨hhigh, rfl⟩
  have hmoved : (s.movedOver [high]).Shows E ec st (.data Bs B R H D) :=
    hs.congr rfl rfl rfl rfl rfl
  have hs₁ := hmoved.addValue hen high.toUInt32
  have h₂ : ((s.movedOver [high]).addValue high.toUInt32).nextEventWord E =
      some (low, ((s.movedOver [high]).addValue high.toUInt32).movedOver [low]) :=
    nextEventWord_eq_some.2 ⟨hlow, rfl⟩
  obtain ⟨u, hu, hidx, _, hus⟩ := Shows.modLast
    (s := ((s.movedOver [high]).addValue high.toUInt32).movedOver [low])
    (hs₁.congr rfl rfl rfl rfl rfl) en rfl fun v => (v <<< 15) + low.toUInt32
  obtain ⟨t, ht, hidx', _, hts⟩ := hus.modLast en rfl fun v => E.scaleEnergy v w
  exact ⟨t, by simp [Fsm.readEnergy, h₁, h₂, hu, ht], hidx'.trans hidx, hts⟩

/-- The records of the energies, which differ in the value that they write. -/
theorem reads_energy (hf : E.evformat = .tag) (hD : D.content = D) (tg : Data) {k : Nat}
    (htg : tg.1 = TAG_SLOW ∧ k = 0 ∨ tg.1 = TAG_FAST ∧ k = 1)
    (hk : (D.energy.getD {}).value.length = k) (len risetime high low : Data) :
    E.scanner.Reads (Ready E ec Bs B R H D) [tg.1, len.1, risetime.1, high.1, low.1]
      (fun rest => rest ≠ [])
      (Between E ec Bs B R H ((Record.slow len risetime high low).fill E.numbers D)) := by
  have hvoid : tg.1 ≠ TAG_VOID := by
    rcases htg with ⟨htg, _⟩ | ⟨htg, _⟩ <;> rw [htg] <;> decide
  have htag : E.scanner.Reads (Ready E ec Bs B R H D) [tg.1] (fun _ => True)
      (AtLength E ec Bs B R H { D with energy := some (D.energy.getD {}) } tg.1) := by
    rw [← tagData_energy hD (htg.imp And.left And.left)]
    exact reads_tag hf tg hvoid _
  refine htag.cons ((reads_length_word hf len _).cons
    (reads_payload hf risetime [high.1, low.1] ?_ ?_))
  · intro c rest hs htag _ _ hreads
    obtain ⟨u, hu, hidx, hus⟩ := hs.readEnergy rfl hk (w := risetime.1)
      ⟨hreads.2.1, hreads.2.2.1, trivial⟩
    refine ⟨u, ?_, hidx, hus⟩
    rcases htg with ⟨htg, rfl⟩ | ⟨htg, rfl⟩
    · exact (readRecord_slow (htag.trans htg)).trans hu
    · exact (readRecord_fast (htag.trans htg)).trans hu
  · intro hwav
    rcases htg with ⟨htg, _⟩ | ⟨htg, _⟩ <;> rw [htg] at hwav <;> cases hwav

theorem reads_record (hf : E.evformat = .tag) (hD : D.content = D) (x : Record) (hx : x.Fits D) :
    E.scanner.Reads (Ready E ec Bs B R H D) x.words (fun rest => rest ≠ [])
      (Between E ec Bs B R H (x.fill E.numbers D)) := by
  cases x with
  | void => exact reads_void hf hD _
  | pretrigger len p => exact reads_pretrigger hf hD len p
  | waveform xs => exact reads_waveform hf hD xs hx
  | baseline len first second => exact reads_baseline hf hD len first second
  | slow len risetime high low =>
      exact reads_energy hf hD ⟨TAG_SLOW, by decide⟩ (.inl ⟨rfl, rfl⟩)
        (congrArg List.length hx) len risetime high low
  | fast len risetime high low =>
      exact reads_energy hf hD ⟨TAG_FAST, by decide⟩ (.inr ⟨rfl, rfl⟩) hx len risetime
        high low

theorem reads_records (hf : E.evformat = .tag) (ty : FzDataType) (bd : TagBody) :
    E.scanner.Reads (Shows E ec .s4 (.data Bs B R H (recordsData E.numbers ty [])))
      (bd.records.flatMap Record.words) Closes
      (Between E ec Bs B R H (recordsData E.numbers ty bd.records)) := by
  have hrecord (pre : List Record) (x : Record) (post : List Record)
      (h : bd.records = pre ++ x :: post) :
      E.scanner.Reads (Ready E ec Bs B R H (recordsData E.numbers ty pre)) x.words
        (fun rest => rest ≠ [])
        (Between E ec Bs B R H (recordsData E.numbers ty (pre ++ [x]))) := by
    rw [(bd.follows h).recordsData_concat]
    exact reads_record hf (recordsData_content ty pre) x (bd.follows h).fits
  obtain ⟨x, xs, hxs⟩ := List.exists_cons_of_ne_nil bd.ne_nil
  rw [hxs]
  refine .flatMap_cons (I := fun pre => Between E ec Bs B R H (recordsData E.numbers ty pre))
    ((hrecord [] x xs hxs).consequence (fun _ h => .inl h) fun _ h => h)
    (fun pre y post h => (hrecord (x :: pre) y post (by rw [hxs, h]; rfl)).consequence
      (fun _ h => .inr h) fun _ h => h) ?_ ?_
  · intro y rest hnil
    cases y <;> simp [Record.words] at hnil
  · rintro _ ⟨w, ws, rfl, _⟩
    exact List.cons_ne_nil w ws

end Fsm

/-- The tag format is decoded: what `FMT_TAG` adds to the common grammar. -/
theorem Wire.tagLayout_decodes : tagLayout.Decodes .tag where
  trigpat _ := ⟨fun _ => rfl, fun _ => rfl⟩
  body {ty} bd E ec Bs B R H hf := by
    refine (Fsm.reads_records hf ty bd).consequence (fun _ h => h) fun s hs => ⟨?_, fun hb => ?_⟩
    · rcases hs with hs | hs
      · exact hs.shows
      · exact hs.1.shows
    · rw [hf] at hb
      cases hb
  exact {ty} bd E _ := recordsData_rightNumbers E ty bd.records

/-- Decoding undoes encoding in the tag format. -/
theorem Fsm.parse_tag_words (e : Event tagLayout) (E : Env) (hf : E.evformat = .tag)
    (hE : E.Delivers e.words) (s : Fsm) :
    ∃ fuel r, s.parse E fuel = .ended r ∧ r.retval = .PARSE_OK ∧ r.ev.Holds e :=
  parse_words_holds tagLayout_decodes e (fun _ _ _ _ _ _ _ _ => trivial) hf hE s

/-- A waveform without samples, a void word and two energies. -/
def sampleTagBody : TagBody where
  records := [.waveform .empty, .void, .slow (dataWord 3) (dataWord 2)
    (dataWord 0) (dataWord 9), .fast (dataWord 3) (dataWord 2) (dataWord 1)
    (dataWord 7)]
  ne_nil := nofun
  once := by decide
  after_slow pre x post h htag := by
    match pre with
    | [] | [_] | [_, _] =>
        cases h
        cases htag
    | [_, _, _] =>
        cases h
        exact ⟨_, .tail _ (.tail _ (.head _)), rfl⟩
    | _ :: _ :: _ :: _ :: _ => simp at h

def sampleTagEvent : Event tagLayout where
  ec := (0x123#12).toFin
  first :=
    { fees :=
        [{ first :=
             { spare := (0#6).toFin
               feeid := (2#4).toFin
               telid := (1#1).toFin
               gttag := dataWord 0x11
               dettag := dataWord 0x12
               trigpat := dataWord 0x13
               first := { dtype := (0#3).toFin, detid := (1#2).toFin, body := sampleTagBody }
               others := [{ dtype := (4#3).toFin, detid := (2#2).toFin, body := sampleTagBody }] }
           others := []
           length := (0#12).toFin
           crcfe := (0#12).toFin }]
      blkid := (5#11).toFin
      length := (0#12).toFin
      crcbl := (0#12).toFin
      blkid_ne := blkid_five_ne }
  others := []
  regid := (0x42#11).toFin

theorem Fsm.parse_tag_words_sample :
    ∃ fuel r, ({} : Fsm).parse (.ofWords .tag sampleTagEvent.words) fuel = .ended r ∧
      r.retval = .PARSE_OK ∧ r.ev.Holds sampleTagEvent :=
  Fsm.parse_tag_words sampleTagEvent _ rfl (Env.ofWords_delivers _ _) {}

end FzDaq.Parser
