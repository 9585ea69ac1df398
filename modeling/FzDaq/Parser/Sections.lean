import FzDaq.Parser.Memory
import FzDaq.Parser.Stage

/-!
# What has been read in a section

A section begins with a DETID word and goes on as long as the object stays in S5. Which
tags, records and pretriggers its words are is told by the turns of the call alone; what
they leave in the data message of the section follows from that.
-/

namespace FzDaq.Parser

open Machine

namespace Fsm

variable {E : Env} {s t u c d : Fsm} {w tg : Word} {tr : Trans} {bs : List FzBlock} {b : FzBlock}
  {r : FzFee} {h : FzHit} {D : FzData} {ch : Chunk}

/-! ## The words of a section -/

/-- The DATA word `w` stands where a tag is expected. -/
structure ReadsTag (E : Env) (c : Fsm) (w : Word) : Prop where
  evformat : E.evformat = .tag
  takes : c.Takes E w .t07 ∨ c.Takes E w .t08 ∧ c.tagDone = false

/-- The DATA word `w` is the first one of the payload of a record with the tag `tg`. -/
structure ReadsRecord (E : Env) (c : Fsm) (w tg : Word) : Prop where
  evformat : E.evformat = .tag
  takes : c.Takes E w .t08
  tagDone : c.tagDone = true
  wflenDone : c.wflenDone = true
  tag : c.tag = tg

/-- The DATA word `w` is the pretrigger of a section of the basic format: its first word, or
the first word behind its energies. -/
structure ReadsPretrig (E : Env) (c : Fsm) (w : Word) : Prop where
  evformat : E.evformat = .basic
  takes : c.Takes E w .t07 ∧ c.dType.hasEnergy = false ∨
    c.Takes E w .t08 ∧ c.dType.hasEnergy = true ∧ c.energy1Done = true ∧
      (c.dType = .Q3 → c.energy2Done = true) ∧ c.pretrigDone = false

/-- A turn with `P` has been made in the section in which the object stands. -/
def InSection (E : Env) (s : Fsm) (P : Fsm → Prop) : Fsm → Prop :=
  E.loop.Since (E.entry s) (fun c => c.stateId = .s5) P

/-- The section has a waveform: the basic format lays one out, in the tag format the tag of
a pretrigger or of a waveform opens it. -/
def WaveformOpened (E : Env) (s c : Fsm) : Prop :=
  E.evformat = .tag → InSection E s
    (fun c => ∃ w, c.ReadsTag E w ∧ (w = TAG_PRETRIGGER ∨ w = TAG_WAVEFORM)) c

/-- The waveform of the section, if it has one, has been read. -/
def WaveformRead (E : Env) (s c : Fsm) : Prop :=
  WaveformOpened E s c → InSection E s (fun c => ∃ w, c.ReadsRecord E w TAG_WAVEFORM) c

/-- The pretrigger of the waveform of the section, if it has one, has been read. -/
def PretrigRead (E : Env) (s c : Fsm) : Prop :=
  WaveformOpened E s c → InSection E s
    (fun c => ∃ w, c.ReadsRecord E w TAG_PRETRIGGER ∨ c.ReadsPretrig E w) c

/-! ## The turns of a section -/

theorem next_inSection (hnext : E.loop.Next c d) (hs : d.stateId = .s5) :
    (c.Skips E ∧ c.stateId = .s5 ∧ d = c.advance) ∨
      (∃ w u, c.Takes E w .t07 ∧ Fires E c w .t07 u ∧ d = u.advance) ∨
      ∃ w u, c.Takes E w .t08 ∧ Fires E c w .t08 u ∧ d = u.advance := by
  obtain ⟨_, ⟨hskip, rfl⟩ | ⟨w, tr, u, htakes, hfires, rfl⟩⟩ := next_cases hnext
  · exact .inl ⟨hskip, hs, rfl⟩
  · have htarget : tr.target = .s5 :=
      (hfires.stateId fun hidle => (hidle ▸ htakes).stateId_idle).symm.trans hs
    cases tr <;> first
      | exact .inr (.inl ⟨w, u, htakes, hfires, rfl⟩)
      | exact .inr (.inr ⟨w, u, htakes, hfires, rfl⟩)
      | cases htarget

/-- The transitions that end a section. -/
def endsSection (tr : Trans) : Bool := tr == .t09 || tr == .t10 || tr == .t11

theorem Takes.of_endsSection (htakes : c.Takes E w tr) (hends : endsSection tr = true) :
    c.stateId = .s5 := by
  have hstate := ttable_eq htakes.2.2
  cases tr <;> first | exact hstate.1 | cases hends

/-- The data message of the open section. -/
def openData (c : Fsm) : FzData := c.ev.getData c.d

theorem AtData.openData (ha : s.AtData bs b r h D) : s.openData = D := ha.getData

theorem openData_of_s4 (hE : E.Carries ch) (hc : E.loop.Visits (E.entry s) c)
    (hs : c.stateId = .s4) : ∃ t enError, c.openData = sectionData E.evformat t enError := by
  revert hs
  refine visits_induction hE (fun c => c.stateId = .s4 →
    ∃ t enError, c.openData = sectionData E.evformat t enError) (fun hs => by cases hs)
    (fun c _ _ hI => hI) (fun c w tr u hc htakes hregid hfires _ _ hs => ?_) hc
  obtain ⟨σ, ha⟩ := visits_at hE hc
  have htarget : tr.target = .s4 :=
    (hfires.stateId fun hidle => (hidle ▸ htakes).stateId_idle).symm.trans hs
  obtain ⟨σ', ha', hstep⟩ := hfires.site htakes hregid ha
  cases hstep with
  | t06 => exact ⟨_, _, ha'.getData⟩
  | t09 => exact ⟨_, _, ha'.getData⟩
  | _ => cases htarget

/-! ## The waveform in the tag format -/

/-- What a turn in a section of the tag format does to its waveform. -/
inductive WaveformTurn (E : Env) (c d : Fsm) : Prop
  | same (htag : ∀ w, ¬ c.ReadsTag E w) (hread : ∀ w, ¬ c.ReadsRecord E w TAG_WAVEFORM)
      (hpre : ∀ w, ¬ c.ReadsRecord E w TAG_PRETRIGGER)
      (hwf : d.openData.waveform = c.openData.waveform)
  | tag (w : Word) (htag : c.ReadsTag E w)
      (hwf : d.openData.waveform = (tagData c.openData w).waveform)
  | pretrig (w : Word) (hread : c.ReadsRecord E w TAG_PRETRIGGER) (wf : Waveform)
      (hbefore : c.openData.waveform = some wf)
      (hwf : d.openData.waveform = some { wf with pretrig := some w.toUInt32 })
  | samples (w : Word) (hread : c.ReadsRecord E w TAG_WAVEFORM) (wf : Waveform) (xs : List Nat)
      (bad : Bool) (hbefore : c.openData.waveform = some wf)
      (hwf : d.openData.waveform = some { wf with sample := xs, lenError := some bad })
      (herr : d.errInEvent = (c.errInEvent || bad))

theorem AtData.readRecord_waveform (ha : s.AtData bs b r h D) (hsec : s.Section E D)
    (htag : Tagged s.toFlags D) (hdone : s.tagDone = true) (hpre : s.tag ≠ TAG_PRETRIGGER)
    (hwav : s.tag ≠ TAG_WAVEFORM) (hw : E.event s.eventIndex = some w)
    (hu : s.readRecord E w = some u) : u.openData.waveform = D.waveform := by
  rcases readRecord_cases hw hu with ⟨hpre', _⟩ | ⟨hwav', _⟩ | ⟨hwav', _⟩ |
    ⟨hslow, ws, f, _, _, _, rfl⟩ | ⟨_, x, v, _, rfl⟩ | ⟨_, ws, ts, _, _, _, rfl⟩
  · exact absurd hpre' hpre
  · exact absurd hwav' hwav
  · exact absurd hwav' hwav
  · have hen := (htag hdone).2 hslow
    rw [(AtData.fillEn (s := s.movedOver ws) ha hsec hen f).1.openData]
  · have hset := ha.modData fun d => { d with baseline := some v }
    exact (congrArg FzData.waveform hset.openData).trans rfl
  · exact congrArg FzData.waveform ha.openData

theorem AtData.readRecord_judged (ha : s.AtData bs b r h D) (hsec : s.Section E D) {wf : Waveform}
    (hwf : D.waveform = some wf) (hwav : s.tag = TAG_WAVEFORM)
    (hw : E.event s.eventIndex = some w) (hu : s.readRecord E w = some u)
    (hv : u.verifyWaveform E = some t) :
    ∃ xs bad, t.openData.waveform = some { wf with sample := xs, lenError := some bad } ∧
      t.errInEvent = (s.errInEvent || bad) := by
  have hsome : D.waveform.isSome := by rw [hwf]; rfl
  obtain ⟨bad, _, rfl⟩ := verifyWaveform_eq_some hv
  rcases readRecord_cases hw hu with ⟨hpre, _⟩ | ⟨_, _, rfl⟩ | ⟨_, ws, _, _, _, rfl⟩ |
    ⟨hslow, _⟩ | ⟨hbase, _⟩ | ⟨hother, _⟩
  · exact absurd (hwav.symm.trans hpre) (by decide)
  · obtain ⟨hat, _⟩ := AtData.fillWf (s := s.stepBack.restoreCrc) ha hsec hsome
      fun wf => { wf with lenError := some bad }
    refine ⟨wf.sample, bad, ?_, rfl⟩
    exact (congrArg FzData.waveform hat.openData).trans (by rw [hwf]; rfl)
  · obtain ⟨hat, hsec'⟩ := ha.fillWf hsec hsome fun wf =>
      { wf with sample := wf.sample ++ (w :: ws).map (·.toNat) }
    obtain ⟨hat', _⟩ := hat.fillWf hsec' (by rw [hwf]; rfl)
      fun wf => { wf with lenError := some bad }
    refine ⟨wf.sample ++ (w :: ws).map (·.toNat), bad, ?_, rfl⟩
    exact (congrArg FzData.waveform hat'.openData).trans (by rw [hwf]; rfl)
  · rcases hslow with hslow | hslow <;> exact absurd (hwav.symm.trans hslow) (by decide)
  · exact absurd (hwav.symm.trans hbase) (by decide)
  · exact absurd (by simp [hwav]) hother

theorem AtData.waveformTurn (ha : c.AtData bs b r h D) (hsec : c.Section E D)
    (htagged : Tagged c.toFlags D) (hf : E.evformat = .tag) (htakes : c.Takes E w .t08)
    (hu : c.trans08Tag E w = some u) : WaveformTurn E c u := by
  have hD := ha.openData
  have hseven (x : Word) : ¬ c.Takes E x .t07 := fun hx => by cases (htakes.unique hx).2
  rcases trans08Tag_cases htakes.1 hu with ⟨htag, rfl⟩ | ⟨htag, hlen, rfl⟩ |
    ⟨htag, hlen, t, v, ht, hv, rfl⟩
  · refine .tag w ⟨hf, .inr ⟨htakes, htag⟩⟩ ?_
    rw [(AtData.readTag (s := (c.updateBlk w).updateFee w) ha hsec hf w).1.openData, hD]
  · refine .same (fun x hx => ?_) (fun x hx => ?_) (fun x hx => ?_) rfl
    · rcases hx.takes with hx | ⟨_, hx⟩
      · exact hseven x hx
      · exact absurd (htag.symm.trans hx) (by decide)
    · exact absurd (hlen.symm.trans hx.wflenDone) (by decide)
    · exact absurd (hlen.symm.trans hx.wflenDone) (by decide)
  · have hnotag (x : Word) : ¬ c.ReadsTag E x := by
      intro hx
      rcases hx.takes with hx | ⟨_, hx⟩
      · exact hseven x hx
      · exact absurd (htag.symm.trans hx) (by decide)
    have hread {tg : Word} (htg : c.tag = tg) : c.ReadsRecord E w tg :=
      ⟨hf, htakes, htag, hlen, htg⟩
    by_cases hwav : c.tag = TAG_WAVEFORM
    · rw [if_pos hwav] at hv
      obtain ⟨wf, hwf⟩ := Option.isSome_iff_exists.1 ((htagged htag).1 (.inr hwav))
      obtain ⟨xs, bad, hafter, herr⟩ := AtData.readRecord_judged
        (s := (c.updateBlk w).updateFee w) ha hsec hwf hwav htakes.1 ht hv
      exact .samples w (hread hwav) wf xs bad (by rw [hD, hwf]) hafter herr
    · rw [if_neg hwav] at hv
      subst hv
      by_cases hpre : c.tag = TAG_PRETRIGGER
      · obtain ⟨wf, hwf⟩ := Option.isSome_iff_exists.1 ((htagged htag).1 (.inl hpre))
        have hpre' : ((c.updateBlk w).updateFee w).tag = TAG_PRETRIGGER := hpre
        rw [Fsm.readRecord, if_pos hpre', Option.some.injEq] at ht
        subst ht
        obtain ⟨hat, _⟩ := AtData.fillWf (s := (c.updateBlk w).updateFee w) ha hsec
          (by rw [hwf]; rfl) fun wf => { wf with pretrig := some w.toUInt32 }
        refine .pretrig w (hread hpre) wf (by rw [hD, hwf]) ?_
        exact (congrArg FzData.waveform hat.openData).trans (by rw [hwf]; rfl)
      · refine .same hnotag (fun x hx => hwav hx.tag) (fun x hx => hpre hx.tag) ?_
        have hsame := AtData.readRecord_waveform (s := (c.updateBlk w).updateFee w) ha hsec htagged
          htag hpre hwav htakes.1 ht
        rw [hD]
        exact hsame

theorem next_waveformTurn (hE : E.Carries ch) (hf : E.evformat = .tag)
    (hc : E.loop.Visits (E.entry s) c) (hnext : E.loop.Next c d) (hs : d.stateId = .s5) :
    WaveformTurn E c d := by
  obtain ⟨σ, ha⟩ := visits_at hE hc
  rcases next_inSection hnext hs with ⟨hskip, _, rfl⟩ | ⟨w, u, htakes, hfires, rfl⟩ |
    ⟨w, u, htakes, hfires, rfl⟩
  · refine .same (fun x hx => ?_) (fun x hx => hskip.not_takes hx.takes)
      (fun x hx => hskip.not_takes hx.takes) rfl
    rcases hx.takes with hx | ⟨hx, _⟩ <;> exact hskip.not_takes hx
  · cases hfires with
    | t07Basic hf' =>
        rw [hf] at hf'
        cases hf'
    | t07Tag =>
        have hstate := ttable_eq htakes.2.2
        obtain ⟨bs, b, r, h, D, rfl, hat, hsec, _⟩ := ha.of_data (.inl hstate.1)
        refine .tag w ⟨hf, .inl htakes⟩ ?_
        have hread := (AtData.readTag (s := ({ c with
          tagDone := false
          wflenDone := false
          rdWflen := 0 }.updateBlk w).updateFee w) hat hsec hf w).1
        rw [hat.openData]
        exact congrArg FzData.waveform hread.openData
  · cases hfires with
    | t08Basic hf' =>
        rw [hf] at hf'
        cases hf'
    | t08Tag _ hu =>
        have hstate := ttable_eq htakes.2.2
        obtain ⟨bs, b, r, h, D, rfl, hat, hsec, htag⟩ := ha.of_data (.inr hstate.1)
        cases hat.waveformTurn hsec (htag hstate.1 hf) hf htakes hu with
        | same htag hread hpre hwf => exact .same htag hread hpre hwf
        | tag x htag hwf => exact .tag x htag hwf
        | pretrig x hread wf hbefore hwf => exact .pretrig x hread wf hbefore hwf
        | samples x hread wf xs bad hbefore hwf herr =>
            exact .samples x hread wf xs bad hbefore hwf herr

theorem waveform_tagData (D : FzData) (w : Word) :
    (tagData D w).waveform =
      if (w = TAG_PRETRIGGER ∨ w = TAG_WAVEFORM) ∧ D.waveform = none then
        some { lenError := some true }
      else D.waveform := by
  unfold tagData
  by_cases hopens : w = TAG_PRETRIGGER ∨ w = TAG_WAVEFORM
  · by_cases hnone : D.waveform = none <;> simp [hopens, hnone]
  · rw [if_neg hopens]
    split <;> simp [hopens]

/-- A section of the tag format that has a waveform has been read from. -/
theorem stateId_of_waveform (hE : E.Carries ch) (hf : E.evformat = .tag)
    (hc : E.loop.Visits (E.entry s) c) (hnext : E.loop.Next c d) (hs : d.stateId = .s5)
    {wf : Waveform} (hwf : c.openData.waveform = some wf) : c.stateId = .s5 := by
  rcases next_inSection hnext hs with ⟨_, hs', _⟩ | ⟨w, u, htakes, _⟩ | ⟨w, u, htakes, _⟩
  · exact hs'
  · obtain ⟨t, enError, hdata⟩ := openData_of_s4 hE hc (ttable_eq htakes.2.2).1
    rw [hdata, hf] at hwf
    cases hwf
  · exact (ttable_eq htakes.2.2).1

/-- What exactly the turns with `P` bring about and the others keep. -/
theorem inSection_iff {P Q : Fsm → Prop} (hc : E.loop.Visits (E.entry s) c) (hs : c.stateId = .s5)
    (hturn : ∀ b c, E.loop.Visits (E.entry s) b → E.loop.Next b c → c.stateId = .s5 →
      (Q c ↔ P b ∨ b.stateId = .s5 ∧ Q b)) :
    InSection E s P c ↔ Q c :=
  ⟨fun hin => hin.holds (fun b c hb hP hnext hs => (hturn b c hb hnext hs).2 (.inl hP))
      (fun b c hb hin hQ hnext hs => (hturn b c hb hnext hs).2 (.inr ⟨hin, hQ⟩)),
    fun hQ => hc.1.since (fun hentry => by cases hentry)
      (fun b c hb hnext hs hQ => (hturn b c hb hnext hs).1 hQ) hs hQ⟩

theorem ReadsTag.word_eq {x : Word} (h : c.ReadsTag E w) (h' : c.ReadsTag E x) : x = w := by
  rcases h.takes with h | ⟨h, _⟩ <;> rcases h'.takes with h' | ⟨h', _⟩ <;> exact (h.unique h').1

theorem ReadsRecord.not_tag {x : Word} (h : c.ReadsRecord E w tg) : ¬ c.ReadsTag E x := by
  intro htag
  rcases htag.takes with htakes | ⟨_, hdone⟩
  · cases (h.takes.unique htakes).2
  · exact absurd (h.tagDone.symm.trans hdone) (by decide)

theorem waveformOpened_iff (hE : E.Carries ch) (hf : E.evformat = .tag)
    (hc : E.loop.Visits (E.entry s) c) (hs : c.stateId = .s5) :
    WaveformOpened E s c ↔ ∃ wf, c.openData.waveform = some wf := by
  rw [WaveformOpened, forall_prop_of_true hf]
  refine inSection_iff (Q := fun c => ∃ wf, c.openData.waveform = some wf) hc hs
    fun b c hb hnext hs => ?_
  have hstay {wf : Waveform} (hwf : b.openData.waveform = some wf) :
      b.stateId = .s5 ∧ ∃ wf, b.openData.waveform = some wf :=
    ⟨stateId_of_waveform hE hf hb hnext hs hwf, wf, hwf⟩
  cases next_waveformTurn hE hf hb hnext hs with
  | same hnone _ _ hafter =>
      rw [hafter]
      exact ⟨fun ⟨_, hwf⟩ => .inr (hstay hwf), fun hor =>
        hor.elim (fun ⟨w, htag, _⟩ => absurd htag (hnone w)) (·.2)⟩
  | tag w htag hafter =>
      rw [hafter, waveform_tagData]
      split
      · rename_i hopens
        exact ⟨fun _ => .inl ⟨w, htag, hopens.1⟩, fun _ => ⟨_, rfl⟩⟩
      · rename_i hnot
        refine ⟨fun ⟨_, hwf⟩ => .inr (hstay hwf), fun hor => ?_⟩
        rcases hor with ⟨x, hx, hopens⟩ | ⟨_, hwf⟩
        · rw [htag.word_eq hx] at hopens
          exact Option.ne_none_iff_exists'.1 fun hnone => hnot ⟨hopens, hnone⟩
        · exact hwf
  | pretrig _ _ _ hbefore hafter => exact ⟨fun _ => .inr (hstay hbefore), fun _ => ⟨_, hafter⟩⟩
  | samples _ _ _ _ _ hbefore hafter =>
      exact ⟨fun _ => .inr (hstay hbefore), fun _ => ⟨_, hafter⟩⟩

/-! ## The record of a waveform -/

/-- The waveform of the section is known to be without an error. -/
def Unflagged (c : Fsm) : Prop :=
  ∃ wf, c.openData.waveform = some wf ∧ wf.lenError = some false

theorem errInEvent_of_next (hnext : E.loop.Next c d) (hs : d.stateId = .s5)
    (herr : d.errInEvent = false) : c.errInEvent = false := by
  have hkeep {w : Word} {tr : Trans} {u : Fsm} (htakes : c.Takes E w tr)
      (hfires : Fires E c w tr u) (htr : tr ∉ [.notValid, .t02, .t13, .t17, .t18])
      (herr : u.errInEvent = false) : c.errInEvent = false := by
    by_contra hraised
    have hkept := (hfires.frame htakes.1 htr).err (by simpa using hraised)
    exact absurd (hkept.symm.trans herr) (by decide)
  rcases next_inSection hnext hs with ⟨_, _, rfl⟩ | ⟨w, u, htakes, hfires, rfl⟩ |
    ⟨w, u, htakes, hfires, rfl⟩
  · exact herr
  · exact hkeep htakes hfires (by decide) herr
  · exact hkeep htakes hfires (by decide) herr

theorem ReadsRecord.unflagged (h : c.ReadsRecord E w TAG_WAVEFORM) (hturn : WaveformTurn E c d)
    (herr : d.errInEvent = false) : d.Unflagged := by
  cases hturn with
  | same _ hnone => exact absurd h (hnone w)
  | tag _ htag => exact absurd htag h.not_tag
  | pretrig _ hpre => exact absurd (hpre.tag.symm.trans h.tag) (by decide)
  | samples _ _ wf xs bad _ hafter hbad =>
      obtain ⟨_, rfl⟩ : c.errInEvent = false ∧ bad = false := by simpa [herr] using hbad.symm
      exact ⟨_, hafter, rfl⟩

theorem Unflagged.turn (h : c.Unflagged) (hturn : WaveformTurn E c d)
    (herr : d.errInEvent = false) : d.Unflagged := by
  obtain ⟨wf, hwf, hflag⟩ := h
  cases hturn with
  | same _ _ _ hafter => exact ⟨wf, hafter.trans hwf, hflag⟩
  | tag x _ hafter =>
      rw [waveform_tagData, hwf, if_neg (by simp)] at hafter
      exact ⟨wf, hafter, hflag⟩
  | pretrig x _ wf' hbefore hafter =>
      obtain rfl : wf' = wf := Option.some.inj (hbefore.symm.trans hwf)
      exact ⟨_, hafter, hflag⟩
  | samples x hread => exact hread.unflagged (.samples x hread _ _ _ ‹_› ‹_› ‹_›) herr

theorem Unflagged.before (h : d.Unflagged) (hturn : WaveformTurn E c d) :
    (∃ w, c.ReadsRecord E w TAG_WAVEFORM) ∨ c.Unflagged := by
  obtain ⟨wf, hwf, hflag⟩ := h
  cases hturn with
  | same _ _ _ hafter => exact .inr ⟨wf, hafter.symm.trans hwf, hflag⟩
  | tag w htag hafter =>
      rw [hafter, waveform_tagData] at hwf
      split at hwf
      · cases hwf
        cases hflag
      · exact .inr ⟨wf, hwf, hflag⟩
  | pretrig _ _ wf' hbefore hafter =>
      cases hafter.symm.trans hwf
      exact .inr ⟨wf', hbefore, hflag⟩
  | samples w hread => exact .inl ⟨w, hread⟩

/-- As long as no error is known a waveform is without one exactly if its record has been read. -/
theorem inSection_waveform_iff (hE : E.Carries ch) (hf : E.evformat = .tag)
    (hc : E.loop.Visits (E.entry s) c) (hs : c.stateId = .s5) (herr : c.errInEvent = false) :
    InSection E s (fun c => ∃ w, c.ReadsRecord E w TAG_WAVEFORM) c ↔ c.Unflagged := by
  constructor
  · intro hread
    refine hread.holds (Q := fun c => c.errInEvent = false → c.Unflagged) ?_ ?_ herr
    · rintro b c hb ⟨w, hread⟩ hnext hs herr
      exact hread.unflagged (next_waveformTurn hE hf hb hnext hs) herr
    · intro b c hb _ hQ hnext hs herr
      exact (hQ (errInEvent_of_next hnext hs herr)).turn (next_waveformTurn hE hf hb hnext hs) herr
  · intro hwf
    refine hc.1.since (Q := Unflagged) (fun hs => by cases hs) (fun b c hb hnext hs hQ => ?_) hs hwf
    rcases hQ.before (next_waveformTurn hE hf hb hnext hs) with hread | hbefore
    · exact .inl hread
    · obtain ⟨wf, hwf, hflag⟩ := hbefore
      exact .inr ⟨stateId_of_waveform hE hf hb hnext hs hwf, wf, hwf, hflag⟩

theorem waveformRead_iff (hE : E.Carries ch) (hf : E.evformat = .tag)
    (hc : E.loop.Visits (E.entry s) c) (hs : c.stateId = .s5) (herr : c.errInEvent = false) :
    WaveformRead E s c ↔ c.openData.waveform.all (·.lenError == some false) = true := by
  rw [WaveformRead, waveformOpened_iff hE hf hc hs, inSection_waveform_iff hE hf hc hs herr]
  unfold Unflagged
  cases hwf : c.openData.waveform with
  | none => simp
  | some wf => simp

end Fsm

end FzDaq.Parser
