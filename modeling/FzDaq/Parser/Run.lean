import FzDaq.Parser.Steps

/-!
# Runs of the loop of `process`

The call of `process` on one chunk as a run of `Env.loop`, what a turn does to
the state number, the cursor and the report, and how a call comes to its verdict:
the counters of good, bad and empty events move once, at the REGID word.
-/

namespace FzDaq.Parser

open Machine

/-- The object at the head of the loop when a chunk is parsed. -/
def Env.entry (E : Env) (s : Fsm) : Fsm := s.importEvent.start E

/-- The state in which a transition leaves the machine. -/
def Trans.target : Trans → FsmState
  | .notValid | .t01 | .t18 => .idle
  | .t02 | .t13 | .t17 => .s1
  | .t03 | .t10 => .s2
  | .t04 | .t05 => .s3
  | .t06 | .t09 => .s4
  | .t07 | .t08 => .s5
  | .t11 => .s6
  | .t12 => .s7
  | .t14 => .s8
  | .t15 => .s9
  | .t16 => .s10

namespace Fsm

variable {E : Env} {s t : Fsm} {w : Word} {tr : Trans}

/-! ## One transition -/

/-- The `switch(trans_id)` as a relation: one constructor for each way to take a
transition. -/
inductive Fires (E : Env) (s : Fsm) (w : Word) : Trans → Fsm → Prop
  | notValid : Fires E s w .notValid s.reset
  | t01 : Fires E s w .t01 s
  | t02 : Fires E s w .t02 { s.trans02 w with stateId := .s1 }
  | t03 : Fires E s w .t03 { s.trans03 w with stateId := .s2 }
  | t04 : Fires E s w .t04 { s.trans04 w with stateId := .s3 }
  | t05 : Fires E s w .t05 { s.trans05 w with stateId := .s3 }
  | t06 : Fires E s w .t06 { s.trans06 E w with stateId := .s4 }
  | t07Basic (hf : E.evformat = .basic) : Fires E s w .t07 { s.trans07Basic w with stateId := .s5 }
  | t07Tag (hf : E.evformat = .tag) : Fires E s w .t07 { s.trans07Tag w with stateId := .s5 }
  | t08Basic {u : Fsm} (hf : E.evformat = .basic) (hu : s.trans08Basic E w = some u) :
      Fires E s w .t08 { u with stateId := .s5 }
  | t08Tag {u : Fsm} (hf : E.evformat = .tag) (hu : s.trans08Tag E w = some u) :
      Fires E s w .t08 { u with stateId := .s5 }
  | t09Basic {u : Fsm} (hf : E.evformat = .basic) (hu : s.trans09Basic E w = some u) :
      Fires E s w .t09 { u with stateId := .s4 }
  | t09Tag (hf : E.evformat = .tag) : Fires E s w .t09 { s.trans09Tag E w with stateId := .s4 }
  | t10Basic {u : Fsm} (hf : E.evformat = .basic) (hu : s.trans10Basic E w = some u) :
      Fires E s w .t10 { u with stateId := .s2 }
  | t10Tag (hf : E.evformat = .tag) : Fires E s w .t10 { s.trans10Tag w with stateId := .s2 }
  | t11Basic {u : Fsm} (hf : E.evformat = .basic) (hu : s.trans11Basic E w = some u) :
      Fires E s w .t11 { u with stateId := .s6 }
  | t11Tag (hf : E.evformat = .tag) : Fires E s w .t11 { s.trans11Tag w with stateId := .s6 }
  | t12 : Fires E s w .t12 { s.trans12 w with stateId := .s7 }
  | t13 : Fires E s w .t13 { s.trans13 w with stateId := .s1 }
  | t14 : Fires E s w .t14 { s.trans14 w with stateId := .s8 }
  | t15 : Fires E s w .t15 { s.trans15 w with stateId := .s9 }
  | t16 {u : Fsm} (hu : s.trans16 E w = some u) : Fires E s w .t16 { u with stateId := .s10 }
  | t17 : Fires E s w .t17 { s.trans17 w with stateId := .s1 }
  | t18 : Fires E s w .t18 { s.trans18 w with stateId := .idle, retval := .PARSE_OK }

theorem fire_fires (h : s.fire E tr w = some t) : Fires E s w tr t := by
  cases tr with
  | t07 =>
      cases hf : E.evformat <;> simp only [fire, hf, Option.some.injEq] at h <;> subst h
      · exact .t07Basic hf
      · exact .t07Tag hf
  | t08 =>
      cases hf : E.evformat <;> simp only [fire, hf, Option.map_eq_some_iff] at h <;>
        obtain ⟨u, hu, rfl⟩ := h
      · exact .t08Basic hf hu
      · exact .t08Tag hf hu
  | t09 =>
      cases hf : E.evformat <;> simp only [fire, hf, Option.some.injEq, Option.map_eq_some_iff] at h
      · obtain ⟨u, hu, rfl⟩ := h
        exact .t09Basic hf hu
      · subst h
        exact .t09Tag hf
  | t10 =>
      cases hf : E.evformat <;> simp only [fire, hf, Option.some.injEq, Option.map_eq_some_iff] at h
      · obtain ⟨u, hu, rfl⟩ := h
        exact .t10Basic hf hu
      · subst h
        exact .t10Tag hf
  | t11 =>
      cases hf : E.evformat <;> simp only [fire, hf, Option.some.injEq, Option.map_eq_some_iff] at h
      · obtain ⟨u, hu, rfl⟩ := h
        exact .t11Basic hf hu
      · subst h
        exact .t11Tag hf
  | t16 =>
      obtain ⟨u, hu, rfl⟩ := Option.map_eq_some_iff.1 h
      exact .t16 hu
  | _ =>
      simp only [fire, Option.some.injEq] at h
      subst h
      constructor

theorem Fires.stateId (h : Fires E s w tr t) (hidle : tr = .t01 → s.stateId = .idle) :
    t.stateId = tr.target := by
  cases h <;> first | rfl | exact hidle rfl

theorem trans08Basic_frame (h : s.trans08Basic E w = some t) : s.Frame t := by
  rcases trans08Basic_cases h with ⟨_, h | h | h⟩ | ⟨_, h⟩
  · obtain ⟨_, _, rfl⟩ := lowEnergy1_eq_some h
    exact .of_eq rfl rfl rfl rfl rfl id
  · obtain ⟨_, _, _, rfl⟩ := energy2_eq_some h
    exact .of_eq rfl rfl rfl rfl rfl id
  · rcases waveformByData_eq_some h with ⟨_, rfl⟩ | ⟨_, rfl⟩ | ⟨_, _, _, _, _, _, _, _, rfl⟩
    · exact .of_eq rfl rfl rfl rfl rfl id
    · exact .of_eq rfl rfl rfl rfl rfl id
    · rw [gathered_eq]
      exact .of_eq rfl rfl rfl rfl rfl id
  · rcases waveformByCount_eq_some h with ⟨_, rfl⟩ | ⟨_, _, _, _, _, rfl⟩ |
      ⟨_, _, _, _, hu, _, _, rfl⟩
    · exact .of_eq rfl rfl rfl rfl rfl id
    · rw [gathered_eq]
      exact .of_eq rfl rfl rfl rfl rfl id
    · obtain ⟨_, _, _, _, _, _, _, rfl⟩ := readSineCosine_eq_some.1 hu
      rw [gathered_eq]
      exact .of_eq rfl rfl rfl rfl rfl id

theorem trans08Tag_frame (hw : E.event s.eventIndex = some w) (h : s.trans08Tag E w = some t) :
    s.Frame t := by
  have hcount : s.Frame ((s.updateBlk w).updateFee w) := .of_eq rfl rfl rfl rfl rfl id
  rcases trans08Tag_cases hw h with ⟨_, rfl⟩ | ⟨_, _, rfl⟩ | ⟨_, _, u, v, hu, hv, rfl⟩
  · exact hcount.trans readTag_frame.1
  · exact .of_eq rfl rfl rfl rfl rfl id
  · have hread : ((s.updateBlk w).updateFee w).Frame u :=
      (readRecord_frame (s := (s.updateBlk w).updateFee w) hw hu).1
    have hcheck : u.Frame v := by
      split at hv
      · exact verifyWaveform_frame hv
      · subst hv
        exact .of_eq rfl rfl rfl rfl rfl id
    exact (hcount.trans (hread.trans hcheck)).trans (.of_eq rfl rfl rfl rfl rfl id)

theorem trans16_frame (h : s.trans16 E w = some t) :
    s.Frame t ∧ t.eventIndex = s.eventIndex := by
  obtain ⟨lenBad, crcBad, _, _, hcase⟩ := trans16_cases h
  have hjudged : s.Frame (s.judged w lenBad crcBad) :=
    .of_eq rfl rfl rfl rfl rfl fun herr => by simp [judged, herr]
  rcases hcase with ⟨rfl, _⟩ | ⟨_, _, h⟩
  · exact ⟨hjudged, rfl⟩
  · obtain ⟨ts, hts, rfl⟩ := endTriggerBlk_eq_some h
    exact ⟨hjudged.trans ⟨rfl, rfl, rfl, rfl, ⟨ts, hts, rfl⟩, id⟩, rfl⟩

theorem trans09Basic_frame (h : s.trans09Basic E w = some t) :
    s.Frame t ∧ t.eventIndex = s.eventIndex := by
  obtain ⟨u, v, hit, hu, hv, rfl, _⟩ := trans09Basic_eq_some h
  have hcheck := verifySection_frame hu hv
  have hstart := startSection_frame (E := E) (v.addHit hit) w true
  have hadd : v.Frame (v.addHit hit) := .of_eq rfl rfl rfl rfl rfl id
  have hcount : s.Frame ((s.updateBlk w).updateFee w) := .of_eq rfl rfl rfl rfl rfl id
  exact ⟨hcount.trans (hcheck.1.trans (hadd.trans hstart.1)), hstart.2.trans hcheck.2⟩

theorem trans10Basic_frame (h : s.trans10Basic E w = some t) :
    s.Frame t ∧ t.eventIndex = s.eventIndex := by
  obtain ⟨u, v, hu, hv, rfl⟩ := trans10Basic_eq_some h
  have hcheck := verifySection_frame hu hv
  have hadd : v.Frame (v.startTelescope w) := .of_eq rfl rfl rfl rfl rfl id
  have hcount : s.Frame ((s.updateBlk w).updateFee w) := .of_eq rfl rfl rfl rfl rfl id
  exact ⟨hcount.trans (hcheck.1.trans hadd), hcheck.2⟩

theorem trans11Basic_frame (h : s.trans11Basic E w = some t) :
    s.Frame t ∧ t.eventIndex = s.eventIndex := by
  obtain ⟨u, hu, hv⟩ := trans11Basic_eq_some h
  have hcheck := verifySection_frame hu hv
  have hcount : s.Frame ({ s with rdFeelen := lengthOf w }.updateBlk w) :=
    .of_eq rfl rfl rfl rfl rfl id
  exact ⟨hcount.trans hcheck.1, hcheck.2⟩

/-- The transitions that start an event, a block or a fee set the event counters,
the reset and the REGID word act on the report; the others do neither. -/
theorem Fires.frame (h : Fires E s w tr t) (hw : E.event s.eventIndex = some w)
    (htr : tr ∉ [.notValid, .t02, .t13, .t17, .t18]) : s.Frame t := by
  have hset (u : Fsm) (st : FsmState) (hu : s.Frame u) : s.Frame { u with stateId := st } :=
    hu.trans (.of_eq rfl rfl rfl rfl rfl id)
  cases h with
  | notValid | t02 | t13 | t17 | t18 => simp at htr
  | t05 => exact hset _ _ trans05_frame.1
  | t06 => exact hset _ _ trans06_frame.1
  | t07Basic => exact hset _ _ trans07Basic_frame.1
  | t07Tag =>
      have hcount : s.Frame (({ s with tagDone := false, wflenDone := false, rdWflen := 0
        }.updateBlk w).updateFee w) := .of_eq rfl rfl rfl rfl rfl id
      exact hset _ _ (hcount.trans readTag_frame.1)
  | t08Basic _ hu => exact hset _ _ (trans08Basic_frame hu)
  | t08Tag _ hu => exact hset _ _ (trans08Tag_frame hw hu)
  | t09Basic _ hu => exact hset _ _ (trans09Basic_frame hu).1
  | t09Tag => exact hset _ _ trans09Tag_frame.1
  | t10Basic _ hu => exact hset _ _ (trans10Basic_frame hu).1
  | t11Basic _ hu => exact hset _ _ (trans11Basic_frame hu).1
  | t12 => exact hset _ _ trans12_frame.1
  | t16 hu => exact hset _ _ (trans16_frame hu).1
  | _ => exact .of_eq rfl rfl rfl rfl rfl id

theorem Fires.quiet (h : Fires E s w tr t) (hw : E.event s.eventIndex = some w)
    (hreset : tr ≠ .notValid) (hregid : tr ≠ .t18) :
    t.report = s.report ∧ t.retval = s.retval := by
  by_cases htr : tr = .t02 ∨ tr = .t13 ∨ tr = .t17
  · rcases htr with rfl | rfl | rfl <;> cases h <;> exact ⟨rfl, rfl⟩
  · have hframe := h.frame hw (by simp_all)
    exact ⟨hframe.report, hframe.retval⟩

/-- Only the DATA words of S5 move the cursor. -/
theorem Fires.eventIndex (h : Fires E s w tr t) (hdata : tr ≠ .t08) :
    t.eventIndex = s.eventIndex := by
  cases h with
  | t08Basic => exact absurd rfl hdata
  | t08Tag => exact absurd rfl hdata
  | t05 => exact trans05_frame.2
  | t06 => exact trans06_frame.2
  | t07Basic => exact trans07Basic_frame.2
  | t07Tag => exact (readTag_frame (s := (Fsm.updateBlk _ w).updateFee w)).2
  | t09Basic _ hu => exact (trans09Basic_frame hu).2
  | t09Tag => exact trans09Tag_frame.2
  | t10Basic _ hu => exact (trans10Basic_frame hu).2
  | t11Basic _ hu => exact (trans11Basic_frame hu).2
  | t12 => exact trans12_frame.2
  | t16 hu => exact (trans16_frame hu).2
  | t18 =>
      change (Fsm.trans18 _ _).eventIndex = _
      unfold trans18
      dsimp only
      split_ifs <;> rfl
  | _ => rfl

/-! ## One turn -/

/-- The next turn takes the transition `tr`, on the word `w`. -/
def Takes (E : Env) (s : Fsm) (w : Word) (tr : Trans) : Prop :=
  E.event s.eventIndex = some w ∧ getwordId w ≠ .empty ∧ ttable (getwordId w) s.stateId = tr

/-- The transition of a word whose kind is known. -/
theorem Takes.of_kind {k : WordId} {st : FsmState} (hw : E.event s.eventIndex = some w)
    (hk : getwordId w = k) (hst : s.stateId = st) (hne : k ≠ .empty) :
    s.Takes E w (ttable k st) := by
  subst hk hst
  exact ⟨hw, hne, rfl⟩

/-- The next turn skips an EMPTY word. -/
def Skips (E : Env) (s : Fsm) : Prop := ∃ w, E.event s.eventIndex = some w ∧ getwordId w = .empty

theorem Takes.unique {x : Word} {tr' : Trans} (h : s.Takes E w tr) (h' : s.Takes E x tr') :
    x = w ∧ tr' = tr := by
  have hx := h'.1
  rw [h.1] at hx
  cases hx
  exact ⟨rfl, h'.2.2.symm.trans h.2.2⟩

theorem Skips.not_takes (h : s.Skips E) : ¬ s.Takes E w tr := by
  obtain ⟨x, hx, hid⟩ := h
  rintro ⟨hw, hword, _⟩
  rw [hx] at hw
  cases hw
  exact hword hid

theorem next_cases (h : E.loop.Next s t) :
    s.eventIndex < E.eventSize ∧
      ((s.Skips E ∧ t = s.advance) ∨
        ∃ w tr u, s.Takes E w tr ∧ Fires E s w tr u ∧ t = u.advance) := by
  obtain ⟨hsize, hturn⟩ := h
  refine ⟨by simpa [Env.loop] using hsize, ?_⟩
  obtain ⟨w, hw, hturn⟩ := Option.bind_eq_some_iff.1 hturn
  unfold dispatch at hturn
  split at hturn
  · rename_i hempty
    cases hturn
    exact .inl ⟨⟨w, hw, hempty⟩, rfl⟩
  · rename_i hword
    obtain ⟨u, hu, rfl⟩ := Option.map_eq_some_iff.1 hturn
    exact .inr ⟨w, _, u, ⟨hw, hword, rfl⟩, fire_fires hu, rfl⟩

theorem Takes.next (h : s.Takes E w tr) (hhalt : E.loop.halted s = false)
    (hu : s.fire E tr w = some t) : E.loop.Next s t.advance := by
  obtain ⟨hw, hword, rfl⟩ := h
  refine ⟨hhalt, ?_⟩
  change (E.event s.eventIndex).bind _ = _
  rw [hw, Option.bind_some, dispatch, if_neg hword, hu]
  rfl

theorem Takes.fire_of_next (h : s.Takes E w tr) (hnext : E.loop.Next s t) :
    ∃ u, s.fire E tr w = some u ∧ t = u.advance := by
  obtain ⟨hw, hword, rfl⟩ := h
  have hbody : (E.event s.eventIndex).bind (s.dispatch E) = some t := hnext.2
  rw [hw, Option.bind_some, dispatch, if_neg hword] at hbody
  obtain ⟨u, hu, rfl⟩ := Option.map_eq_some_iff.1 hbody
  exact ⟨u, hu, rfl⟩

theorem Takes.stateId_idle (h : s.Takes E w .t01) : s.stateId = .idle :=
  (ttable_eq h.2.2).1

theorem Takes.stateId_s10 (h : s.Takes E w .t18) : s.stateId = .s10 := (ttable_eq h.2.2).1

theorem Takes.regid (h : s.Takes E w .t18) : getwordId w = .regid := (ttable_eq h.2.2).2

end Fsm

/-! ## Words of a chunk -/

namespace Env.Carries

variable {E : Env} {ch : Chunk} {k : Nat} {w : Word}

theorem size_pos (hE : E.Carries ch) : 0 < E.eventSize := by
  rw [hE.size, Chunk.words, List.length_append]
  simp

theorem last (hE : E.Carries ch) : E.event (E.eventSize - 1) = some ch.regid := by
  rw [hE.word _ (Nat.sub_lt hE.size_pos Nat.one_pos), hE.size]
  simp [Chunk.words]

theorem regid_last (hE : E.Carries ch) (hk : k < E.eventSize) (hw : E.event k = some w)
    (hid : getwordId w = .regid) : k + 1 = E.eventSize ∧ w = ch.regid := by
  rw [hE.word k hk, Chunk.words, List.getElem?_append] at hw
  split at hw
  · exact absurd hid (ch.body_id w (List.mem_of_getElem? hw))
  · rename_i hbody
    have hlen : E.eventSize = ch.body.length + 1 := by simp [hE.size, Chunk.words]
    obtain rfl : k = ch.body.length := by omega
    simp only [Nat.sub_self, List.getElem?_cons_zero, Option.some.injEq] at hw
    exact ⟨hlen.symm, hw.symm⟩

end Env.Carries

/-! ## The call of `process` -/

namespace Fsm

variable {E : Env} {s t r : Fsm} {ch : Chunk} {fuel : Nat}

theorem run_of_parse (h : s.parse E fuel = .ended r) :
    ∃ t, E.loop.run fuel (E.entry s) = .ended t ∧ r = t.finish E := by
  unfold parse process at h
  split at h
  · rename_i t hrun
    cases h
    exact ⟨t, hrun, rfl⟩
  · rename_i hnot
    exact absurd h (hnot r)

theorem parse_ended (h : s.parse E fuel = .ended r) :
    ∃ t, E.loop.Ends (E.entry s) t ∧ r = t.finish E := by
  obtain ⟨t, hrun, hr⟩ := run_of_parse h
  exact ⟨t, Loop.ends_of_run hrun, hr⟩

theorem parse_unique {fuel' : Nat} {r' : Fsm} (h : s.parse E fuel = .ended r)
    (h' : s.parse E fuel' = .ended r') : r' = r := by
  obtain ⟨t, ht, rfl⟩ := parse_ended h
  obtain ⟨t', ht', rfl⟩ := parse_ended h'
  rw [ht.unique ht']

theorem parse_ended_iff :
    (∃ fuel, s.parse E fuel = .ended r) ↔ ∃ t, E.loop.Ends (E.entry s) t ∧ r = t.finish E := by
  constructor
  · rintro ⟨fuel, h⟩
    exact parse_ended h
  · rintro ⟨t, hends, rfl⟩
    obtain ⟨fuel, hrun⟩ := Loop.run_of_ends hends
    have hstart : E.loop.run fuel (s.importEvent.start E) = .ended t := hrun
    exact ⟨fuel, by simp only [parse, process, hstart]⟩

/-- The counters of good, bad and empty events are the same. -/
def SameVerdicts (s t : Fsm) : Prop :=
  t.report.eventsGood = s.report.eventsGood ∧ t.report.eventsBad = s.report.eventsBad ∧
    t.report.eventsEmpty = s.report.eventsEmpty

/-- The turn at the REGID word of a complete event. -/
def judge (s : Fsm) (w : Word) : Fsm :=
  { s.trans18 w with stateId := .idle, retval := .PARSE_OK }.advance

theorem next_unjudged (h : E.loop.Next s t) (hregid : ∀ w, ¬ s.Takes E w .t18) :
    t.retval = s.retval ∧ s.SameVerdicts t := by
  obtain ⟨_, ⟨_, rfl⟩ | ⟨w, tr, u, htakes, hfires, rfl⟩⟩ := next_cases h
  · exact ⟨rfl, rfl, rfl, rfl⟩
  · by_cases hreset : tr = .notValid
    · subst hreset
      cases hfires
      exact ⟨rfl, rfl, rfl, rfl⟩
    · have hquiet := hfires.quiet htakes.1 hreset (fun h => hregid w (h ▸ htakes))
      exact ⟨hquiet.2, congrArg _ hquiet.1, congrArg _ hquiet.1, congrArg _ hquiet.1⟩

/-- The invariant of `parse_verdict`: no verdict yet, or the REGID word is behind the cursor. -/
def Pending (E : Env) (ch : Chunk) (s t : Fsm) : Prop :=
  (t.retval = .PARSE_FAIL ∧ s.SameVerdicts t) ∨
    ∃ c, E.loop.Visits (E.entry s) c ∧ c.Takes E ch.regid .t18 ∧ s.SameVerdicts c ∧
      t = c.judge ch.regid ∧ E.eventSize ≤ t.eventIndex

/-- How a call that returns comes to its verdict. Without one it returns
PARSE_FAIL; with one the REGID word was met in S10 and was the last turn. -/
theorem parse_verdict (hE : E.Carries ch) (h : s.parse E fuel = .ended r) :
    (r.retval = .PARSE_FAIL ∧ s.SameVerdicts r) ∨
      ∃ c, E.loop.Visits (E.entry s) c ∧ c.Takes E ch.regid .t18 ∧ s.SameVerdicts c ∧
        r = (c.judge ch.regid).finish E := by
  obtain ⟨t, ⟨hreach, hhalt⟩, rfl⟩ := parse_ended h
  have hinv : Pending E ch s t := by
    refine hreach.invariant (Pending E ch s) (.inl ⟨rfl, rfl, rfl, rfl⟩) fun c d hc hcd hinv => ?_
    rcases hinv with ⟨hret, hgood, hbad, hempty⟩ | ⟨b, _, _, _, _, hsize⟩
    · by_cases hregid : ∃ w, c.Takes E w .t18
      · obtain ⟨w, htakes⟩ := hregid
        obtain ⟨hidx, ⟨hskip, _⟩ | ⟨x, tr, u, htakes', hfires, rfl⟩⟩ := next_cases hcd
        · exact absurd htakes hskip.not_takes
        · obtain ⟨rfl, rfl⟩ := htakes.unique htakes'
          obtain ⟨hlast, rfl⟩ := hE.regid_last hidx htakes.1 htakes.regid
          have hmove := hfires.eventIndex (by decide)
          cases hfires
          refine .inr ⟨c, ⟨hc, hcd.1⟩, htakes, ⟨hgood, hbad, hempty⟩, rfl, ?_⟩
          exact Nat.le_of_eq (hlast.symm.trans (congrArg (· + 1) hmove.symm))
      · obtain ⟨hret', hgood', hbad', hempty'⟩ :=
          next_unjudged hcd fun w hw => hregid ⟨w, hw⟩
        exact .inl ⟨hret'.trans hret, hgood'.trans hgood, hbad'.trans hbad,
          hempty'.trans hempty⟩
    · have := hcd.1
      simp [Env.loop] at this
      omega
  rcases hinv with hinv | ⟨c, hc, htakes, hsame, rfl, _⟩
  · exact .inl hinv
  · exact .inr ⟨c, hc, htakes, hsame, rfl⟩

theorem trans18_cases (s : Fsm) (w : Word) :
    (s.trans18 w).ev = { s.ev with regid := some (regidOf w).toUInt32 } ∧
    (((s.trans18 w).eventIsEmpty = true ∧ (s.trans18 w).report =
        { s.report with eventsEmpty := s.report.eventsEmpty + 1 }) ∨
      ((s.trans18 w).eventIsEmpty = false ∧ s.errInEvent = true ∧ (s.trans18 w).report =
        { s.report with eventsBad := s.report.eventsBad + 1 }) ∨
      ((s.trans18 w).eventIsEmpty = false ∧ s.errInEvent = false ∧ (s.trans18 w).report =
        { s.report with eventsGood := s.report.eventsGood + 1 })) := by
  unfold trans18
  dsimp only
  generalize (if s.ev.trinfo.length > 0 then false
    else !s.ev.block.any fun b => decide (b.fee.length > 0)) = isEmpty
  cases isEmpty <;> cases s.errInEvent <;> simp

theorem Takes.last {c d : Fsm} {w : Word} (hE : E.Carries ch) (h : c.Takes E w .t18)
    (hd : E.loop.Visits c d) : d = c := by
  rcases Relation.ReflTransGen.cases_head hd.1 with rfl | ⟨e, hce, hed⟩
  · rfl
  · obtain ⟨hidx, ⟨hskip, _⟩ | ⟨x, tr, u, htakes, hfires, rfl⟩⟩ := next_cases hce
    · exact absurd h hskip.not_takes
    · obtain ⟨rfl, rfl⟩ := h.unique htakes
      obtain ⟨hlast, _⟩ := hE.regid_last hidx h.1 h.regid
      have hmove := hfires.eventIndex (by decide)
      have hhalt : E.loop.halted u.advance = true := by
        have hidx' : u.advance.eventIndex = c.eventIndex + 1 := congrArg (· + 1) hmove
        simp [Env.loop, hidx', hlast]
      rw [Loop.Reaches.eq_of_halted hed hhalt] at hd
      exact absurd hd.2 (by simp [hhalt])

/-- Induction over the turns of a call: the REGID word that ends an event is the last one. -/
theorem visits_induction (hE : E.Carries ch) (P : Fsm → Prop) (hentry : P (E.entry s))
    (hskip : ∀ c, c.Skips E → E.loop.Next c c.advance → P c → P c.advance)
    (hfire : ∀ c w tr u, E.loop.Visits (E.entry s) c → c.Takes E w tr → tr ≠ .t18 →
      Fires E c w tr u → E.loop.Next c u.advance → P c → P u.advance) {c : Fsm}
    (hc : E.loop.Visits (E.entry s) c) : P c := by
  have hsize (d : Fsm) (hd : E.loop.halted d = false) : ¬ E.eventSize ≤ d.eventIndex := by
    simpa [Env.loop] using hd
  have hinv : P c ∨ E.eventSize ≤ c.eventIndex := by
    refine hc.1.invariant (fun c => P c ∨ E.eventSize ≤ c.eventIndex) (.inl hentry)
      fun c d hreach hcd hinv => ?_
    have hP : P c := hinv.resolve_right (hsize c hcd.1)
    obtain ⟨hidx, ⟨hempty, rfl⟩ | ⟨w, tr, u, htakes, hfires, rfl⟩⟩ := next_cases hcd
    · exact .inl (hskip c hempty hcd hP)
    · by_cases hregid : tr = .t18
      · subst hregid
        obtain ⟨hlast, _⟩ := hE.regid_last hidx htakes.1 htakes.regid
        have hmove := hfires.eventIndex (by decide)
        exact .inr (Nat.le_of_eq (hlast.symm.trans (congrArg (· + 1) hmove.symm)))
      · exact .inl (hfire c w tr u ⟨hreach, hcd.1⟩ htakes hregid hfires hcd hP)
  exact hinv.resolve_right (hsize c hc.2)

/-- How a call comes to count its event as a good one. -/
theorem good_verdict (hE : E.Carries ch) (h : s.parse E fuel = .ended r)
    (hgood : s.report.eventsGood < r.report.eventsGood) :
    ∃ c, E.loop.Visits (E.entry s) c ∧ c.Takes E ch.regid .t18 ∧ c.errInEvent = false ∧
      r.ev = { c.ev with regid := some (regidOf ch.regid).toUInt32 } := by
  rcases parse_verdict hE h with ⟨_, hsame, _⟩ | ⟨c, hc, htakes, ⟨hsame, _⟩, rfl⟩
  · omega
  · obtain ⟨hev, hverdict⟩ := trans18_cases c ch.regid
    have hcount : s.report.eventsGood < (c.trans18 ch.regid).report.eventsGood := hgood
    rcases hverdict with ⟨_, hreport⟩ | ⟨_, _, hreport⟩ | ⟨_, herr, _⟩
    · rw [hreport] at hcount
      exact absurd hcount (by simp [hsame])
    · rw [hreport] at hcount
      exact absurd hcount (by simp [hsame])
    · exact ⟨c, hc, htakes, herr, hev⟩

/-- A test of every turn of a call, with the word and the transition of the turn. -/
def everyTurn (E : Env) (P : Fsm → Word → Trans → Bool) (fuel : Nat) (s : Fsm) : Bool :=
  (E.loop.trace fuel (E.entry s)).all fun c =>
    (E.event c.eventIndex).all fun w => P c w (ttable (getwordId w) c.stateId)

theorem takes_of_everyTurn {P : Fsm → Word → Trans → Bool}
    (hrun : s.parse E fuel = .ended r) (hP : everyTurn E P fuel s = true) :
    ∀ c w tr, E.loop.Visits (E.entry s) c → c.Takes E w tr → P c w tr = true := by
  rintro c w tr hc ⟨hw, _, rfl⟩
  obtain ⟨t, hrun, _⟩ := run_of_parse hrun
  have hturn := List.all_eq_true.1 hP c (hc.mem_trace hrun)
  simpa [hw] using hturn

end Fsm

end FzDaq.Parser
