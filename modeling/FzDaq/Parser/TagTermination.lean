import FzDaq.Machine.Pace
import FzDaq.Parser.Build
import FzDaq.Parser.Faults

/-!
# Termination in the tag format

A word is met again only behind a waveform record without samples: the payload turn has
stepped back over it, and it is taken as the next tag. That is why the loop is left after
two turns for each word at most, whatever the words are.
-/

namespace FzDaq.Parser

open Machine

namespace Fsm

variable {E : Env} {s t c d : Fsm} {w : Word} {tr : Trans}

/-! ## A turn of the tag format -/

/-- The payload of a record is expected. -/
def payloadDue (c : Fsm) : Bool := decide (c.stateId = .s5) && c.wflenDone

theorem payloadDue_of_ne (hs : c.stateId ≠ .s5) : c.payloadDue = false := by
  simp [payloadDue, hs]

/-- The payload turn of a waveform record without samples. -/
structure Empty (c : Fsm) : Prop where
  tagDone : c.tagDone = true
  wflenDone : c.wflenDone = true
  tag : c.tag = TAG_WAVEFORM
  rdWflen : c.rdWflen = 0

/-- A turn moves on, or it is at the payload of a waveform without samples, and stands at
the same word in front of the next tag. -/
theorem tag_next_cases (hf : E.evformat = .tag) (h : E.loop.Next c d) :
    c.eventIndex < d.eventIndex ∨
      d.eventIndex = c.eventIndex ∧ c.Empty ∧ d.stateId = .s5 ∧ d.tagDone = false ∧
        d.wflenDone = false ∧ ∃ w, c.Takes E w .t08 := by
  obtain ⟨_, ⟨_, rfl⟩ | ⟨w, tr, u, htakes, hfires, rfl⟩⟩ := next_cases h
  · exact .inl (Nat.lt_succ_self _)
  · change c.eventIndex < u.eventIndex + 1 ∨ u.eventIndex + 1 = c.eventIndex ∧ _
    by_cases hdata : tr = .t08
    · subst hdata
      cases hfires with
      | t08Basic hf' _ =>
          rw [hf] at hf'
          cases hf'
      | t08Tag _ hu =>
          rcases trans08Tag_eventIndex htakes.1 hu with
            hle | ⟨⟨htag, hlen, hwav, hzero⟩, hback, htag', hlen'⟩
          · exact .inl (Nat.lt_succ_of_le hle)
          · rw [hback]
            by_cases hpos : 0 < c.eventIndex
            · exact .inr ⟨Nat.sub_add_cancel hpos, ⟨htag, hlen, hwav, hzero⟩, rfl, htag', hlen', w,
                htakes⟩
            · exact .inl (by omega)
    · rw [hfires.eventIndex hdata]
      exact .inl (Nat.lt_succ_self _)

theorem tag_paced (hf : E.evformat = .tag) :
    E.loop.Paced Fsm.eventIndex payloadDue E.eventSize where
  halted c hhalt := by simpa [Env.loop] using hhalt
  next c d hnext := by
    rcases tag_next_cases hf hnext with hmove | ⟨hsame, hempty, _, _, hlen, w, htakes⟩
    · exact .inl hmove
    · have hs : c.stateId = .s5 := (ttable_eq htakes.2.2).1
      exact .inr ⟨hsame, by simp [payloadDue, hs, hempty.wflenDone], by simp [payloadDue, hlen]⟩

theorem tag_turn_total (hp : E.PastTotal) (hmem : ∀ k, (E.event k).isSome)
    (hf : E.evformat = .tag) (c : Fsm) : ∃ d, c.turn E = some d := by
  obtain ⟨w, hw⟩ := Option.isSome_iff_exists.1 (hmem c.eventIndex)
  have hturn : c.turn E = c.dispatch E w := by rw [turn, hw]; rfl
  rw [hturn, dispatch]
  by_cases hempty : getwordId w = .empty
  · exact ⟨_, if_pos hempty⟩
  · rw [if_neg hempty]
    have hfire : ∃ t, c.fire E (ttable (getwordId w) c.stateId) w = some t := by
      by_cases hdata : ttable (getwordId w) c.stateId = .t08
      · obtain ⟨t, ht⟩ := (trans08Tag_total_iff hp hf hw).2 fun _ _ => hmem _
        exact ⟨{ t with stateId := .s5 }, by simp only [hdata, fire, hf, ht, Option.map_some]⟩
      · exact fire_total hp hdata
    obtain ⟨t, ht⟩ := hfire
    exact ⟨t.advance, by rw [ht]; rfl⟩

/-! ## The length word of a record -/

/-- The turn at the length word `w` of the record whose payload is due in `c`; between the
two there are EMPTY words only. -/
structure LengthWord (E : Env) (b c : Fsm) (w : Word) : Prop where
  takes : b.Takes E w .t08
  tagDone : b.tagDone = true
  wflenDone : b.wflenDone = false
  tag : b.tag = c.tag
  before : b.eventIndex < c.eventIndex
  between : ∀ k, b.eventIndex < k → k < c.eventIndex →
    ∃ x, E.event k = some x ∧ getwordId x = .empty

/-- In S5 a length word has been read behind a tag, and is still the last word. -/
def LengthRead (E : Env) (s c : Fsm) : Prop :=
  c.stateId = .s5 → (c.tagDone = false → c.wflenDone = false) ∧
    (c.wflenDone = true → ∃ b, E.loop.Visits (E.entry s) b ∧ LengthWord E b c c.rdWflen)

theorem LengthRead.skip (h : LengthRead E s c) (hskip : c.Skips E) :
    LengthRead E s c.advance := by
  intro hs
  obtain ⟨htag, hlen⟩ := h hs
  refine ⟨htag, fun hdone => ?_⟩
  obtain ⟨b, hb, hword⟩ := hlen hdone
  refine ⟨b, hb, hword.takes, hword.tagDone, hword.wflenDone, hword.tag,
    Nat.lt_succ_of_lt hword.before, fun k hk hk' => ?_⟩
  rcases Nat.lt_succ_iff_lt_or_eq.1 hk' with hk' | rfl
  · exact hword.between k hk hk'
  · exact hskip

theorem LengthRead.fires (h : LengthRead E s c) (hf : E.evformat = .tag)
    (hc : E.loop.Visits (E.entry s) c) (htakes : c.Takes E w tr) (hfires : Fires E c w tr t) :
    LengthRead E s t.advance := by
  intro hs
  have htarget : tr.target = .s5 :=
    (hfires.stateId fun hidle => (hidle ▸ htakes).stateId_idle).symm.trans hs
  have hnone (hlen : t.wflenDone = false) :
      (t.tagDone = false → t.wflenDone = false) ∧ (t.wflenDone = true →
        ∃ b, E.loop.Visits (E.entry s) b ∧ LengthWord E b t.advance t.rdWflen) :=
    ⟨fun _ => hlen, fun hdone => by rw [hlen] at hdone; cases hdone⟩
  cases hfires with
  | t07Tag => exact hnone (readTag_quiet _ w).2
  | t07Basic hf' =>
      rw [hf] at hf'
      cases hf'
  | t08Basic hf' =>
      rw [hf] at hf'
      cases hf'
  | t08Tag _ hu =>
      have hs5 : c.stateId = .s5 := (ttable_eq htakes.2.2).1
      rcases trans08Tag_cases htakes.1 hu with ⟨htag, rfl⟩ | ⟨htag, hlen, rfl⟩ |
        ⟨_, _, u, v, _, _, rfl⟩
      · have hlen := (h hs5).1 htag
        have hquiet := (readTag_quiet ((c.updateBlk w).updateFee w) w).2
        exact hnone (hquiet.trans hlen)
      · refine ⟨fun hnot => ?_, fun _ => ⟨c, hc, htakes, htag, hlen, rfl, Nat.lt_succ_self _,
          fun k hk hk' => ?_⟩⟩
        · change c.tagDone = false at hnot
          rw [htag] at hnot
          cases hnot
        · change k < c.eventIndex + 1 at hk'
          omega
      · exact hnone rfl
  | _ => cases htarget

theorem reaches_lengthRead (hf : E.evformat = .tag) (hc : E.loop.Reaches (E.entry s) c) :
    LengthRead E s c := by
  refine hc.invariant (LengthRead E s) (fun hs => by cases hs) fun c d hreach hnext hinv => ?_
  obtain ⟨_, ⟨hskip, rfl⟩ | ⟨w, tr, u, htakes, hfires, rfl⟩⟩ := next_cases hnext
  · exact hinv.skip hskip
  · exact hinv.fires hf ⟨hreach, hnext.1⟩ htakes hfires

/-! ## The run -/

/-- The turns in `c` and `d` are at the same word: `c` steps back over the first DATA word
behind the length word 0 of a waveform record, and `d` takes it as the next tag. -/
structure SteppedBack (E : Env) (s c d : Fsm) (w : Word) : Prop where
  payload : c.Takes E w .t08
  empty : c.Empty
  length : ∃ b, E.loop.Visits (E.entry s) b ∧ LengthWord E b c 0
  next : d.Takes E w .t08
  asTag : d.tagDone = false

theorem steppedBack_of_next (hf : E.evformat = .tag) (hc : E.loop.Reaches (E.entry s) c)
    (hnext : E.loop.Next c d) (hsame : d.eventIndex = c.eventIndex) :
    ∃ w, SteppedBack E s c d w := by
  rcases tag_next_cases hf hnext with hmove | ⟨_, hempty, hs, htag, _, w, htakes⟩
  · exact absurd hsame (Nat.ne_of_gt hmove)
  · have hstate := ttable_eq htakes.2.2
    obtain ⟨b, hb, hword⟩ := (reaches_lengthRead hf hc hstate.1).2 hempty.wflenDone
    rw [hempty.rdWflen] at hword
    refine ⟨w, htakes, hempty, ⟨b, hb, hword⟩, ⟨hsame ▸ htakes.1, htakes.2.1, ?_⟩, htag⟩
    rw [hstate.2, hs]
    rfl

/-- A chunk of the tag format is parsed in no more than two turns for each of its words,
and a second turn is made only where a waveform without samples has been stepped back. -/
theorem tag_parse_ended (hf : E.evformat = .tag) (hp : E.PastTotal)
    (hmem : ∀ k, (E.event k).isSome) (s : Fsm) :
    (∃ r, s.parse E (2 * E.eventSize) = .ended r) ∧
      (∀ k fuel, (E.loop.trace fuel (E.entry s)).countP (fun c => c.eventIndex == k) ≤ 2) ∧
      ∀ c d, E.loop.Reaches (E.entry s) c → E.loop.Next c d → d.eventIndex = c.eventIndex →
        ∃ w, SteppedBack E s c d w := by
  have hpaced := tag_paced hf
  have hflag : (E.entry s).payloadDue = false :=
    payloadDue_of_ne (by change FsmState.idle ≠ .s5; decide)
  obtain ⟨t, hrun⟩ := hpaced.run_ended hflag fun c _ => tag_turn_total hp hmem hf c
  have hrun : E.loop.run (2 * E.eventSize) (s.importEvent.start E) = .ended t := hrun
  exact ⟨⟨t.finish E, by simp only [parse, process, hrun]⟩,
    fun k fuel => hpaced.countP_le_two k fuel _,
    fun c d hc hnext hsame => steppedBack_of_next hf hc hnext hsame⟩

/-- A waveform record without samples in front of a void word. -/
def emptyRecord : Chunk where
  body := [0xE001, 0x9800, 1, 2, 3, 0x9000, 0x7005, 0, 0x3030, 0xA009, 0xB000]
  regid := 0xC800
  regid_id := getwordId_c800
  body_id := Chunk.ne_regid_of_all rfl

theorem tag_parse_emptyRecord :
    (∃ r, Fsm.parse (emptyRecord.envIn .tag .zero fun _ => 0) 24 {} = .ended r) ∧
      (∀ k fuel, ((emptyRecord.envIn .tag .zero fun _ => 0).loop.trace fuel
        ((emptyRecord.envIn .tag .zero fun _ => 0).entry {})).countP
          (fun c => c.eventIndex == k) ≤ 2) ∧
      ∀ c d, (emptyRecord.envIn .tag .zero fun _ => 0).loop.Reaches
          ((emptyRecord.envIn .tag .zero fun _ => 0).entry {}) c →
        (emptyRecord.envIn .tag .zero fun _ => 0).loop.Next c d →
        d.eventIndex = c.eventIndex →
        ∃ w, SteppedBack (emptyRecord.envIn .tag .zero fun _ => 0) {} c d w :=
  tag_parse_ended (E := emptyRecord.envIn .tag .zero fun _ => 0) rfl
    (emptyRecord.envIn_pastTotal .tag .zero fun _ => 0) (fun _ => rfl) {}

end Fsm

end FzDaq.Parser
