import FzDaq.Parser.Flags
import FzDaq.Parser.Lockstep

/-!
# EMPTY words

The loop of `process` skips EMPTY words, the gathering loops and the records do not:
padding changes nothing exactly where every word of a turn stands next to the last
one. `Chunk.Padding` inserts EMPTY words anywhere in front of the REGID word.
-/

namespace FzDaq.Parser

open Machine

/-! ## Insertions into a list of words -/

/-- The words with `before k` in front of the `k`-th. -/
def insertAll (before : Nat → List Word) : List Word → List Word
  | [] => []
  | w :: ws => before 0 ++ w :: insertAll (fun k => before (k + 1)) ws

/-- Where the `k`-th word stands after the insertion. -/
def insertPos (before : Nat → List Word) : Nat → Nat
  | 0 => (before 0).length
  | k + 1 => insertPos before k + 1 + (before (k + 1)).length

variable {before : Nat → List Word} {ws : List Word} {w : Word}

theorem insertPos_succ (before : Nat → List Word) (k : Nat) :
    insertPos before (k + 1) =
      (before 0).length + 1 + insertPos (fun k => before (k + 1)) k := by
  induction k with
  | zero => rfl
  | succ k ih =>
      rw [insertPos, ih]
      simp only [insertPos]
      omega

theorem insertPos_lt (before : Nat → List Word) (k : Nat) :
    insertPos before k < insertPos before (k + 1) := by
  rw [insertPos]
  omega

theorem insertPos_strictMono (before : Nat → List Word) {k m : Nat} (h : k < m) :
    insertPos before k < insertPos before m := by
  induction h with
  | refl => exact insertPos_lt before k
  | step _ ih => exact Nat.lt_trans ih (insertPos_lt before _)

theorem insertPos_mono (before : Nat → List Word) {k m : Nat} (h : k ≤ m) :
    insertPos before k ≤ insertPos before m := by
  rcases Nat.lt_or_eq_of_le h with h | rfl
  · exact Nat.le_of_lt (insertPos_strictMono before h)
  · exact Nat.le_refl _

theorem le_insertPos (before : Nat → List Word) (k : Nat) : k ≤ insertPos before k := by
  induction k with
  | zero => exact Nat.zero_le _
  | succ k ih => exact Nat.succ_le_of_lt (Nat.lt_of_le_of_lt ih (insertPos_lt before k))

theorem insertAll_append (before : Nat → List Word) (us vs : List Word) :
    insertAll before (us ++ vs) =
      insertAll before us ++ insertAll (fun k => before (us.length + k)) vs := by
  induction us generalizing before with
  | nil => simp [insertAll]
  | cons u us ih =>
      simp only [List.cons_append, insertAll, ih, List.append_assoc, List.length_cons]
      congr 4
      funext k
      congr 1
      omega

theorem insertAll_length (before : Nat → List Word) (ws : List Word) :
    (insertAll before ws).length + (before ws.length).length = insertPos before ws.length := by
  induction ws generalizing before with
  | nil => simp [insertAll, insertPos]
  | cons w ws ih =>
      rw [List.length_cons, insertPos_succ, ← ih]
      simp only [insertAll, List.length_append, List.length_cons]
      omega

theorem insertAll_get (before : Nat → List Word) {ws : List Word} {k : Nat} (hk : k < ws.length) :
    (insertAll before ws)[insertPos before k]? = ws[k]? := by
  induction ws generalizing before k with
  | nil => cases hk
  | cons w ws ih =>
      cases k with
      | zero => simp [insertAll, insertPos]
      | succ k =>
          rw [insertPos_succ, insertAll, List.getElem?_append_right (by omega),
            show (before 0).length + 1 + insertPos (fun k => before (k + 1)) k -
              (before 0).length = insertPos (fun k => before (k + 1)) k + 1 by omega,
            List.getElem?_cons_succ, ih _ (Nat.lt_of_succ_lt_succ hk), List.getElem?_cons_succ]

theorem insertAll_get_inserted (before : Nat → List Word) {ws : List Word} {j : Nat}
    (hj : (insertAll before ws)[j]? = some w) :
    (∃ k, j = insertPos before k) ∨ ∃ k, w ∈ before k := by
  induction ws generalizing before j with
  | nil => cases hj
  | cons x ws ih =>
      rw [insertAll, List.getElem?_append] at hj
      split at hj
      · exact .inr ⟨0, List.mem_of_getElem? hj⟩
      · rename_i hlen
        obtain ⟨m, rfl⟩ := Nat.exists_eq_add_of_le (Nat.le_of_not_lt hlen)
        rw [Nat.add_sub_cancel_left] at hj
        cases m with
        | zero => exact .inl ⟨0, rfl⟩
        | succ m =>
            rw [List.getElem?_cons_succ] at hj
            rcases ih _ hj with ⟨k, rfl⟩ | ⟨k, hk⟩
            · refine .inl ⟨k + 1, ?_⟩
              rw [insertPos_succ]
              omega
            · exact .inr ⟨k + 1, hk⟩

/-! ## Padded chunks -/

/-- EMPTY words for the places in front of the words of a chunk. -/
structure Chunk.Padding (ch : Chunk) where
  before : Nat → List Word
  empty : ∀ k, ∀ w ∈ before k, getwordId w = .empty
  inside : ∀ k, ch.words.length ≤ k → before k = []

theorem insertAll_words (ch : Chunk) (before : Nat → List Word) :
    insertAll before ch.words =
      (insertAll before ch.body ++ before ch.body.length) ++ [ch.regid] := by
  simp [Chunk.words, insertAll_append, insertAll]

theorem insertAll_mem (before : Nat → List Word) (hw : w ∈ insertAll before ws) :
    w ∈ ws ∨ ∃ k, w ∈ before k := by
  induction ws generalizing before with
  | nil => cases hw
  | cons x ws ih =>
      rcases List.mem_append.1 hw with hw | hw
      · exact .inr ⟨0, hw⟩
      rcases List.mem_cons.1 hw with rfl | hw
      · exact .inl List.mem_cons_self
      rcases ih _ hw with hw | ⟨k, hk⟩
      · exact .inl (List.mem_cons_of_mem _ hw)
      · exact .inr ⟨k + 1, hk⟩

/-- The chunk with the EMPTY words. -/
def Chunk.Padding.chunk {ch : Chunk} (p : ch.Padding) : Chunk where
  body := insertAll p.before ch.body ++ p.before ch.body.length
  regid := ch.regid
  regid_id := ch.regid_id
  body_id w hw := by
    rcases List.mem_append.1 hw with hw | hw
    · rcases insertAll_mem p.before hw with hw | ⟨k, hk⟩
      · exact ch.body_id w hw
      · rw [p.empty k w hk]
        decide
    · rw [p.empty _ w hw]
      decide

namespace Chunk.Padding

variable {ch : Chunk} (p : ch.Padding)

theorem words : p.chunk.words = insertAll p.before ch.words := by
  rw [insertAll_words]
  rfl

theorem length : p.chunk.words.length = insertPos p.before ch.words.length := by
  rw [words, ← insertAll_length, p.inside _ (Nat.le_refl _)]
  rfl

theorem emptyAt (fmt : Format) (past : Past) {j : Nat} (hj : j < p.chunk.words.length)
    (hne : ∀ k, j ≠ insertPos p.before k) : (p.chunk.env fmt past).EmptyAt j := by
  refine ⟨p.chunk.words[j], List.getElem?_eq_getElem hj, ?_⟩
  have hget : (insertAll p.before ch.words)[j]? = some p.chunk.words[j] := by
    rw [← p.words]
    exact List.getElem?_eq_getElem hj
  rcases insertAll_get_inserted p.before hget with ⟨k, hk⟩ | ⟨k, hk⟩
  · exact absurd hk (hne k)
  · exact p.empty k _ hk

theorem pads (fmt : Format) (past : Past) :
    (ch.env fmt past).Pads (p.chunk.env fmt past) (insertPos p.before) where
  word k := by
    change p.chunk.words[_]? = ch.words[k]?
    by_cases hk : k < ch.words.length
    · rw [p.words, insertAll_get _ hk]
    · have hlast := p.length
      have hmono := insertPos_mono p.before (Nat.le_of_not_lt hk)
      rw [List.getElem?_eq_none (by omega), List.getElem?_eq_none (by omega)]
  lt := insertPos_lt p.before
  gap k j hkj hjk := by
    have hbetween (m : Nat) : j ≠ insertPos p.before m := by
      intro hm
      rcases Nat.lt_trichotomy m k with h | rfl | h
      · have := insertPos_strictMono p.before h
        omega
      · omega
      · have hle := insertPos_mono p.before (show k + 1 ≤ m from h)
        omega
    refine p.emptyAt fmt past ?_ hbetween
    rw [p.length]
    by_cases hk : k + 1 < ch.words.length
    · exact Nat.lt_trans hjk (insertPos_strictMono p.before hk)
    · rw [insertPos, p.inside (k + 1) (Nat.le_of_not_lt hk), List.length_nil] at hjk
      omega
  front j hj := by
    have hpos : 0 < ch.words.length := by simp [Chunk.words]
    refine p.emptyAt fmt past ?_ fun m hm => ?_
    · rw [p.length]
      exact Nat.lt_trans hj (insertPos_strictMono p.before hpos)
    · rcases Nat.eq_zero_or_pos m with rfl | h
      · omega
      · have := insertPos_strictMono p.before h
        omega
  size := p.length

end Chunk.Padding

/-! ## Calls -/

namespace Fsm

variable {s r : Fsm} {ch : Chunk} {fmt : Format} {past : Chunk.Past} {fuel : Nat}

/-- No EMPTY word is inserted between two words that one turn consumes. -/
def BetweenTurns (E : Env) (s : Fsm) (p : ch.Padding) : Prop :=
  ∀ c d, E.loop.Visits (E.entry s) c → E.loop.Next c d →
    ∀ k, c.eventIndex < k → k < d.eventIndex → p.before k = []

/-- Padding between the turns of a call does not change what the call does. -/
theorem parse_padded (p : ch.Padding) (hrun : s.parse (ch.env fmt past) fuel = .ended r)
    (hbetween : BetweenTurns (ch.env fmt past) s p) :
    ∃ fuel' r', s.parse (p.chunk.env fmt past) fuel' = .ended r' ∧ r'.retval = r.retval ∧
      r'.ev = r.ev ∧ r'.report.stateInvalid = r.report.stateInvalid ∧
      r'.report.eventsEmpty = r.report.eventsEmpty ∧
      r'.report.eventsGood = r.report.eventsGood ∧ r'.report.eventsBad = r.report.eventsBad := by
  have hle : ch.words.length ≤ p.chunk.words.length := by
    rw [p.length]
    exact le_insertPos _ _
  have hp : Parallel (ch.env fmt past) (p.chunk.env fmt past) (insertPos p.before) s s := {
    akin := ⟨rfl, hle, rfl, rfl, p.chunk.env_pastTotal fmt past⟩
    pads := p.pads fmt past
    ragged := fun _ _ _ _ => .inr rfl
    together := fun c d hc hcd k hk hkd => by
      rw [insertPos, hbetween c d hc hcd (k + 1) (by omega) hkd]
      rfl
    restores := fun _ _ _ _ _ => .inl ⟨rfl, rfl⟩ }
  obtain ⟨fuel', r', δ, hrun', hret, hev, _, hδ, hδ'⟩ :=
    hp.parse (ch.env_carries fmt past) (p.chunk.env_carries fmt past) hrun
  refine ⟨fuel', r', hrun', hret, hev, ?_⟩
  rw [hδ, hδ']
  exact ⟨rfl, rfl, rfl, rfl⟩

/-- The words between which nothing may be inserted, tested on the turns of a call. -/
theorem betweenTurns_of_everyTurn (p : ch.Padding)
    (hrun : s.parse (ch.env fmt past) fuel = .ended r)
    (htest : everyTurn (ch.env fmt past) (fun c _ _ => (c.turn (ch.env fmt past)).all fun d =>
      (List.range d.eventIndex).all fun k => decide (k ≤ c.eventIndex) || (p.before k).isEmpty)
      fuel s = true) : BetweenTurns (ch.env fmt past) s p := by
  intro c d hc hcd k hk hkd
  obtain ⟨_, ⟨_, rfl⟩ | ⟨w, tr, _, htakes, _, _⟩⟩ := next_cases hcd
  · change k < c.eventIndex + 1 at hkd
    omega
  · have hturn := takes_of_everyTurn hrun htest c w tr hc htakes
    have hbody : c.turn (ch.env fmt past) = some d := hcd.2
    rw [hbody] at hturn
    have hword := List.all_eq_true.1 hturn k (List.mem_range.2 hkd)
    simpa [Nat.not_le_of_lt hk] using hword

/-- `0x8080` in front of some of the words of `sampled`. -/
def sampledPadding (places : List Nat) (h : places.all (· < 20)) : sampled.Padding where
  before k := if k ∈ places then [0x8080] else []
  empty := by
    intro k w hw
    split at hw
    · obtain rfl := List.mem_singleton.1 hw
      decide
    · cases hw
  inside k hk := by
    refine if_neg fun hmem => ?_
    have hlt := List.all_eq_true.1 h k hmem
    have hlen : sampled.words.length = 20 := rfl
    rw [hlen] at hk
    exact absurd (by simpa using hlt) (Nat.not_lt_of_le hk)

/-- `parse_padded` with EMPTY words in front of the event, behind a tag and in front of
the BLKID word. -/
theorem sampled_padded :
    ∃ r, Fsm.parse (sampled.env .tag .zero) 20 {} = .ended r ∧
      ∃ fuel' r', Fsm.parse ((sampledPadding [0, 7, 16] rfl).chunk.env .tag .zero) fuel' {} =
          .ended r' ∧
        r'.retval = r.retval ∧ r'.ev = r.ev ∧ r'.report.stateInvalid = r.report.stateInvalid ∧
        r'.report.eventsEmpty = r.report.eventsEmpty ∧
        r'.report.eventsGood = r.report.eventsGood ∧
        r'.report.eventsBad = r.report.eventsBad := by
  obtain ⟨r, hrun⟩ : ∃ r, Fsm.parse (sampled.env .tag .zero) 20 {} = .ended r := ⟨_, rfl⟩
  exact ⟨r, hrun, parse_padded _ hrun (betweenTurns_of_everyTurn _ hrun rfl)⟩

/-- An EMPTY word between the two samples becomes a sample. -/
theorem sampled_padded_inside :
    ∃ r r', Fsm.parse (sampled.env .tag .zero) 20 {} = .ended r ∧
      Fsm.parse ((sampledPadding [12] rfl).chunk.env .tag .zero) 21 {} = .ended r' ∧
      r.report.eventsGood = 1 ∧ r'.report.eventsGood = 0 ∧
      (r.ev.getData ⟨0, 0, 0, 0⟩).waveform.map (·.sample) = some [5, 6] ∧
      (r'.ev.getData ⟨0, 0, 0, 0⟩).waveform.map (·.sample) = some [5, 0x8080] :=
  ⟨_, _, rfl, rfl, rfl, rfl, rfl, rfl⟩

end Fsm

end FzDaq.Parser
