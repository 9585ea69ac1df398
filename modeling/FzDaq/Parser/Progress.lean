import FzDaq.Parser.Run

/-!
# Progress

The gathering loops move the cursor by a number of words taken from the data,
step it back by one and leave the last step to the `for` loop. A turn never
moves it back, and in the basic format it stands still in one case only: a
waveform that is gathered by its length, of length zero.
-/

namespace FzDaq.Parser

open Machine

/-- The words of a chunk in readable memory: behind them lies `behind`. -/
def Chunk.envIn (ch : Chunk) (fmt : Format) (past : Chunk.Past) (behind : Nat → Word) : Env where
  evformat := fmt
  eventSize := ch.words.length
  event k := some (ch.words[k]?.getD (behind k))
  pastValue k := some (past.value k)
  pastSample k := some (past.sample k)
  pastStr t k := some (past.str t k)
  pastRange := past.range

theorem Chunk.envIn_carries (ch : Chunk) (fmt : Format) (past : Chunk.Past)
    (behind : Nat → Word) : (ch.envIn fmt past behind).Carries ch := by
  refine ⟨rfl, fun k hk => ?_⟩
  have hk' : k < ch.words.length := hk
  simp [Chunk.envIn, hk']

namespace Fsm

variable {E : Env} {s t c d : Fsm} {w : Word} {tr : Trans} {ch : Chunk}

/-! ## The cursor -/

/-- A DATA word is met again and again: a waveform without energies in front of it
whose length word was zero. -/
def spins (c : Fsm) : Bool :=
  c.wflenDone && !c.dType.hasEnergy && c.dType != .ADC && c.rdWflen == 0

theorem trans08Basic_eventIndex (hw : E.event s.eventIndex = some w) (hdata : w ≤ 0x7FFF)
    (ht : s.trans08Basic E w = some t) :
    s.eventIndex ≤ t.eventIndex ∨ (s.spins = true ∧ t.eventIndex = s.eventIndex - 1) := by
  rcases trans08Basic_cases ht with ⟨_, ht | ht | ht⟩ | ⟨htype, ht⟩
  · obtain ⟨_, _, rfl⟩ := lowEnergy1_eq_some ht
    exact .inl (Nat.le_refl _)
  · obtain ⟨_, _, _, rfl⟩ := energy2_eq_some ht
    exact .inl (Nat.le_refl _)
  · rcases waveformByData_eq_some ht with ⟨_, rfl⟩ | ⟨_, rfl⟩ |
      ⟨_, _, ws, stop, _, hreads, _, hstop, rfl⟩
    · exact .inl (Nat.le_refl _)
    · exact .inl (Nat.le_refl _)
    · left
      cases ws with
      | nil =>
          have hfirst : E.event s.eventIndex = some stop := hreads.1
          rw [hw, Option.some.injEq] at hfirst
          exact absurd (hfirst ▸ hdata) hstop
      | cons x ws =>
          rw [gathered_eq]
          change s.eventIndex ≤ s.eventIndex + (ws.length + 1) - 1
          omega
  · rcases waveformByCount_eq_some ht with ⟨_, rfl⟩ | ⟨hdone, hadc, ws, hlen, _, rfl⟩ |
      ⟨_, _, u, ws, hsine, _, _, rfl⟩
    · exact .inl (Nat.le_refl _)
    · rw [gathered_eq]
      change s.eventIndex ≤ s.eventIndex + ws.length - 1 ∨
        (s.spins = true ∧ s.eventIndex + ws.length - 1 = s.eventIndex - 1)
      have hdone : s.wflenDone = true := hdone
      have hadc : s.dType ≠ .ADC := hadc
      have hlen : ws.length = s.rdWflen.toNat := hlen
      by_cases hzero : s.rdWflen = 0
      · right
        simp [spins, hdone, htype, hadc, hzero, hlen]
      · left
        have : s.rdWflen.toNat ≠ 0 := fun h => hzero (UInt16.toNat_inj.1 h)
        omega
    · obtain ⟨_, _, _, _, _, _, _, rfl⟩ := readSineCosine_eq_some.1 hsine
      rw [gathered_eq]
      left
      change s.eventIndex ≤ s.eventIndex + 6 + ws.length - 1
      omega

/-- In the tag format only a waveform without samples moves the cursor back. -/
theorem trans08Tag_eventIndex (hw : E.event s.eventIndex = some w)
    (ht : s.trans08Tag E w = some t) :
    s.eventIndex ≤ t.eventIndex ∨
      (s.tagDone = true ∧ s.wflenDone = true ∧ s.tag = TAG_WAVEFORM ∧ s.rdWflen = 0) ∧
        t.eventIndex = s.eventIndex - 1 ∧ t.tagDone = false ∧ t.wflenDone = false := by
  rcases trans08Tag_cases hw ht with ⟨_, rfl⟩ | ⟨_, _, rfl⟩ | ⟨htag, hlen, u, v, hu, hv, rfl⟩
  · rw [readTag_frame.2]
    exact .inl (Nat.le_refl _)
  · exact .inl (Nat.le_refl _)
  · have hread : s.eventIndex ≤ u.eventIndex ∨
        (s.tag = TAG_WAVEFORM ∧ s.rdWflen = 0) ∧ u.eventIndex = s.eventIndex - 1 := by
      rcases readRecord_cases (s := (s.updateBlk w).updateFee w) hw hu with ⟨_, rfl⟩ |
        ⟨hwav, hzero, rfl⟩ | ⟨_, ws, _, _, _, rfl⟩ | ⟨_, ws, _, _, _, _, rfl⟩ |
        ⟨_, _, _, _, rfl⟩ | ⟨_, ws, _, _, _, _, rfl⟩
      · exact .inl (Nat.le_refl _)
      · exact .inr ⟨⟨hwav, hzero⟩, rfl⟩
      · exact .inl (Nat.le_add_right _ _)
      · exact .inl (Nat.le_add_right _ _)
      · exact .inl (Nat.le_add_right _ _)
      · exact .inl (Nat.le_add_right _ _)
    have hcheck : v.eventIndex = u.eventIndex := by
      split at hv
      · obtain ⟨_, _, rfl⟩ := verifyWaveform_eq_some hv
        rfl
      · rw [hv]
    rw [← hcheck] at hread
    rcases hread with hle | ⟨⟨hwav, hzero⟩, hback⟩
    · exact .inl hle
    · exact .inr ⟨⟨htag, hlen, hwav, hzero⟩, hback, rfl, rfl⟩

theorem next_eventIndex_le (h : E.loop.Next c d) : c.eventIndex ≤ d.eventIndex := by
  obtain ⟨_, ⟨_, rfl⟩ | ⟨w, tr, u, htakes, hfires, rfl⟩⟩ := next_cases h
  · exact Nat.le_succ _
  · change c.eventIndex ≤ u.eventIndex + 1
    by_cases hdata : tr = .t08
    · subst hdata
      have hword := (getwordId_data_iff w).1 (ttable_eq htakes.2.2).2
      cases hfires with
      | t08Basic _ hu =>
          rcases trans08Basic_eventIndex htakes.1 hword hu with hle | ⟨_, heq⟩
          · exact Nat.le_succ_of_le hle
          · change c.eventIndex ≤ Fsm.eventIndex _ + 1
            rw [heq]
            omega
      | t08Tag _ hu =>
          rcases trans08Tag_eventIndex htakes.1 hu with hle | ⟨_, heq, _⟩
          · exact Nat.le_succ_of_le hle
          · change c.eventIndex ≤ Fsm.eventIndex _ + 1
            rw [heq]
            omega
    · rw [hfires.eventIndex hdata]
      exact Nat.le_succ _

theorem reaches_eventIndex_le (h : E.loop.Reaches c d) : c.eventIndex ≤ d.eventIndex :=
  h.invariant (fun d => c.eventIndex ≤ d.eventIndex) (Nat.le_refl _)
    fun _ _ _ hde hle => Nat.le_trans hle (next_eventIndex_le hde)

/-- In the basic format a turn that does not spin moves the cursor on. -/
theorem next_eventIndex_lt (hf : E.evformat = .basic) (h : E.loop.Next c d)
    (hspin : ∀ w, c.Takes E w .t08 → c.spins = false) : c.eventIndex < d.eventIndex := by
  obtain ⟨_, ⟨_, rfl⟩ | ⟨w, tr, u, htakes, hfires, rfl⟩⟩ := next_cases h
  · exact Nat.lt_succ_self _
  · change c.eventIndex < u.eventIndex + 1
    by_cases hdata : tr = .t08
    · subst hdata
      have hword := (getwordId_data_iff w).1 (ttable_eq htakes.2.2).2
      cases hfires with
      | t08Basic _ hu =>
          rcases trans08Basic_eventIndex htakes.1 hword hu with hle | ⟨hbad, _⟩
          · exact Nat.lt_succ_of_le hle
          · rw [hspin w htakes] at hbad
            cases hbad
      | t08Tag hf' _ =>
          rw [hf] at hf'
          cases hf'
    · rw [hfires.eventIndex hdata]
      exact Nat.lt_succ_self _

end Fsm

end FzDaq.Parser
