import FzDaq.Parser.Independence
import FzDaq.Parser.Lengths

/-!
# The verdicts on checksums

The running checksums of block and fee are right as long as they run. A turn that
gathers a waveform goes on from a saved pair instead, and that pair is of the last
waveform gathered, in this event or in an earlier one. Whether a verdict is exact
is decided by the last such turn before it.
-/

namespace FzDaq.Parser

open Machine

/-! ## Folding -/

theorem xor_and (a b m : Word) : (a ^^^ b) &&& m = (a &&& m) ^^^ (b &&& m) := by
  apply UInt16.toBitVec_inj.1
  ext i hi
  simp [Bool.and_xor_distrib_right]

theorem crcFold_xor (a b : Word) : crcFold (a ^^^ b) = crcFold a ^^^ crcFold b := by
  simp only [crcFold, xor_and, UInt16.shiftRight_xor]
  ac_rfl

/-- Words counted on both sides do not change whether two checksums fold alike. -/
theorem crcFold_xorAll_iff (a b : Word) (ws : List Word) :
    crcFold (xorAll a ws) = crcFold (xorAll b ws) ↔ crcFold a = crcFold b := by
  induction ws generalizing a b with
  | nil => rfl
  | cons w ws ih => rw [xorAll_cons, xorAll_cons, ih, crcFold_xor, crcFold_xor, UInt16.xor_left_inj]

namespace Fsm

variable {E : Env} {s t u c d : Fsm} {w x : Word} {tr : Trans} {turns : List Turn}
  {us : List Word} {ch : Chunk} {resumes : Fsm → Bool} {saved : Fsm → Word}

/-! ## The last turn that resumes -/

/-- The last turn of `turns` that goes on from a saved checksum, if there is one, finds
one that folds like the checksum of the words in front of it. -/
def LastSound (resumes : Fsm → Bool) (saved : Fsm → Word) (turns : List Turn) : Prop :=
  ∀ front t rest, turns = front ++ t :: rest → resumes t.before = true →
    (∀ r ∈ rest, resumes r.before = false) →
    crcFold (saved t.before) = crcFold (xorAll 0 (wordsOf front))

theorem lastSound_of_none (h : ∀ t ∈ turns, resumes t.before = false) :
    LastSound resumes saved turns := by
  rintro front t rest rfl ht
  simp [h t (by simp)] at ht

theorem lastSound_concat {t : Turn} (ht : resumes t.before = true) :
    LastSound resumes saved (turns ++ [t]) ↔
      crcFold (saved t.before) = crcFold (xorAll 0 (wordsOf turns)) := by
  constructor
  · intro h
    exact h turns t [] rfl ht (by simp)
  · intro h front x rest heq hx hrest
    rcases List.eq_nil_or_concat rest with rfl | ⟨rest, y, rfl⟩
    · obtain ⟨rfl, hlast⟩ := List.append_inj' heq rfl
      cases hlast
      exact h
    · rw [List.concat_eq_append, ← List.cons_append, ← List.append_assoc] at heq
      obtain ⟨_, hlast⟩ := List.append_inj' heq rfl
      cases hlast
      simp [hrest t (by simp)] at ht

theorem lastSound_concat_of_not {t : Turn} (ht : resumes t.before = false) :
    LastSound resumes saved (turns ++ [t]) ↔ LastSound resumes saved turns := by
  constructor
  · rintro h front x rest rfl hx hrest
    refine h front x (rest ++ [t]) (by simp) hx fun r hr => ?_
    rcases List.mem_append.1 hr with hr | hr
    · exact hrest r hr
    · rwa [List.mem_singleton.1 hr]
  · intro h front x rest heq hx hrest
    rcases List.eq_nil_or_concat rest with rfl | ⟨rest, y, rfl⟩
    · obtain ⟨_, hlast⟩ := List.append_inj' heq rfl
      cases hlast
      simp [hx] at ht
    · rw [List.concat_eq_append, ← List.cons_append, ← List.append_assoc] at heq
      obtain ⟨rfl, _⟩ := List.append_inj' heq rfl
      exact h front x rest rfl hx fun r hr => hrest r (by simp [hr])

/-- The step lemma: the words `us` are counted from `run`, or from the saved checksum. -/
theorem lastSound_step (resumes : Fsm → Bool) (saved : Fsm → Word) (t : Turn) {run : Word}
    (h : crcFold run = crcFold (xorAll 0 (wordsOf turns)) ↔ LastSound resumes saved turns) :
    (crcFold (xorAll (if resumes t.before then saved t.before else run) t.words) =
        crcFold (xorAll 0 (wordsOf (turns ++ [t])))) ↔
      LastSound resumes saved (turns ++ [t]) := by
  rw [wordsOf_append, wordsOf_singleton, xorAll_append, crcFold_xorAll_iff]
  cases ht : resumes t.before with
  | true => exact (lastSound_concat ht).symm
  | false => exact h.trans (lastSound_concat_of_not ht).symm

/-! ## The checksum of a block -/

theorem Walk.blkcrc (h : Walk E s .block turns c) :
    crcFold c.blkcrc = crcFold (xorAll 0 (wordsOf turns)) ↔
      LastSound (restores E) (·.saveBlkcrc) turns := by
  induction h with
  | @opened c d w tr _ htakes hopens hcd =>
      obtain ⟨u, hfires, rfl⟩ := htakes.fires_of_next hcd
      have hr : c.restores E = false :=
        restores_of_ne htakes fun h => by simp [h, Part.block] at hopens
      refine iff_of_true ?_ (lastSound_of_none (by simpa using hr))
      have hcrc : u.advance.blkcrc = w := by
        cases hfires with
        | t02 => rfl
        | t17 => rfl
        | _ => simp [Part.block] at hopens
      simp [hcrc, wordsOf]
  | skipped _ hskip hcd ih =>
      obtain rfl := hskip.next hcd
      exact ih
  | @taken turns c d w tr us hwalk htakes hinside hcd hreads hpassed ih =>
      obtain ⟨u, hfires, rfl⟩ := htakes.fires_of_next hcd
      have hcrc : u.advance.blkcrc = xorAll (c.blkBase E) us := by
        by_cases hlength : tr = .t15
        · subst hlength
          have hr := restores_of_ne htakes (by decide)
          cases hfires
          obtain rfl := htakes.words_eq hreads (Nat.add_left_cancel hpassed).symm
          rw [blkBase, hr]
          rfl
        · exact (hfires.counted_block htakes hwalk.eventIndex_pos hinside hlength hreads
            hpassed).blkcrc
      rw [hcrc, blkBase]
      exact lastSound_step (restores E) (·.saveBlkcrc) ⟨c, us⟩ ih

/-! ## The checksum of a fee -/

/-- What `feecrc` is on a walk through a fee: nothing yet at its EC word, then a running
checksum, which its LENGTH word leaves as it is. -/
structure FeeCrc (E : Env) (turns : List Turn) (c : Fsm) : Prop where
  header : c.stateId = .s1 →
    wordsOf turns = [c.tmpRawec] ∧ ∀ t ∈ turns, t.before.restores E = false
  running : c.stateId ∈ [.s2, .s3, .s4, .s5] →
    (crcFold c.feecrc = crcFold (xorAll 0 (wordsOf turns)) ↔
      LastSound (restores E) (·.saveFeecrc) turns)
  behind : c.stateId = .s6 →
    (crcFold c.feecrc = crcFold (xorAll 0 (wordsOf turns).dropLast) ↔
      LastSound (restores E) (·.saveFeecrc) turns)

theorem FeeCrc.telid (h : FeeCrc E turns c) (htakes : c.Takes E w .t03) :
    FeeCrc E (turns ++ [⟨c, [w]⟩]) { c.trans03 w with stateId := .s2 }.advance := by
  obtain ⟨hwords, hnone⟩ := h.header (ttable_eq htakes.2.2).1
  have hr := restores_of_ne htakes (by decide)
  refine ⟨by simp [advance], fun _ => iff_of_true ?_ (lastSound_of_none fun t ht => ?_),
    by simp [advance]⟩
  · have hcrc : { c.trans03 w with stateId := .s2 }.advance.feecrc = c.tmpRawec ^^^ w := rfl
    rw [hcrc, wordsOf_append, wordsOf_singleton, hwords]
    simp
  · rcases List.mem_append.1 ht with ht | ht
    · exact hnone t ht
    · rwa [List.mem_singleton.1 ht]

theorem FeeCrc.length (h : FeeCrc E turns c) (htakes : c.Takes E w .t11)
    (hfires : Fires E c w .t11 u) : FeeCrc E (turns ++ [⟨c, [w]⟩]) u.advance := by
  have hst : u.advance.stateId = .s6 := hfires.stateId (by simp)
  have hr := restores_of_ne htakes (by decide)
  obtain ⟨_, _, hsums⟩ := hfires.toSums_blk (by simp)
  have hcrc := congrArg Sums.feecrc hsums
  refine ⟨by simp [hst], by simp [hst], fun _ => ?_⟩
  rw [show u.advance.feecrc = c.feecrc from hcrc, wordsOf_append, wordsOf_singleton,
    List.dropLast_concat, h.running (by simp [(ttable_eq htakes.2.2).1])]
  exact (lastSound_concat_of_not hr).symm

theorem Walk.feeCrc (h : Walk E s .fee turns c) : FeeCrc E turns c := by
  refine h.fee_induction ?_ ?_ ?_ ?_ ?_
  · intro c d w hr hst hrawec
    refine ⟨fun _ => ⟨?_, by simpa using hr⟩, by simp [hst], by simp [hst]⟩
    rw [wordsOf_singleton, hrawec]
  · intro turns c ih
    exact ⟨ih.header, ih.running, ih.behind⟩
  · intro turns c w htakes ih
    exact ih.telid htakes
  · intro turns c d us hsource htarget hfee ih
    refine ⟨fun h => by simp [h] at htarget, fun _ => ?_, fun h => by simp [h] at htarget⟩
    rw [hfee.feecrc, feeBase]
    exact lastSound_step (restores E) (·.saveFeecrc) ⟨c, us⟩ (ih.running hsource)
  · intro turns c w u htakes hfires ih
    exact ih.length htakes hfires

/-! ## The verdicts -/

theorem verdict_exact {found sound : Prop} {read run right : Word}
    (hfound : found ↔ read = crcFold run) (hsound : crcFold run = crcFold right ↔ sound) :
    (sound → (found ↔ read = crcFold right)) ∧ (read = crcFold right → (found ↔ sound)) := by
  constructor
  · intro h
    rw [hfound, hsound.2 h]
  · intro h
    rw [hfound, h, ← hsound]
    exact eq_comm

/-- The verdicts on checksums at each CRCFE word and at each CRCBL word of a call. If the last
turn of the fee or block that went on from a saved checksum found a sound one the verdict is
exact, and only then is a right checksum found right. -/
theorem crcError_exact (hE : E.Carries ch) (hhalt : E.loop.halted c = false) :
    (∀ w turns, c.Takes E w .t12 → Walk E s .fee turns c →
      let sound := LastSound (restores E) (·.saveFeecrc) turns
      let right := crcfeOf w = crcFold (xorAll 0 (wordsOf turns).dropLast)
      let found := ((c.trans12 w).ev.getFee c.fee).crcError = some false
      (sound → (found ↔ right)) ∧ (right → (found ↔ sound))) ∧
    (∀ w turns, c.Takes E w .t16 → Walk E s .block turns c →
      let sound := LastSound (restores E) (·.saveBlkcrc) turns
      let right := crcblOf w = crcFold (xorAll 0 (wordsOf turns))
      let found := ((c.judgeBlk w).ev.getBlk c.blk).crcError = some false
      (sound → (found ↔ right)) ∧ (right → (found ↔ sound))) := by
  constructor
  · intro w turns htakes hwalk
    have hflags := trans12_flags hE ⟨hwalk.reaches, hhalt⟩ htakes
    exact verdict_exact hflags.2 (hwalk.feeCrc.behind (ttable_eq htakes.2.2).1)
  · intro w turns htakes hwalk
    have hflags := judgeBlk_flags hE ⟨hwalk.reaches, hhalt⟩ htakes
    exact verdict_exact hflags.2 hwalk.blkcrc

/-! ## The basic format -/

/-- The next turn starts a gathering loop of the basic format. -/
def gathersNext (E : Env) (c : Fsm) : Bool := c.readsData E && c.gathers

theorem restores_eq_gathersNext (hf : E.evformat = .basic) : restores E = gathersNext E := by
  funext c
  simp only [restores, hf, gathersNext]

/-- The verdicts on checksums in the basic format, at each CRCFE word and at each CRCBL
word of a call. If the last gathering turn of the fee or block went on from a sound
checksum the verdict is exact, and only then is a right checksum found right. -/
theorem basic_crcError_exact (hE : E.Carries ch) (hf : E.evformat = .basic)
    (hhalt : E.loop.halted c = false) :
    (∀ w turns, c.Takes E w .t12 → Walk E s .fee turns c →
      let sound := LastSound (gathersNext E) (·.saveFeecrc) turns
      let right := crcfeOf w = crcFold (xorAll 0 (wordsOf turns).dropLast)
      let found := ((c.trans12 w).ev.getFee c.fee).crcError = some false
      (sound → (found ↔ right)) ∧ (right → (found ↔ sound))) ∧
    (∀ w turns, c.Takes E w .t16 → Walk E s .block turns c →
      let sound := LastSound (gathersNext E) (·.saveBlkcrc) turns
      let right := crcblOf w = crcFold (xorAll 0 (wordsOf turns))
      let found := ((c.judgeBlk w).ev.getBlk c.blk).crcError = some false
      (sound → (found ↔ right)) ∧ (right → (found ↔ sound))) := by
  rw [← restores_eq_gathersNext hf]
  exact crcError_exact hE hhalt

/-- One section with a waveform of one sample, and with right checksums. -/
def checkedSample : Chunk where
  body := [0xE001, 0x9800, 1, 2, 0x9100, 7, 1, 5, 0xA008, 0xBE80, 0xE001, 0xC001, 0xA00E, 0xDF00]
  regid := 0xC800
  regid_id := getwordId_c800
  body_id := Chunk.ne_regid_of_all rfl

def checkedEnv : Env := checkedSample.env .basic .zero

/-- `basic_crcError_exact` for an object that happens to have saved the right checksum. -/
theorem checkedSample_crcError_exact : ∃ turns c,
    Walk checkedEnv { saveFeecrc := 0xE904 } .fee turns c ∧ c.Takes checkedEnv 0xBE80 .t12 ∧
    (((c.trans12 0xBE80).ev.getFee c.fee).crcError = some false ↔
      crcfeOf 0xBE80 = crcFold (xorAll 0 (wordsOf turns).dropLast)) := by
  have htakes : (checkedEnv.entry { saveFeecrc := 0xE904 }).Takes checkedEnv 0xE001 .t02 :=
    ⟨rfl, by decide, rfl⟩
  have hopened := Walk.opened (p := .fee) (.refl _) htakes (by decide) ⟨rfl, rfl⟩
  obtain ⟨turns, c, hwalk, hhalt, htakes, hst, hcrc, hwords⟩ : ∃ turns c,
      Walk checkedEnv { saveFeecrc := 0xE904 } .fee turns c ∧ checkedEnv.loop.halted c = false ∧
      c.Takes checkedEnv 0xBE80 .t12 ∧ c.stateId = .s6 ∧ c.feecrc = 0xE901 ∧
      wordsOf turns = [0xE001, 0x9800, 1, 2, 0x9100, 7, 1, 5, 0xA008] :=
    ⟨_, _, hopened.walkOn (n := 8) rfl, rfl, ⟨rfl, by decide, rfl⟩, rfl, rfl, rfl⟩
  have hsound := (hwalk.feeCrc.behind hst).1 (by
    rw [hcrc, hwords]
    decide)
  rw [restores_eq_gathersNext rfl] at hsound
  have hexact := (basic_crcError_exact (checkedSample.env_carries .basic .zero) rfl hhalt).1 _ _
    htakes hwalk
  exact ⟨turns, c, hwalk, htakes, hexact.1 hsound⟩

/-- A new object whose memory was cleared finds both checksums wrong. -/
theorem checkedSample_crcError_wrong :
    (∃ r, Fsm.parse checkedEnv 15 {} = .ended r ∧ r.retval = .PARSE_OK) ∧
    ∃ turns c, Walk checkedEnv {} .fee turns c ∧ c.Takes checkedEnv 0xBE80 .t12 ∧
      crcfeOf 0xBE80 = crcFold (xorAll 0 (wordsOf turns).dropLast) ∧
      ((c.trans12 0xBE80).ev.getFee c.fee).crcError = some true := by
  refine ⟨⟨_, rfl, rfl⟩, ?_⟩
  have htakes : (checkedEnv.entry {}).Takes checkedEnv 0xE001 .t02 := ⟨rfl, by decide, rfl⟩
  have hopened := Walk.opened (p := .fee) (.refl _) htakes (by decide) ⟨rfl, rfl⟩
  exact ⟨_, _, hopened.walkOn (n := 8) rfl, ⟨rfl, by decide, rfl⟩, rfl, rfl⟩

/-! ## The tag format -/

/-- The next turn ends a waveform record of length zero. -/
def emptyWaveformNext (E : Env) (c : Fsm) : Bool :=
  c.readsData E && c.tagDone && c.wflenDone && c.tag == TAG_WAVEFORM && c.rdWflen == 0

theorem restores_eq_emptyWaveformNext (hf : E.evformat = .tag) :
    restores E = emptyWaveformNext E := by
  funext c
  simp [restores, hf, endsWaveform, emptyWaveformNext]

/-- The verdicts on checksums in the tag format, at each CRCFE word and at each CRCBL word of
a call. If the last waveform record of length zero in the fee or block found a sound checksum
saved the verdict is exact, and only then is a right checksum found right. -/
theorem tag_crcError_exact (hE : E.Carries ch) (hf : E.evformat = .tag)
    (hhalt : E.loop.halted c = false) :
    (∀ w turns, c.Takes E w .t12 → Walk E s .fee turns c →
      let sound := LastSound (emptyWaveformNext E) (·.saveFeecrc) turns
      let right := crcfeOf w = crcFold (xorAll 0 (wordsOf turns).dropLast)
      let found := ((c.trans12 w).ev.getFee c.fee).crcError = some false
      (sound → (found ↔ right)) ∧ (right → (found ↔ sound))) ∧
    (∀ w turns, c.Takes E w .t16 → Walk E s .block turns c →
      let sound := LastSound (emptyWaveformNext E) (·.saveBlkcrc) turns
      let right := crcblOf w = crcFold (xorAll 0 (wordsOf turns))
      let found := ((c.judgeBlk w).ev.getBlk c.blk).crcError = some false
      (sound → (found ↔ right)) ∧ (right → (found ↔ sound))) := by
  rw [← restores_eq_emptyWaveformNext hf]
  exact crcError_exact hE hhalt

/-- One section with a waveform record of length zero, and with right checksums. -/
def emptySample : Chunk where
  body := [0xE001, 0x9800, 1, 2, 3, 0x9000, 0x7005, 0, 0x3030, 0xA009, 0xB9C0, 0xE001, 0xC001,
    0xA00F, 0xDC30]
  regid := 0xC800
  regid_id := getwordId_c800
  body_id := Chunk.ne_regid_of_all rfl

def emptyEnv : Env := emptySample.env .tag .zero

/-- `tag_crcError_exact` for an object that happens to have saved the right checksum. -/
theorem emptySample_crcError_exact : ∃ turns c,
    Walk emptyEnv { saveFeecrc := 0x9804 } .fee turns c ∧ c.Takes emptyEnv 0xB9C0 .t12 ∧
    (((c.trans12 0xB9C0).ev.getFee c.fee).crcError = some false ↔
      crcfeOf 0xB9C0 = crcFold (xorAll 0 (wordsOf turns).dropLast)) := by
  have htakes : (emptyEnv.entry { saveFeecrc := 0x9804 }).Takes emptyEnv 0xE001 .t02 :=
    ⟨rfl, by decide, rfl⟩
  have hopened := Walk.opened (p := .fee) (.refl _) htakes (by decide) ⟨rfl, rfl⟩
  obtain ⟨turns, c, hwalk, hhalt, htakes, hst, hcrc, hwords⟩ : ∃ turns c,
      Walk emptyEnv { saveFeecrc := 0x9804 } .fee turns c ∧ emptyEnv.loop.halted c = false ∧
      c.Takes emptyEnv 0xB9C0 .t12 ∧ c.stateId = .s6 ∧ c.feecrc = 0xA834 ∧
      wordsOf turns = [0xE001, 0x9800, 1, 2, 3, 0x9000, 0x7005, 0, 0x3030, 0xA009] :=
    ⟨_, _, hopened.walkOn (n := 10) rfl, rfl, ⟨rfl, by decide, rfl⟩, rfl, rfl, rfl⟩
  have hsound := (hwalk.feeCrc.behind hst).1 (by
    rw [hcrc, hwords]
    decide)
  rw [restores_eq_emptyWaveformNext rfl] at hsound
  have hexact := (tag_crcError_exact (emptySample.env_carries .tag .zero) rfl hhalt).1 _ _
    htakes hwalk
  exact ⟨turns, c, hwalk, htakes, hexact.1 hsound⟩

/-- A new object whose memory was cleared finds both checksums wrong. -/
theorem emptySample_crcError_wrong :
    (∃ r, Fsm.parse emptyEnv 18 {} = .ended r ∧ r.retval = .PARSE_OK) ∧
    ∃ turns c, Walk emptyEnv {} .fee turns c ∧ c.Takes emptyEnv 0xB9C0 .t12 ∧
      crcfeOf 0xB9C0 = crcFold (xorAll 0 (wordsOf turns).dropLast) ∧
      ((c.trans12 0xB9C0).ev.getFee c.fee).crcError = some true := by
  refine ⟨⟨_, rfl, rfl⟩, ?_⟩
  have htakes : (emptyEnv.entry {}).Takes emptyEnv 0xE001 .t02 := ⟨rfl, by decide, rfl⟩
  have hopened := Walk.opened (p := .fee) (.refl _) htakes (by decide) ⟨rfl, rfl⟩
  exact ⟨_, _, hopened.walkOn (n := 10) rfl, ⟨rfl, by decide, rfl⟩, rfl, rfl⟩

end Fsm

end FzDaq.Parser
