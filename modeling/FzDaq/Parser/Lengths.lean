import FzDaq.Parser.Flags
import FzDaq.Parser.Walk

/-!
# The verdicts on lengths

`blklen` counts the words of a block up to its second LENGTH word. `trans16` masks
it and then adds two for the words behind, so that a block whose length is a
multiple of 4096, or one more, is never found right.
-/

namespace FzDaq.Parser

open Machine

namespace Fsm

variable {E : Env} {s t u c d : Fsm} {w x : Word} {tr : Trans} {turns : List Turn}
  {us : List Word} {ch : Chunk}

/-! ## The verdicts of `trans16` -/

/-- `trans16` up to the block of trigger infos. -/
def judgeBlk (s : Fsm) (w : Word) : Fsm :=
  let s := { s with rdBlkcrc := crcblOf w }
  let s : Fsm :=
    if (s.blklen &&& 0x0FFF) + 2 = s.rdBlklen.toNat then
      s.onBlk fun b => { b with lenError := some false }
    else { s.onBlk fun b => { b with lenError := some true } with errInEvent := true }
  if s.rdBlkcrc = crcFold s.blkcrc then s.onBlk fun b => { b with crcError := some false }
  else { s.onBlk fun b => { b with crcError := some true } with errInEvent := true }

theorem judgeBlk_eq (s : Fsm) (w : Word) :
    ∃ lenBad crcBad : Bool,
      (lenBad = false ↔ (s.blklen &&& 0x0FFF) + 2 = s.rdBlklen.toNat) ∧
      (crcBad = false ↔ crcblOf w = crcFold s.blkcrc) ∧
      s.judgeBlk w = s.judged w lenBad crcBad := by
  refine ⟨!decide ((s.blklen &&& 0x0FFF) + 2 = s.rdBlklen.toNat),
    !decide (crcblOf w = crcFold s.blkcrc), by simp, by simp, ?_⟩
  unfold judgeBlk
  dsimp only [onBlk]
  by_cases hlen : (s.blklen &&& 0x0FFF) + 2 = s.rdBlklen.toNat <;>
    by_cases hcrc : crcblOf w = crcFold s.blkcrc <;>
      simp [hlen, hcrc, modBlk_verdicts, judged]

/-- Behind the verdicts a block of trigger infos is taken off, if its checksum is right. -/
theorem trans16_eq_judgeBlk (s : Fsm) (w : Word) :
    s.trans16 E w =
      if crcblOf w = crcFold s.blkcrc ∧ ((s.judgeBlk w).ev.getBlk s.blk).blkid.getD 0 = 0x7FF then
        (s.judgeBlk w).endTriggerBlk E
      else some (s.judgeBlk w) := by
  unfold trans16 judgeBlk
  dsimp only [onBlk]
  by_cases hlen : (s.blklen &&& 0x0FFF) + 2 = s.rdBlklen.toNat <;>
    by_cases hcrc : crcblOf w = crcFold s.blkcrc <;>
      simp [hlen, hcrc]

theorem judgeBlk_flags (hE : E.Carries ch) (hc : E.loop.Visits (E.entry s) c)
    (htakes : c.Takes E w .t16) :
    (((c.judgeBlk w).ev.getBlk c.blk).lenError = some false ↔
        (c.blklen &&& 0x0FFF) + 2 = c.rdBlklen.toNat) ∧
      (((c.judgeBlk w).ev.getBlk c.blk).crcError = some false ↔ crcblOf w = crcFold c.blkcrc) := by
  obtain ⟨σ, ha⟩ := visits_at hE hc
  obtain ⟨bs, b, rfl, hat⟩ := ha.of_blk (.inr (.inr (.inr (ttable_eq htakes.2.2).1)))
  obtain ⟨lenBad, crcBad, hlen, hcrc, heq⟩ := judgeBlk_eq c w
  have hget : (c.judgeBlk w).ev.getBlk c.blk =
      { b with lenError := some lenBad, crcError := some crcBad } := by
    rw [heq]
    exact (AtBlk.onBlk hat fun b =>
      { b with lenError := some lenBad, crcError := some crcBad }).getBlk
  rw [hget]
  exact ⟨by simpa using hlen, by simpa using hcrc⟩

/-! ## The length of a block -/

/-- What `blklen` counts on a walk through a block. -/
structure CountsBlk (turns : List Turn) (c : Fsm) : Prop where
  blklen : c.blklen + (if c.stateId = .s9 then 1 else 0) = (wordsOf turns).length
  rdBlklen : c.stateId = .s9 →
    ∃ x, (wordsOf turns).getLast? = some x ∧ c.rdBlklen = lengthOf x

/-- The second LENGTH word is not counted. -/
theorem CountsBlk.length (h : CountsBlk turns c) (htakes : c.Takes E w .t15)
    (hreads : E.Reads c.eventIndex us) (hlen : us.length = 1) :
    CountsBlk (turns ++ [⟨c, us⟩]) { c.trans15 w with stateId := .s9 }.advance := by
  have hst : c.stateId ≠ .s9 := by simp [(ttable_eq htakes.2.2).1]
  obtain rfl := htakes.words_eq hreads hlen
  have hcount := h.blklen
  rw [if_neg hst] at hcount
  refine ⟨?_, fun _ => ⟨w, by simp, rfl⟩⟩
  rw [wordsOf_append, wordsOf_singleton, List.length_append]
  exact congrArg (· + 1) hcount

theorem Walk.countsBlk (h : Walk E s .block turns c) : CountsBlk turns c := by
  induction h with
  | opened _ htakes hopens hcd =>
      obtain ⟨u, hfires, rfl⟩ := htakes.fires_of_next hcd
      cases hfires with
      | t02 => exact ⟨rfl, by simp [advance]⟩
      | t17 => exact ⟨rfl, by simp [advance]⟩
      | _ => simp [Part.block] at hopens
  | skipped _ hskip hcd ih =>
      obtain rfl := hskip.next hcd
      exact ⟨ih.blklen, ih.rdBlklen⟩
  | @taken turns c d w tr us hwalk htakes hinside hcd hreads hpassed ih =>
      obtain ⟨u, hfires, rfl⟩ := htakes.fires_of_next hcd
      by_cases hlength : tr = .t15
      · subst hlength
        cases hfires
        exact ih.length htakes hreads (Nat.add_left_cancel hpassed).symm
      · have hcounted :=
          hfires.counted_block htakes hwalk.eventIndex_pos hinside hlength hreads hpassed
        have htarget : u.stateId ≠ .s9 := by
          rw [hfires.stateId fun h => (h ▸ htakes).stateId_idle]
          intro h
          cases tr <;> simp_all [Trans.target]
        have hsource : c.stateId ≠ .s9 := by
          have := ttable_eq htakes.2.2
          cases tr <;> simp_all [Part.block]
        have hcount := ih.blklen
        rw [if_neg hsource] at hcount
        refine ⟨?_, fun h => absurd h htarget⟩
        rw [if_neg (show u.advance.stateId ≠ .s9 from htarget), hcounted.blklen, wordsOf_append,
          wordsOf_singleton, List.length_append, ← hcount]
        rfl

theorem lengthOf_lt (x : Word) : (lengthOf x).toNat < 4096 := by
  rw [lengthOf, UInt16.toNat_and]
  exact Nat.lt_succ_of_le Nat.and_le_right

/-- To mask a length and then add two is not to mask the length of two words more. -/
theorem mask_add_two_iff {n m : Nat} (hm : m < 4096) (hn : 2 ≤ n) :
    ((n - 2) % 4096 + 2 = m ↔ m = n % 4096) ↔ ¬ (n % 4096 < 2 ∧ m = n % 4096) := by
  omega

/-- The verdict on the length of a block, from its EC word to its CRCBL word: it is
exact unless the length, modulo 4096, is 0 or 1 and the LENGTH word says so. -/
theorem judgeBlk_lenError_exact_iff (hE : E.Carries ch) (hwalk : Walk E s .block turns c)
    (hhalt : E.loop.halted c = false) (htakes : c.Takes E w .t16)
    (hlast : (wordsOf turns).getLast? = some x) :
    let n := (wordsOf turns).length + 1
    (((c.judgeBlk w).ev.getBlk c.blk).lenError = some false ↔ (lengthOf x).toNat = n % 4096) ↔
      ¬ (n % 4096 < 2 ∧ (lengthOf x).toNat = n % 4096) := by
  intro n
  have hst : c.stateId = .s9 := (ttable_eq htakes.2.2).1
  obtain ⟨hlen, hfield⟩ := hwalk.countsBlk
  obtain ⟨y, hy, hfield⟩ := hfield hst
  obtain rfl : y = x := Option.some.inj (hy.symm.trans hlast)
  rw [if_pos hst] at hlen
  have hblklen : c.blklen = n - 2 := by omega
  have hmask : c.blklen &&& 0x0FFF = (n - 2) % 4096 := by
    rw [hblklen]
    exact Nat.and_two_pow_sub_one_eq_mod _ 12
  rw [(judgeBlk_flags hE ⟨hwalk.reaches, hhalt⟩ htakes).1, hmask, hfield]
  have hpos : 1 ≤ (wordsOf turns).length := by omega
  exact mask_add_two_iff (lengthOf_lt y) (by omega)

/-- `judgeBlk_lenError_exact_iff` on a block of 19 words. -/
theorem sampled_lenError_exact : ∃ turns c, Walk (sampled.env .tag .zero) {} .block turns c ∧
    (wordsOf turns).length + 1 = 19 ∧
    (((c.judgeBlk 0xD710).ev.getBlk c.blk).lenError = some false ↔
      (lengthOf 0xA013).toNat = 19) := by
  obtain ⟨c, hrun, hst, htakes, hlen, hfield⟩ : ∃ c,
      (sampled.env .tag .zero).loop.run 17 ((sampled.env .tag .zero).entry {}) = .running c ∧
      c.stateId = .s9 ∧ c.Takes (sampled.env .tag .zero) 0xD710 .t16 ∧ c.blklen = 17 ∧
      c.rdBlklen = lengthOf 0xA013 := ⟨_, rfl, rfl, ⟨rfl, by decide, rfl⟩, rfl, rfl⟩
  obtain ⟨hreach, hhalt⟩ := Loop.visits_of_run hrun
  obtain ⟨turns, hwalk⟩ := htakes.exists_walk_block hreach
  obtain ⟨hcount, hlast⟩ := hwalk.countsBlk
  obtain ⟨x, hx, hfield'⟩ := hlast hst
  rw [if_pos hst, hlen] at hcount
  have hexact := judgeBlk_lenError_exact_iff (sampled.env_carries .tag .zero) hwalk hhalt htakes hx
  rw [← hcount, ← hfield', hfield] at hexact
  exact ⟨turns, c, hwalk, by rw [← hcount], hexact.2 (by decide)⟩

/-! ## The length of a fee -/

theorem trans12_flags (hE : E.Carries ch) (hc : E.loop.Visits (E.entry s) c)
    (htakes : c.Takes E w .t12) :
    (((c.trans12 w).ev.getFee c.fee).lenError = some false ↔
        c.feelen &&& 0xFFF = c.rdFeelen.toNat) ∧
      (((c.trans12 w).ev.getFee c.fee).crcError = some false ↔ crcfeOf w = crcFold c.feecrc) := by
  obtain ⟨σ, ha⟩ := visits_at hE hc
  obtain ⟨bs, b, r, rfl, hat⟩ := ha.of_s6 (ttable_eq htakes.2.2).1
  obtain ⟨lenBad, crcBad, hlen, hcrc, heq⟩ := trans12_eq c w
  have hget : (c.trans12 w).ev.getFee c.fee =
      { r with lenError := some lenBad, crcError := some crcBad } := by
    rw [heq]
    exact (AtFee.onFee hat fun r =>
      { r with lenError := some lenBad, crcError := some crcBad }).getFee
  rw [hget]
  exact ⟨by simpa using hlen, by simpa using hcrc⟩

/-- What `feelen` counts on a walk through a fee: nothing yet at its EC word, and not its
LENGTH word. -/
structure CountsFee (turns : List Turn) (c : Fsm) : Prop where
  header : c.stateId = .s1 → (wordsOf turns).length = 1
  running : c.stateId ∈ [.s2, .s3, .s4, .s5] → c.feelen = (wordsOf turns).length
  behind : c.stateId = .s6 → ∃ ws x, wordsOf turns = ws ++ [x] ∧ c.feelen = ws.length ∧
    c.rdFeelen = lengthOf x

theorem Fires.rdFeelen (h : Fires E c w .t11 u) : u.rdFeelen = lengthOf w := by
  cases h with
  | t11Basic _ hu =>
      obtain ⟨x, hx, hy⟩ := trans11Basic_eq_some hu
      obtain ⟨_, _, rfl⟩ := verifySection_eq_some hx hy
      rfl
  | t11Tag => rfl

theorem Walk.countsFee (h : Walk E s .fee turns c) : CountsFee turns c := by
  refine h.fee_induction ?_ ?_ ?_ ?_ ?_
  · intro c d w _ hst _
    exact ⟨fun _ => rfl, by simp [hst], by simp [hst]⟩
  · intro turns c ih
    exact ⟨ih.header, ih.running, ih.behind⟩
  · intro turns c w htakes ih
    have hone := ih.header (ttable_eq htakes.2.2).1
    refine ⟨by simp [advance], fun _ => ?_, by simp [advance]⟩
    rw [wordsOf_append, wordsOf_singleton, List.length_append, hone]
    rfl
  · intro turns c d us hsource htarget hfee ih
    refine ⟨fun h => by simp [h] at htarget, fun _ => ?_, fun h => by simp [h] at htarget⟩
    rw [hfee.feelen, ih.running hsource, wordsOf_append, wordsOf_singleton, List.length_append]
  · intro turns c w u htakes hfires ih
    have hst : u.advance.stateId = .s6 := hfires.stateId (by simp)
    obtain ⟨_, _, hsums⟩ := hfires.toSums_blk (by simp)
    have hsame := congrArg Sums.feelen hsums
    have hrun := ih.running (by simp [(ttable_eq htakes.2.2).1])
    exact ⟨by simp [hst], by simp [hst], fun _ =>
      ⟨wordsOf turns, w, by simp, hsame.trans hrun, hfires.rdFeelen⟩⟩

/-- The verdict on the length of a fee is exact, from the EC word in front of it to its
CRCFE word. -/
theorem trans12_lenError_exact (hE : E.Carries ch) (hwalk : Walk E s .fee turns c)
    (hhalt : E.loop.halted c = false) (htakes : c.Takes E w .t12)
    (hlast : (wordsOf turns).getLast? = some x) :
    ((c.trans12 w).ev.getFee c.fee).lenError = some false ↔
      (lengthOf x).toNat = (wordsOf turns).dropLast.length % 4096 := by
  obtain ⟨ws, y, hwords, hlen, hfield⟩ := hwalk.countsFee.behind (ttable_eq htakes.2.2).1
  obtain rfl : y = x := by simpa [hwords] using hlast
  have hmask : c.feelen &&& 0xFFF = ws.length % 4096 := by
    rw [hlen]
    exact Nat.and_two_pow_sub_one_eq_mod _ 12
  rw [(trans12_flags hE ⟨hwalk.reaches, hhalt⟩ htakes).1, hmask, hfield, hwords,
    List.dropLast_concat]
  exact eq_comm

/-- `trans12_lenError_exact` on a fee of 13 words in front of its LENGTH word. -/
theorem sampled_feeLenError_exact : ∃ turns c, Walk (sampled.env .tag .zero) {} .fee turns c ∧
    (wordsOf turns).dropLast.length = 13 ∧
    (((c.trans12 0xBE10).ev.getFee c.fee).lenError = some false ↔
      (lengthOf 0xA00D).toNat = 13) := by
  have htakes : ((sampled.env .tag .zero).entry {}).Takes (sampled.env .tag .zero) 0xE001 .t02 :=
    ⟨rfl, by decide, rfl⟩
  have hopened := Walk.opened (p := .fee) (.refl _) htakes (by decide) ⟨rfl, rfl⟩
  obtain ⟨turns, c, hwalk, hhalt, htakes, hwords⟩ : ∃ turns c,
      Walk (sampled.env .tag .zero) {} .fee turns c ∧
      (sampled.env .tag .zero).loop.halted c = false ∧
      c.Takes (sampled.env .tag .zero) 0xBE10 .t12 ∧
      wordsOf turns = [0xE001, 0x9800, 1, 2, 3, 0x9000, 0x7004, 1, 9, 0x7005, 2, 5, 6, 0xA00D] :=
    ⟨_, _, hopened.walkOn (n := 12) rfl, rfl, ⟨rfl, by decide, rfl⟩, rfl⟩
  have hexact := trans12_lenError_exact (sampled.env_carries .tag .zero) hwalk hhalt htakes
    (by rw [hwords]; rfl)
  rw [hwords] at hexact
  exact ⟨turns, c, hwalk, by rw [hwords]; rfl, hexact⟩

/-! ## A block of 4096 words -/

theorem next_zero (hhalt : E.loop.halted c = false) (hw : E.event c.eventIndex = some 0)
    (hst : c.stateId = .s3) (hdone : c.dettagDone = true)
    (hev : c.ev.modHit c.hit (fun h => { h with trigpat := some 0 }) = c.ev) :
    E.loop.Next c { c with
      blklen := c.blklen + 1, feelen := c.feelen + 1, eventIndex := c.eventIndex + 1 } := by
  have htakes : c.Takes E 0 .t05 := ⟨hw, by decide, by rw [hst]; rfl⟩
  have hfire :
      c.fire E .t05 0 = some { c with blklen := c.blklen + 1, feelen := c.feelen + 1 } := by
    have htrans : c.trans05 0 = ((c.updateBlk 0).updateFee 0).onHit
        fun h => { h with trigpat := some 0 } := by
      rw [trans05, if_neg (by simp [updateBlk, updateBlkLen, updateBlkCrc, updateFee, updateFeeLen,
        updateFeeCrc, hdone])]
      rfl
    simp only [fire, htrans, onHit, updateBlk, updateBlkLen, updateBlkCrc, updateFee, updateFeeLen,
      updateFeeCrc, hev, UInt16.xor_zero, ← hst]
  exact htakes.next hhalt hfire

theorem reaches_zeros (n : Nat) (hsize : c.eventIndex + n ≤ E.eventSize)
    (hw : ∀ k < n, E.event (c.eventIndex + k) = some 0)
    (hst : c.stateId = .s3) (hdone : c.dettagDone = true)
    (hev : c.ev.modHit c.hit (fun h => { h with trigpat := some 0 }) = c.ev) :
    E.loop.Reaches c { c with
      blklen := c.blklen + n, feelen := c.feelen + n, eventIndex := c.eventIndex + n } := by
  induction n with
  | zero => exact .refl _
  | succ n ih =>
      refine (ih (by omega) fun k hk => hw k (by omega)).tail ?_
      exact next_zero (by simp only [Env.loop, decide_eq_false_iff_not]; omega)
        (hw n (Nat.lt_succ_self n)) hst hdone hev

/-- One fee whose header is followed by 4085 words 0, and a LENGTH word of 4096 modulo 4096. -/
def longBlock : Chunk where
  body := [0xE001, 0x9800, 1] ++ (List.replicate 4085 0 ++
    [0x9000, 0x3030, 0xAFFA, 0xBE80, 0xE001, 0xC001, 0xA000, 0xD030])
  regid := 0xC800
  regid_id := getwordId_c800
  body_id := by
    intro w hw
    simp only [List.mem_append, List.mem_replicate] at hw
    rcases hw with hw | ⟨_, rfl⟩ | hw
    · exact Chunk.ne_regid_of_all rfl w hw
    · decide
    · exact Chunk.ne_regid_of_all rfl w hw

theorem longBlock_words : longBlock.words = [0xE001, 0x9800, 1] ++ (List.replicate 4085 0 ++
    [0x9000, 0x3030, 0xAFFA, 0xBE80, 0xE001, 0xC001, 0xA000, 0xD030, 0xC800]) := by
  simp only [Chunk.words, longBlock, List.append_assoc, List.cons_append, List.nil_append]

theorem longBlock_length : longBlock.words.length = 4097 := by
  rw [longBlock_words]
  simp only [List.length_append, List.length_replicate, List.length_cons, List.length_nil]

/-- Its environment, with the number of its words. -/
def longEnv : Env := { longBlock.env .tag .zero with eventSize := 4097 }

theorem longEnv_carries : longEnv.Carries longBlock := ⟨longBlock_length.symm, fun _ _ => rfl⟩

theorem longEnv_zero {k : Nat} (hk : k < 4085) : longEnv.event (3 + k) = some 0 := by
  have hin : k < (List.replicate 4085 (0 : Word)).length := by rwa [List.length_replicate]
  change longBlock.words[3 + k]? = some 0
  rw [longBlock_words, List.getElem?_append_right (Nat.le_add_right 3 k),
    show 3 + k - [(0xE001 : Word), 0x9800, 1].length = k from Nat.add_sub_cancel_left 3 k,
    List.getElem?_append_left hin, List.getElem?_replicate, if_pos hk]

/-- The object behind the first two words 0. -/
def longStart : Fsm :=
  match longEnv.loop.run 5 (longEnv.entry {}) with
  | .ended c | .fault c | .running c => c

/-- The object behind the last one. -/
def longRest : Fsm :=
  { longStart with
    blklen := longStart.blklen + 4083
    feelen := longStart.feelen + 4083
    eventIndex := longStart.eventIndex + 4083 }

theorem longRest_reaches : longEnv.loop.Reaches (longEnv.entry {}) longRest := by
  have hrun : longEnv.loop.run 5 (longEnv.entry {}) = .running longStart := rfl
  have hidx : longStart.eventIndex = 5 := rfl
  refine (Loop.visits_of_run hrun).1.trans (reaches_zeros 4083 (by rw [hidx]; decide)
    (fun k hk => ?_) rfl rfl rfl)
  rw [hidx, show 5 + k = 3 + (k + 2) by omega]
  exact longEnv_zero (by omega)

/-- What is left of the block, with the LENGTH word read at last. -/
theorem longRest_run : (match longEnv.loop.run 7 longRest with
    | .running c => c.stateId == .s9 && longEnv.event c.eventIndex == some 0xD030 &&
        c.blklen == 4094 && c.rdBlklen == 0
    | _ => false) = true := by
  decide +kernel

/-- The LENGTH word of the block is right and `len_error` is not set to false. -/
theorem longBlock_lenError : ∃ turns c x, Walk longEnv {} .block turns c ∧
    c.Takes longEnv 0xD030 .t16 ∧ (wordsOf turns).length + 1 = 4096 ∧
    (wordsOf turns).getLast? = some x ∧ (lengthOf x).toNat = 4096 % 4096 ∧
    ((c.judgeBlk 0xD030).ev.getBlk c.blk).lenError ≠ some false := by
  have htail := longRest_run
  split at htail
  case h_2 => cases htail
  rename_i c hrun
  simp only [Bool.and_eq_true, beq_iff_eq] at htail
  obtain ⟨⟨⟨hst, hword⟩, hblklen⟩, hfield⟩ := htail
  obtain ⟨hreach, hhalt⟩ := Loop.visits_of_run hrun
  have hreach := longRest_reaches.trans hreach
  have htakes : c.Takes longEnv 0xD030 .t16 := ⟨hword, by decide, by rw [hst]; rfl⟩
  obtain ⟨turns, hwalk⟩ := htakes.exists_walk_block hreach
  obtain ⟨hcount, hlast⟩ := hwalk.countsBlk
  obtain ⟨x, hx, hfield'⟩ := hlast hst
  rw [if_pos hst, hblklen] at hcount
  refine ⟨turns, c, x, hwalk, htakes, by rw [← hcount], hx, by rw [← hfield', hfield]; rfl, ?_⟩
  rw [ne_eq, (judgeBlk_flags longEnv_carries ⟨hreach, hhalt⟩ htakes).1, hblklen, hfield]
  decide

end Fsm

end FzDaq.Parser
