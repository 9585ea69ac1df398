import FzDaq.Parser.Lockstep

/-!
# Walks through a block or a fee

The lengths and checksums that the parser keeps are about stretches of words: a
block from its EC word on, a fee from the EC word in front of it on. A `Walk` is
the run of the loop over such a stretch, with the words that each turn consumes.
What a turn counts is said once, in `Counted` and `FeeCounted`: as many words as
the cursor has passed, and their checksum.
-/

namespace FzDaq.Parser

open Machine

/-- A part of an event, by the transitions at its first word and at its other words,
and the states in between. -/
structure Part where
  states : List FsmState
  opens : List Trans
  inside : List Trans

/-- A block, up to its CRCBL word. -/
def Part.block : Part where
  states := [.s1, .s2, .s3, .s4, .s5, .s6, .s7, .s8, .s9]
  opens := [.t02, .t17]
  inside := [.t03, .t04, .t05, .t06, .t07, .t08, .t09, .t10, .t11, .t12, .t13, .t14, .t15]

/-- A fee, up to its CRCFE word. Its first word is the header of the block or the EC
word behind the fee before. -/
def Part.fee : Part where
  states := [.s1, .s2, .s3, .s4, .s5, .s6]
  opens := [.t02, .t13, .t17]
  inside := [.t03, .t04, .t05, .t06, .t07, .t08, .t09, .t10, .t11]

/-- The run comes to each state of a part by its first word, or from such a state. -/
def Part.Covers (p : Part) : Prop :=
  ∀ wid st, (ttable wid st).target ∈ p.states → ttable wid st ≠ .t01 →
    ttable wid st ∈ p.opens ∨ (ttable wid st ∈ p.inside ∧ st ∈ p.states)

theorem Part.block_covers : Part.block.Covers := by
  intro wid st
  cases wid <;> cases st <;> decide

namespace Fsm

/-- A turn of a walk: the object in front of it, and the words that it consumes. -/
structure Turn where
  before : Fsm
  words : List Word

/-- The words of a walk, without the EMPTY words that the loop has skipped. -/
def wordsOf (turns : List Turn) : List Word := turns.flatMap Turn.words

/-- A call comes to `c` inside of a part of the event, by these turns since the first
word of the part. The words of a turn are those that the cursor passes. -/
inductive Walk (E : Env) (s : Fsm) (p : Part) : List Turn → Fsm → Prop
  | opened {c d : Fsm} {w : Word} {tr : Trans} (hc : E.loop.Reaches (E.entry s) c)
      (htakes : c.Takes E w tr) (hopens : tr ∈ p.opens) (hcd : E.loop.Next c d) :
      Walk E s p [⟨c, [w]⟩] d
  | skipped {turns : List Turn} {c d : Fsm} (h : Walk E s p turns c) (hskip : c.Skips E)
      (hcd : E.loop.Next c d) : Walk E s p turns d
  | taken {turns : List Turn} {c d : Fsm} {w : Word} {tr : Trans} {us : List Word}
      (h : Walk E s p turns c) (htakes : c.Takes E w tr) (hinside : tr ∈ p.inside)
      (hcd : E.loop.Next c d) (hreads : E.Reads c.eventIndex us)
      (hpassed : d.eventIndex = c.eventIndex + us.length) :
      Walk E s p (turns ++ [⟨c, us⟩]) d

variable {E : Env} {s t u c d : Fsm} {w : Word} {tr : Trans} {p : Part} {turns : List Turn}
  {us : List Word}

@[simp] theorem wordsOf_append (ts us : List Turn) :
    wordsOf (ts ++ us) = wordsOf ts ++ wordsOf us := List.flatMap_append

@[simp] theorem wordsOf_singleton (t : Turn) : wordsOf [t] = t.words := by simp [wordsOf]

theorem Walk.reaches (h : Walk E s p turns c) : E.loop.Reaches (E.entry s) c := by
  induction h with
  | opened hc _ _ hcd => exact hc.tail hcd
  | skipped _ _ hcd ih => exact ih.tail hcd
  | taken _ _ _ hcd _ _ ih => exact ih.tail hcd

/-! ## What a turn counts -/

/-- The checksum of the block that a turn goes on from. -/
def blkBase (E : Env) (c : Fsm) : Word := if c.restores E then c.saveBlkcrc else c.blkcrc

/-- The checksum of the fee that a turn goes on from. -/
def feeBase (E : Env) (c : Fsm) : Word := if c.restores E then c.saveFeecrc else c.feecrc

/-- From `c` to `d` the cursor passes the words `us`, and they are counted for the block. -/
structure Counted (E : Env) (c d : Fsm) (us : List Word) : Prop where
  reads : E.Reads c.eventIndex us
  eventIndex : d.eventIndex = c.eventIndex + us.length
  blklen : d.blklen = c.blklen + us.length
  blkcrc : d.blkcrc = xorAll (c.blkBase E) us

/-- From `c` to `d` the words `us` are counted for the fee. -/
structure FeeCounted (E : Env) (c d : Fsm) (us : List Word) : Prop where
  feelen : d.feelen = c.feelen + us.length
  feecrc : d.feecrc = xorAll (c.feeBase E) us

theorem Takes.readsData (h : c.Takes E w .t08) : c.readsData E = true := by
  obtain ⟨hst, hid⟩ := ttable_eq h.2.2
  simp [Fsm.readsData, hst, h.1, hid]

theorem restores_of_ne (htakes : c.Takes E w tr) (htr : tr ≠ .t08) : c.restores E = false := by
  have hnot : c.readsData E = false := by
    by_contra hdata
    obtain ⟨x, hx⟩ := takes_of_readsData (by simpa using hdata)
    exact htr (hx.unique htakes).2
  cases hf : E.evformat <;> simp [restores, hf, endsWaveform, hnot]

theorem Takes.words_eq (h : c.Takes E w tr) (hreads : E.Reads c.eventIndex us)
    (hlen : us.length = 1) : us = [w] :=
  hreads.unique ⟨h.1, trivial⟩ hlen

theorem Counted.words_eq {vs : List Word} (h : Counted E c d us) (hreads : E.Reads c.eventIndex vs)
    (hpassed : d.eventIndex = c.eventIndex + vs.length) : vs = us := by
  have hidx := h.eventIndex
  exact hreads.unique h.reads (by omega)

theorem Counted.single (hw : E.event c.eventIndex = some w) (hr : c.restores E = false)
    (hidx : d.eventIndex = c.eventIndex + 1) (hlen : d.blklen = c.blklen + 1)
    (hcrc : d.blkcrc = c.blkcrc ^^^ w) : Counted E c d [w] :=
  ⟨⟨hw, trivial⟩, hidx, hlen, by rw [hcrc, blkBase, hr]; rfl⟩

theorem FeeCounted.single (hr : c.restores E = false) (hlen : d.feelen = c.feelen + 1)
    (hcrc : d.feecrc = c.feecrc ^^^ w) : FeeCounted E c d [w] :=
  ⟨hlen, by rw [hcrc, feeBase, hr]; rfl⟩

/-! ## DATA words of the basic format -/

/-- The words `ws` gathered with the saved checksums, and the step back behind them. -/
theorem gathered_counted {ws : List Word} (hr : c.restores E = true) (hpos : 0 < c.eventIndex)
    (hreads : E.Reads c.eventIndex ws) :
    let d := ((((c.updateBlk w).updateFee w).restoreCrc.gathered ws).stepBack).advance
    Counted E c d ws ∧ FeeCounted E c d ws := by
  intro d
  have hd : d = ((((c.updateBlk w).updateFee w).restoreCrc.gathered ws).stepBack).advance := rfl
  rw [gathered_eq] at hd
  refine ⟨⟨hreads, ?_, ?_, ?_⟩, ?_, ?_⟩
  · rw [hd]
    change c.eventIndex + ws.length - 1 + 1 = _
    omega
  · rw [hd]
    change c.blklen + 1 + ws.length - 1 = _
    omega
  · rw [hd, blkBase, hr]
    rfl
  · rw [hd]
    change c.feelen + 1 + ws.length - 1 = _
    omega
  · rw [hd, feeBase, hr]
    rfl

theorem sineCosine_counted {w0 w1 w2 w3 w4 w5 : Word} {ws : List Word} (hr : c.restores E = true)
    (hsix : E.Reads c.eventIndex [w0, w1, w2, w3, w4, w5])
    (hreads : E.Reads (c.eventIndex + 6) ws) :
    let v := ((c.updateBlk w).updateFee w).restoreCrc.sineCosineRead w0 w1 w2 w3 w4 w5
    let d := ((v.gathered ws).stepBack).advance
    Counted E c d ([w0, w1, w2, w3, w4, w5] ++ ws) ∧
      FeeCounted E c d ([w0, w1, w2, w3, w4, w5] ++ ws) := by
  intro v d
  have hd : d = ((v.gathered ws).stepBack).advance := rfl
  rw [gathered_eq] at hd
  refine ⟨⟨Env.reads_append.2 ⟨hsix, hreads⟩, ?_, ?_, ?_⟩, ?_, ?_⟩
  · rw [hd, List.length_append]
    change c.eventIndex + 6 + ws.length - 1 + 1 = c.eventIndex + (6 + ws.length)
    omega
  · rw [hd, List.length_append]
    change c.blklen + 1 + 6 + ws.length - 1 = c.blklen + (6 + ws.length)
    omega
  · rw [hd, blkBase, hr, xorAll_append]
    rfl
  · rw [hd, List.length_append]
    change c.feelen + 1 + 6 + ws.length - 1 = c.feelen + (6 + ws.length)
    omega
  · rw [hd, feeBase, hr, xorAll_append]
    rfl

theorem restores_basic (hf : E.evformat = .basic) (htakes : c.Takes E w .t08) :
    c.restores E = c.gathers := by
  simp [restores, hf, htakes.readsData]

theorem trans08Basic_counted (hf : E.evformat = .basic) (hpos : 0 < c.eventIndex)
    (htakes : c.Takes E w .t08) (h : c.trans08Basic E w = some u) :
    ∃ us, Counted E c u.advance us ∧ FeeCounted E c u.advance us := by
  have hw := htakes.1
  have hr := restores_basic hf htakes
  rw [trans08Basic_eq] at h
  unfold gathers at hr
  split at h
  · rename_i henergy
    rw [if_pos henergy] at hr
    split at h
    · rename_i hfirst
      have hfirst : c.energy1Done = false := by simpa using hfirst
      obtain ⟨_, _, rfl⟩ := lowEnergy1_eq_some h
      simp only [hfirst, Bool.false_and] at hr
      exact ⟨[w], .single hw hr rfl rfl rfl, .single hr rfl rfl⟩
    rename_i hfirst
    split at h
    · rename_i hsecond
      obtain ⟨_, _, _, rfl⟩ := energy2_eq_some h
      simp only [hsecond.1, hsecond.2, bne_self_eq_false, Bool.or_false, Bool.and_false,
        Bool.false_and] at hr
      exact ⟨[w], .single hw hr rfl rfl rfl, .single hr rfl rfl⟩
    rename_i hsecond
    rcases waveformByData_eq_some h with ⟨hpre, rfl⟩ | ⟨hlen, rfl⟩ |
      ⟨hpre, hlen, ws, _, _, hreads, _, _, rfl⟩
    · have hpre : c.pretrigDone = false := hpre
      simp only [hpre, Bool.and_false, Bool.false_and] at hr
      exact ⟨[w], .single hw hr rfl rfl rfl, .single hr rfl rfl⟩
    · have hlen : c.wflenDone = false := hlen
      simp only [hlen, Bool.and_false] at hr
      exact ⟨[w], .single hw hr rfl rfl rfl, .single hr rfl rfl⟩
    · have hpre : c.pretrigDone = true := hpre
      have hlen : c.wflenDone = true := hlen
      have hboth : (c.dType != .Q3 || c.energy2Done) = true := by
        by_cases hq3 : c.dType = .Q3
        · simpa [hq3] using hsecond
        · simp [hq3]
      have hr : c.restores E = true := by
        rw [hr, hboth, hpre, hlen]
        simpa using hfirst
      exact ⟨ws, gathered_counted hr hpos (Env.reads_append.1 hreads).1⟩
  · rename_i henergy
    rw [if_neg henergy] at hr
    rcases waveformByCount_eq_some h with ⟨hlen, rfl⟩ | ⟨hlen, _, ws, _, hreads, rfl⟩ |
      ⟨hlen, _, v, ws, hv, _, hreads, rfl⟩
    · have hr : c.restores E = false := hr.trans hlen
      exact ⟨[w], .single hw hr rfl rfl rfl, .single hr rfl rfl⟩
    · exact ⟨ws, gathered_counted (hr.trans hlen) hpos hreads⟩
    · obtain ⟨w0, w1, w2, w3, w4, w5, hsix, rfl⟩ := readSineCosine_eq_some.1 hv
      exact ⟨_, sineCosine_counted (hr.trans hlen) hsix hreads⟩

/-! ## DATA words of the tag format -/

theorem Counted.of_toSums {d' : Fsm} (h : Counted E c d us) (hsums : d'.toSums = d.toSums)
    (hidx : d'.eventIndex = d.eventIndex) : Counted E c d' us :=
  ⟨h.reads, hidx.trans h.eventIndex, (congrArg Sums.blklen hsums).trans h.blklen,
    (congrArg Sums.blkcrc hsums).trans h.blkcrc⟩

theorem FeeCounted.of_toSums {d' : Fsm} (h : FeeCounted E c d us)
    (hsums : d'.toSums = d.toSums) : FeeCounted E c d' us :=
  ⟨(congrArg Sums.feelen hsums).trans h.feelen, (congrArg Sums.feecrc hsums).trans h.feecrc⟩

theorem readTag_toSums (s : Fsm) (w : Word) : (s.readTag w).toSums = s.toSums := by
  unfold readTag
  dsimp only
  split_ifs <;> rfl

/-- A record behind whose first word the cursor moves over `ws`. -/
theorem movedOver_counted {ws : List Word} (hw : E.event c.eventIndex = some w)
    (hr : c.restores E = false) (hreads : E.Reads (c.eventIndex + 1) ws) :
    let d := (((c.updateBlk w).updateFee w).movedOver ws).advance
    Counted E c d (w :: ws) ∧ FeeCounted E c d (w :: ws) := by
  refine ⟨⟨⟨hw, hreads⟩, ?_, ?_, ?_⟩, ?_, ?_⟩
  · change c.eventIndex + ws.length + 1 = c.eventIndex + (ws.length + 1)
    omega
  · change c.blklen + 1 + ws.length = c.blklen + (ws.length + 1)
    omega
  · rw [blkBase, hr]
    rfl
  · change c.feelen + 1 + ws.length = c.feelen + (ws.length + 1)
    omega
  · rw [feeBase, hr]
    rfl

/-- A waveform record without samples gives its turn back. -/
theorem stepBack_counted (hr : c.restores E = true) (hpos : 0 < c.eventIndex) :
    let d := (((c.updateBlk w).updateFee w).stepBack.restoreCrc).advance
    Counted E c d [] ∧ FeeCounted E c d [] := by
  refine ⟨⟨trivial, ?_, rfl, ?_⟩, rfl, ?_⟩
  · change c.eventIndex - 1 + 1 = c.eventIndex
    omega
  · rw [blkBase, hr]
    rfl
  · rw [feeBase, hr]
    rfl

theorem restores_tag (hf : E.evformat = .tag) (htakes : c.Takes E w .t08) :
    c.restores E = (c.tagDone && c.wflenDone && c.tag == TAG_WAVEFORM && c.rdWflen == 0) := by
  simp [restores, hf, endsWaveform, htakes.readsData]

theorem readRecord_counted (hpos : 0 < c.eventIndex) (hw : E.event c.eventIndex = some w)
    (hr : c.restores E = (c.tag == TAG_WAVEFORM && c.rdWflen == 0))
    (hu : ((c.updateBlk w).updateFee w).readRecord E w = some u) :
    ∃ us, Counted E c u.advance us ∧ FeeCounted E c u.advance us := by
  have hother (htag : c.tag ≠ TAG_WAVEFORM) : c.restores E = false := by
    rw [hr, beq_eq_false_iff_ne.2 htag, Bool.false_and]
  rcases readRecord_cases (s := (c.updateBlk w).updateFee w) hw hu with ⟨htag, rfl⟩ |
    ⟨htag, hzero, rfl⟩ | ⟨htag, ws, _, hlen, hreads, rfl⟩ | ⟨htag, ws, f, _, hreads, _, rfl⟩ |
    ⟨htag, x, b, hx, rfl⟩ | ⟨htag, ws, ts, _, hreads, _, rfl⟩
  · have hr := hother fun h => absurd (h.symm.trans htag) (by decide)
    exact ⟨[w], .single hw hr rfl rfl rfl, .single hr rfl rfl⟩
  · have htag : c.tag = TAG_WAVEFORM := htag
    have hzero : c.rdWflen = 0 := hzero
    exact ⟨[], stepBack_counted (by rw [hr, htag, hzero]; rfl) hpos⟩
  · have hlen : ws.length + 1 = c.rdWflen.toNat := hlen
    have hsome : c.rdWflen ≠ 0 := fun h => by simp [h] at hlen
    have hr : c.restores E = false := by rw [hr, beq_eq_false_iff_ne.2 hsome, Bool.and_false]
    obtain ⟨hblk, hfee⟩ := movedOver_counted (w := w) hw hr (Env.reads_append.1 hreads).1
    exact ⟨w :: ws, ⟨hblk.reads, hblk.eventIndex, hblk.blklen, hblk.blkcrc⟩,
      ⟨hfee.feelen, hfee.feecrc⟩⟩
  · have hr := hother fun h => by
      rcases htag with htag | htag
      · exact absurd (h.symm.trans htag) (by decide)
      · exact absurd (h.symm.trans htag) (by decide)
    obtain ⟨hblk, hfee⟩ := movedOver_counted (w := w) hw hr hreads
    exact ⟨w :: ws, hblk.of_toSums rfl rfl, hfee.of_toSums rfl⟩
  · have hr := hother fun h => absurd (h.symm.trans htag) (by decide)
    obtain ⟨hblk, hfee⟩ := movedOver_counted (w := w) hw hr
      (show E.Reads (c.eventIndex + 1) [x] from ⟨hx, trivial⟩)
    exact ⟨[w, x], hblk.of_toSums rfl rfl, hfee.of_toSums rfl⟩
  · have hr := hother fun h => htag (by
      rw [show ((c.updateBlk w).updateFee w).tag = TAG_WAVEFORM from h]
      decide)
    obtain ⟨hblk, hfee⟩ := movedOver_counted (w := w) hw hr hreads
    exact ⟨w :: ws, hblk.of_toSums rfl rfl, hfee.of_toSums rfl⟩

theorem trans08Tag_counted (hf : E.evformat = .tag) (hpos : 0 < c.eventIndex)
    (htakes : c.Takes E w .t08) (h : c.trans08Tag E w = some u) :
    ∃ us, Counted E c u.advance us ∧ FeeCounted E c u.advance us := by
  have hw := htakes.1
  have hr := restores_tag hf htakes
  rcases trans08Tag_cases hw h with ⟨htag, rfl⟩ | ⟨_, hlen, rfl⟩ | ⟨htag, hlen, v, x, hv, hx, rfl⟩
  · have hr : c.restores E = false := by simp [hr, htag]
    have hone : Counted E c ((c.updateBlk w).updateFee w).advance [w] := .single hw hr rfl rfl rfl
    have hfee : FeeCounted E c ((c.updateBlk w).updateFee w).advance [w] := .single hr rfl rfl
    have hsums := readTag_toSums ((c.updateBlk w).updateFee w) w
    exact ⟨[w], hone.of_toSums hsums (congrArg (· + 1) readTag_frame.2), hfee.of_toSums hsums⟩
  · have hr : c.restores E = false := by simp [hr, hlen]
    exact ⟨[w], .single hw hr rfl rfl rfl, .single hr rfl rfl⟩
  · obtain ⟨us, hblk, hfee⟩ := readRecord_counted hpos hw (by rw [hr, htag, hlen]; rfl) hv
    have hsame : x.toSums = v.toSums ∧ x.eventIndex = v.eventIndex := by
      split at hx
      · obtain ⟨_, _, rfl⟩ := verifyWaveform_eq_some hx
        exact ⟨rfl, rfl⟩
      · rw [hx]
        exact ⟨rfl, rfl⟩
    exact ⟨us, hblk.of_toSums hsame.1 (congrArg (· + 1) hsame.2), hfee.of_toSums hsame.1⟩

/-! ## One turn -/

theorem startSection_toSums (s : Fsm) (w : Word) (enError : Bool) :
    (s.startSection E w enError).toSums = s.toSums := by
  unfold startSection
  cases E.evformat <;> dsimp only <;> split <;> rfl

theorem trans05_toSums (s : Fsm) (w : Word) :
    (s.trans05 w).toSums = ((s.updateBlk w).updateFee w).toSums := by
  unfold trans05
  dsimp only
  split <;> rfl

theorem trans07Basic_toSums (s : Fsm) (w : Word) :
    (s.trans07Basic w).toSums = ((s.updateBlk w).updateFee w).toSums := by
  unfold trans07Basic
  dsimp only
  split <;> rfl

/-- The sums behind a transition that counts its own word for block and fee. -/
theorem Fires.toSums (h : Fires E c w tr u)
    (htr : tr ∈ [.t04, .t05, .t06, .t07, .t09, .t10]) :
    u.toSums = ((c.updateBlk w).updateFee w).toSums := by
  cases h with
  | t04 => rfl
  | t05 => exact trans05_toSums c w
  | t06 => exact startSection_toSums ..
  | t07Basic => exact trans07Basic_toSums c w
  | t07Tag => exact readTag_toSums ..
  | t09Basic _ hu =>
      obtain ⟨x, y, hit, hx, hy, rfl, _⟩ := trans09Basic_eq_some hu
      obtain ⟨_, _, rfl⟩ := verifySection_eq_some hx hy
      exact startSection_toSums ..
  | t09Tag => exact startSection_toSums ..
  | t10Basic _ hu =>
      obtain ⟨x, y, hx, hy, rfl⟩ := trans10Basic_eq_some hu
      obtain ⟨_, _, rfl⟩ := verifySection_eq_some hx hy
      rfl
  | t10Tag => rfl
  | _ => exact absurd htr (by decide)

theorem Fires.toSums_blk (h : Fires E c w tr u) (htr : tr ∈ [.t11, .t12, .t13, .t14]) :
    ∃ x y, u.toSums = { (c.updateBlk w).toSums with rdFeelen := x, rdFeecrc := y } := by
  cases h with
  | t11Basic _ hu =>
      obtain ⟨x, hx, hy⟩ := trans11Basic_eq_some hu
      obtain ⟨_, _, rfl⟩ := verifySection_eq_some hx hy
      exact ⟨_, _, rfl⟩
  | t11Tag => exact ⟨_, _, rfl⟩
  | t12 =>
      obtain ⟨_, _, _, _, heq⟩ := trans12_eq c w
      rw [heq]
      exact ⟨_, _, rfl⟩
  | t13 => exact ⟨_, _, rfl⟩
  | t14 => exact ⟨_, _, rfl⟩
  | _ => exact absurd htr (by decide)

theorem Fires.counted_data (h : Fires E c w .t08 u) (htakes : c.Takes E w .t08)
    (hpos : 0 < c.eventIndex) : ∃ us, Counted E c u.advance us ∧ FeeCounted E c u.advance us := by
  cases h with
  | t08Basic hf hu =>
      obtain ⟨us, hblk, hfee⟩ := trans08Basic_counted hf hpos htakes hu
      exact ⟨us, hblk.of_toSums rfl rfl, hfee.of_toSums rfl⟩
  | t08Tag hf hu =>
      obtain ⟨us, hblk, hfee⟩ := trans08Tag_counted hf hpos htakes hu
      exact ⟨us, hblk.of_toSums rfl rfl, hfee.of_toSums rfl⟩

theorem Fires.counted (h : Fires E c w tr u) (htakes : c.Takes E w tr) (hpos : 0 < c.eventIndex)
    (htr : tr ∈ [.t04, .t05, .t06, .t07, .t08, .t09, .t10]) :
    ∃ us, Counted E c u.advance us ∧ FeeCounted E c u.advance us := by
  by_cases hdata : tr = .t08
  · subst hdata
    exact h.counted_data htakes hpos
  · have hr := restores_of_ne htakes hdata
    have hsums := h.toSums (by simp_all)
    have hidx := h.eventIndex hdata
    have hone : Counted E c ((c.updateBlk w).updateFee w).advance [w] :=
      .single htakes.1 hr rfl rfl rfl
    have hfee : FeeCounted E c ((c.updateBlk w).updateFee w).advance [w] := .single hr rfl rfl
    exact ⟨[w], hone.of_toSums hsums (congrArg (· + 1) hidx), hfee.of_toSums hsums⟩

/-- The other words of a block that count for it, behind its EC word and before its
second LENGTH word. -/
theorem Fires.counted_blk (h : Fires E c w tr u) (htakes : c.Takes E w tr)
    (htr : tr ∈ [.t03, .t11, .t12, .t13, .t14]) : Counted E c u.advance [w] := by
  have hr := restores_of_ne htakes fun h => by simp [h] at htr
  have hidx := h.eventIndex fun h => by simp [h] at htr
  by_cases htelid : tr = .t03
  · subst htelid
    cases h
    exact .single htakes.1 hr rfl rfl rfl
  · obtain ⟨_, _, hsums⟩ := h.toSums_blk (by simp_all)
    have hone : Counted E c (c.updateBlk w).advance [w] := .single htakes.1 hr rfl rfl rfl
    exact ⟨hone.reads, congrArg (· + 1) hidx, congrArg Sums.blklen hsums,
      (congrArg Sums.blkcrc hsums).trans hone.blkcrc⟩

/-- The words that the cursor passes inside of a block are counted, except for its
second LENGTH word. -/
theorem Fires.counted_block (h : Fires E c w tr u) (htakes : c.Takes E w tr)
    (hpos : 0 < c.eventIndex) (htr : tr ∈ Part.block.inside) (hlength : tr ≠ .t15)
    (hreads : E.Reads c.eventIndex us)
    (hpassed : u.advance.eventIndex = c.eventIndex + us.length) : Counted E c u.advance us := by
  have hcounted : ∃ vs, Counted E c u.advance vs := by
    by_cases hfee : tr ∈ [.t04, .t05, .t06, .t07, .t08, .t09, .t10]
    · obtain ⟨vs, hblk, _⟩ := h.counted htakes hpos hfee
      exact ⟨vs, hblk⟩
    · exact ⟨_, h.counted_blk htakes (by simp_all [Part.block])⟩
  obtain ⟨vs, hcounted⟩ := hcounted
  obtain rfl := hcounted.words_eq hreads hpassed
  exact hcounted

theorem Fires.passes (h : Fires E c w tr u) (htakes : c.Takes E w tr) (hpos : 0 < c.eventIndex) :
    ∃ us, E.Reads c.eventIndex us ∧ u.advance.eventIndex = c.eventIndex + us.length := by
  by_cases hdata : tr = .t08
  · subst hdata
    obtain ⟨us, hblk, _⟩ := h.counted_data htakes hpos
    exact ⟨us, hblk.reads, hblk.eventIndex⟩
  · exact ⟨[w], ⟨htakes.1, trivial⟩, congrArg (· + 1) (h.eventIndex hdata)⟩

/-! ## Walks -/

theorem Walk.eventIndex_pos (h : Walk E s p turns c) : 0 < c.eventIndex := by
  have hpos {c d : Fsm} (hcd : E.loop.Next c d) : 0 < d.eventIndex := by
    obtain ⟨_, ⟨_, rfl⟩ | ⟨_, _, u, _, _, rfl⟩⟩ := next_cases hcd
    · exact Nat.succ_pos _
    · exact Nat.succ_pos _
  cases h with
  | opened _ _ _ hcd => exact hpos hcd
  | skipped _ _ hcd => exact hpos hcd
  | taken _ _ _ hcd => exact hpos hcd

theorem Takes.fires_of_next (h : c.Takes E w tr) (hcd : E.loop.Next c d) :
    ∃ u, Fires E c w tr u ∧ d = u.advance := by
  obtain ⟨u, hu, rfl⟩ := h.fire_of_next hcd
  exact ⟨u, fire_fires hu, rfl⟩

theorem Skips.next (h : c.Skips E) (hcd : E.loop.Next c d) : d = c.advance := by
  obtain ⟨_, ⟨_, rfl⟩ | ⟨x, tr', u, htakes, _, rfl⟩⟩ := next_cases hcd
  · rfl
  · exact absurd htakes h.not_takes

/-- A call that stands in a state of a part is on a walk through it. -/
theorem exists_walk (hp : p.Covers) (hidle : .idle ∉ p.states) (hc : E.loop.Reaches (E.entry s) c)
    (hst : c.stateId ∈ p.states) : ∃ turns, Walk E s p turns c := by
  refine hc.invariant (fun c => c.stateId ∈ p.states → ∃ turns, Walk E s p turns c)
    (fun h => absurd h hidle) (fun c d hc hcd ih hst => ?_) hst
  obtain ⟨_, ⟨hskip, rfl⟩ | ⟨w, tr, u, htakes, hfires, rfl⟩⟩ := next_cases hcd
  · obtain ⟨turns, hwalk⟩ := ih hst
    exact ⟨turns, .skipped hwalk hskip hcd⟩
  have htarget : u.stateId = tr.target := hfires.stateId fun h => (h ▸ htakes).stateId_idle
  have hst : tr.target ∈ p.states := htarget ▸ hst
  have hno : tr ≠ .t01 := by
    rintro rfl
    exact hidle hst
  obtain ⟨hw, hempty, rfl⟩ := htakes
  rcases hp _ _ hst hno with hopens | ⟨hinside, hfrom⟩
  · exact ⟨_, .opened hc ⟨hw, hempty, rfl⟩ hopens hcd⟩
  · obtain ⟨turns, hwalk⟩ := ih hfrom
    obtain ⟨us, hreads, hpassed⟩ := hfires.passes ⟨hw, hempty, rfl⟩ hwalk.eventIndex_pos
    exact ⟨_, .taken hwalk ⟨hw, hempty, rfl⟩ hinside hcd hreads hpassed⟩

/-- Each CRCBL word that a call comes to ends a walk through a block. -/
theorem Takes.exists_walk_block (h : c.Takes E w .t16) (hc : E.loop.Reaches (E.entry s) c) :
    ∃ turns, Walk E s .block turns c :=
  exists_walk Part.block_covers (by decide) hc (by simp [(ttable_eq h.2.2).1, Part.block])

/-- Induction over a walk through a fee: its first word, its TELID word, the words behind
that are counted for it, and its LENGTH word. -/
theorem Walk.fee_induction {P : List Turn → Fsm → Prop}
    (opened : ∀ c d w, c.restores E = false → d.stateId = .s1 → d.tmpRawec = w → P [⟨c, [w]⟩] d)
    (skipped : ∀ turns c, P turns c → P turns c.advance)
    (telid : ∀ turns c w, c.Takes E w .t03 → P turns c →
      P (turns ++ [⟨c, [w]⟩]) { c.trans03 w with stateId := .s2 }.advance)
    (counted : ∀ turns c d us, c.stateId ∈ [.s2, .s3, .s4, .s5] →
      d.stateId ∈ [.s2, .s3, .s4, .s5] → FeeCounted E c d us → P turns c →
      P (turns ++ [⟨c, us⟩]) d)
    (length : ∀ turns c w u, c.Takes E w .t11 → Fires E c w .t11 u → P turns c →
      P (turns ++ [⟨c, [w]⟩]) u.advance)
    (h : Walk E s .fee turns c) : P turns c := by
  induction h with
  | @opened c d w tr _ htakes hopens hcd =>
      obtain ⟨u, hfires, rfl⟩ := htakes.fires_of_next hcd
      have hr : c.restores E = false :=
        restores_of_ne htakes fun h => by simp [h, Part.fee] at hopens
      cases hfires with
      | t02 => exact opened c _ w hr rfl rfl
      | t13 => exact opened c _ w hr rfl rfl
      | t17 => exact opened c _ w hr rfl rfl
      | _ => exact absurd hopens (by decide)
  | skipped _ hskip hcd ih =>
      obtain rfl := hskip.next hcd
      exact skipped _ _ ih
  | @taken turns c d w tr us hwalk htakes hinside hcd hreads hpassed ih =>
      obtain ⟨u, hfires, rfl⟩ := htakes.fires_of_next hcd
      have hone (htr : tr ≠ .t08) : us = [w] := by
        have hidx : u.advance.eventIndex = c.eventIndex + 1 :=
          congrArg (· + 1) (hfires.eventIndex htr)
        exact htakes.words_eq hreads (by omega)
      by_cases htelid : tr = .t03
      · subst htelid
        obtain rfl := hone (by decide)
        cases hfires
        exact telid turns c w htakes ih
      by_cases hlength : tr = .t11
      · subst hlength
        obtain rfl := hone (by decide)
        exact length turns c w u htakes hfires ih
      have hdata : tr ∈ [.t04, .t05, .t06, .t07, .t08, .t09, .t10] := by
        simp only [Part.fee] at hinside
        simp_all
      obtain ⟨vs, hblk, hfee⟩ := hfires.counted htakes hwalk.eventIndex_pos hdata
      obtain rfl := hblk.words_eq hreads hpassed
      have hsource : c.stateId ∈ [.s2, .s3, .s4, .s5] := by
        have hst := ttable_eq htakes.2.2
        cases tr <;> first | exact absurd hdata (by decide) | (rw [hst.1]; decide)
      have htarget : u.advance.stateId ∈ [.s2, .s3, .s4, .s5] := by
        change u.stateId ∈ _
        rw [hfires.stateId fun h => by simp [h] at hdata]
        cases tr <;> first | exact absurd hdata (by decide) | decide
      exact counted turns c u.advance us hsource htarget hfee ih

/-! ## Computed walks -/

/-- The next `n` words from index `i` on. -/
def readWords (E : Env) (i : Nat) : Nat → Option (List Word)
  | 0 => some []
  | n + 1 => do
      let w ← E.event i
      let ws ← readWords E (i + 1) n
      some (w :: ws)

theorem readWords_eq_some {i n : Nat} (h : readWords E i n = some us) :
    us.length = n ∧ E.Reads i us := by
  induction n generalizing i us with
  | zero =>
      cases h
      exact ⟨rfl, trivial⟩
  | succ n ih =>
      obtain ⟨w, hw, h⟩ := Option.bind_eq_some_iff.1 h
      obtain ⟨ws, hws, h⟩ := Option.bind_eq_some_iff.1 h
      cases h
      obtain ⟨hlen, hreads⟩ := ih hws
      exact ⟨congrArg (· + 1) hlen, hw, hreads⟩

/-- The next turns of the loop, if they are all inside of `p`. -/
def walkOn (E : Env) (p : Part) : Nat → Fsm → Option (List Turn × Fsm)
  | 0, c => some ([], c)
  | n + 1, c => do
      let w ← E.event c.eventIndex
      if c.eventIndex < E.eventSize ∧ getwordId w ≠ .empty ∧
          ttable (getwordId w) c.stateId ∈ p.inside then
        let d ← c.turn E
        let us ← readWords E c.eventIndex (d.eventIndex - c.eventIndex)
        let (turns, e) ← walkOn E p n d
        some (⟨c, us⟩ :: turns, e)
      else none

theorem Walk.walkOn {n : Nat} {ts : List Turn} (h : Walk E s p ts c)
    (hon : Fsm.walkOn E p n c = some (turns, d)) : Walk E s p (ts ++ turns) d := by
  induction n generalizing c ts turns with
  | zero =>
      cases hon
      rwa [List.append_nil]
  | succ n ih =>
      obtain ⟨w, hw, hon⟩ := Option.bind_eq_some_iff.1 hon
      split at hon
      case isFalse => cases hon
      rename_i hturn
      obtain ⟨e, he, hon⟩ := Option.bind_eq_some_iff.1 hon
      obtain ⟨us, hus, hon⟩ := Option.bind_eq_some_iff.1 hon
      obtain ⟨⟨rest, f⟩, hrest, hon⟩ := Option.bind_eq_some_iff.1 hon
      cases hon
      obtain ⟨hlen, hreads⟩ := readWords_eq_some hus
      have hce : E.loop.Next c e := ⟨by simpa [Env.loop] using hturn.1, he⟩
      have hle := next_eventIndex_le hce
      have htaken := h.taken ⟨hw, hturn.2.1, rfl⟩ hturn.2.2 hce hreads (by omega)
      have hwalk := ih htaken hrest
      rwa [List.append_assoc] at hwalk

end Fsm

end FzDaq.Parser
