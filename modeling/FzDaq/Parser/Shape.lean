import FzDaq.Parser.Required

/-!
# The shape of the event under construction

Whatever the words of a chunk are, the cursors point to the last messages of the event
in the states that use them, and a hit gets its data message before the next hit is
opened. With several REGID words in a chunk an event goes on with the blocks of the
one before it, which are whole.
-/

namespace FzDaq.Parser

open Machine

/-- There are hits, and each has its data message. -/
def FzFee.Regular (r : FzFee) : Prop := r.hit ≠ [] ∧ ∀ h ∈ r.hit, h.data.length = 1

def FzBlock.Regular (b : FzBlock) : Prop := ∀ r ∈ b.fee, r.Regular

/-- A block that is closed. -/
structure FzBlock.Whole (b : FzBlock) : Prop where
  regular : b.Regular
  blkid : b.blkid.isSome

/-- `fee(0)`, `hit(0)` and `data(0)` exist. -/
def FzBlock.HasFirst (b : FzBlock) : Prop :=
  ∃ r h d, b.fee[0]? = some r ∧ r.hit[0]? = some h ∧ h.data[0]? = some d

def FzEvent.hitAt (e : FzEvent) (p : HitPtr) : Option FzHit := do
  let b ← e.block[p.blk]?
  let r ← b.fee[p.fee]?
  r.hit[p.hit]?

theorem FzFee.Regular.addHit {r : FzFee} {h : FzHit} (hhits : ∀ x ∈ r.hit, x.data.length = 1)
    (hh : h.data.length = 1) : (r.addHit h).Regular :=
  ⟨by simp [FzFee.addHit], forall_mem_concat hhits hh⟩

theorem FzBlock.Regular.addFee {b : FzBlock} {r : FzFee} (hb : b.Regular) (hr : r.Regular) :
    (b.addFee r).Regular := forall_mem_concat hb hr

theorem FzBlock.Regular.hasFirst {b : FzBlock} (hb : b.Regular) (hfee : 0 < b.fee.length) :
    b.HasFirst := by
  have hr := hb _ (List.getElem_mem hfee)
  have hhit := List.length_pos_iff.2 hr.1
  have hdata : 0 < ((b.fee[0]).hit[0]).data.length := by
    rw [hr.2 _ (List.getElem_mem hhit)]
    decide
  exact ⟨b.fee[0], (b.fee[0]).hit[0], ((b.fee[0]).hit[0]).data[0], List.getElem?_eq_getElem hfee,
    List.getElem?_eq_getElem hhit, List.getElem?_eq_getElem hdata⟩

namespace FzEvent

variable {e : FzEvent} {p : HitPtr} {h x : FzHit} {bs : List FzBlock} {b : FzBlock} {r : FzFee}

theorem hitAt_eq_some : e.hitAt p = some x ↔
    ∃ b r, e.block[p.blk]? = some b ∧ b.fee[p.fee]? = some r ∧ r.hit[p.hit]? = some x := by
  simp only [hitAt, Option.bind_eq_bind, Option.bind_eq_some_iff]
  constructor
  · rintro ⟨b, hb, r, hr, hx⟩
    exact ⟨b, r, hb, hr, hx⟩
  · rintro ⟨b, r, hb, hr, hx⟩
    exact ⟨b, hb, r, hr, hx⟩

theorem mem_of_hitAt (hx : e.hitAt p = some x) : ∃ b ∈ e.block, ∃ r ∈ b.fee, x ∈ r.hit := by
  obtain ⟨b, r, hb, hr, hx⟩ := hitAt_eq_some.1 hx
  exact ⟨b, List.mem_of_getElem? hb, r, List.mem_of_getElem? hr, List.mem_of_getElem? hx⟩

theorem getElem?_concat_eq_some {α : Type} {l : List α} {x y : α} {i : Nat}
    (h : (l ++ [x])[i]? = some y) : y ∈ l ∨ i = l.length ∧ y = x := by
  rw [List.getElem?_append] at h
  split at h
  · exact .inl (List.mem_of_getElem? h)
  · obtain ⟨hi, hxy⟩ := List.getElem?_eq_some_iff.1 h
    rename_i hge
    simp only [List.length_singleton, Nat.lt_one_iff] at hi
    exact .inr ⟨by omega, by simpa [hi] using hxy.symm⟩

/-- A hit is the last one, or it is in one of the closed parts. -/
theorem hitAt_last (he : e.block = bs ++ [b.addFee (r.addHit h)]) (hx : e.hitAt p = some x) :
    (∃ b' ∈ bs, ∃ r' ∈ b'.fee, x ∈ r'.hit) ∨ (∃ r' ∈ b.fee, x ∈ r'.hit) ∨ x ∈ r.hit ∨
      p = ⟨bs.length, b.fee.length, r.hit.length⟩ ∧ x = h := by
  obtain ⟨b', r', hb, hr, hx⟩ := hitAt_eq_some.1 hx
  rw [he] at hb
  rcases getElem?_concat_eq_some hb with hmem | ⟨hblk, rfl⟩
  · exact .inl ⟨b', hmem, r', List.mem_of_getElem? hr, List.mem_of_getElem? hx⟩
  rcases getElem?_concat_eq_some hr with hmem | ⟨hfee, rfl⟩
  · exact .inr (.inl ⟨r', hmem, List.mem_of_getElem? hx⟩)
  rcases getElem?_concat_eq_some hx with hmem | ⟨hhit, rfl⟩
  · exact .inr (.inr (.inl hmem))
  · refine .inr (.inr (.inr ⟨?_, rfl⟩))
    rw [← hblk, ← hfee, ← hhit]

end FzEvent

namespace Fsm

variable {E : Env} {s t : Fsm} {w : Word} {tr : Trans} {σ σ' : Site}

/-- The cursors point to the last messages of the event, and the hits have one data
message each, but for the one that is being opened. -/
structure WellPlaced (s : Fsm) : Prop where
  blk : s.stateId ∈ [.s1, .s2, .s3, .s4, .s5, .s6, .s7, .s8, .s9] →
    s.blk + 1 = s.ev.block.length
  fee : s.stateId ∈ [.s2, .s3, .s4, .s5, .s6] →
    s.fee.blk = s.blk ∧ s.fee.fee + 1 = (s.ev.getBlk s.blk).fee.length
  hit : s.stateId ∈ [.s2, .s3, .s4, .s5, .s6] →
    s.hit.blk = s.blk ∧ s.hit.fee = s.fee.fee ∧ s.hit.hit + 1 = (s.ev.getFee s.fee).hit.length
  d : s.stateId ∈ [.s4, .s5, .s6] →
    s.d = ⟨s.hit.blk, s.hit.fee, s.hit.hit, 0⟩ ∧ (s.ev.getHit s.hit).data.length = 1
  hits : ∀ p h, s.ev.hitAt p = some h →
    h.data.length = 1 ∨ h.data = [] ∧ p = s.hit ∧ s.stateId ∈ [.s2, .s3]
  fees : ∀ b ∈ s.ev.block, ∀ r ∈ b.fee, r.hit ≠ []

/-- The closed parts of the event have their shape, and so has the open one. -/
def Shaped (s : Fsm) : Site → Prop
  | .none => True
  | .blk bs b => (∀ x ∈ bs, FzBlock.Whole x) ∧ b.Regular ∧
      (s.stateId = .s8 ∨ s.stateId = .s9 → b.blkid.isSome)
  | .hit bs b r h => (∀ x ∈ bs, FzBlock.Whole x) ∧ b.Regular ∧ (∀ x ∈ r.hit, x.data.length = 1) ∧
      h.data = []
  | .data bs b r h _ => (∀ x ∈ bs, FzBlock.Whole x) ∧ b.Regular ∧
      (∀ x ∈ r.hit, x.data.length = 1) ∧ h.data = []
  | .fee bs b r => (∀ x ∈ bs, FzBlock.Whole x) ∧ b.Regular ∧ r.Regular ∧
      s.hit = ⟨bs.length, b.fee.length, r.hit.length - 1⟩ ∧
      s.d = ⟨bs.length, b.fee.length, r.hit.length - 1, 0⟩
  | .done bs => ∀ x ∈ bs, FzBlock.Whole x

/-- Between two events all blocks are whole; within one the object stands at a site. -/
def Settled (E : Env) (s : Fsm) : Prop :=
  (s.stateId = .idle ∧ ∀ x ∈ s.ev.block, FzBlock.Whole x) ∨ ∃ σ, s.At E σ ∧ s.Shaped σ

theorem Settled.advance (h : s.Settled E) : s.advance.Settled E := by
  rcases h with h | ⟨σ, ha, hσ⟩
  · exact .inl h
  · exact .inr ⟨σ, ha.advance, by cases σ <;> exact hσ⟩

/-! ## The invariant -/

theorem Settled.idle (h : s.Settled E) (hs : s.stateId = .idle) :
    ∀ x ∈ s.ev.block, FzBlock.Whole x := by
  rcases h with ⟨-, hblocks⟩ | ⟨σ, ha, -⟩
  · exact hblocks
  · rw [(ha.of_idle hs).2]
    simp

/-- Behind a LENGTH word the cursors still point to the last hit. -/
theorem trans11_cursors (hfires : Fires E s w .t11 t) : t.toCursors = s.toCursors := by
  cases hfires with
  | t11Tag => rfl
  | t11Basic hf hu =>
      obtain ⟨u, hu, hv⟩ := trans11Basic_eq_some hu
      obtain ⟨_, _, rfl⟩ := verifySection_eq_some hu hv
      rfl

theorem Shaped.step (hσ : s.Shaped σ) (htakes : s.Takes E w tr) (hfires : Fires E s w tr t)
    (ha : s.At E σ) (hstep : Site.Step E.evformat s t w tr σ σ') : t.Shaped σ' := by
  have hnew : newBlk.Regular := by simp [FzBlock.Regular, newBlk]
  have hfull {h : FzHit} {d : FzData} (hnone : h.data = []) : (h.addData d).data.length = 1 := by
    simp [FzHit.addData, hnone]
  have hstate := ttable_eq htakes.2.2
  cases hstep with
  | reset | t01 => exact trivial
  | t02 =>
      cases hfires
      exact ⟨by simp, hnew, by simp⟩
  | t03 =>
      obtain ⟨hbs, hb, -⟩ := hσ
      exact ⟨hbs, hb, by simp [newFee], rfl⟩
  | t04 | t05Dettag | t05Trigpat | t06 => exact hσ
  | t07 | t08 => exact hσ
  | t09 =>
      obtain ⟨hbs, hb, hhits, hh⟩ := hσ
      exact ⟨hbs, hb, forall_mem_concat hhits (hfull hh), rfl⟩
  | t10 =>
      obtain ⟨hbs, hb, hhits, hh⟩ := hσ
      exact ⟨hbs, hb, forall_mem_concat hhits (hfull hh), rfl⟩
  | t11 =>
      obtain ⟨hbs, hb, hhits, hh⟩ := hσ
      obtain ⟨bs, b, r, h, d, hsite, hat, -⟩ := ha.of_data (.inr hstate.1)
      cases hsite
      have hcur := trans11_cursors hfires
      refine ⟨hbs, hb, .addHit hhits (hfull hh), ?_, ?_⟩
      · rw [hcur, hat.1.2]
        simp [FzFee.addHit]
      · rw [hcur, hat.2, hh]
        simp [FzFee.addHit]
  | t12 =>
      obtain ⟨hbs, hb, hr, -⟩ := hσ
      refine ⟨hbs, hb.addFee ⟨hr.1, hr.2⟩, fun hs => ?_⟩
      rw [hfires.stateId (by simp)] at hs
      simp [Trans.target] at hs
  | t13 =>
      obtain ⟨hbs, hb, -⟩ := hσ
      cases hfires
      exact ⟨hbs, hb, by simp⟩
  | t14 =>
      obtain ⟨hbs, hb, -⟩ := hσ
      exact ⟨hbs, hb, fun _ => rfl⟩
  | t15 =>
      obtain ⟨hbs, hb, hid⟩ := hσ
      exact ⟨hbs, hb, fun _ => hid (.inl hstate.1)⟩
  | t16 =>
      obtain ⟨hbs, hb, hid⟩ := hσ
      exact forall_mem_concat hbs ⟨hb, hid (.inr hstate.1)⟩
  | t16Trigger => exact hσ.1
  | t17 =>
      cases hfires
      exact ⟨hσ, hnew, by simp⟩

/-- A new event has the blocks of the one before it, unless that was taken off. -/
theorem Settled.step (h : s.Settled E) (htakes : s.Takes E w tr) (hfires : Fires E s w tr t) :
    t.Settled E := by
  have hstate := ttable_eq htakes.2.2
  by_cases hs : s.stateId = .idle
  · have hblocks := h.idle hs
    have htr : tr = .notValid ∨ tr = .t01 ∨ tr = .t02 := by
      rw [← htakes.2.2, hs]
      cases getwordId w <;> simp [ttable]
    rcases htr with rfl | rfl | rfl
    · cases hfires
      exact .inl ⟨rfl, by simp [reset]⟩
    · cases hfires
      exact .inl ⟨hs, hblocks⟩
    · cases hfires
      have hat : (s.trans02 w).AtBlk s.ev.block newBlk :=
        startBlk_at { s with errInEvent := false } w
      refine .inr ⟨.blk s.ev.block newBlk, .blk (.inl rfl) hat, hblocks, ?_, by simp⟩
      simp [FzBlock.Regular, newBlk]
  · obtain ⟨σ, ha, hσ⟩ : ∃ σ, s.At E σ ∧ s.Shaped σ := h.resolve_left fun hidle => hs hidle.1
    by_cases hregid : tr = .t18
    · subst hregid
      obtain rfl := ha.of_s10 hstate.1
      cases hfires
      refine .inl ⟨rfl, ?_⟩
      change ∀ x ∈ (s.trans18 w).ev.block, _
      rw [(trans18_cases s w).1]
      exact hσ
    · obtain ⟨σ', ha', hstep⟩ := hfires.site htakes hregid ha
      exact .inr ⟨σ', ha', hσ.step htakes hfires ha hstep⟩

theorem reaches_settled {c : Fsm} (hc : E.loop.Reaches (E.entry s) c) : c.Settled E := by
  refine hc.invariant (Settled E) (.inl ⟨rfl, by simp [Env.entry, importEvent, start]⟩)
    fun c d _ hnext hinv => ?_
  obtain ⟨_, ⟨_, rfl⟩ | ⟨w, tr, u, htakes, hfires, rfl⟩⟩ := next_cases hnext
  · exact hinv.advance
  · exact (hinv.step htakes hfires).advance

/-! ## What it says of the cursors -/

theorem hits_of_regular (h : ∀ b ∈ s.ev.block, b.Regular) (p : HitPtr) (x : FzHit)
    (hx : s.ev.hitAt p = some x) : x.data.length = 1 := by
  obtain ⟨b, hb, r, hr, hx⟩ := FzEvent.mem_of_hitAt hx
  exact (h b hb r hr).2 x hx

theorem fees_of_regular (h : ∀ b ∈ s.ev.block, b.Regular) :
    ∀ b ∈ s.ev.block, ∀ r ∈ b.fee, r.hit ≠ [] :=
  fun b hb r hr => (h b hb r hr).1

theorem wellPlaced_between (hs : s.stateId = .idle ∨ s.stateId = .s10)
    (hblocks : ∀ b ∈ s.ev.block, b.Whole) : s.WellPlaced := by
  have hreg : ∀ b ∈ s.ev.block, b.Regular := fun b hb => (hblocks b hb).regular
  constructor
  case hits => exact fun p x hx => .inl (hits_of_regular hreg p x hx)
  case fees => exact fees_of_regular hreg
  all_goals rcases hs with hs | hs <;> simp [hs]

variable {bs : List FzBlock} {b : FzBlock} {r : FzFee} {h : FzHit} {d : FzData}

theorem AtBlk.wellPlaced (hat : s.AtBlk bs b)
    (hs : s.stateId = .s1 ∨ s.stateId = .s7 ∨ s.stateId = .s8 ∨ s.stateId = .s9)
    (hbs : ∀ x ∈ bs, FzBlock.Whole x) (hb : b.Regular) : s.WellPlaced := by
  have hreg : ∀ x ∈ s.ev.block, x.Regular := by
    rw [hat.1]
    exact forall_mem_concat (fun x hx => (hbs x hx).regular) hb
  constructor
  case blk =>
    intro _
    rw [hat.1, hat.2, List.length_append, List.length_singleton]
  case hits => exact fun p x hx => .inl (hits_of_regular hreg p x hx)
  case fees => exact fees_of_regular hreg
  all_goals rcases hs with hs | hs | hs | hs <;> simp [hs]

theorem AtFee.cursors (hat : s.AtFee bs b r) : s.blk + 1 = s.ev.block.length ∧
    s.fee.blk = s.blk ∧ s.fee.fee + 1 = (s.ev.getBlk s.blk).fee.length := by
  refine ⟨?_, ?_, ?_⟩
  · rw [hat.1.1, hat.1.2, List.length_append, List.length_singleton]
  · rw [hat.2, hat.1.2]
  · rw [hat.1.getBlk, hat.2, FzBlock.addFee, List.length_append, List.length_singleton]

theorem AtHit.cursors (hat : s.AtHit bs b r h) : s.hit.blk = s.blk ∧ s.hit.fee = s.fee.fee ∧
    s.hit.hit + 1 = (s.ev.getFee s.fee).hit.length := by
  refine ⟨?_, ?_, ?_⟩
  · rw [hat.2, hat.1.1.2]
  · rw [hat.2, hat.1.2]
  · rw [hat.1.getFee, hat.2, FzFee.addHit, List.length_append, List.length_singleton]

theorem AtHit.wellPlaced (hat : s.AtHit bs b r h) (hs : s.stateId = .s2 ∨ s.stateId = .s3)
    (hbs : ∀ x ∈ bs, FzBlock.Whole x) (hb : b.Regular) (hhits : ∀ x ∈ r.hit, x.data.length = 1)
    (hh : h.data = []) : s.WellPlaced := by
  constructor
  case blk => exact fun _ => hat.1.cursors.1
  case fee => exact fun _ => hat.1.cursors.2
  case hit => exact fun _ => hat.cursors
  case d => rcases hs with hs | hs <;> simp [hs]
  case hits =>
    intro p x hx
    rcases FzEvent.hitAt_last hat.block hx with ⟨b', hb', r', hr', hx⟩ | ⟨r', hr', hx⟩ | hx |
      ⟨rfl, rfl⟩
    · exact .inl (((hbs b' hb').regular r' hr').2 x hx)
    · exact .inl ((hb r' hr').2 x hx)
    · exact .inl (hhits x hx)
    · exact .inr ⟨hh, hat.2.symm, by rcases hs with hs | hs <;> simp [hs]⟩
  case fees =>
    rw [hat.block]
    refine forall_mem_concat (fun x hx r' hr' => ((hbs x hx).regular r' hr').1) ?_
    exact forall_mem_concat (fun r' hr' => (hb r' hr').1) (by simp [FzFee.addHit])

theorem AtData.wellPlaced (hat : s.AtData bs b r h d)
    (hbs : ∀ x ∈ bs, FzBlock.Whole x) (hb : b.Regular) (hhits : ∀ x ∈ r.hit, x.data.length = 1)
    (hh : h.data = []) : s.WellPlaced := by
  have hfull : (h.addData d).data.length = 1 := by simp [FzHit.addData, hh]
  have hreg : ∀ x ∈ s.ev.block, x.Regular := by
    rw [hat.block]
    exact forall_mem_concat (fun x hx => (hbs x hx).regular) (hb.addFee (.addHit hhits hfull))
  refine ⟨fun _ => hat.1.1.cursors.1, fun _ => hat.1.1.cursors.2, fun _ => hat.1.cursors,
    fun _ => ⟨?_, ?_⟩, fun p x hx => .inl (hits_of_regular hreg p x hx), fees_of_regular hreg⟩
  · rw [hat.2, hat.1.2, hh, List.length_nil]
  · rw [hat.1.getHit, hfull]

theorem AtFee.wellPlaced (hat : s.AtFee bs b r)
    (hbs : ∀ x ∈ bs, FzBlock.Whole x) (hb : b.Regular) (hr : r.Regular)
    (hhit : s.hit = ⟨bs.length, b.fee.length, r.hit.length - 1⟩)
    (hd : s.d = ⟨bs.length, b.fee.length, r.hit.length - 1, 0⟩) : s.WellPlaced := by
  have hpos : 0 < r.hit.length := List.length_pos_iff.2 hr.1
  have hreg : ∀ x ∈ s.ev.block, x.Regular := by
    rw [hat.1.1]
    exact forall_mem_concat (fun x hx => (hbs x hx).regular) (hb.addFee hr)
  refine ⟨fun _ => hat.cursors.1, fun _ => hat.cursors.2, fun _ => ⟨?_, ?_, ?_⟩,
    fun _ => ⟨?_, ?_⟩, fun p x hx => .inl (hits_of_regular hreg p x hx), fees_of_regular hreg⟩
  · rw [hhit, hat.1.2]
  · rw [hhit, hat.2]
  · rw [hat.getFee, hhit]
    exact Nat.sub_add_cancel hpos
  · rw [hd, hhit]
  · have hlast : r.hit.length - 1 < r.hit.length := Nat.sub_lt hpos Nat.one_pos
    have hget : s.ev.getHit s.hit = r.hit[r.hit.length - 1] := by
      rw [FzEvent.getHit, hhit, FzEvent.getFee_last hat.1.1, List.getElem?_eq_getElem hlast]
      rfl
    rw [hget]
    exact hr.2 _ (List.getElem_mem hlast)

theorem Settled.wellPlaced (hst : s.Settled E) : s.WellPlaced := by
  rcases hst with ⟨hs, hblocks⟩ | ⟨σ, ha, hσ⟩
  · exact wellPlaced_between (.inl hs) hblocks
  · cases ha with
    | none hs hev => exact wellPlaced_between (.inl hs) (by simp [hev])
    | blk hs hat => exact hat.wellPlaced hs hσ.1 hσ.2.1
    | hit hs hat => exact hat.wellPlaced hs hσ.1 hσ.2.1 hσ.2.2.1 hσ.2.2.2
    | data _ hat => exact hat.wellPlaced hσ.1 hσ.2.1 hσ.2.2.1 hσ.2.2.2
    | fee _ hat => exact hat.wellPlaced hσ.1 hσ.2.1 hσ.2.2.1 hσ.2.2.2.1 hσ.2.2.2.2
    | done hs hev => exact wellPlaced_between (.inr hs) (hev ▸ hσ)

/-! ## The trigger block and the event that is sent -/

/-- `trans16` calls `read_triggerinfo` for the block. -/
def ReadsTriggers (E : Env) (s : Fsm) (w : Word) (blk : FzBlock) : Prop :=
  E.evformat = .basic ∧ ∃ lenBad, blk = (s.judged w lenBad false).ev.getBlk s.blk ∧
    blk.blkid.getD 0 = 0x7FF ∧ 0 < blk.fee.length

/-- The verdicts on a block leave its fees. -/
theorem Settled.readsTriggers (hst : s.Settled E) (htakes : s.Takes E w .t16) {blk : FzBlock}
    (hreads : s.ReadsTriggers E w blk) : blk.HasFirst := by
  have hs : s.stateId = .s9 := (ttable_eq htakes.2.2).1
  obtain ⟨σ, ha, hσ⟩ : ∃ σ, s.At E σ ∧ s.Shaped σ := by
    rcases hst with ⟨hidle, -⟩ | hst
    · rw [hs] at hidle
      cases hidle
    · exact hst
  obtain ⟨bs, b, rfl, hat⟩ := ha.of_blk (.inr (.inr (.inr hs)))
  obtain ⟨-, lenBad, rfl, -, hfee⟩ := hreads
  have hget : (s.judged w lenBad false).ev.getBlk s.blk =
      { b with lenError := some lenBad, crcError := some false } :=
    (AtBlk.onBlk hat fun b =>
      { b with lenError := some lenBad, crcError := some false }).getBlk
  rw [hget] at hfee ⊢
  exact FzBlock.Regular.hasFirst (b := { b with lenError := some lenBad, crcError := some false })
    hσ.2.1 hfee

variable {ch : Chunk} {fuel : Nat} {res : Fsm}

theorem parse_whole (hE : E.Carries ch) (hrun : s.parse E fuel = .ended res)
    (hok : res.retval = .PARSE_OK) : ∀ b ∈ res.ev.block, b.Whole := by
  rcases parse_verdict hE hrun with ⟨hfail, _⟩ | ⟨c, hc, htakes, _, rfl⟩
  · rw [hok] at hfail
    cases hfail
  · have hst := reaches_settled hc.1
    have hs := htakes.stateId_s10
    obtain ⟨σ, ha, hσ⟩ : ∃ σ, c.At E σ ∧ c.Shaped σ := by
      rcases hst with ⟨hidle, -⟩ | hst
      · rw [hs] at hidle
        cases hidle
      · exact hst
    obtain rfl := ha.of_s10 hs
    have hev : (((c.judge ch.regid).finish E).ev) = _ := (trans18_cases c ch.regid).1
    rw [hev]
    exact hσ

/-- In every state of every run the cursors point to the last messages; `trans16` finds
the first data message of a trigger block; in an event that is sent every hit has its
data message and every block its id. -/
theorem parse_wellPlaced (E : Env) (s : Fsm) :
    (∀ c, E.loop.Reaches (E.entry s) c → c.WellPlaced) ∧
      (∀ c w blk, E.loop.Reaches (E.entry s) c → c.Takes E w .t16 → c.ReadsTriggers E w blk →
        blk.HasFirst) ∧
      ∀ ch fuel res, E.Carries ch → s.parse E fuel = .ended res → res.retval = .PARSE_OK →
        (∀ b ∈ res.ev.block, b.blkid.isSome ∧ ∀ r ∈ b.fee, ∀ h ∈ r.hit, h.data.length = 1) := by
  refine ⟨fun c hc => (reaches_settled hc).wellPlaced,
    fun c w blk hc htakes hreads => (reaches_settled hc).readsTriggers htakes hreads,
    fun ch fuel res hE hrun hok b hb => ?_⟩
  have hwhole := parse_whole hE hrun hok b hb
  exact ⟨hwhole.blkid, fun r hr h hh => (hwhole.regular r hr).2 h hh⟩

end Fsm

end FzDaq.Parser
