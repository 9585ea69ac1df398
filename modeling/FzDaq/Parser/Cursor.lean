import FzDaq.Parser.Run

/-!
# Where the cursors stand

The parser only ever works on the last block, the last fee of that block, its
last hit and the last data of that. `AtData bs b r h d` splits the event at the
cursors: `bs` are the finished blocks, `b`, `r` and `h` the open block, fee and
hit without their last element, and `d` is the open data message. The updates
behind a cursor become updates of the open part.
-/

namespace FzDaq.Parser

def FzBlock.addFee (b : FzBlock) (r : FzFee) : FzBlock := { b with fee := b.fee ++ [r] }

def FzFee.addHit (r : FzFee) (h : FzHit) : FzFee := { r with hit := r.hit ++ [h] }

def FzHit.addData (h : FzHit) (d : FzData) : FzHit := { h with data := h.data ++ [d] }

/-! ## Last elements -/

theorem modify_last {α : Type} (l : List α) (x : α) (f : α → α) :
    (l ++ [x]).modify l.length f = l ++ [f x] := by
  induction l with
  | nil => rfl
  | cons y l ih => simp [List.modify_succ_cons, ih]

theorem forall_mem_concat {α : Type} {P : α → Prop} {l : List α} {x : α} (hl : ∀ y ∈ l, P y)
    (hx : P x) : ∀ y ∈ l ++ [x], P y := by
  intro y hy
  rcases List.mem_append.1 hy with hy | hy
  · exact hl y hy
  · exact List.mem_singleton.1 hy ▸ hx

namespace FzEvent

variable {e : FzEvent} {bs : List FzBlock} {b : FzBlock} {r : FzFee} {h : FzHit} {d : FzData}

theorem modBlk_last (he : e.block = bs ++ [b]) (f : FzBlock → FzBlock) :
    (e.modBlk bs.length f).block = bs ++ [f b] := by
  change e.block.modify bs.length f = _
  rw [he, modify_last]

theorem modFee_last (he : e.block = bs ++ [b.addFee r]) (f : FzFee → FzFee) :
    (e.modFee ⟨bs.length, b.fee.length⟩ f).block = bs ++ [b.addFee (f r)] := by
  rw [modFee, modBlk_last he]
  simp only [FzBlock.addFee, modify_last]

theorem modHit_last (he : e.block = bs ++ [b.addFee (r.addHit h)]) (f : FzHit → FzHit) :
    (e.modHit ⟨bs.length, b.fee.length, r.hit.length⟩ f).block =
      bs ++ [b.addFee (r.addHit (f h))] := by
  rw [modHit, modFee_last he]
  simp only [FzFee.addHit, modify_last]

theorem modData_last (he : e.block = bs ++ [b.addFee (r.addHit (h.addData d))])
    (f : FzData → FzData) :
    (e.modData ⟨bs.length, b.fee.length, r.hit.length, h.data.length⟩ f).block =
      bs ++ [b.addFee (r.addHit (h.addData (f d)))] := by
  rw [modData, modHit_last he]
  simp only [FzHit.addData, modify_last]

theorem getBlk_last (he : e.block = bs ++ [b]) : e.getBlk bs.length = b := by
  simp [getBlk, he]

theorem getFee_last (he : e.block = bs ++ [b.addFee r]) :
    e.getFee ⟨bs.length, b.fee.length⟩ = r := by
  simp [getFee, getBlk_last he, FzBlock.addFee]

theorem getHit_last (he : e.block = bs ++ [b.addFee (r.addHit h)]) :
    e.getHit ⟨bs.length, b.fee.length, r.hit.length⟩ = h := by
  simp [getHit, getFee_last he, FzFee.addHit]

theorem getData_last (he : e.block = bs ++ [b.addFee (r.addHit (h.addData d))]) :
    e.getData ⟨bs.length, b.fee.length, r.hit.length, h.data.length⟩ = d := by
  simp [getData, getHit_last he, FzHit.addData]

end FzEvent

namespace Fsm

variable {E : Env} {s : Fsm} {bs : List FzBlock} {b : FzBlock} {r : FzFee} {h : FzHit}
  {d : FzData}

def AtBlk (s : Fsm) (bs : List FzBlock) (b : FzBlock) : Prop :=
  s.ev.block = bs ++ [b] ∧ s.blk = bs.length

def AtFee (s : Fsm) (bs : List FzBlock) (b : FzBlock) (r : FzFee) : Prop :=
  s.AtBlk bs (b.addFee r) ∧ s.fee = ⟨bs.length, b.fee.length⟩

def AtHit (s : Fsm) (bs : List FzBlock) (b : FzBlock) (r : FzFee) (h : FzHit) : Prop :=
  s.AtFee bs b (r.addHit h) ∧ s.hit = ⟨bs.length, b.fee.length, r.hit.length⟩

def AtData (s : Fsm) (bs : List FzBlock) (b : FzBlock) (r : FzFee) (h : FzHit) (d : FzData) :
    Prop :=
  s.AtHit bs b r (h.addData d) ∧ s.d = ⟨bs.length, b.fee.length, r.hit.length, h.data.length⟩

theorem AtHit.block (ha : s.AtHit bs b r h) : s.ev.block = bs ++ [b.addFee (r.addHit h)] :=
  ha.1.1.1

theorem AtData.block (ha : s.AtData bs b r h d) :
    s.ev.block = bs ++ [b.addFee (r.addHit (h.addData d))] := ha.1.1.1.1

/-! ## Open parts -/

theorem AtBlk.getBlk (ha : s.AtBlk bs b) : s.ev.getBlk s.blk = b := by
  rw [ha.2, FzEvent.getBlk_last ha.1]

theorem AtFee.getFee (ha : s.AtFee bs b r) : s.ev.getFee s.fee = r := by
  rw [ha.2, FzEvent.getFee_last ha.1.1]

theorem AtHit.getHit (ha : s.AtHit bs b r h) : s.ev.getHit s.hit = h := by
  rw [ha.2, FzEvent.getHit_last ha.block]

theorem AtData.getData (ha : s.AtData bs b r h d) : s.ev.getData s.d = d := by
  rw [ha.2, FzEvent.getData_last ha.block]

theorem AtData.dType (ha : s.AtData bs b r h d) : s.dType = d.type.getD .QH1 := by
  rw [Fsm.dType, ha.getData]

theorem AtData.curWaveform (ha : s.AtData bs b r h d) (hwf : s.wf = s.d) :
    s.curWaveform = d.waveform.getD {} := by
  rw [Fsm.curWaveform, hwf, ha.getData]

theorem AtData.curEnergy (ha : s.AtData bs b r h d) (hen : s.en = s.d) :
    s.curEnergy = d.energy.getD {} := by
  rw [Fsm.curEnergy, hen, ha.getData]

theorem AtBlk.onBlk (ha : s.AtBlk bs b) (f : FzBlock → FzBlock) : (s.onBlk f).AtBlk bs (f b) := by
  refine ⟨?_, ha.2⟩
  change (s.ev.modBlk s.blk f).block = _
  rw [ha.2, FzEvent.modBlk_last ha.1]

theorem AtFee.onFee (ha : s.AtFee bs b r) (f : FzFee → FzFee) :
    (s.onFee f).AtFee bs b (f r) := by
  refine ⟨⟨?_, ha.1.2⟩, ha.2⟩
  change (s.ev.modFee s.fee f).block = _
  rw [ha.2, FzEvent.modFee_last ha.1.1]

theorem AtHit.onHit (ha : s.AtHit bs b r h) (f : FzHit → FzHit) :
    (s.onHit f).AtHit bs b r (f h) := by
  refine ⟨⟨⟨?_, ha.1.1.2⟩, ha.1.2⟩, ha.2⟩
  change (s.ev.modHit s.hit f).block = _
  rw [ha.2, FzEvent.modHit_last ha.block]

theorem AtData.modData (ha : s.AtData bs b r h d) (f : FzData → FzData) :
    { s with ev := s.ev.modData s.d f }.AtData bs b r h (f d) := by
  refine ⟨⟨⟨⟨?_, ha.1.1.1.2⟩, ha.1.1.2⟩, ha.1.2⟩, ha.2⟩
  change (s.ev.modData s.d f).block = _
  rw [ha.2, FzEvent.modData_last ha.block]

theorem AtData.onWf (ha : s.AtData bs b r h d) (hwf : s.wf = s.d) (f : Waveform → Waveform) :
    (s.onWf f).AtData bs b r h { d with waveform := d.waveform.map f } := by
  have := ha.modData fun d => { d with waveform := d.waveform.map f }
  rwa [← hwf] at this

theorem AtData.onEn (ha : s.AtData bs b r h d) (hen : s.en = s.d) (f : Energy → Energy) :
    (s.onEn f).AtData bs b r h { d with energy := d.energy.map f } := by
  have := ha.modData fun d => { d with energy := d.energy.map f }
  rwa [← hen] at this

/-! ## New parts -/

theorem addBlk_at (s : Fsm) (b : FzBlock) : (s.addBlk b).AtBlk s.ev.block b := ⟨rfl, rfl⟩

theorem AtBlk.addFee (ha : s.AtBlk bs b) (r : FzFee) : (s.addFee r).AtFee bs b r := by
  refine ⟨⟨?_, ha.2⟩, ?_⟩
  · change (s.ev.modBlk s.blk _).block = _
    rw [ha.2, FzEvent.modBlk_last ha.1]
    rfl
  · change FeePtr.mk s.blk (s.ev.getBlk s.blk).fee.length = _
    rw [ha.getBlk, ha.2]

theorem AtFee.addHit (ha : s.AtFee bs b r) (h : FzHit) : (s.addHit h).AtHit bs b r h := by
  refine ⟨⟨⟨?_, ha.1.2⟩, ha.2⟩, ?_⟩
  · change (s.ev.modFee s.fee _).block = _
    rw [ha.2, FzEvent.modFee_last ha.1.1]
    rfl
  · change HitPtr.mk s.fee.blk s.fee.fee (s.ev.getFee s.fee).hit.length = _
    rw [ha.getFee, ha.2]

theorem AtHit.addData (ha : s.AtHit bs b r h) (d : FzData) :
    (s.addData d).AtData bs b r h d := by
  refine ⟨⟨⟨⟨?_, ha.1.1.2⟩, ha.1.2⟩, ha.2⟩, ?_⟩
  · change (s.ev.modHit s.hit _).block = _
    rw [ha.2, FzEvent.modHit_last ha.block]
    rfl
  · change DataPtr.mk s.hit.blk s.hit.fee s.hit.hit (s.ev.getHit s.hit).data.length = _
    rw [ha.getHit, ha.2]

end Fsm

end FzDaq.Parser
