import FzDaq.Parser.Chunk

/-!
# Words read behind the cursor

Closed forms of the loops that gather samples and of `next_event_word`: which
words they read, and the object they leave. `Reads i ws` says that the words of
the event from index `i` on are `ws`.
-/

namespace FzDaq.Parser

def Env.Reads (E : Env) : Nat → List Word → Prop
  | _, [] => True
  | i, w :: ws => E.event i = some w ∧ E.Reads (i + 1) ws

namespace Env

variable {E : Env}

@[simp] theorem reads_nil (i : Nat) : E.Reads i [] := trivial

@[simp] theorem reads_cons {i : Nat} {w : Word} {ws : List Word} :
    E.Reads i (w :: ws) ↔ E.event i = some w ∧ E.Reads (i + 1) ws := Iff.rfl

theorem reads_append {i : Nat} {us vs : List Word} :
    E.Reads i (us ++ vs) ↔ E.Reads i us ∧ E.Reads (i + us.length) vs := by
  induction us generalizing i with
  | nil => simp
  | cons u us ih =>
      simp only [List.cons_append, reads_cons, ih, List.length_cons]
      rw [show i + 1 + us.length = i + (us.length + 1) by omega]
      tauto

theorem Reads.get {i k : Nat} {ws : List Word} (h : E.Reads i ws) (hk : k < ws.length) :
    E.event (i + k) = some ws[k] := by
  induction ws generalizing i k with
  | nil => simp at hk
  | cons w ws ih =>
      cases k with
      | zero => exact h.1
      | succ k =>
          have := ih h.2 (by simpa using hk)
          rw [show i + (k + 1) = i + 1 + k by omega]
          exact this

theorem reads_of_get {i : Nat} {ws : List Word}
    (h : ∀ k (hk : k < ws.length), E.event (i + k) = some ws[k]) : E.Reads i ws := by
  induction ws generalizing i with
  | nil => trivial
  | cons w ws ih =>
      refine ⟨h 0 (by simp), ih fun k hk => ?_⟩
      have := h (k + 1) (by simpa using hk)
      rw [show i + 1 + k = i + (k + 1) by omega]
      exact this

theorem Reads.unique {i : Nat} {us vs : List Word} (hu : E.Reads i us) (hv : E.Reads i vs)
    (hlen : us.length = vs.length) : us = vs := by
  apply List.ext_getElem hlen
  intro k h₁ h₂
  exact Option.some.inj ((hu.get h₁).symm.trans (hv.get h₂))

end Env

/-- A running checksum after the words `ws`. -/
def xorAll (crc : Word) (ws : List Word) : Word := ws.foldl (· ^^^ ·) crc

@[simp] theorem xorAll_nil (crc : Word) : xorAll crc [] = crc := rfl

@[simp] theorem xorAll_cons (crc w : Word) (ws : List Word) :
    xorAll crc (w :: ws) = xorAll (crc ^^^ w) ws := rfl

theorem xorAll_append (crc : Word) (us vs : List Word) :
    xorAll crc (us ++ vs) = xorAll (xorAll crc us) vs := List.foldl_append

namespace FzEvent

theorem modData_modData (e : FzEvent) (p : DataPtr) (f g : FzData → FzData) :
    (e.modData p f).modData p g = e.modData p (g ∘ f) := by
  simp only [modData, modHit, modFee, modBlk, List.modify_modify_eq]
  congr 3
  funext b
  simp only [Function.comp, List.modify_modify_eq]
  congr 3
  funext r
  simp only [Function.comp, List.modify_modify_eq]
  congr 2
  funext h
  simp only [Function.comp, List.modify_modify_eq]

theorem modData_id (e : FzEvent) (p : DataPtr) : e.modData p id = e := by
  have hhit : (fun h : FzHit => { h with data := h.data.modify p.data id }) = id := by
    funext h
    simp
  have hfee : (fun r : FzFee => { r with hit := r.hit.modify p.hit id }) = id := by
    funext r
    simp
  have hblk : (fun b : FzBlock => { b with fee := b.fee.modify p.fee id }) = id := by
    funext b
    simp
  simp only [modData, modHit, modFee, modBlk]
  rw [hhit, hfee, hblk, List.modify_id]

end FzEvent

namespace Fsm

variable {E : Env} {s t : Fsm}

/-! ## `next_event_word` -/

/-- The object after the cursor has moved over the words `ws`. -/
def movedOver (s : Fsm) (ws : List Word) : Fsm :=
  { s with
    eventIndex := s.eventIndex + ws.length
    blklen := s.blklen + ws.length
    feelen := s.feelen + ws.length
    blkcrc := xorAll s.blkcrc ws
    feecrc := xorAll s.feecrc ws }

@[simp] theorem movedOver_nil (s : Fsm) : s.movedOver [] = s := rfl

theorem movedOver_movedOver (s : Fsm) (us vs : List Word) :
    (s.movedOver us).movedOver vs = s.movedOver (us ++ vs) := by
  simp [movedOver, xorAll_append, Nat.add_assoc]

theorem foldl_skipWord (s : Fsm) (ws : List Word) : ws.foldl skipWord s = s.movedOver ws := by
  induction ws generalizing s with
  | nil => rfl
  | cons w ws ih =>
      have hskip : s.skipWord w = s.movedOver [w] := rfl
      rw [List.foldl_cons, ih, hskip, movedOver_movedOver]
      rfl

theorem nextEventWord_eq_some {w : Word} :
    s.nextEventWord E = some (w, t) ↔
      E.event (s.eventIndex + 1) = some w ∧ t = s.movedOver [w] := by
  cases h : E.event (s.eventIndex + 1) with
  | none => simp [nextEventWord, h]
  | some x =>
      simp only [nextEventWord, h, Option.bind_eq_bind, Option.bind_some, Option.some.injEq,
        Prod.mk.injEq]
      constructor
      · rintro ⟨rfl, rfl⟩
        exact ⟨rfl, rfl⟩
      · rintro ⟨rfl, rfl⟩
        exact ⟨rfl, rfl⟩

/-! ## Gathering loops of the basic format -/

/-- Samples appended to the waveform behind `wf`. -/
def addSamples (s : Fsm) (ws : List Word) : Fsm :=
  s.onWf fun wf => { wf with sample := wf.sample ++ ws.map (·.toNat) }

theorem onWf_onWf (s : Fsm) (f g : Waveform → Waveform) :
    (s.onWf f).onWf g = s.onWf (g ∘ f) := by
  simp only [onWf, FzEvent.modData_modData]
  congr 2
  funext d
  simp only [Function.comp, Option.map_map]

@[simp] theorem addSamples_nil (s : Fsm) : s.addSamples [] = s := by
  have hid : (fun d : FzData => { d with waveform := d.waveform.map fun wf =>
      { wf with sample := wf.sample ++ [] } }) = id := by
    funext d
    cases d with
    | mk type energy waveform => cases waveform <;> simp
  simp only [addSamples, onWf, List.map_nil, hid, FzEvent.modData_id]

theorem addSample_addSamples (s : Fsm) (w : Word) (ws : List Word) :
    (s.addSample w).addSamples ws = s.addSamples (w :: ws) := by
  simp only [addSample, addSamples, onWf_onWf]
  congr 1
  funext wf
  simp

/-- The object after the loop body has run for each of `ws`. -/
def gathered (s : Fsm) (ws : List Word) : Fsm := ws.foldl gatherSample s

theorem gatherCount_eq_some {n : Nat} :
    s.gatherCount E n = some t ↔
      ∃ ws, ws.length = n ∧ E.Reads s.eventIndex ws ∧ t = s.gathered ws := by
  induction n generalizing s with
  | zero => simp [gatherCount, gathered, eq_comm]
  | succ n ih =>
      cases h : E.event s.eventIndex with
      | none =>
          simp only [gatherCount, h, Option.bind_eq_bind, Option.bind_none, reduceCtorEq, false_iff]
          rintro ⟨ws, hlen, hreads, _⟩
          cases ws with
          | nil => simp at hlen
          | cons w ws => simp [h] at hreads
      | some x =>
          simp only [gatherCount, h, Option.bind_eq_bind, Option.bind_some, ih]
          constructor
          · rintro ⟨ws, hlen, hreads, rfl⟩
            exact ⟨x :: ws, by simp [hlen], ⟨h, hreads⟩, rfl⟩
          · rintro ⟨ws, hlen, hreads, rfl⟩
            cases ws with
            | nil => simp at hlen
            | cons w ws =>
                obtain ⟨hw, hreads⟩ := hreads
                rw [h] at hw
                cases hw
                exact ⟨ws, by simpa using hlen, hreads, rfl⟩

theorem gatherData_eq_some {turns : Nat} :
    s.gatherData E turns = some t ↔
      ∃ ws stop, ws.length < turns ∧ E.Reads s.eventIndex (ws ++ [stop]) ∧
        (∀ w ∈ ws, w ≤ 0x7FFF) ∧ ¬ stop ≤ 0x7FFF ∧ t = s.gathered ws := by
  induction turns generalizing s with
  | zero => simp [gatherData]
  | succ turns ih =>
      cases h : E.event s.eventIndex with
      | none =>
          simp only [gatherData, h, Option.bind_eq_bind, Option.bind_none, reduceCtorEq, false_iff]
          rintro ⟨ws, stop, _, hreads, _⟩
          cases ws <;> simp [h] at hreads
      | some x =>
          simp only [gatherData, h, Option.bind_eq_bind, Option.bind_some]
          by_cases hx : x ≤ 0x7FFF
          · rw [if_pos hx, ih]
            constructor
            · rintro ⟨ws, stop, hlen, hreads, hdata, hstop, rfl⟩
              exact ⟨x :: ws, stop, by simp [hlen], ⟨h, hreads⟩, by simpa [hx] using hdata,
                hstop, rfl⟩
            · rintro ⟨ws, stop, hlen, hreads, hdata, hstop, rfl⟩
              cases ws with
              | nil =>
                  simp only [List.nil_append, Env.reads_cons, h, Option.some.injEq] at hreads
                  exact absurd (hreads.1 ▸ hx) hstop
              | cons w ws =>
                  obtain ⟨hw, hreads⟩ := hreads
                  rw [h] at hw
                  cases hw
                  exact ⟨ws, stop, by simpa using hlen, hreads,
                    fun y hy => hdata y (List.mem_cons_of_mem _ hy), hstop, rfl⟩
          · rw [if_neg hx]
            constructor
            · intro hs
              cases hs
              exact ⟨[], x, by simp, by simp [h], by simp, hx, rfl⟩
            · rintro ⟨ws, stop, _, hreads, hdata, _, rfl⟩
              cases ws with
              | nil => rfl
              | cons w ws =>
                  obtain ⟨hw, _⟩ := hreads
                  rw [h] at hw
                  cases hw
                  exact absurd (hdata x (by simp)) hx

theorem gathered_eq (s : Fsm) (ws : List Word) :
    s.gathered ws =
      { s with
        ev := (s.addSamples ws).ev
        eventIndex := s.eventIndex + ws.length
        blklen := s.blklen + ws.length
        feelen := s.feelen + ws.length
        blkcrc := xorAll s.blkcrc ws
        feecrc := xorAll s.feecrc ws
        saveBlkcrc := if ws = [] then s.saveBlkcrc else xorAll s.blkcrc ws.dropLast
        saveFeecrc := if ws = [] then s.saveFeecrc else xorAll s.feecrc ws.dropLast } := by
  induction ws generalizing s with
  | nil => simp [gathered]
  | cons w ws ih =>
      have hcons : s.gathered (w :: ws) = (s.gatherSample w).gathered ws := rfl
      have hev : ((s.gatherSample w).addSamples ws).ev = (s.addSamples (w :: ws)).ev := by
        rw [← addSample_addSamples]
        rfl
      rw [hcons, ih, hev]
      simp only [gatherSample, addSample, onWf, updateBlk, updateBlkLen, updateBlkCrc, updateFee,
        updateFeeLen, updateFeeCrc, List.length_cons, xorAll_cons, List.cons_ne_nil, if_false,
        Nat.add_assoc, Nat.add_comm 1]
      cases ws with
      | nil => simp
      | cons x ws => simp

end Fsm

end FzDaq.Parser
