import FzDaq.Parser.Lockstep
import FzDaq.Parser.Samples

/-!
# The samples that a waveform should hold

A waveform with `len_error` at false should hold the words behind its length word and
nothing else. The loops that count up to the length take any word for a sample, and the
EMPTY words that the main loop skips do not end a waveform: which turns have to be clean
of both is said in `Clean`.
-/

namespace FzDaq.Parser

open Machine

/-- The word at place `i`, if there is one. -/
def Env.AllAt (E : Env) (i : Nat) (p : Word → Prop) : Prop := ∀ x ∈ E.event i, p x

instance (E : Env) (i : Nat) (p : Word → Prop) [DecidablePred p] : Decidable (E.AllAt i p) :=
  Option.decidableForallMem (E.event i)

theorem not_data_of_empty {x : Word} (h : getwordId x = .empty) : ¬x ≤ 0x7FFF := by
  rw [← getwordId_data_iff, h]
  decide

/-! ## The data messages of an event -/

def FzFee.messages (r : FzFee) : List FzData := r.hit.flatMap (·.data)

def FzBlock.messages (b : FzBlock) : List FzData := b.fee.flatMap (·.messages)

/-- The data messages in the order in which they were started. -/
def FzEvent.messages (e : FzEvent) : List FzData := e.block.flatMap (·.messages)

/-- The waveform of the message number `n`. -/
def FzEvent.shapeAt (e : FzEvent) (n : Nat) : Option (Option Bool × List Nat) :=
  e.messages[n]?.bind FzData.shape

@[simp]
theorem FzFee.messages_addHit (r : FzFee) (h : FzHit) :
    (r.addHit h).messages = r.messages ++ h.data := by
  simp [messages, addHit]

@[simp]
theorem FzBlock.messages_addFee (b : FzBlock) (r : FzFee) :
    (b.addFee r).messages = b.messages ++ r.messages := by
  simp [messages, addFee]

theorem FzEvent.messages_congr {e e' : FzEvent} (h : e'.block = e.block) :
    e'.messages = e.messages := by
  rw [messages, messages, h]

/-- The data messages that are closed. -/
def Site.closed : Site → List FzData
  | .none => []
  | .blk bs b => bs.flatMap (·.messages) ++ b.messages
  | .hit bs b r h | .data bs b r h _ =>
    bs.flatMap (·.messages) ++ b.messages ++ r.messages ++ h.data
  | .fee bs b r => bs.flatMap (·.messages) ++ b.messages ++ r.messages
  | .done bs => bs.flatMap (·.messages)

def Site.opened : Site → List FzData
  | .data _ _ _ _ d => [d]
  | _ => []

/-- Only at the end of a section is a message closed, and only the blocks of the trigger
and a word that is not valid take messages away. -/
theorem Site.Step.closed {fmt : Format} {s t : Fsm} {w : Word} {tr : Trans} {σ σ' : Site}
    (hσ : Site.Step fmt s t w tr σ σ') :
    σ'.closed <+: σ.closed ∨ ∃ bs b r h d d', σ = .data bs b r h d ∧
      tr ∈ [.t09, .t10, .t11] ∧ σ'.closed = σ.closed ++ [d'] ∧ d.Closed fmt d' t.errInEvent := by
  cases hσ with
  | reset | t01 | t02 => exact .inl List.nil_prefix
  | t16Trigger => exact .inl (List.prefix_append _ _)
  | @t09 bs b r h d d' hclose herr =>
    exact .inr ⟨bs, b, r, h, d, d', rfl, by decide, by
      simp [Site.closed, sectionHit, FzHit.addData], hclose⟩
  | @t10 bs b r h d d' hclose =>
    exact .inr ⟨bs, b, r, h, d, d', rfl, by decide, by
      simp [Site.closed, telescopeHit, FzHit.addData], hclose⟩
  | @t11 bs b r h d d' hclose =>
    exact .inr ⟨bs, b, r, h, d, d', rfl, by decide, by
      simp [Site.closed, FzHit.addData], hclose⟩
  | t03 => exact .inl (by simp [Site.closed, newFee, telescopeHit, FzFee.messages])
  | t12 => exact .inl (by simp [Site.closed, FzFee.messages])
  | t14 | t16 => exact .inl (by simp [Site.closed, FzBlock.messages])
  | t17 => exact .inl (by simp [Site.closed, newBlk, FzBlock.messages])
  | _ => exact .inl List.prefix_rfl

namespace Fsm

theorem At.messages {E : Env} {c : Fsm} {σ : Site} (ha : c.At E σ) :
    c.ev.messages = σ.closed ++ σ.opened := by
  unfold FzEvent.messages
  cases ha with
  | none _ hev =>
    rw [hev]
    rfl
  | blk _ hat => simp [hat.1, Site.closed, Site.opened]
  | hit _ hat => simp [hat.block, Site.closed, Site.opened]
  | data _ hat => simp [hat.block, Site.closed, Site.opened, FzHit.addData]
  | fee _ hat => simp [hat.1.1, Site.closed, Site.opened]
  | done _ hev => simp [hev, Site.closed, Site.opened]

/-! ## What is asked of a waveform -/

/-- The number of words between the length word and the samples. -/
def lead (E : Env) (c : Fsm) : Nat :=
  match E.evformat with
  | .basic => c.dType.lead
  | .tag => 0

/-- In the turn from `l` to `m` a call reads the length word `w` of a waveform. -/
structure ReadsLength (E : Env) (s l m : Fsm) (w : Word) : Prop where
  visits : E.loop.Visits (E.entry s) l
  takes : l.Takes E w .t08
  next : E.loop.Next l m
  before : l.wflenDone = false
  behind : m.wflenDone = true
  tag : E.evformat = .tag → l.tag = TAG_WAVEFORM

/-- From `m` to `c` the length of the waveform is known. -/
def Keeps (E : Env) : Fsm → Fsm → Prop :=
  Relation.ReflTransGen fun a b => E.loop.Next a b ∧ b.wflenDone = true

/-- The turn of `c` compares the length with the number of samples, in the last message. -/
def Judges (E : Env) (c : Fsm) (n : Nat) : Prop :=
  c.ev.messages.length = n + 1 ∧
  match E.evformat with
  | .basic => ∃ x tr, c.Takes E x tr ∧ tr ∈ [.t09, .t10, .t11]
  | .tag => c.wflenDone = true ∧ c.tagDone = true ∧ c.tag = TAG_WAVEFORM ∧ ∃ x, c.Takes E x .t08

/-- From `d` to `t` the waveform of the message number `n` stays as it is. -/
def Stands (E : Env) (n : Nat) : Fsm → Fsm → Prop :=
  Relation.ReflTransGen fun a b => E.loop.Next a b ∧ b.ev.shapeAt n = a.ev.shapeAt n

/-- The samples of the message number `n` are as many DATA words as its length word says,
right behind it, and in the basic format no DATA word follows. -/
inductive Own (E : Env) (s t : Fsm) (n : Nat) (samples : List Nat) : Prop
  | intro (l m c d : Fsm) (w : Word) (ws : List Word) (hlength : ReadsLength E s l m w)
      (hkeeps : Keeps E m c) (hjudges : c.Judges E n) (hnext : E.loop.Next c d)
      (hstands : Stands E n d t) (hcount : ws.length = w.toNat)
      (hreads : E.Reads (l.eventIndex + 1 + l.lead E) ws) (hdata : ∀ x ∈ ws, x ≤ 0x7FFF)
      (hsamples : samples = ws.map (·.toNat))
      (hend : E.evformat = .basic →
        ∃ x, E.event (l.eventIndex + 1 + l.lead E + ws.length) = some x ∧ ¬x ≤ 0x7FFF)

/-! ## What is asked of a turn -/

/-- The turn gathers samples. -/
def Gathers (E : Env) (c : Fsm) (tr : Trans) : Prop :=
  tr = .t08 ∧ c.wflenDone = true ∧ (E.evformat = .tag → c.tag = TAG_WAVEFORM)

structure Clean (E : Env) (c : Fsm) (w : Word) (tr : Trans) : Prop where
  /-- No EMPTY word in front of the samples. -/
  front : c.Gathers E tr → c.rdWflen ≠ 0 ∨ E.evformat = .basic ∧ c.dType = .ADC →
    E.AllAt (c.eventIndex - 1) (getwordId · ≠ .empty)
  /-- The words that are counted are DATA. -/
  counted : c.Gathers E tr → E.evformat = .tag ∨ c.dType.hasEnergy = false →
    ∀ k < c.rdWflen.toNat, E.AllAt (c.eventIndex + c.lead E + k) (· ≤ 0x7FFF)
  /-- Behind the length 0 of ADC data come sine and cosine. -/
  sixWords : E.evformat = .basic → c.dType = .ADC → tr = .t08 → c.wflenDone = false → w = 0 →
    E.AllAt (c.eventIndex + 1) (· ≤ 0x7FFF)
  /-- They are not followed by a DATA word then. -/
  sixOnly : E.evformat = .basic → c.dType = .ADC → c.Gathers E tr → c.rdWflen = 0 →
    E.AllAt (c.eventIndex + 6) (¬· ≤ 0x7FFF)
  /-- A section is not left before its length word. -/
  closes : E.evformat = .basic → tr ∈ [.t09, .t10, .t11] → c.wflenDone = true

instance (E : Env) (c : Fsm) (tr : Trans) : Decidable (c.Gathers E tr) :=
  inferInstanceAs (Decidable (_ ∧ _ ∧ (_ → _)))

set_option synthInstance.maxSize 1024 in
instance (E : Env) (c : Fsm) (w : Word) (tr : Trans) : Decidable (c.Clean E w tr) :=
  decidable_of_iff
    ((c.Gathers E tr → c.rdWflen ≠ 0 ∨ E.evformat = .basic ∧ c.dType = .ADC →
        E.AllAt (c.eventIndex - 1) (getwordId · ≠ .empty)) ∧
      (c.Gathers E tr → E.evformat = .tag ∨ c.dType.hasEnergy = false →
        ∀ k < c.rdWflen.toNat, E.AllAt (c.eventIndex + c.lead E + k) (· ≤ 0x7FFF)) ∧
      (E.evformat = .basic → c.dType = .ADC → tr = .t08 → c.wflenDone = false → w = 0 →
        E.AllAt (c.eventIndex + 1) (· ≤ 0x7FFF)) ∧
      (E.evformat = .basic → c.dType = .ADC → c.Gathers E tr → c.rdWflen = 0 →
        E.AllAt (c.eventIndex + 6) (¬· ≤ 0x7FFF)) ∧
      (E.evformat = .basic → tr ∈ [.t09, .t10, .t11] → c.wflenDone = true))
    ⟨fun ⟨h₁, h₂, h₃, h₄, h₅⟩ => ⟨h₁, h₂, h₃, h₄, h₅⟩,
      fun h => ⟨h.front, h.counted, h.sixWords, h.sixOnly, h.closes⟩⟩

variable {E : Env} {s t c d l m u : Fsm} {w : Word} {tr : Trans} {xs : List Nat} {ws : List Word}
  {i n : Nat}

theorem Own.next (h : Own E s c n xs) (hnext : E.loop.Next c d)
    (hshape : d.ev.shapeAt n = c.ev.shapeAt n) : Own E s d n xs := by
  obtain ⟨l, m, a, b, w, ws, hlength, hkeeps, hjudges, hab, hstands, hcount, hreads, hdata,
    hsamples, hend⟩ := h
  exact ⟨l, m, a, b, w, ws, hlength, hkeeps, hjudges, hab, hstands.tail ⟨hnext, hshape⟩, hcount,
    hreads, hdata, hsamples, hend⟩

/-! ## Skipped words -/

/-- From place `i` up to the cursor there are EMPTY words only. -/
structure Since (E : Env) (i : Nat) (c : Fsm) : Prop where
  le : i ≤ c.eventIndex
  skipped : ∀ k, i ≤ k → k < c.eventIndex → E.EmptyAt k

theorem Since.of_eq (h : c.eventIndex = i) : Since E i c :=
  ⟨Nat.le_of_eq h.symm, fun k hle hlt => absurd hlt (by omega)⟩

theorem Since.congr (h : Since E i c) (hidx : d.eventIndex = c.eventIndex) : Since E i d :=
  ⟨hidx ▸ h.le, hidx ▸ h.skipped⟩

theorem Since.skip (h : Since E i c) (hskip : c.Skips E) : Since E i c.advance := by
  refine ⟨Nat.le_succ_of_le h.le, fun k hle hlt => ?_⟩
  rcases Nat.lt_or_eq_of_le (Nat.le_of_lt_succ hlt) with hlt | rfl
  · exact h.skipped k hle hlt
  · exact hskip

/-- Nothing was skipped if the word before the cursor is no EMPTY word. -/
theorem Since.front (h : Since E i c)
    (hfront : ∀ x, E.event (c.eventIndex - 1) = some x → getwordId x ≠ .empty) :
    c.eventIndex = i := by
  rcases Nat.lt_or_eq_of_le h.le with hlt | heq
  · obtain ⟨x, hx, hempty⟩ := h.skipped (c.eventIndex - 1) (by omega) (by omega)
    exact absurd hempty (hfront x hx)
  · exact heq.symm

theorem Since.not_data (h : Since E i c) (hw : E.event c.eventIndex = some w)
    (hnot : ¬w ≤ 0x7FFF) : ∃ x, E.event i = some x ∧ ¬x ≤ 0x7FFF := by
  rcases Nat.lt_or_eq_of_le h.le with hlt | heq
  · obtain ⟨x, hx, hempty⟩ := h.skipped i (Nat.le_refl i) hlt
    exact ⟨x, hx, not_data_of_empty hempty⟩
  · exact ⟨w, heq ▸ hw, hnot⟩

/-! ## The length that is known -/

/-- The length of the waveform was read in the turn from `l` to `m`. -/
structure Known (E : Env) (s c l m : Fsm) : Prop where
  length : ReadsLength E s l m c.rdWflen
  keeps : Keeps E m c
  lead : l.lead E = c.lead E

theorem Known.next (h : Known E s c l m) (hnext : E.loop.Next c d)
    (hdone : d.wflenDone = true) (hrd : d.rdWflen = c.rdWflen) (hlead : d.lead E = c.lead E) :
    Known E s d l m :=
  ⟨hrd ▸ h.length, h.keeps.tail ⟨hnext, hdone⟩, h.lead.trans hlead.symm⟩

end Fsm

end FzDaq.Parser
