import Mathlib

/-!
# Mailboxes without an order

The messages to one receiver may be delivered in any order. They are numbered as they
are sent, from 1 on. A receiver that is overwritten by each message ends where the
message sent last puts it, if that message is delivered last.
-/

namespace FzDaq.Machine

/-- `flight`: the messages sent and not yet delivered; `last`: the number of the message
that was delivered last, 0 before the first. -/
structure Mailbox (μ σ : Type) where
  receiver : σ
  flight : List (Nat × μ) := []
  sent : Nat := 0
  last : Nat := 0

namespace Mailbox

variable {μ σ : Type} {b : Mailbox μ σ} {apply : σ → μ → σ}

def send (b : Mailbox μ σ) (m : μ) : Mailbox μ σ :=
  { b with flight := b.flight ++ [(b.sent + 1, m)], sent := b.sent + 1 }

/-- The message at a position of `flight` is delivered, if there is one. -/
def deliver (apply : σ → μ → σ) (b : Mailbox μ σ) (i : Nat) : Mailbox μ σ :=
  match b.flight[i]? with
  | none => b
  | some (k, m) =>
    { b with receiver := apply b.receiver m, flight := b.flight.eraseIdx i, last := k }

/-- The numbers of a mailbox are those of messages sent. -/
structure Numbered (b : Mailbox μ σ) : Prop where
  flight : ∀ p ∈ b.flight, p.1 ≤ b.sent
  last : b.last ≤ b.sent

theorem Numbered.send (h : b.Numbered) (m : μ) : (b.send m).Numbered where
  flight p hp := by
    rcases List.mem_append.1 hp with hp | hp
    · exact Nat.le_succ_of_le (h.flight p hp)
    · rw [List.mem_singleton.1 hp]
      exact Nat.le_refl _
  last := Nat.le_succ_of_le h.last

theorem Numbered.deliver (h : b.Numbered) (i : Nat) : (b.deliver apply i).Numbered := by
  unfold Mailbox.deliver
  split
  · exact h
  · rename_i k m hget
    refine ⟨fun p hp => h.flight p (List.mem_of_mem_eraseIdx hp), ?_⟩
    exact h.flight (k, m) (List.mem_of_getElem? hget)

theorem deliver_receiver {I : σ → Prop} (happly : ∀ v m, I v → I (apply v m))
    (h : I b.receiver) (i : Nat) : I (b.deliver apply i).receiver := by
  unfold Mailbox.deliver
  split
  · exact h
  · exact happly _ _ h

/-- The message sent last has a property, and so has what it makes of the receiver. -/
structure Newest (Q : μ → Prop) (P : σ → Prop) (b : Mailbox μ σ) : Prop where
  flight : ∀ p ∈ b.flight, p.1 = b.sent → Q p.2
  last : b.last = b.sent → P b.receiver

variable {Q : μ → Prop} {P I : σ → Prop}

theorem Newest.send (h : b.Numbered) {m : μ} (hm : Q m) : (b.send m).Newest Q P where
  flight p hp hnum := by
    rcases List.mem_append.1 hp with hp | hp
    · have hle := h.flight p hp
      have hnum : p.1 = b.sent + 1 := hnum
      omega
    · rw [List.mem_singleton.1 hp]
      exact hm
  last hlast := by
    have hle := h.last
    have hlast : b.last = b.sent + 1 := hlast
    omega

theorem Newest.deliver (h : b.Newest Q P) (hI : I b.receiver)
    (happly : ∀ v m, I v → Q m → P (apply v m)) (i : Nat) :
    (b.deliver apply i).Newest Q P := by
  unfold Mailbox.deliver
  split
  · exact h
  · rename_i k m hget
    refine ⟨fun p hp => h.flight p (List.mem_of_mem_eraseIdx hp), fun hnum => ?_⟩
    exact happly _ _ hI (h.flight (k, m) (List.mem_of_getElem? hget) hnum)

/-- The messages in flight are those behind the one delivered last, in order. -/
def Ordered (b : Mailbox μ σ) : Prop :=
  b.flight.map Prod.fst = List.range' (b.last + 1) (b.sent - b.last)

theorem Ordered.send (hn : b.Numbered) (h : b.Ordered) (m : μ) : (b.send m).Ordered := by
  have hle := hn.last
  change (b.flight ++ [(b.sent + 1, m)]).map Prod.fst =
    List.range' (b.last + 1) (b.sent + 1 - b.last)
  rw [List.map_append, h, Nat.sub_add_comm hle, List.range'_concat]
  simp
  omega

theorem Ordered.deliver_zero (h : b.Ordered) : (b.deliver apply 0).Ordered := by
  unfold Mailbox.deliver
  cases hflight : b.flight with
  | nil => exact h
  | cons p ps =>
    obtain ⟨k, m⟩ := p
    unfold Ordered at h
    rw [hflight, List.map_cons] at h
    cases hsize : b.sent - b.last with
    | zero =>
      rw [hsize] at h
      cases h
    | succ n =>
      rw [hsize, List.range'_succ] at h
      obtain ⟨hk, hrest⟩ := List.cons.inj h
      have hk : k = b.last + 1 := hk
      change ps.map Prod.fst = List.range' (k + 1) (b.sent - k)
      rw [hrest, hk, show b.sent - (b.last + 1) = n by omega]

/-- In order, the message delivered last is the one sent last as soon as none is in flight. -/
theorem Ordered.last_eq (hn : b.Numbered) (h : b.Ordered) (hquiet : b.flight = []) :
    b.last = b.sent := by
  have hle := hn.last
  have hlen := congrArg List.length h
  rw [hquiet, List.length_range'] at hlen
  have hlen : 0 = b.sent - b.last := hlen
  omega

end Mailbox

end FzDaq.Machine
