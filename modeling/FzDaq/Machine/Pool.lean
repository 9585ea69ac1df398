import Mathlib

/-!
# Pools of workers

Items that have arrived are handed out to lanes. A lane works on one item after the other
in the order in which it got them, and its results wait to be collected. `R a o` says that
the work on the item `a` may have the outcome `o`, which is a result or none.

Who takes the next step is left open, so that an invariant of `Step` holds in every order
of steps.
-/

namespace FzDaq.Machine

universe u v

structure Lane (α : Type u) (β : Type v) where
  inbox : List α := []
  outbox : List β := []

structure Pool (α : Type u) (β : Type v) where
  source : List α := []
  lanes : List (Lane α β) := []
  sink : List β := []

variable {α : Type u} {β : Type v}

theorem exists_set_eq {γ : Type u} {ls : List γ} {i : Nat} {l : γ} (hl : ls[i]? = some l) :
    ∃ front back, ls = front ++ l :: back ∧ ∀ l', ls.set i l' = front ++ l' :: back := by
  obtain ⟨hi, rfl⟩ := List.getElem?_eq_some_iff.1 hl
  refine ⟨ls.take i, ls.drop (i + 1), ?_, fun l' => ?_⟩
  · rw [← List.drop_eq_getElem_cons hi, List.take_append_drop]
  · rw [List.set_eq_take_append_cons_drop, if_pos hi]

namespace Pool

variable {R : α → Option β → Prop} {p q : Pool α β} {fed as : List α}
  {worked : List (α × Option β)} {i : Nat} {l l' : Lane α β}

def inboxes (p : Pool α β) : List α := p.lanes.flatMap Lane.inbox

def outboxes (p : Pool α β) : List β := p.lanes.flatMap Lane.outbox

def feed (p : Pool α β) (as : List α) : Pool α β := { p with source := p.source ++ as }

def setLane (p : Pool α β) (i : Nat) (l : Lane α β) : Pool α β :=
  { p with lanes := p.lanes.set i l }

/-- One step of one of the parties. -/
inductive Step (R : α → Option β → Prop) : Pool α β → Pool α β → Prop
  | hand {p : Pool α β} {i : Nat} {l : Lane α β} {a : α} {rest : List α}
      (hl : p.lanes[i]? = some l) (hsource : p.source = a :: rest) :
      Step R p { p.setLane i { l with inbox := l.inbox ++ [a] } with source := rest }
  | work {p : Pool α β} {i : Nat} {l : Lane α β} {a : α} {rest : List α} {o : Option β}
      (hl : p.lanes[i]? = some l) (hbox : l.inbox = a :: rest) (ho : R a o) :
      Step R p (p.setLane i { inbox := rest, outbox := l.outbox ++ o.toList })
  | collect {p : Pool α β} {i : Nat} {l : Lane α β} {b : β} {rest : List β}
      (hl : p.lanes[i]? = some l) (hbox : l.outbox = b :: rest) :
      Step R p { p.setLane i { l with outbox := rest } with sink := p.sink ++ [b] }

/-! ## Nothing is lost or doubled -/

/-- The items of `worked` have been worked on, in this order and with these outcomes. All
others of `fed` are still on their way, and so are the results that are not in the sink. -/
structure Accounts (R : α → Option β → Prop) (fed : List α) (worked : List (α × Option β))
    (p : Pool α β) : Prop where
  sound : ∀ w ∈ worked, R w.1 w.2
  items : (worked.map Prod.fst ++ (p.inboxes ++ p.source)).Perm fed
  results : (p.sink ++ p.outboxes).Perm (worked.filterMap Prod.snd)

/-- A pool of `n` lanes that has got nothing yet. -/
def idle (n : Nat) : Pool α β := { lanes := List.replicate n {} }

theorem accounts_idle (n : Nat) : Accounts R [] [] (idle (α := α) (β := β) n) where
  sound := by simp
  items := by simp [inboxes, idle]
  results := by simp [outboxes, idle]

theorem Accounts.feed (h : p.Accounts R fed worked) (as : List α) :
    (p.feed as).Accounts R (fed ++ as) worked where
  sound := h.sound
  items := by
    have hitems := h.items.append_right as
    simpa only [Pool.feed, inboxes, List.append_assoc] using hitems
  results := h.results

theorem exists_boxes (hl : p.lanes[i]? = some l) :
    ∃ inFront inBack outFront outBack,
      p.inboxes = inFront ++ (l.inbox ++ inBack) ∧
      p.outboxes = outFront ++ (l.outbox ++ outBack) ∧
      ∀ l', (p.setLane i l').inboxes = inFront ++ (l'.inbox ++ inBack) ∧
        (p.setLane i l').outboxes = outFront ++ (l'.outbox ++ outBack) := by
  obtain ⟨front, back, hlanes, hset⟩ := exists_set_eq hl
  refine ⟨front.flatMap Lane.inbox, back.flatMap Lane.inbox, front.flatMap Lane.outbox,
    back.flatMap Lane.outbox, ?_, ?_, fun l' => ⟨?_, ?_⟩⟩
  · simp [inboxes, hlanes]
  · simp [outboxes, hlanes]
  · simp [inboxes, setLane, hset]
  · simp [outboxes, setLane, hset]

theorem Accounts.hand {a : α} {rest : List α} (h : p.Accounts R fed worked)
    (hl : p.lanes[i]? = some l) (hsource : p.source = a :: rest) :
    Accounts R fed worked
      { p.setLane i { l with inbox := l.inbox ++ [a] } with source := rest } := by
  obtain ⟨inFront, inBack, outFront, outBack, hin, hout, hset⟩ := exists_boxes hl
  obtain ⟨hin', hout'⟩ := hset { l with inbox := l.inbox ++ [a] }
  refine ⟨h.sound, ?_, ?_⟩
  · refine .trans (.append_left _ ?_) h.items
    change ((p.setLane i _).inboxes ++ rest).Perm (p.inboxes ++ p.source)
    rw [hin', hin, hsource]
    simp only [List.append_assoc, List.singleton_append]
    exact .append_left _ (.append_left _ List.perm_middle.symm)
  · change (p.sink ++ (p.setLane i _).outboxes).Perm _
    rw [hout', ← hout]
    exact h.results

theorem filterMap_concat (worked : List (α × Option β)) (a : α) (o : Option β) :
    (worked ++ [(a, o)]).filterMap Prod.snd = worked.filterMap Prod.snd ++ o.toList := by
  cases o <;> simp

theorem Accounts.work {a : α} {rest : List α} {o : Option β} (h : p.Accounts R fed worked)
    (hl : p.lanes[i]? = some l) (hbox : l.inbox = a :: rest) (ho : R a o) :
    Accounts R fed (worked ++ [(a, o)])
      (p.setLane i { inbox := rest, outbox := l.outbox ++ o.toList }) := by
  obtain ⟨inFront, inBack, outFront, outBack, hin, hout, hset⟩ := exists_boxes hl
  obtain ⟨hin', hout'⟩ := hset { inbox := rest, outbox := l.outbox ++ o.toList }
  refine ⟨fun w hw => ?_, ?_, ?_⟩
  · rcases List.mem_append.1 hw with hw | hw
    · exact h.sound w hw
    · rw [List.mem_singleton.1 hw]
      exact ho
  · refine .trans ?_ h.items
    change (_ ++ ((p.setLane i _).inboxes ++ p.source)).Perm _
    rw [hin', hin, hbox]
    simp only [List.map_append, List.map_cons, List.map_nil, List.append_assoc, List.cons_append,
      List.nil_append]
    exact .append_left _ List.perm_middle.symm
  · rw [filterMap_concat]
    refine .trans ?_ (h.results.append_right _)
    change (p.sink ++ (p.setLane i _).outboxes).Perm _
    rw [hout', hout]
    simp only [List.append_assoc]
    exact .append_left _ (.append_left _ (.append_left _ List.perm_append_comm))

theorem Accounts.collect {b : β} {rest : List β} (h : p.Accounts R fed worked)
    (hl : p.lanes[i]? = some l) (hbox : l.outbox = b :: rest) :
    Accounts R fed worked
      { p.setLane i { l with outbox := rest } with sink := p.sink ++ [b] } := by
  obtain ⟨inFront, inBack, outFront, outBack, hin, hout, hset⟩ := exists_boxes hl
  obtain ⟨hin', hout'⟩ := hset { l with outbox := rest }
  refine ⟨h.sound, ?_, ?_⟩
  · change (_ ++ ((p.setLane i _).inboxes ++ p.source)).Perm fed
    rw [hin', ← hin]
    exact h.items
  · refine .trans ?_ h.results
    change ((p.sink ++ [b]) ++ (p.setLane i _).outboxes).Perm _
    rw [hout', hout, hbox]
    simp only [List.append_assoc, List.cons_append, List.nil_append]
    exact .append_left _ List.perm_middle.symm

theorem Accounts.step (h : p.Accounts R fed worked) (hstep : Step R p q) :
    ∃ worked', q.Accounts R fed worked' := by
  cases hstep with
  | hand hl hsource => exact ⟨_, h.hand hl hsource⟩
  | work hl hbox ho => exact ⟨_, h.work hl hbox ho⟩
  | collect hl hbox => exact ⟨_, h.collect hl hbox⟩

/-! ## One lane -/

/-- With a single lane items and results keep their order. -/
structure Ordered (R : α → Option β → Prop) (fed : List α) (worked : List (α × Option β))
    (p : Pool α β) (l : Lane α β) : Prop where
  lanes : p.lanes = [l]
  sound : ∀ w ∈ worked, R w.1 w.2
  items : worked.map Prod.fst ++ (l.inbox ++ p.source) = fed
  results : p.sink ++ l.outbox = worked.filterMap Prod.snd

theorem ordered_idle : Ordered R [] [] (idle (α := α) (β := β) 1) {} :=
  ⟨rfl, by simp, rfl, rfl⟩

theorem Ordered.feed (h : p.Ordered R fed worked l) (as : List α) :
    (p.feed as).Ordered R (fed ++ as) worked l where
  lanes := h.lanes
  sound := h.sound
  items := by
    rw [← h.items]
    simp [Pool.feed]
  results := h.results

theorem Ordered.eq (h : p.Ordered R fed worked l) (hl : p.lanes[i]? = some l') :
    i = 0 ∧ l' = l := by
  rw [h.lanes] at hl
  cases i with
  | zero => exact ⟨rfl, (Option.some.inj hl).symm⟩
  | succ i => simp at hl

theorem Ordered.step (h : p.Ordered R fed worked l) (hstep : Step R p q) :
    ∃ worked' l', q.Ordered R fed worked' l' := by
  have hset (l' : Lane α β) : (p.setLane 0 l').lanes = [l'] := by
    rw [setLane, h.lanes]
    rfl
  cases hstep with
  | hand hl hsource =>
    obtain ⟨rfl, rfl⟩ := h.eq hl
    refine ⟨worked, _, hset _, h.sound, ?_, h.results⟩
    rw [← h.items, hsource]
    simp
  | @work i l' a rest o hl hbox ho =>
    obtain ⟨rfl, rfl⟩ := h.eq hl
    refine ⟨worked ++ [(a, o)], _, hset _, fun w hw => ?_, ?_, ?_⟩
    · rcases List.mem_append.1 hw with hw | hw
      · exact h.sound w hw
      · rw [List.mem_singleton.1 hw]
        exact ho
    · rw [← h.items, hbox]
      simp [setLane]
    · rw [filterMap_concat, ← h.results, List.append_assoc]
      rfl
  | collect hl hbox =>
    obtain ⟨rfl, rfl⟩ := h.eq hl
    refine ⟨worked, _, hset _, h.sound, h.items, ?_⟩
    rw [← h.results, hbox]
    simp

/-! ## Runs -/

/-- What has been fed to the pool since it was `start`, and where that has led to. -/
inductive Run (R : α → Option β → Prop) (start : Pool α β) : List α → Pool α β → Prop
  | start : Run R start [] start
  | feed {fed : List α} {p : Pool α β} (h : Run R start fed p) (as : List α) :
      Run R start (fed ++ as) (p.feed as)
  | step {fed : List α} {p q : Pool α β} (h : Run R start fed p) (hstep : Step R p q) :
      Run R start fed q

theorem Run.accounts {n : Nat} (h : Run R (idle n) fed p) : ∃ worked, p.Accounts R fed worked := by
  induction h with
  | start => exact ⟨[], accounts_idle n⟩
  | feed _ as ih =>
    obtain ⟨worked, hp⟩ := ih
    exact ⟨worked, hp.feed as⟩
  | step _ hstep ih =>
    obtain ⟨_, hp⟩ := ih
    exact hp.step hstep

theorem Run.ordered (h : Run R (idle 1) fed p) : ∃ worked l, p.Ordered R fed worked l := by
  induction h with
  | start => exact ⟨[], {}, ordered_idle⟩
  | feed _ as ih =>
    obtain ⟨worked, l, hp⟩ := ih
    exact ⟨worked, l, hp.feed as⟩
  | step _ hstep ih =>
    obtain ⟨_, _, hp⟩ := ih
    exact hp.step hstep

/-- Each item has been worked on once or is on its way, and each result comes of the work on
one item and is in the sink or on its way. A single lane keeps the order. -/
theorem Run.conserves {n : Nat} (h : Run R (idle n) fed p) :
    ∃ worked : List (α × Option β), (∀ w ∈ worked, R w.1 w.2) ∧
      (worked.map Prod.fst ++ (p.inboxes ++ p.source)).Perm fed ∧
      (p.sink ++ p.outboxes).Perm (worked.filterMap Prod.snd) ∧
      (n = 1 → worked.map Prod.fst ++ (p.inboxes ++ p.source) = fed ∧
        p.sink ++ p.outboxes = worked.filterMap Prod.snd) := by
  by_cases hone : n = 1
  · rw [hone] at h
    obtain ⟨worked, l, h⟩ := h.ordered
    have hin : p.inboxes = l.inbox := by simp [inboxes, h.lanes]
    have hout : p.outboxes = l.outbox := by simp [outboxes, h.lanes]
    have hitems := h.items
    have hresults := h.results
    rw [← hin] at hitems
    rw [← hout] at hresults
    exact ⟨worked, h.sound, .of_eq hitems, .of_eq hresults, fun _ => ⟨hitems, hresults⟩⟩
  · obtain ⟨worked, h⟩ := h.accounts
    exact ⟨worked, h.sound, h.items, h.results, fun h => absurd h hone⟩

/-! ## Starting anew -/

/-- The sink is only added to, and nobody reads it. -/
theorem Step.behind {old new : List β} (hstep : Step R p q) (hsink : p.sink = old ++ new) :
    ∃ new', q.sink = old ++ new' ∧ Step R { p with sink := new } { q with sink := new' } := by
  cases hstep with
  | hand hl hsource => exact ⟨new, hsink, .hand (p := { p with sink := new }) hl hsource⟩
  | work hl hbox ho => exact ⟨new, hsink, .work (p := { p with sink := new }) hl hbox ho⟩
  | @collect i l b rest hl hbox =>
    refine ⟨new ++ [b], ?_, .collect (p := { p with sink := new }) hl hbox⟩
    change p.sink ++ [b] = _
    rw [hsink, List.append_assoc]

theorem Run.behind (h : Run R p fed q) :
    ∃ new, q.sink = p.sink ++ new ∧ Run R { p with sink := [] } fed { q with sink := new } := by
  induction h with
  | start => exact ⟨[], (List.append_nil _).symm, .start⟩
  | feed _ as ih =>
    obtain ⟨new, hsink, hrun⟩ := ih
    exact ⟨new, hsink, hrun.feed as⟩
  | step _ hstep ih =>
    obtain ⟨new, hsink, hrun⟩ := ih
    obtain ⟨new', hsink', hstep'⟩ := hstep.behind hsink
    exact ⟨new', hsink', hrun.step hstep'⟩

/-- Nothing is on its way. -/
structure Empty (p : Pool α β) : Prop where
  source : p.source = []
  inboxes : p.inboxes = []
  outboxes : p.outboxes = []

theorem Empty.eq_idle (h : p.Empty) (hsink : p.sink = []) : p = idle p.lanes.length := by
  obtain ⟨source, lanes, sink⟩ := p
  obtain ⟨rfl, hin, hout⟩ := h
  obtain rfl : sink = [] := hsink
  have hlanes : lanes = List.replicate lanes.length {} := by
    refine List.eq_replicate_iff.2 ⟨rfl, fun l hl => ?_⟩
    obtain ⟨inbox, outbox⟩ := l
    obtain rfl : inbox = [] := List.flatMap_eq_nil_iff.1 hin _ hl
    obtain rfl : outbox = [] := List.flatMap_eq_nil_iff.1 hout _ hl
    rfl
  exact congrArg (Pool.mk [] · []) hlanes

/-- An empty pool goes on like one that has just been set up. -/
theorem Run.anew (h : Run R p fed q) (hempty : p.Empty) :
    ∃ new, q.sink = p.sink ++ new ∧ Run R (idle p.lanes.length) fed { q with sink := new } := by
  obtain ⟨new, hsink, hrun⟩ := h.behind
  have hidle : ({ p with sink := [] } : Pool α β) = idle p.lanes.length :=
    Empty.eq_idle ⟨hempty.source, hempty.inboxes, hempty.outboxes⟩ rfl
  rw [hidle] at hrun
  exact ⟨new, hsink, hrun⟩

/-! ## Draining -/

end Pool

/-! ## Steps that lower a measure -/

section Measure

variable {σ : Type u} {r : σ → σ → Prop} {μ : σ → Nat} {P : σ → Prop} {a : σ}

end Measure

end FzDaq.Machine
