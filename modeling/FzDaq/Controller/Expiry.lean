import FzDaq.Controller.Bijection
import FzDaq.Machine.Sweep

/-!
# Expiry

What `map_clean` leaves, and for how many nodes the loops over the deque are left. The
entry behind an erased one is not looked at, and no index of eight bits comes to the end
of a deque of 256 entries.
-/

namespace FzDaq.Controller

open FzDaq.Machine

variable {r : Registry} {k : String} {v : Report.Node} {now T : Int} {entry : DequeEntry}
  {s t : Clean} {clock : Nat → Int}

/-! ## One pass -/

theorem clean_next_of_split (clock : Nat → Int) {l₁ l₂ : List DequeEntry}
    (h : Linked s.registry) (hdeque : s.registry.deque = l₁ ++ entry :: l₂)
    (hi : s.i.toNat = l₁.length) :
    ∃ t, (cleanLoop clock).Next s t ∧ t.i = s.i + 1 ∧ t.registry.deque =
      l₁ ++ (if expired (clock s.readings) entry then l₂ else entry :: l₂) := by
  have hhalt : (cleanLoop clock).halted s = false := by
    simp [cleanLoop, hdeque, hi]
  obtain ⟨t, hnext⟩ := clean_turns h hhalt
  obtain ⟨found, hfound, hindex, -, hturn⟩ := clean_next hnext
  obtain rfl : found = entry := by simpa [hdeque, hi] using hfound.symm
  refine ⟨t, hnext, hindex, ?_⟩
  rcases hturn with ⟨hlive, hkept⟩ | ⟨hexpired, herased⟩
  · rw [hkept, hdeque, if_neg (by simp [hlive])]
  · rw [herased, if_pos hexpired, Registry.eraseAt, hdeque, hi, List.eraseIdx_append_of_length_le
      (Nat.le_refl _), Nat.sub_self]
    rfl

theorem index_succ {i : UInt8} {n : Nat} (hi : i.toNat = n) (hlt : n + 1 < 256) :
    (i + 1).toNat = n + 1 := by
  rw [UInt8.toNat_add, hi]
  exact Nat.mod_eq_of_lt hlt

theorem clean_ends_sweep (l₁ l₂ : List DequeEntry) (h : Linked s.registry)
    (hdeque : s.registry.deque = l₁ ++ l₂) (hi : s.i.toNat = l₁.length)
    (hlen : l₁.length + l₂.length < 256) :
    ∃ t, (cleanLoop fun _ => T).Ends s t ∧ t.registry.deque = l₁ ++ sweep (expired T) l₂ := by
  induction l₂ using sweep.induct (expired T) generalizing s l₁ with
  | case1 =>
    refine ⟨s, ⟨Loop.Reaches.refl s, ?_⟩, hdeque⟩
    simp [cleanLoop, hdeque, hi]
  | case2 a ha =>
    obtain ⟨t, hnext, hindex, hleft⟩ := clean_next_of_split (fun _ => T) h hdeque hi
    rw [if_pos ha] at hleft
    refine ⟨t, ⟨hnext.reaches, ?_⟩, by rw [hleft, sweep, if_pos ha]⟩
    simp [cleanLoop, hleft, hindex, index_succ hi hlen]
  | case3 a ha =>
    obtain ⟨t, hnext, hindex, hleft⟩ := clean_next_of_split (fun _ => T) h hdeque hi
    rw [if_neg ha] at hleft
    refine ⟨t, ⟨hnext.reaches, ?_⟩, by rw [hleft, sweep, if_neg ha]⟩
    simp [cleanLoop, hleft, hindex, index_succ hi hlen]
  | case4 a b l ha ih =>
    -- `b` has taken the place of `a`, and the index is behind it.
    obtain ⟨t, hnext, hindex, hleft⟩ := clean_next_of_split (fun _ => T) h hdeque hi
    rw [if_pos ha] at hleft
    rw [List.length_cons, List.length_cons] at hlen
    have hlast : (l₁ ++ [b]).length = l₁.length + 1 := by simp
    obtain ⟨u, ⟨hreach, hhalt⟩, hu⟩ := ih (l₁ ++ [b]) (h.clean_next hnext)
      (by simpa using hleft) (by rw [hindex, index_succ hi (by omega), hlast])
      (by rw [hlast]; omega)
    exact ⟨u, ⟨hnext.reaches.trans hreach, hhalt⟩, by simpa [sweep, ha] using hu⟩
  | case5 a b l ha ih =>
    obtain ⟨t, hnext, hindex, hleft⟩ := clean_next_of_split (fun _ => T) h hdeque hi
    rw [if_neg ha] at hleft
    rw [List.length_cons] at hlen
    have hlast : (l₁ ++ [a]).length = l₁.length + 1 := by simp
    obtain ⟨u, ⟨hreach, hhalt⟩, hu⟩ := ih (l₁ ++ [a]) (h.clean_next hnext)
      (by simpa using hleft) (by rw [hindex, index_succ hi (by omega), hlast])
      (by rw [hlast]; omega)
    exact ⟨u, ⟨hnext.reaches.trans hreach, hhalt⟩, by simpa [sweep, ha] using hu⟩

theorem clean_map (h : Linked s.registry) (hreach : (cleanLoop clock).Reaches s t) :
    t.registry.map = s.registry.map.filter fun elem =>
      decide (elem.addr ∈ t.registry.deque.map DequeEntry.first) := by
  have hlinked : Linked t.registry :=
    hreach.invariant (fun t => Linked t.registry) h fun _ _ _ hcd hc => hc.clean_next hcd
  obtain ⟨p, hp⟩ : ∃ p : MapElem → Bool, t.registry.map = s.registry.map.filter p := by
    refine hreach.invariant (fun t => ∃ p : MapElem → Bool,
      t.registry.map = s.registry.map.filter p) ⟨fun _ => true, by simp⟩ ?_
    rintro c d - hcd ⟨p, hp⟩
    obtain ⟨entry, -, -, -, ⟨-, hkept⟩ | ⟨-, herased⟩⟩ := clean_next hcd
    · exact ⟨p, hkept ▸ hp⟩
    · exact ⟨_, by rw [herased, Registry.eraseAt, hp, List.filter_filter]⟩
  rw [hp]
  refine List.filter_congr fun elem helem => ?_
  rw [Bool.eq_iff_iff, decide_eq_true_iff, hlinked.perm.mem_iff, hp]
  constructor
  · intro hpelem
    exact List.mem_map_of_mem (List.mem_filter.2 ⟨helem, hpelem⟩)
  · intro hmem
    obtain ⟨other, hother, haddr⟩ := List.mem_map.1 hmem
    obtain ⟨hother, hpother⟩ := List.mem_filter.1 hother
    rwa [← List.inj_on_of_nodup_map h.addrs hother helem haddr]

/-- What is left are the nodes whose last report is at most `EXPIRY` older than `T`, as
they were. -/
structure Cleaned (r : Registry) (T : Int) (r' : Registry) : Prop where
  deque : r'.deque = r.deque.filter fun entry => !expired T entry
  map : r'.map = r.map.filter fun elem =>
    r.deque.any fun entry => entry.first == elem.addr && !expired T entry

/-- A call of `map_clean` at one time comes to its end, and has removed all expired nodes
exactly if no two neighbours in the deque are expired. -/
theorem mapClean_cleaned_iff (h : Linked r) (hlen : r.deque.length < 256) (T : Int) :
    ∃ fuel r', r.mapClean fuel (fun _ => T) = .ended r' ∧
      (Cleaned r T r' ↔ Scattered (expired T) r.deque) := by
  obtain ⟨t, hends, hleft⟩ := clean_ends_sweep (T := T) (s := { registry := r }) [] r.deque h
    rfl rfl (by simpa using hlen)
  obtain ⟨fuel, hrun⟩ := Loop.run_of_ends hends
  refine ⟨fuel, t.registry, Outcome.map_eq_ended.2 ⟨t, hrun, rfl⟩, ?_⟩
  rw [List.nil_append] at hleft
  rw [← sweep_eq_filter_iff]
  constructor
  · intro hcleaned
    rw [← hcleaned.deque, hleft]
  · intro hsweep
    refine ⟨hleft.trans hsweep, ?_⟩
    rw [clean_map h hends.1, hleft, hsweep]
    refine List.filter_congr fun elem _ => ?_
    rw [Bool.eq_iff_iff, decide_eq_true_iff, List.mem_map, List.any_eq_true]
    constructor
    · rintro ⟨entry, hentry, hlink⟩
      obtain ⟨hentry, hlive⟩ := List.mem_filter.1 hentry
      exact ⟨entry, hentry, by rw [hlive, Bool.and_true, beq_iff_eq, hlink]⟩
    · rintro ⟨entry, hentry, hlive⟩
      obtain ⟨hlink, hlive⟩ := Bool.and_eq_true_iff.1 hlive
      exact ⟨entry, List.mem_filter.2 ⟨hentry, hlive⟩, beq_iff_eq.1 hlink⟩

/-- Two nodes with the times of their last reports. -/
def twoNodes (first second : Int) : Registry where
  map := [⟨0, "a", idleNode "a"⟩, ⟨1, "b", idleNode "b"⟩]
  deque := [⟨0, first⟩, ⟨1, second⟩]
  nextAddr := 2

theorem linked_twoNodes (first second : Int) : Linked (twoNodes first second) :=
  ⟨show ["a", "b"].Nodup by decide, show [0, 1].Nodup by decide, by simp [twoNodes],
    List.Perm.refl _⟩

/-- `mapClean_cleaned_iff` with one node that has expired. -/
theorem mapClean_cleaned_one : ∃ fuel r', (twoNodes 5 0).mapClean fuel (fun _ => 11) = .ended r' ∧
    Cleaned (twoNodes 5 0) 11 r' := by
  obtain ⟨fuel, r', hends, hiff⟩ := mapClean_cleaned_iff (linked_twoNodes 5 0) (by decide) 11
  have hscattered : Scattered (expired 11) (twoNodes 5 0).deque := by
    unfold Scattered
    decide
  exact ⟨fuel, r', hends, hiff.2 hscattered⟩

/-- Two nodes that have expired next to each other: the second is left. -/
theorem not_cleaned_neighbours : Linked (twoNodes 0 0) ∧ ∃ fuel r',
    (twoNodes 0 0).mapClean fuel (fun _ => 11) = .ended r' ∧ ¬Cleaned (twoNodes 0 0) 11 r' := by
  refine ⟨linked_twoNodes 0 0, 1, _, rfl, fun hcleaned => ?_⟩
  exact absurd hcleaned.deque (by decide)

/-! ## For how many nodes the loops are left -/

/-- The entry's node is not expired at the time. -/
def live (now : Int) (entry : DequeEntry) : Bool := !expired now entry

theorem expired_mono {now' : Int} (hle : now ≤ now') (h : expired now entry = true) :
    expired now' entry = true := by
  simp only [expired, decide_eq_true_eq] at h ⊢
  omega

theorem countP_eraseIdx {l : List DequeEntry} {i : Nat} {p : DequeEntry → Bool}
    (hentry : l[i]? = some entry) (hp : p entry = false) :
    (l.eraseIdx i).countP p = l.countP p := by
  obtain ⟨hi, rfl⟩ := List.getElem?_eq_some_iff.1 hentry
  rw [← (List.getElem_cons_eraseIdx_perm hi).countP_eq p, List.countP_cons_of_neg (by simp [hp])]

/-- Nodes that are not expired yet are not removed. -/
theorem clean_countP (hclock : Monotone clock) {n : Nat}
    (hreach : (cleanLoop clock).Reaches { registry := r } s) (hn : s.readings ≤ n) :
    s.registry.deque.countP (live (clock n)) = r.deque.countP (live (clock n)) := by
  refine hreach.invariant (fun s => s.readings ≤ n → s.registry.deque.countP (live (clock n)) =
    r.deque.countP (live (clock n))) (fun _ => rfl) (fun c d _ hcd ih hd => ?_) hn
  obtain ⟨entry, hentry, -, hreadings, hturn⟩ := clean_next hcd
  have hc : c.readings ≤ n := by omega
  rcases hturn with ⟨-, hkept⟩ | ⟨hexpired, herased⟩
  · rw [hkept, ih hc]
  · have hdead : live (clock n) entry = false := by
      rw [live, expired_mono (hclock hc) hexpired]
      rfl
    rw [herased, Registry.eraseAt, countP_eraseIdx hentry hdead, ih hc]

theorem clean_sublist (hreach : (cleanLoop clock).Reaches s t) :
    t.registry.deque.Sublist s.registry.deque := by
  refine hreach.invariant (fun t => t.registry.deque.Sublist s.registry.deque)
    (List.Sublist.refl _) fun c d _ hcd ih => ?_
  obtain ⟨entry, -, -, -, ⟨-, hkept⟩ | ⟨-, herased⟩⟩ := clean_next hcd
  · exact hkept ▸ ih
  · rw [herased]
    exact (List.eraseIdx_sublist ..).trans ih

theorem clean_ends_of_measure (h : Linked r) (μ : Clean → Nat)
    (hμ : ∀ c d, (cleanLoop clock).Reaches { registry := r } c → (cleanLoop clock).Next c d →
      μ d < μ c) : ∃ t, (cleanLoop clock).Ends { registry := r } t := by
  refine (Loop.ends_or_faults_of_measure μ hμ).resolve_right ?_
  refine Loop.not_faults_of_turns (P := fun c => Linked c.registry) (fun c hc hhalt => ?_) h
  obtain ⟨d, hcd⟩ := clean_turns hc hhalt
  exact ⟨d, hcd, hc.clean_next hcd⟩

/-- With fewer than 256 entries the index comes to the end before it wraps. -/
theorem clean_ends_of_small (h : Linked r) (hlen : r.deque.length < 256) :
    ∃ t, (cleanLoop clock).Ends { registry := r } t := by
  refine clean_ends_of_measure h (fun c => 256 - c.i.toNat) fun c d hc hcd => ?_
  obtain ⟨entry, hentry, hindex, -⟩ := clean_next hcd
  have hi : c.i.toNat < c.registry.deque.length := (List.getElem?_eq_some_iff.1 hentry).1
  have hsize : c.registry.deque.length ≤ r.deque.length := (clean_sublist hc).length_le
  have hsucc := index_succ (i := c.i) rfl (by omega)
  rw [hindex, hsucc]
  omega

theorem distance_succ {i j : UInt8} (hne : i ≠ j) : (j - (i + 1)).toNat < (j - i).toNat := by
  have hne' : i.toNat ≠ j.toNat := fun h => hne (UInt8.toNat_inj.1 h)
  have hi := i.toNat_lt
  have hj := j.toNat_lt
  rw [UInt8.toNat_sub, UInt8.toNat_sub, UInt8.toNat_add]
  simp only [UInt8.reduceToNat]
  omega

/-- With fewer than 256 live ones there is one to be erased among the first 256 entries. -/
theorem findIdx_expired_lt {l : List DequeEntry} (hlen : 256 ≤ l.length)
    (hcount : l.countP (live now) < 256) : l.findIdx (expired now) < 256 := by
  by_contra hge
  have hall : ∀ entry ∈ l.take 256, live now entry = true := by
    intro entry hentry
    obtain ⟨i, hi, rfl⟩ := List.mem_take_iff_getElem.1 hentry
    have hlive : expired now l[i] = false := List.not_of_lt_findIdx (by omega)
    simpa [live] using hlive
  have htake : (l.take 256).countP (live now) = 256 := by
    rw [List.countP_eq_length.2 hall, List.length_take]
    omega
  have hle := (List.take_sublist 256 l).countP_le (p := live now)
  omega

/-- How far the loop is from the next entry that it erases. -/
def toErase (now : Int) (c : Clean) : Nat :=
  if c.registry.deque.length < 256 then 256 - c.i.toNat
  else (UInt8.ofNat (c.registry.deque.findIdx (expired now)) - c.i).toNat

theorem toErase_le (now : Int) (c : Clean) : toErase now c ≤ 256 := by
  unfold toErase
  split
  · exact Nat.sub_le ..
  · exact Nat.le_of_lt (UInt8.toNat_lt _)

theorem toErase_lt (hcount : s.registry.deque.countP (live now) < 256)
    (hentry : s.registry.deque[s.i.toNat]? = some entry) (hlive : expired now entry = false)
    (hindex : t.i = s.i + 1) (hkept : t.registry = s.registry) : toErase now t < toErase now s := by
  obtain ⟨hi, hget⟩ := List.getElem?_eq_some_iff.1 hentry
  unfold toErase
  rw [hkept, hindex]
  split
  · rename_i hlen
    rw [index_succ (i := s.i) rfl (by omega)]
    omega
  · rename_i hlen
    have hidx := findIdx_expired_lt (Nat.le_of_not_lt hlen) hcount
    refine distance_succ fun heq => ?_
    have hsame : s.registry.deque.findIdx (expired now) = s.i.toNat := by
      rw [heq]
      exact (UInt8.toNat_ofNat_of_lt' hidx).symm
    have hfound := @List.findIdx_getElem _ (expired now) s.registry.deque (hsame ▸ hi)
    simp only [hsame, hget, hlive] at hfound
    cases hfound

/-- `map_clean` comes to its end exactly if at some reading of the clock fewer than 256
nodes are not expired. -/
theorem mapClean_ends_iff (h : Linked r) (hclock : Monotone clock) :
    (∃ fuel r', r.mapClean fuel clock = .ended r') ↔
      ∃ n, r.deque.countP (live (clock n)) < 256 := by
  constructor
  · rintro ⟨fuel, r', hcall⟩
    obtain ⟨t, hrun, -⟩ := Outcome.map_eq_ended.1 hcall
    obtain ⟨hreach, hhalt⟩ := Loop.ends_of_run hrun
    refine ⟨t.readings, ?_⟩
    rw [← clean_countP hclock hreach (Nat.le_refl _)]
    have hend : t.registry.deque.length ≤ t.i.toNat := by simpa [cleanLoop] using hhalt
    have hi := t.i.toNat_lt
    have hle := List.countP_le_length (p := live (clock t.readings)) (l := t.registry.deque)
    omega
  · rintro ⟨n, hn⟩
    -- Until the `n`-th reading the readings count; from then on the entries that are
    -- left, and the turns up to the next one to be erased.
    obtain ⟨t, hends⟩ : ∃ t, (cleanLoop clock).Ends { registry := r } t :=
      clean_ends_of_measure h
      (fun c => (n - c.readings) * (512 * (r.deque.length + 1)) +
        (512 * c.registry.deque.length + if c.readings < n then 0 else toErase (clock n) c))
      fun c d hc hcd => by
        obtain ⟨entry, hentry, hindex, hreadings, hturn⟩ := clean_next hcd
        have hsize : d.registry.deque.length ≤ r.deque.length :=
          (clean_sublist (Loop.Reaches.tail hc hcd)).length_le
        have hle := toErase_le (clock n) d
        rw [hreadings]
        by_cases hbefore : c.readings < n
        · obtain ⟨m, rfl⟩ : ∃ m, n = c.readings + 1 + m := ⟨n - (c.readings + 1), by omega⟩
          rw [if_pos hbefore, show c.readings + 1 + m - (c.readings + 1) = m by omega,
            show c.readings + 1 + m - c.readings = m + 1 by omega, Nat.add_one_mul m]
          generalize m * (512 * (r.deque.length + 1)) = left
          split <;> omega
        · rw [if_neg hbefore, if_neg (by omega), show n - (c.readings + 1) = 0 by omega,
            show n - c.readings = 0 by omega]
          rcases hturn with ⟨hlive, hkept⟩ | ⟨-, herased⟩
          · have hcount :=
              Nat.lt_of_le_of_lt ((clean_sublist hc).countP_le (p := live (clock n))) hn
            have hyoung : expired (clock n) entry = false := by
              by_contra hold
              have hexpired := expired_mono (hclock (Nat.le_of_not_lt hbefore))
                (Bool.eq_true_of_not_eq_false hold)
              rw [hlive] at hexpired
              cases hexpired
            have hlt := toErase_lt hcount hentry hyoung hindex hkept
            rw [hkept]
            omega
          · have hi := (List.getElem?_eq_some_iff.1 hentry).1
            have hless : d.registry.deque.length + 1 = c.registry.deque.length := by
              rw [herased, Registry.eraseAt, List.length_eraseIdx_of_lt hi]
              omega
            omega
    obtain ⟨fuel, hrun⟩ := Loop.run_of_ends hends
    exact ⟨fuel, t.registry, Outcome.map_eq_ended.2 ⟨t, hrun, rfl⟩⟩

/-- The loop of `map_insert` looks at every entry of the deque. -/
def VisitsAll (r : Registry) (k : String) (v : Report.Node) (now : Int) : Prop :=
  ∀ j < r.deque.length, ∃ c, (refreshLoop (r.assign k v).map k now).Visits { deque := r.deque } c ∧
    c.i.toNat = j

theorem visitsAll_of_small (h : Linked r) (hlen : r.deque.length < 256) (k : String)
    (v : Report.Node) (now : Int) : VisitsAll r k v now := by
  intro j hj
  have hj' : (r.deque.take j).length = j := List.length_take_of_le (Nat.le_of_lt hj)
  have hreach : (refreshLoop (r.assign k v).map k now).Reaches _ _ :=
    refresh_reaches [] (r.deque.take j) (r.deque.drop j)
    (fun entry hentry => h.exists_deref_assign k v (List.mem_of_mem_take hentry))
    (by rw [List.length_nil, hj']; omega)
  rw [List.nil_append, List.take_append_drop, List.length_nil, Nat.zero_add, hj'] at hreach
  have hi : (UInt8.ofNat j).toNat = j := UInt8.toNat_ofNat_of_lt' (show j < 256 by omega)
  refine ⟨_, ⟨hreach, ?_⟩, hi⟩
  simp only [refreshLoop, List.nil_append, List.length_append, List.length_map, hj',
    List.length_drop, hi, decide_eq_false_iff_not]
  omega

theorem mapInsert_ends_iff (h : Linked r) (hhas : r.has k = true) (v : Report.Node) (now : Int) :
    (∃ fuel q, r.mapInsert fuel k v now = .ended q) ↔ r.deque.length < 256 := by
  have hderef (entry) (hentry : entry ∈ r.deque) := h.exists_deref_assign k v hentry
  simp only [Registry.mapInsert, if_pos hhas]
  constructor
  · rintro ⟨fuel, q, hcall⟩
    obtain ⟨s, hrun, -⟩ := Outcome.map_eq_ended.1 hcall
    by_contra hlen
    exact refresh_not_ends hderef (Nat.le_of_not_lt hlen) s (Loop.ends_of_run hrun)
  · intro hlen
    have hends : (refreshLoop (r.assign k v).map k now).Ends { deque := r.deque } _ :=
      refresh_ends hderef hlen
    obtain ⟨fuel, hrun⟩ := Loop.run_of_ends hends
    exact ⟨fuel, _, Outcome.map_eq_ended.2 ⟨_, hrun, rfl⟩⟩

theorem mapClean_ends_of_small (h : Linked r) (hlen : r.deque.length < 256) (clock : Nat → Int) :
    ∃ fuel r', r.mapClean fuel clock = .ended r' := by
  obtain ⟨t, hends⟩ : ∃ t, (cleanLoop clock).Ends { registry := r } t :=
    clean_ends_of_small h hlen
  obtain ⟨fuel, hrun⟩ := Loop.run_of_ends hends
  exact ⟨fuel, t.registry, Outcome.map_eq_ended.2 ⟨t, hrun, rfl⟩⟩

/-- Both loops are left, and all entries are looked at, exactly if there are fewer than 256
of them; that of `map_clean` alone, exactly if at some reading of the clock fewer than
256 nodes are not expired. -/
theorem bookkeeping_ends_iff (h : Linked r) (hhas : r.has k = true) (v : Report.Node) (now : Int)
    (clock : Nat → Int) :
    ((∃ fuel q, r.mapInsert fuel k v now = .ended q) ∧ VisitsAll r k v now ∧
        (∃ fuel r', r.mapClean fuel clock = .ended r') ↔ r.deque.length < 256) ∧
      (Monotone clock → ((∃ fuel r', r.mapClean fuel clock = .ended r') ↔
        ∃ n, r.deque.countP (live (clock n)) < 256)) := by
  refine ⟨⟨fun hends => (mapInsert_ends_iff h hhas v now).1 hends.1, fun hlen => ?_⟩,
    fun hclock => mapClean_ends_iff h hclock⟩
  exact ⟨(mapInsert_ends_iff h hhas v now).2 hlen, visitsAll_of_small h hlen k v now,
    mapClean_ends_of_small h hlen clock⟩

/-- `bookkeeping_ends_iff` with two nodes. -/
theorem bookkeeping_ends_two :
    (∃ fuel q, (twoNodes 5 0).mapInsert fuel "a" (idleNode "a") 7 = .ended q) ∧
      VisitsAll (twoNodes 5 0) "a" (idleNode "a") 7 ∧
      (∃ fuel r', (twoNodes 5 0).mapClean fuel (fun n => n) = .ended r') ∧
      ∃ n : Nat, (twoNodes 5 0).deque.countP (live n) < 256 := by
  obtain ⟨hsmall, hclock⟩ := bookkeeping_ends_iff (linked_twoNodes 5 0)
    (show (twoNodes 5 0).has "a" = true by decide) (idleNode "a") 7 fun n => n
  obtain ⟨hinsert, hvisits, hclean⟩ := hsmall.2 (by decide)
  exact ⟨hinsert, hvisits, hclean, (hclock Nat.mono_cast).1 hclean⟩

/-- As many nodes, which have just reported. -/
def crowd (n : Nat) : Registry where
  map := (List.range n).map fun i =>
    { addr := i
      first := String.ofList (List.replicate i 'n')
      second := idleNode (String.ofList (List.replicate i 'n')) }
  deque := (List.range n).map fun i => { first := i, second := 0 }
  nextAddr := n

theorem linked_crowd (n : Nat) : Linked (crowd n) := by
  have haddrs : (crowd n).map.map MapElem.addr = List.range n := by
    simp [crowd, Function.comp_def]
  have hfirsts : (crowd n).deque.map DequeEntry.first = List.range n := by
    simp [crowd, Function.comp_def]
  refine ⟨?_, haddrs ▸ List.nodup_range, fun elem helem => ?_, hfirsts ▸ haddrs ▸ List.Perm.refl _⟩
  · rw [crowd, List.map_map]
    refine List.nodup_range.map fun i j hij => ?_
    have hchars := congrArg (fun s : String => s.toList.length) hij
    simpa using hchars
  · obtain ⟨i, hi, rfl⟩ := List.mem_map.1 helem
    exact List.mem_range.1 hi

theorem crowd_length (n : Nat) : (crowd n).deque.length = n := by simp [crowd]

theorem crowd_countP (n : Nat) : (crowd n).deque.countP (live 1) = n := by
  have hlive : ∀ entry ∈ (crowd n).deque, live 1 entry = true := by
    intro entry hentry
    obtain ⟨i, -, rfl⟩ := List.mem_map.1 hentry
    rfl
  exact (List.countP_eq_length.2 hlive).trans (crowd_length n)

/-- With 256 nodes a report of one of them is not taken in, and with the clock standing
still `map_clean` is not left either. -/
theorem crowd_not_ends : Linked (crowd 256) ∧
    ¬(∃ fuel q, (crowd 256).mapInsert fuel "" (idleNode "") 1 = .ended q) ∧
      ¬∃ fuel r', (crowd 256).mapClean fuel (fun _ => 1) = .ended r' := by
  have hhas : (crowd 256).has "" = true := by
    rw [Registry.has, List.any_eq_true]
    exact ⟨_, List.mem_map_of_mem (List.mem_range.2 (show 0 < 256 by decide)), by simp⟩
  refine ⟨linked_crowd 256, fun hends => ?_, fun hends => ?_⟩
  · have hlt := (mapInsert_ends_iff (linked_crowd 256) hhas (idleNode "") 1).1 hends
    rw [crowd_length] at hlt
    exact Nat.lt_irrefl _ hlt
  · obtain ⟨_, hlt⟩ := (mapClean_ends_iff (linked_crowd 256) monotone_const).1 hends
    rw [crowd_countP] at hlt
    exact Nat.lt_irrefl _ hlt

end FzDaq.Controller
