import FzDaq.Controller.NodeMap

/-!
# The node map and the deque

Each element of the map has one entry in the deque, whatever reports come in and expire,
and the entry's time is that of the report.
-/

namespace FzDaq.Controller

open FzDaq.Machine Relation

variable {map : List MapElem} {k : String} {v : Report.Node} {now : Int} {entry : DequeEntry}
  {elem : MapElem} {it : Nat}

theorem deref_eq_some (h : deref map it = some elem) : elem ∈ map ∧ elem.addr = it :=
  ⟨List.mem_of_find?_eq_some h, by simpa using List.find?_some h⟩

theorem deref_of_mem (haddrs : (map.map MapElem.addr).Nodup) (helem : elem ∈ map) :
    deref map elem.addr = some elem := by
  obtain ⟨found, hfound⟩ : ∃ found, deref map elem.addr = some found :=
    Option.isSome_iff_exists.1 (List.find?_isSome.2 ⟨elem, helem, by simp⟩)
  obtain ⟨hmem, haddr⟩ := deref_eq_some hfound
  rw [hfound, List.inj_on_of_nodup_map haddrs hmem helem haddr]

/-- The entries of the deque refer to the elements of the map, one to each. -/
structure Linked (r : Registry) : Prop where
  hosts : (r.map.map MapElem.first).Nodup
  addrs : (r.map.map MapElem.addr).Nodup
  fresh : ∀ elem ∈ r.map, elem.addr < r.nextAddr
  perm : (r.deque.map DequeEntry.first).Perm (r.map.map MapElem.addr)

variable {r r' : Registry}

theorem Linked.exists_elem (h : Linked r) (hentry : entry ∈ r.deque) :
    ∃ elem ∈ r.map, elem.addr = entry.first := by
  have hmem := h.perm.mem_iff.1 (List.mem_map_of_mem hentry)
  exact List.mem_map.1 hmem

theorem Linked.exists_deref (h : Linked r) (hentry : entry ∈ r.deque) :
    ∃ elem, deref r.map entry.first = some elem := by
  obtain ⟨elem, hmem, haddr⟩ := h.exists_elem hentry
  exact ⟨elem, haddr ▸ deref_of_mem h.addrs hmem⟩

theorem Linked.firsts_nodup (h : Linked r) : (r.deque.map DequeEntry.first).Nodup :=
  h.perm.nodup_iff.2 h.addrs

/-! ## The loop of `map_insert` -/

/-- What a turn of the loop makes of the entry that it looks at. -/
def refreshed (map : List MapElem) (k : String) (now : Int) (entry : DequeEntry) : DequeEntry :=
  if (deref map entry.first).any fun elem => elem.first == k then { entry with second := now }
  else entry

@[simp] theorem refreshed_first (map : List MapElem) (k : String) (now : Int)
    (entry : DequeEntry) : (refreshed map k now entry).first = entry.first := by
  unfold refreshed
  split <;> rfl

theorem refresh_next (l₁ l₂ : List DequeEntry) (hderef : deref map entry.first = some elem)
    {i : UInt8} (hi : i.toNat = l₁.length) :
    (refreshLoop map k now).Next ⟨i, l₁ ++ entry :: l₂⟩
      ⟨i + 1, l₁ ++ refreshed map k now entry :: l₂⟩ := by
  refine ⟨?_, ?_⟩
  · simp [refreshLoop, hi]
  · by_cases hk : elem.first = k <;> simp [refreshLoop, refreshed, hi, hderef, hk]

/-- The run lemma: the entries from the index on are looked at, one after the other. -/
theorem refresh_reaches (l₁ l₂ l₃ : List DequeEntry)
    (hderef : ∀ entry ∈ l₂, ∃ elem, deref map entry.first = some elem)
    (hlen : l₁.length + l₂.length < 256) :
    (refreshLoop map k now).Reaches ⟨UInt8.ofNat l₁.length, l₁ ++ (l₂ ++ l₃)⟩
      ⟨UInt8.ofNat (l₁.length + l₂.length), l₁ ++ (l₂.map (refreshed map k now) ++ l₃)⟩ := by
  induction l₂ generalizing l₁ with
  | nil => exact Loop.Reaches.refl _
  | cons entry l₂ ih =>
    rw [List.length_cons] at hlen
    obtain ⟨elem, helem⟩ := hderef entry (List.mem_cons_self ..)
    have hi : (UInt8.ofNat l₁.length).toNat = l₁.length :=
      UInt8.toNat_ofNat_of_lt' (show l₁.length < 256 by omega)
    have hrest := ih (l₁ ++ [refreshed map k now entry])
      (fun entry hentry => hderef entry (List.mem_cons_of_mem _ hentry))
      (by rw [List.length_append, List.length_singleton]; omega)
    rw [List.length_append, List.length_singleton, List.append_assoc, List.append_assoc,
      show UInt8.ofNat (l₁.length + 1) = UInt8.ofNat l₁.length + 1 from UInt8.ofNat_add ..,
      Nat.add_right_comm] at hrest
    exact (refresh_next l₁ (l₂ ++ l₃) helem hi).reaches.trans hrest

theorem refresh_ends {deque : List DequeEntry}
    (hderef : ∀ entry ∈ deque, ∃ elem, deref map entry.first = some elem)
    (hlen : deque.length < 256) :
    (refreshLoop map k now).Ends { deque := deque }
      ⟨UInt8.ofNat deque.length, deque.map (refreshed map k now)⟩ := by
  have hreach : (refreshLoop map k now).Reaches _ _ :=
    refresh_reaches [] deque [] hderef (by simpa using hlen)
  rw [List.length_nil, Nat.zero_add, List.append_nil, List.append_nil] at hreach
  refine ⟨hreach, ?_⟩
  have hi : (UInt8.ofNat deque.length).toNat = deque.length := UInt8.toNat_ofNat_of_lt' hlen
  simp [refreshLoop, hi]

/-- A turn that goes on, as long as the entries refer to elements of the map. -/
theorem refresh_turns {deque : List DequeEntry}
    (hderef : ∀ entry ∈ deque, ∃ elem, deref map entry.first = some elem) (s : Refresh)
    (hs : s.deque.map DequeEntry.first = deque.map DequeEntry.first)
    (hhalt : (refreshLoop map k now).halted s = false) :
    ∃ t, (refreshLoop map k now).Next s t ∧
      t.deque.map DequeEntry.first = deque.map DequeEntry.first := by
  have hi : s.i.toNat < s.deque.length := by simpa [refreshLoop] using hhalt
  obtain ⟨l₁, entry, l₂, hsplit, hl₁⟩ : ∃ l₁ entry l₂,
      s.deque = l₁ ++ entry :: l₂ ∧ s.i.toNat = l₁.length :=
    ⟨s.deque.take s.i.toNat, s.deque[s.i.toNat], s.deque.drop (s.i.toNat + 1),
      by simp, by rw [List.length_take]; omega⟩
  have hfirst : entry.first ∈ deque.map DequeEntry.first := by
    rw [← hs, hsplit]
    simp
  obtain ⟨entry', hentry', hsame⟩ := List.mem_map.1 hfirst
  obtain ⟨elem, helem⟩ := hderef entry' hentry'
  have hnext : (refreshLoop map k now).Next _ _ := refresh_next l₁ l₂ (hsame ▸ helem) hl₁
  rw [← hsplit] at hnext
  refine ⟨_, hnext, ?_⟩
  rw [← hs, hsplit]
  simp

/-- No index of eight bits is the size of such a deque, or more. -/
theorem refresh_not_ends {deque : List DequeEntry}
    (hderef : ∀ entry ∈ deque, ∃ elem, deref map entry.first = some elem)
    (hlen : 256 ≤ deque.length) (t : Refresh) :
    ¬(refreshLoop map k now).Ends { deque := deque } t := by
  refine Loop.not_ends_of_trap
    (P := fun s => s.deque.map DequeEntry.first = deque.map DequeEntry.first)
    (fun s hs => refresh_turns hderef s hs ?_) (Loop.Reaches.refl _) rfl t
  have hsize : s.deque.length = deque.length := by
    simpa using congrArg List.length hs
  have hi : s.i.toNat < s.deque.length := Nat.lt_of_lt_of_le s.i.toNat_lt (hsize ▸ hlen)
  simpa [refreshLoop] using hi

theorem Linked.exists_deref_assign (h : Linked r) (k : String) (v : Report.Node)
    (hentry : entry ∈ r.deque) : ∃ elem, deref (r.assign k v).map entry.first = some elem := by
  obtain ⟨elem, hmem, haddr⟩ := h.exists_elem hentry
  refine Option.isSome_iff_exists.1 (List.find?_isSome.2 ⟨_, List.mem_map_of_mem hmem, ?_⟩)
  split <;> simp [haddr]

theorem mapInsert_of_has {fuel : Nat} {inserted : Bool} (h : Linked r) (hhas : r.has k = true)
    (hcall : r.mapInsert fuel k v now = .ended (inserted, r')) :
    r' = { r.assign k v with deque := r.deque.map (refreshed (r.assign k v).map k now) } := by
  have hderef (entry) (hentry : entry ∈ r.deque) := h.exists_deref_assign k v hentry
  rw [Registry.mapInsert, if_pos hhas] at hcall
  obtain ⟨s, hrun, heq⟩ := Outcome.map_eq_ended.1 hcall
  obtain ⟨-, rfl⟩ := Prod.ext_iff.1 heq
  have hends : (refreshLoop (r.assign k v).map k now).Ends { deque := r.deque } s :=
    Loop.ends_of_run hrun
  by_cases hlen : r.deque.length < 256
  · rw [hends.unique (refresh_ends hderef hlen)]
  · exact absurd hends (refresh_not_ends hderef (Nat.le_of_not_lt hlen) s)

theorem mapInsert_of_not_has {fuel : Nat} (hhas : r.has k = false) :
    r.mapInsert fuel k v now = .ended (true, r.emplace k v now) := by
  rw [Registry.mapInsert, if_neg (by simp [hhas])]

/-! ## A report of a host -/

theorem emplace_perm (r : Registry) (k : String) (v : Report.Node) (now : Int) :
    (r.emplace k v now).map.Perm ({ addr := r.nextAddr, first := k, second := v } :: r.map) := by
  have hmiddle := @List.perm_middle _ { addr := r.nextAddr, first := k, second := v }
    (r.map.takeWhile fun elem => decide (elem.first < k))
    (r.map.dropWhile fun elem => decide (elem.first < k))
  rwa [List.takeWhile_append_dropWhile] at hmiddle

theorem has_eq_false : r.has k = false ↔ ∀ elem ∈ r.map, elem.first ≠ k := by
  simp [Registry.has]

theorem Linked.first_lt (h : Linked r) (hentry : entry ∈ r.deque) : entry.first < r.nextAddr := by
  obtain ⟨elem, hmem, haddr⟩ := h.exists_elem hentry
  exact haddr ▸ h.fresh elem hmem

theorem Linked.emplace (h : Linked r) (hhas : r.has k = false) (v : Report.Node) (now : Int) :
    Linked (r.emplace k v now) := by
  have hperm := emplace_perm r k v now
  refine ⟨?_, ?_, ?_, ?_⟩
  · rw [(hperm.map MapElem.first).nodup_iff, List.map_cons, List.nodup_cons]
    refine ⟨fun hmem => ?_, h.hosts⟩
    obtain ⟨elem, helem, hfirst⟩ := List.mem_map.1 hmem
    exact has_eq_false.1 hhas elem helem hfirst
  · rw [(hperm.map MapElem.addr).nodup_iff, List.map_cons, List.nodup_cons]
    refine ⟨fun hmem => ?_, h.addrs⟩
    obtain ⟨elem, helem, haddr⟩ := List.mem_map.1 hmem
    exact Nat.ne_of_lt (h.fresh elem helem) haddr
  · intro elem helem
    rcases List.mem_cons.1 (hperm.mem_iff.1 helem) with rfl | helem
    · exact Nat.lt_succ_self _
    · exact Nat.lt_succ_of_lt (h.fresh elem helem)
  · have hdeque : ((r.emplace k v now).deque.map DequeEntry.first).Perm
        (r.nextAddr :: r.deque.map DequeEntry.first) := by
      simp [Registry.emplace]
    exact hdeque.trans ((h.perm.cons _).trans (hperm.map MapElem.addr).symm)

theorem Linked.refresh (h : Linked r) (k : String) (v : Report.Node) (now : Int) :
    Linked { r.assign k v with deque := r.deque.map (refreshed (r.assign k v).map k now) } := by
  have hfirst : (r.assign k v).map.map MapElem.first = r.map.map MapElem.first := by
    rw [Registry.assign, List.map_map]
    refine List.map_congr_left fun elem _ => ?_
    rw [Function.comp_apply]
    split <;> rfl
  have haddr : (r.assign k v).map.map MapElem.addr = r.map.map MapElem.addr := by
    rw [Registry.assign, List.map_map]
    refine List.map_congr_left fun elem _ => ?_
    rw [Function.comp_apply]
    split <;> rfl
  have hdeque : (r.deque.map (refreshed (r.assign k v).map k now)).map DequeEntry.first =
      r.deque.map DequeEntry.first := by
    rw [List.map_map]
    exact List.map_congr_left fun entry _ => refreshed_first ..
  refine ⟨hfirst ▸ h.hosts, haddr ▸ h.addrs, fun elem helem => ?_, ?_⟩
  · have hmem : elem.addr ∈ r.map.map MapElem.addr := haddr ▸ List.mem_map_of_mem helem
    obtain ⟨old, hold, hsame⟩ := List.mem_map.1 hmem
    exact hsame ▸ h.fresh old hold
  · change ((r.deque.map _).map DequeEntry.first).Perm _
    rw [hdeque]
    exact haddr ▸ h.perm

/-- The entries and the reports are those that `last` gives for their hosts. -/
def Dated (r : Registry) (last : String → Option (Report.Node × Int)) : Prop :=
  ∀ elem ∈ r.map, ∀ entry ∈ r.deque, entry.first = elem.addr →
    last elem.first = some (elem.second, entry.second)

variable {last last' : String → Option (Report.Node × Int)}

theorem Dated.emplace (h : Linked r) (hd : Dated r last) (hhas : r.has k = false)
    (hnew : last' k = some (v, now)) (hold : ∀ k', k' ≠ k → last' k' = last k') :
    Dated (r.emplace k v now) last' := by
  intro elem helem entry hentry hlink
  rcases List.mem_cons.1 ((emplace_perm r k v now).mem_iff.1 helem) with rfl | helem <;>
    rcases List.mem_append.1 hentry with hentry | hentry
  · exact absurd hlink (Nat.ne_of_lt (h.first_lt hentry))
  · rw [List.mem_singleton.1 hentry]
    exact hnew
  · rw [hold _ (has_eq_false.1 hhas elem helem)]
    exact hd elem helem entry hentry hlink
  · rw [List.mem_singleton.1 hentry] at hlink
    exact absurd hlink (Nat.ne_of_gt (h.fresh elem helem))

theorem Dated.refresh (h : Linked r) (hd : Dated r last)
    (hnew : last' k = some (v, now)) (hold : ∀ k', k' ≠ k → last' k' = last k') :
    Dated { r.assign k v with deque := r.deque.map (refreshed (r.assign k v).map k now) }
      last' := by
  intro elem helem entry hentry hlink
  obtain ⟨entry, hbefore, rfl⟩ := List.mem_map.1 hentry
  have hderef := deref_of_mem (h.refresh k v now).addrs helem
  rw [← hlink, refreshed_first] at hderef
  obtain ⟨old, hmem, rfl⟩ := List.mem_map.1 helem
  by_cases hk : old.first = k
  · simp only [hk, if_true] at hderef ⊢
    simp only [refreshed, hderef, Option.any_some, beq_self_eq_true, if_true]
    exact hnew
  · simp only [hk, if_false] at hderef hlink ⊢
    simp only [refreshed, hderef, Option.any_some, beq_eq_false_iff_ne.2 hk, Bool.false_eq_true,
      if_false]
    rw [hold _ hk]
    exact hd old hmem entry hbefore (by rwa [refreshed_first] at hlink)

/-! ## An entry that expires -/

theorem Linked.eraseAt (h : Linked r) {i : Nat} (hentry : r.deque[i]? = some entry) :
    Linked (r.eraseAt i entry.first) := by
  obtain ⟨hi, hget⟩ := List.getElem?_eq_some_iff.1 hentry
  have hmap : (r.eraseAt i entry.first).map.map MapElem.addr =
      (r.map.map MapElem.addr).filter (· != entry.first) := by
    rw [Registry.eraseAt, List.filter_map]
    rfl
  refine ⟨?_, ?_, fun elem helem => ?_, ?_⟩
  · exact h.hosts.sublist (List.Sublist.map _ List.filter_sublist)
  · exact h.addrs.sublist (List.Sublist.map _ List.filter_sublist)
  · exact h.fresh elem (List.mem_of_mem_filter helem)
  · rw [hmap, ← h.addrs.erase_eq_filter]
    have hsplit : (r.deque.map DequeEntry.first).Perm
        (entry.first :: (r.deque.eraseIdx i).map DequeEntry.first) := by
      rw [← hget, ← List.map_cons]
      exact (List.getElem_cons_eraseIdx_perm hi).symm.map _
    refine List.Perm.symm ((h.perm.symm.erase entry.first).trans ?_)
    exact (hsplit.erase entry.first).trans (by rw [List.erase_cons_head]; exact List.Perm.refl _)

theorem Dated.eraseAt (hd : Dated r last) (i it : Nat) : Dated (r.eraseAt i it) last :=
  fun elem helem entry hentry hlink =>
    hd elem (List.mem_of_mem_filter helem) entry (List.mem_of_mem_eraseIdx hentry) hlink

variable {clock : Nat → Int} {s t : Clean}

theorem clean_next (h : (cleanLoop clock).Next s t) :
    ∃ entry, s.registry.deque[s.i.toNat]? = some entry ∧
      t.i = s.i + 1 ∧ t.readings = s.readings + 1 ∧
      (expired (clock s.readings) entry = false ∧ t.registry = s.registry ∨
        expired (clock s.readings) entry = true ∧
          t.registry = s.registry.eraseAt s.i.toNat entry.first) := by
  obtain ⟨registry, hclean, rfl⟩ := Option.map_eq_some_iff.1 h.2
  obtain ⟨entry, hentry, hregistry⟩ := Option.bind_eq_some_iff.1 hclean
  refine ⟨entry, hentry, rfl, rfl, ?_⟩
  by_cases hexpired : expired (clock s.readings) entry = true
  · rw [if_pos hexpired] at hregistry
    obtain ⟨elem, helem, rfl⟩ := Option.map_eq_some_iff.1 hregistry
    rw [(deref_eq_some helem).2]
    exact .inr ⟨hexpired, rfl⟩
  · rw [if_neg hexpired] at hregistry
    exact .inl ⟨by simpa using hexpired, (Option.some.inj hregistry).symm⟩

theorem clean_turns (h : Linked s.registry) (hhalt : (cleanLoop clock).halted s = false) :
    ∃ t, (cleanLoop clock).Next s t := by
  have hi : s.i.toNat < s.registry.deque.length := by simpa [cleanLoop] using hhalt
  have hentry : s.registry.deque[s.i.toNat]? = some s.registry.deque[s.i.toNat] :=
    List.getElem?_eq_getElem hi
  obtain ⟨elem, helem⟩ := h.exists_deref (List.mem_of_getElem? hentry)
  obtain ⟨registry, hclean⟩ : ∃ registry,
      s.registry.cleanAt (clock s.readings) s.i.toNat = some registry := by
    rw [Registry.cleanAt, hentry, Option.bind_eq_bind, Option.bind_some, helem]
    split
    · exact ⟨_, rfl⟩
    · exact ⟨_, rfl⟩
  exact ⟨_, hhalt, Option.map_eq_some_iff.2 ⟨registry, hclean, rfl⟩⟩

theorem Linked.clean_next (h : Linked s.registry) (hnext : (cleanLoop clock).Next s t) :
    Linked t.registry := by
  obtain ⟨entry, hentry, -, -, ⟨-, hkept⟩ | ⟨-, herased⟩⟩ := Controller.clean_next hnext
  · exact hkept ▸ h
  · exact herased ▸ h.eraseAt hentry

theorem Dated.clean_next (hd : Dated s.registry last) (hnext : (cleanLoop clock).Next s t) :
    Dated t.registry last := by
  obtain ⟨entry, -, -, -, ⟨-, hkept⟩ | ⟨-, herased⟩⟩ := Controller.clean_next hnext
  · exact hkept ▸ hd
  · exact herased ▸ hd.eraseAt _ _

theorem clean_reaches (h : Linked s.registry) (hd : Dated s.registry last)
    (hreach : (cleanLoop clock).Reaches s t) : Linked t.registry ∧ Dated t.registry last :=
  hreach.invariant (fun t => Linked t.registry ∧ Dated t.registry last) ⟨h, hd⟩
    fun _ _ _ hcd hc => ⟨hc.1.clean_next hcd, hc.2.clean_next hcd⟩

/-! ## Runs -/

theorem lastReport_concat (calls : List Call) (call : Call) (k : String) :
    lastReport (calls ++ [call]) k = (call.reportOf k).or (lastReport calls k) := by
  rw [lastReport, List.reverse_append, List.reverse_singleton, List.singleton_append,
    List.findSome?_cons]
  cases call.reportOf k <;> rfl

theorem Linked.perform {fuel : Nat} {calls : List Call} {call : Call} (h : Linked r)
    (hd : Dated r (lastReport calls)) (hcall : call.perform fuel r = .ended r') :
    Linked r' ∧ Dated r' (lastReport (calls ++ [call])) := by
  cases call with
  | mapInsert k v now =>
    have hnew : lastReport (calls ++ [.mapInsert k v now]) k = some (v, now) := by
      simp [lastReport_concat, Call.reportOf]
    have hold (k' : String) (hk : k' ≠ k) :
        lastReport (calls ++ [.mapInsert k v now]) k' = lastReport calls k' := by
      simp [lastReport_concat, Call.reportOf, hk.symm]
    obtain ⟨⟨inserted, q⟩, hinsert, rfl⟩ := Outcome.map_eq_ended.1 hcall
    cases hhas : r.has k with
    | true =>
      rw [show (inserted, q).2 = _ from mapInsert_of_has h hhas hinsert]
      exact ⟨h.refresh k v now, hd.refresh h hnew hold⟩
    | false =>
      rw [mapInsert_of_not_has hhas] at hinsert
      cases hinsert
      exact ⟨h.emplace hhas v now, hd.emplace h hhas hnew hold⟩
  | mapClean clock =>
    obtain ⟨t, hrun, rfl⟩ := Outcome.map_eq_ended.1 hcall
    have hsame : lastReport (calls ++ [.mapClean clock]) = lastReport calls := by
      funext k
      simp [lastReport_concat, Call.reportOf]
    rw [hsame]
    exact clean_reaches h hd (Loop.ends_of_run hrun).1

theorem Linked.completes {before calls : List Call} (h : Linked r)
    (hd : Dated r (lastReport before)) (hcalls : Completes r calls r') :
    Linked r' ∧ Dated r' (lastReport (before ++ calls)) := by
  induction calls generalizing r before with
  | nil =>
    rw [show r' = r from hcalls, List.append_nil]
    exact ⟨h, hd⟩
  | cons call calls ih =>
    obtain ⟨fuel, q, hcall, hcalls⟩ := hcalls
    obtain ⟨hq, hdq⟩ := h.perform hd hcall
    have hrest := ih hq hdq hcalls
    rwa [List.append_assoc, List.singleton_append] at hrest

theorem linked_empty : Linked {} := ⟨List.nodup_nil, List.nodup_nil, by simp, List.Perm.refl _⟩

/-- The iterators in the deque are valid, there is one for each host of the map, and the
host has its last report, of the time that stands with the iterator. -/
structure InBijection (r : Registry) (last : String → Option (Report.Node × Int)) : Prop where
  hosts : (r.map.map MapElem.first).Nodup
  live : ∀ entry ∈ r.deque, ∃ elem ∈ r.map, elem.addr = entry.first
  once : ∀ elem ∈ r.map, ∃ entry ∈ r.deque, entry.first = elem.addr ∧
    (r.deque.map DequeEntry.first).count elem.addr = 1 ∧
    last elem.first = some (elem.second, entry.second)

theorem Linked.inBijection (h : Linked r) (hd : Dated r last) : InBijection r last := by
  refine ⟨h.hosts, fun entry hentry => h.exists_elem hentry, fun elem helem => ?_⟩
  have hmem : elem.addr ∈ r.deque.map DequeEntry.first :=
    h.perm.mem_iff.2 (List.mem_map_of_mem helem)
  obtain ⟨entry, hentry, hlink⟩ := List.mem_map.1 hmem
  exact ⟨entry, hentry, hlink, List.count_eq_one_of_mem h.firsts_nodup hmem,
    hd elem helem entry hentry hlink⟩

/-- No call uses an iterator that is not valid. -/
theorem Linked.not_fault (h : Linked r) (call : Call) (fuel : Nat) (q : Registry) :
    call.perform fuel r ≠ .fault q := by
  intro hcall
  cases call with
  | mapInsert k v now =>
    obtain ⟨⟨inserted, q⟩, hinsert, rfl⟩ := Outcome.map_eq_fault.1 hcall
    cases hhas : r.has k with
    | false =>
      rw [mapInsert_of_not_has hhas] at hinsert
      cases hinsert
    | true =>
      rw [Registry.mapInsert, if_pos hhas] at hinsert
      obtain ⟨s, hrun, -⟩ := Outcome.map_eq_fault.1 hinsert
      have hderef (entry) (hentry : entry ∈ r.deque) := h.exists_deref_assign k v hentry
      exact Loop.not_faults_of_turns (fun c hc hhalt => refresh_turns hderef c hc hhalt) rfl
        (Loop.faults_of_run hrun)
  | mapClean clock =>
    obtain ⟨s, hrun, -⟩ := Outcome.map_eq_fault.1 hcall
    have hturn (c : Clean) (hc : Linked c.registry) (hhalt : (cleanLoop clock).halted c = false) :
        ∃ d, (cleanLoop clock).Next c d ∧ Linked d.registry := by
      obtain ⟨d, hcd⟩ := clean_turns hc hhalt
      exact ⟨d, hcd, hc.clean_next hcd⟩
    exact Loop.not_faults_of_turns hturn h (Loop.faults_of_run hrun)

/-- Whatever calls are completed on an empty map, it is in bijection with its deque, and
the next call uses valid iterators only. -/
theorem completes_inBijection (calls : List Call) (hcalls : Completes {} calls r) :
    InBijection r (lastReport calls) ∧ ∀ call fuel q, Call.perform fuel r call ≠ .fault q := by
  have hdated : Dated {} (lastReport []) := fun _ helem => absurd helem List.not_mem_nil
  obtain ⟨h, hd⟩ := linked_empty.completes hdated hcalls
  exact ⟨h.inBijection hd, h.not_fault⟩

/-- The report of a node without threads. -/
def idleNode (hostname : String) : Report.Node where
  hostname := hostname
  profile := "compute"
  status := "idle"

/-- Two nodes report, the first of them again; the second expires and comes back. -/
def joins : List Call :=
  [.mapInsert "a" (idleNode "a") 0, .mapInsert "b" (idleNode "b") 1,
    .mapInsert "a" (idleNode "a") 11, .mapClean fun _ => 12, .mapInsert "b" (idleNode "b") 13]

theorem joins_inBijection : ∃ r, Completes {} joins r ∧ InBijection r (lastReport joins) ∧
    ∀ call fuel q, Call.perform fuel r call ≠ .fault q := by
  obtain ⟨r, hcalls⟩ : ∃ r, Completes {} joins r :=
    ⟨_, 0, _, rfl, 0, _, rfl, 2, _, rfl, 2, _, rfl, 0, _, rfl, rfl⟩
  exact ⟨r, hcalls, completes_inBijection joins hcalls⟩

/-! ## The collector -/

theorem lastReport_mem {calls : List Call} (h : lastReport calls k = some (v, now)) :
    .mapInsert k v now ∈ calls := by
  obtain ⟨call, hcall, hreport⟩ := List.exists_of_findSome?_eq_some h
  rw [List.mem_reverse] at hcall
  cases call with
  | mapClean clock => cases hreport
  | mapInsert k' v' now' =>
    rw [Call.reportOf] at hreport
    split at hreport
    · rename_i hk
      cases hreport
      exact hk ▸ hcall
    · cases hreport

theorem collector_hostname {turns : List (Option (Report.Node × Int) × (Nat → Int))}
    (hcalls : Completes {} (turns.flatMap fun turn => collectorTurn turn.1 turn.2) r) :
    ∀ elem ∈ r.map, elem.second.hostname = elem.first := by
  intro elem helem
  have hdated : Dated {} (lastReport []) := fun _ helem => absurd helem List.not_mem_nil
  obtain ⟨h, hd⟩ := linked_empty.completes hdated hcalls
  obtain ⟨entry, -, -, -, hlast⟩ := (h.inBijection hd).once elem helem
  obtain ⟨turn, -, hmem⟩ := List.mem_flatMap.1 (lastReport_mem hlast)
  rcases List.mem_append.1 hmem with hmem | hmem
  · obtain ⟨rep, -, hrep⟩ := Option.map_eq_some_iff.1 (Option.mem_toList.1 hmem)
    obtain ⟨hk, hv, -⟩ := Call.mapInsert.inj hrep
    rw [← hv, hk]
  · cases List.mem_singleton.1 hmem

end FzDaq.Controller
