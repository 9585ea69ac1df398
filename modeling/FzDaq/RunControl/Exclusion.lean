import FzDaq.RunControl.Console

/-!
# One side drives a node

In local mode it is the console, in remote mode the requests. What the other side can still do
is to tell the writer to store, by a request in local mode, and the reader to record, at the
console in remote mode.
-/

namespace FzDaq.RunControl

open FzDaq.Machine FzDaq.Writer

variable {n : FzNodeManager} {cmd : RCcommand} {disk : Disk}

/-! ## The two sides of a node -/

/-- The reader and the parsers, if there are any. -/
def Profile.reading : Profile → Option (ReaderThread × List RCstate)
  | .compute rd psrArray => some (rd, psrArray)
  | .storage _ => none
  | .all rd psrArray _ => some (rd, psrArray)

/-- Two nodes in local mode that are the same but for what the writer has been told to store,
and where. -/
structure SameNode (n m : FzNodeManager) : Prop where
  left : n.rcmode = .rcModeLocal
  node : m = { n with profile := m.profile }
  reading : n.profile.reading = m.profile.reading
  isstorage : n.profile.isstorage = m.profile.isstorage

structure SameConsole (c d : Console) : Prop where
  nm : SameNode c.nm d.nm
  lastcmd : c.lastcmd = d.lastcmd
  recording : c.recording = d.recording
  closed : c.closed = d.closed

variable {m n' : FzNodeManager} {c c' d : Console} {is : List Input}

theorem SameNode.right (h : SameNode n m) : m.rcmode = .rcModeLocal := by
  rw [h.node]
  exact h.left

theorem SameNode.rc (h : SameNode n m) : n.rc = m.rc := by rw [h.node]

theorem SameNode.withProfile (h : SameNode n m) {p q : Profile} (hread : p.reading = q.reading)
    (hstore : p.isstorage = q.isstorage) :
    SameNode { n with profile := p } { m with profile := q } :=
  ⟨h.left, by rw [h.node], hread, hstore⟩

theorem rcStateDo_kind (p : Profile) (s : RCstate) (disk : Disk) :
    (p.rcStateDo s disk).reading = p.reading.map (fun t =>
        ({ t.1 with rcstate := s }, t.2.map fun _ => s)) ∧
      (p.rcStateDo s disk).isstorage = p.isstorage := by
  cases p <;> exact ⟨rfl, rfl⟩

theorem setStore_kind {p p' : Profile} {value : Bool} (h : p.setStore value = some p') :
    p'.reading = p.reading ∧ p'.isstorage = p.isstorage := by
  cases p with
  | compute rd psrArray => cases h
  | storage wr =>
    cases h
    exact ⟨rfl, rfl⟩
  | all rd psrArray wr =>
    cases h
    exact ⟨rfl, rfl⟩

theorem setStore_isSome (p : Profile) (value : Bool) :
    (p.setStore value).isSome = p.isstorage := by
  cases p <;> rfl

theorem SameNode.store (h : SameNode n m) (value : Bool) :
    Option.Rel SameNode
      ((n.profile.setStore value).map fun profile => { n with profile := profile })
      ((m.profile.setStore value).map fun profile => { m with profile := profile }) := by
  have hsome : (n.profile.setStore value).isSome = (m.profile.setStore value).isSome := by
    rw [setStore_isSome, setStore_isSome, h.isstorage]
  rcases hp : n.profile.setStore value with _ | p <;>
    rcases hq : m.profile.setStore value with _ | q
  · exact .none
  · rw [hp, hq] at hsome
    contradiction
  · rw [hp, hq] at hsome
    contradiction
  · obtain ⟨hpread, hpstore⟩ := setStore_kind hp
    obtain ⟨hqread, hqstore⟩ := setStore_kind hq
    exact .some (h.withProfile (hpread.trans (h.reading.trans hqread.symm))
      (hpstore.trans (h.isstorage.trans hqstore.symm)))

theorem SameNode.record (h : SameNode n m) (value : Bool) :
    Option.Rel SameNode
      ((n.profile.record value).map fun profile => { n with profile := profile })
      ((m.profile.record value).map fun profile => { m with profile := profile }) := by
  have hread := h.reading
  have hstore := h.isstorage
  have hsame : ∀ {p q : Profile}, p.reading = q.reading → p.isstorage = q.isstorage →
      SameNode { n with profile := p } { m with profile := q } := h.withProfile
  rcases hn : n.profile with ⟨rd, psrs⟩ | ⟨wr⟩ | ⟨rd, psrs, wr⟩ <;>
    rcases hm : m.profile with ⟨rd', psrs'⟩ | ⟨wr'⟩ | ⟨rd', psrs', wr'⟩ <;>
    rw [hn, hm] at hread hstore <;>
    simp only [Profile.reading, Option.some.injEq, Prod.mk.injEq, reduceCtorEq] at hread <;>
    simp only [Profile.isstorage, reduceCtorEq] at hstore
  · obtain ⟨rfl, rfl⟩ := hread
    exact .some (hsame rfl rfl)
  · exact .none
  · obtain ⟨rfl, rfl⟩ := hread
    exact .some (hsame rfl rfl)

theorem SameNode.rcProcess (h : SameNode n m) (cmd : RCcommand) (disk : Disk) :
    SameNode (n.rcProcess cmd disk).2 (m.rcProcess cmd disk).2 := by
  rw [rcProcess_local h.left, rcProcess_local h.right, ← h.rc]
  split
  · refine ⟨h.left, by rw [h.node], ?_, ?_⟩
    · dsimp only
      rw [(rcStateDo_kind ..).1, (rcStateDo_kind ..).1, h.reading]
    · exact (rcStateDo_kind ..).2.trans (h.isstorage.trans (rcStateDo_kind ..).2.symm)
  · exact ⟨h.left, by rw [h.node], h.reading, h.isstorage⟩

theorem SameNode.localCommand (h : SameNode n m) (disk : Disk) (line : String) :
    Option.Rel SameNode (Console.localCommand n disk line) (Console.localCommand m disk line) := by
  unfold Console.localCommand
  split_ifs
  · exact .some (h.rcProcess ..)
  · exact .some ((h.rcProcess ..).rcProcess ..)
  · exact .some (h.rcProcess ..)
  · exact .some (h.rcProcess ..)
  · exact h.store true
  · exact h.store false
  · exact .none

theorem SameConsole.command (h : SameConsole c d) (disk : Disk) (line : String) :
    Option.Rel (fun r q : Bool × Console => r.1 = q.1 ∧ SameConsole r.2 q.2)
      (c.command disk line) (d.command disk line) := by
  unfold Console.command
  rw [h.nm.left, h.nm.right, ← h.recording]
  split_ifs
  · exact .some ⟨rfl, h⟩
  · have hrel := h.nm.record !c.recording
    cases hn : c.nm.profile.record !c.recording <;>
      cases hm : d.nm.profile.record !c.recording <;> rw [hn, hm] at hrel
    · exact .none
    · cases hrel
    · cases hrel
    · cases hrel with
      | some hsame => exact .some ⟨rfl, hsame, h.lastcmd, rfl, h.closed⟩
  · exact .some ⟨rfl, h.nm.rcProcess .stop disk, h.lastcmd, h.recording, rfl⟩
  · have hrel := h.nm.localCommand disk line
    dsimp only
    cases hn : Console.localCommand c.nm disk line <;>
      cases hm : Console.localCommand d.nm disk line <;> rw [hn, hm] at hrel
    · exact .some ⟨rfl, h⟩
    · cases hrel
    · cases hrel
    · cases hrel with
      | some hsame => exact .some ⟨rfl, hsame, h.lastcmd, rfl, h.closed⟩

theorem SameConsole.getline (h : SameConsole c d) (disk : Disk) (typed : Option String) :
    Option.Rel SameConsole (c.getline disk typed) (d.getline disk typed) := by
  unfold Console.getline
  cases typed with
  | none => exact .some ⟨h.nm.rcProcess .stop disk, h.lastcmd, h.recording, rfl⟩
  | some typed =>
    dsimp only
    split
    · exact .some h
    rw [← h.lastcmd]
    generalize (if typed = "r" then c.lastcmd else typed) = line
    have hrel := h.command disk line
    generalize c.command disk line = x at hrel ⊢
    generalize d.command disk line = y at hrel ⊢
    cases hrel with
    | none => exact .none
    | @some r q hrq =>
      obtain ⟨herr, hsame⟩ := hrq
      refine .some ?_
      dsimp only
      rw [herr]
      split
      · exact hsame
      · exact ⟨hsame.nm, rfl, hsame.recording, hsame.closed⟩

theorem SameConsole.request (h : SameConsole c d) {disk : Disk} {req : Option Request}
    (hstep : c.step (.request disk req) = some c') : SameConsole c' d := by
  unfold Console.step at hstep
  split at hstep
  · obtain rfl := Option.some.inj hstep
    exact h
  obtain rfl := Option.some.inj hstep
  refine ⟨?_, h.lastcmd, h.recording, h.closed⟩
  rcases handleRequest_local disk h.nm.left req with heq | ⟨value, p, hset, heq⟩
  · rw [heq]
    exact h.nm
  · rw [heq]
    exact ⟨h.nm.left, by rw [h.nm.node], (setStore_kind hset).1.trans h.nm.reading,
      (setStore_kind hset).2.trans h.nm.isstorage⟩

theorem SameConsole.line (h : SameConsole c d) {disk : Disk} {typed : Option String}
    (hstep : c.step (.line disk typed) = some c') :
    ∃ d', d.step (.line disk typed) = some d' ∧ SameConsole c' d' := by
  unfold Console.step at hstep ⊢
  rw [← h.closed]
  split at hstep
  · rename_i hclosed
    obtain rfl := Option.some.inj hstep
    exact ⟨d, if_pos hclosed, h⟩
  · rename_i hclosed
    have hget : c.getline disk typed = some c' := hstep
    have hrel := h.getline disk typed
    rw [hget] at hrel
    cases hd : d.getline disk typed with
    | none =>
      rw [hd] at hrel
      cases hrel
    | some d' =>
      rw [hd] at hrel
      cases hrel with
      | some hsame => exact ⟨d', by rw [if_neg hclosed]; exact hd, hsame⟩

/-- In local mode the requests might as well not come. -/
theorem SameConsole.run (h : SameConsole c d) (hrun : c.run is = some c') :
    ∃ d', d.run (is.filter Input.isLine) = some d' ∧ SameConsole c' d' := by
  induction is generalizing c d with
  | nil =>
    obtain rfl := Option.some.inj hrun
    exact ⟨d, rfl, h⟩
  | cons i is ih =>
    obtain ⟨c₁, hstep, hnext⟩ := Option.bind_eq_some_iff.1 hrun
    cases i with
    | request disk req => exact ih (h.request hstep) hnext
    | line disk typed =>
      obtain ⟨d₁, hd₁, hsame⟩ := h.line hstep
      obtain ⟨d', hd', hlast⟩ := ih hsame hnext
      refine ⟨d', ?_, hlast⟩
      rw [List.filter_cons_of_pos rfl, Console.run, hd₁]
      exact hd'

/-- The node with its reader told to record, or not to. -/
def Records (value : Bool) (n m : FzNodeManager) : Prop :=
  ∃ p, n.profile.record value = some p ∧ m = { n with profile := p }

theorem Records.handleRequest {value : Bool} (h : Records value n m) (disk : Disk)
    (req : Option Request) :
    Records value (n.handleRequest disk req).2 (m.handleRequest disk req).2 := by
  obtain ⟨p, hp, rfl⟩ := h
  obtain ⟨mode, state, rc, profile, report⟩ := n
  have hstate (s : RCstate) : (profile.rcStateDo s disk).record value =
      some (p.rcStateDo s disk) := by
    cases profile <;> cases hp <;> rfl
  have hset (flag : Bool) : (profile.setStore flag = none ∧ p.setStore flag = none) ∨
      ∃ q r, profile.setStore flag = some q ∧ p.setStore flag = some r ∧
        q.record value = some r := by
    cases profile <;> cases hp
    · exact .inl ⟨rfl, rfl⟩
    · exact .inr ⟨_, _, rfl, rfl, rfl⟩
  have hsame : Records value ⟨mode, state, rc, profile, report⟩ ⟨mode, state, rc, p, report⟩ :=
    ⟨p, hp, rfl⟩
  unfold FzNodeManager.handleRequest
  cases req with
  | none => exact hsame
  | some req =>
    dsimp only
    split
    · exact hsame
    · split
      · split_ifs <;> exact hsame
      · cases mode with
        | rcModeLocal => exact hsame
        | rcModeRemote =>
          dsimp only
          split_ifs
          · split
            · exact ⟨_, hstate _, rfl⟩
            · exact hsame
          · exact hsame
      · exact hsame
      · generalize (if req.varname = "store" then some true
          else if req.varname = "nostore" then some false else none) = flag
        cases flag with
        | none => exact hsame
        | some flag =>
          rw [Option.bind_some, Option.bind_some]
          obtain ⟨hq, hr⟩ | ⟨q, r, hq, hr, hrec⟩ := hset flag
          · rw [hq, hr]
            exact hsame
          · rw [hq, hr]
            exact ⟨r, hrec, rfl⟩

theorem Records.trans {value flag : Bool} {l : FzNodeManager} (h : Records value l n)
    (h' : Records flag n m) : Records flag l m := by
  obtain ⟨p, hp, rfl⟩ := h
  obtain ⟨q, hq, rfl⟩ := h'
  refine ⟨q, ?_, rfl⟩
  cases hl : l.profile <;> rw [hl] at hp <;> cases hp <;> exact hq

/-- The node of a console is another one, but that its reader may have been told at the
console what to record. -/
def Console.Drives (c : Console) (n : FzNodeManager) : Prop :=
  c.nm = n ∨ Records c.recording n c.nm

theorem Console.Drives.rcmode (h : c.Drives n) : n.rcmode = c.nm.rcmode := by
  rcases h with rfl | ⟨p, -, heq⟩
  · rfl
  · rw [heq]

theorem Console.Drives.handleRequest (h : c.Drives n) (disk : Disk) (req : Option Request) :
    Console.Drives { c with nm := (c.nm.handleRequest disk req).2 }
      (n.handleRequest disk req).2 := by
  rcases h with rfl | hrec
  · exact .inl rfl
  · exact .inr (hrec.handleRequest disk req)

theorem Console.Drives.line (h : c.Drives n)
    (hline : c'.nm = c.nm ∧ c'.recording = c.recording ∨ Records c'.recording c.nm c'.nm) :
    c'.Drives n := by
  rcases hline with ⟨hnm, hrec⟩ | hrec
  · unfold Drives at h ⊢
    rwa [hnm, hrec]
  · rcases h with rfl | hold
    · exact .inr hrec
    · exact .inr (hold.trans hrec)

theorem FzNodeManager.Controlled.setStore (h : n.Controlled) {p : Profile} {value : Bool}
    (hset : n.profile.setStore value = some p) :
    FzNodeManager.Controlled { n with profile := p } :=
  Profile.setStore_allIn hset h

theorem FzNodeManager.Controlled.handleRequest (h : n.Controlled) (req : Option Request) :
    (n.handleRequest disk req).2.Controlled := by
  cases hmode : n.rcmode with
  | rcModeLocal =>
    rcases handleRequest_local disk hmode req with heq | ⟨value, p, hset, heq⟩
    · rw [heq]
      exact h
    · rw [heq]
      exact h.setStore hset
  | rcModeRemote =>
    have huniform : n.Uniform := ⟨hmode, by simpa only [Controlled, rcState, hmode] using h⟩
    have hnext := huniform.handleRequest disk req
    unfold Controlled
    simpa only [rcState, hnext.remote] using hnext.threads

theorem FzNodeManager.Controlled.localCommand (h : n.Controlled) {line : String}
    (hcmd : Console.localCommand n disk line = some n') : n'.Controlled := by
  unfold Console.localCommand at hcmd
  split_ifs at hcmd
  · exact Option.some.inj hcmd ▸ h.rcProcess
  · exact Option.some.inj hcmd ▸ h.rcProcess.rcProcess
  · exact Option.some.inj hcmd ▸ h.rcProcess
  · exact Option.some.inj hcmd ▸ h.rcProcess
  · obtain ⟨p, hset, rfl⟩ := Option.map_eq_some_iff.1 hcmd
    exact h.setStore hset
  · obtain ⟨p, hset, rfl⟩ := Option.map_eq_some_iff.1 hcmd
    exact h.setStore hset

/-- A node in local mode. -/
def localNode : FzNodeManager := { System.sampleNode with rcmode := .rcModeLocal }

end FzDaq.RunControl
