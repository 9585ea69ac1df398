import FzDaq.RunControl.Message

/-!
# `FzController::handle_request`

The requests to the controller, and the messages that it pushes to the nodes.
-/

namespace FzDaq.RunControl

/-- The controller, with the reports of the nodes in the order of their keys. -/
structure FzController where
  rc : RCFSM := {}
  map : List (String × Node) := []
  deriving DecidableEq, Repr

/-- A message pushed to the node of a host. -/
structure Push where
  hostname : String
  req : Request
  deriving DecidableEq, Repr

namespace FzController

def pushBroadcast (c : FzController) (req : Request) : List Push :=
  c.map.map fun it => { hostname := it.2.hostname, req := req }

/-- The command of an event. -/
def commandOf (value : String) : Option RCcommand :=
  if value = "reset" then some .reset
  else if value = "configure" then some .configure
  else if value = "start" then some .start
  else if value = "stop" then some .stop
  else none

/-- The message that an accepted event leaves as: event on the controller, status on the
node manager. -/
def statusRequest (req : Request) (s : RCstate) : Request :=
  { req with module := .nm, varname := "status", value := some (stateLabels s).toLower }

def handleEvent (c : FzController) (req : Request) : Reply × FzController × List Push :=
  if c.map.length = 0 then
    (.response { formatError with reason := "no DAQ node available" }, c, [])
  else
    -- An unknown value leaves `rct` at RCOK.
    let rct := match commandOf req.valueStr with
      | some cmd => c.rc.process cmd
      | none => (.rcok, c.rc)
    let c := { c with rc := rct.2 }
    if rct.1 = .rcerror then
      (.response { formatError with reason := "wrong requested RC transition" }, c, [])
    else
      (.response { errorcode := .ok, reason := "RC transition ok" }, c,
        c.pushBroadcast (statusRequest req c.rc.curstate))

/-- `unicast`: what the node of a host answers, if it does within the timeout. `request` is
`none` if it does not parse; a request that parses has its required fields. -/
def handleRequest (c : FzController) (unicast : Request → String → Option Reply)
    (request : Option Request) : Reply × FzController × List Push :=
  match request with
  | none => (.response { formatError with reason := "request deserialization error" }, c, [])
  | some req =>
    match req.module, req.channel, req.operation with
    | .cnt, .rc, .read =>
      if req.varname = "status" then
        (.response { value := some (stateLabels c.rc.curstate), errorcode := .ok, reason := "OK" },
          c, [])
      else if req.varname = "nodestatus" then
        (.response { errorcode := .ok, reason := "OK", node := c.map.map Prod.snd }, c, [])
      else if req.varname = "perfdata" then (.nodeset (c.map.map Prod.snd), c, [])
      else (.response { formatError with reason := "variable not found" }, c, [])
    | .cnt, .rc, .write =>
      if req.varname = "event" then c.handleEvent req
      else (.response { formatError with reason := "variable not found" }, c, [])
    | .nm, _, _ =>
      if req.hostname.getD "" = "" then
        (.response { formatError with reason := "destination hostname not present" }, c, [])
      else
        match unicast req (req.hostname.getD "") with
        | some res => (res, c, [])
        | none =>
          (.response { formatError with reason := "destination hostname not available" }, c, [])
    | _, _, _ => (.response formatError, c, [])

/-- The request that `handle_request` passes on to the node manager of a host. -/
def passedOn (request : Option Request) : Option Push := do
  let req ← request
  if req.module = .nm ∧ req.hostname.getD "" ≠ "" then
    some { hostname := req.hostname.getD "", req := req }
  else none

/-- No other request depends on what the node managers answer, and with those that are passed
on only the reply does. -/
theorem handleRequest_unicast (c : FzController)
    (unicast unicast' : Request → String → Option Reply) (request : Option Request) :
    (passedOn request = none → c.handleRequest unicast request = c.handleRequest unicast' request) ∧
      (c.handleRequest unicast request).2 = (c.handleRequest unicast' request).2 := by
  unfold handleRequest
  cases request with
  | none => exact ⟨fun _ => rfl, rfl⟩
  | some req =>
    dsimp only
    split
    · exact ⟨fun _ => rfl, rfl⟩
    · exact ⟨fun _ => rfl, rfl⟩
    · rename_i hmodule
      split_ifs with hhost
      · exact ⟨fun _ => rfl, rfl⟩
      · refine ⟨fun hnone => ?_, ?_⟩
        · simp [passedOn, hmodule, hhost] at hnone
        · split <;> split <;> rfl
    · exact ⟨fun _ => rfl, rfl⟩

/-! ## The answer to a written request -/

/-- An answer that `handleRequest` does not leave at an error. -/
def Accepted (res : Reply) : Prop := ∃ r, res = .response r ∧ r.errorcode = .ok

/-- The controller leaves the request unanswered but for an error, and does nothing else. -/
structure Refuses (c : FzController) (out : Reply × FzController × List Push) : Prop where
  answer : ∃ r, out.1 = .response r ∧ r.errorcode = .err
  state : out.2.1.rc.curstate = c.rc.curstate
  pushes : out.2.2 = []

/-- The controller has moved to the state and tells each of its nodes so once. -/
structure Announces (c : FzController) (s : RCstate) (out : Reply × FzController × List Push) :
    Prop where
  state : out.2.1.rc.curstate = s
  hosts : out.2.2.map Push.hostname = c.map.map fun it => it.2.hostname
  status : ∀ p ∈ out.2.2, p.req.module = .nm ∧ p.req.varname = "status" ∧
    p.req.value = some (stateLabels s).toLower

/-- The request asks for a transition to the state that the table has. -/
structure Takes (c : FzController) (req : Request) (s : RCstate) : Prop where
  varname : req.varname = "event"
  map : c.map ≠ []
  command : ∃ cmd, commandOf req.valueStr = some cmd ∧ RCFSM.next cmd c.rc.curstate = some s

/-- The controller answers OK if it moves, and only then does anything. -/
structure Honest (c : FzController) (req : Request) (out : Reply × FzController × List Push) :
    Prop where
  accepted : Accepted out.1 ↔ ∃ s, c.Takes req s
  moved : ∀ s, c.Takes req s → c.Announces s out
  refused : (¬∃ s, c.Takes req s) → c.Refuses out

variable {c : FzController} {req : Request} {s : RCstate}
  {out : Reply × FzController × List Push}

theorem Takes.unique {s' : RCstate} (h : c.Takes req s) (h' : c.Takes req s') : s = s' := by
  obtain ⟨cmd, hcmd, hnext⟩ := h.command
  obtain ⟨cmd', hcmd', hnext'⟩ := h'.command
  rw [hcmd, Option.some.injEq] at hcmd'
  rw [hcmd', hnext'] at hnext
  exact (Option.some.inj hnext).symm

theorem pushBroadcast_announces {c' : FzController} {res : Reply} (hstate : c'.rc.curstate = s)
    (hmap : c'.map = c.map) : c.Announces s (res, c', c'.pushBroadcast (statusRequest req s)) := by
  refine ⟨hstate, ?_, fun p hp => ?_⟩
  · simp [pushBroadcast, hmap]
  · obtain ⟨it, -, rfl⟩ := List.mem_map.1 hp
    exact ⟨rfl, rfl, rfl⟩

theorem Refuses.not_accepted (h : c.Refuses out) : ¬Accepted out.1 := by
  obtain ⟨r, hr, herr⟩ := h.answer
  rintro ⟨r', hr', hok⟩
  rw [hr, Reply.response.injEq] at hr'
  rw [← hr', herr] at hok
  cases hok

theorem Refuses.honest (h : c.Refuses out) (hno : ¬∃ s, c.Takes req s) : c.Honest req out :=
  ⟨⟨fun hok => absurd hok h.not_accepted, fun hs => absurd hs hno⟩,
    fun s hs => absurd ⟨s, hs⟩ hno, fun _ => h⟩

theorem Announces.honest (h : c.Announces s out) (hs : c.Takes req s) (hok : Accepted out.1) :
    c.Honest req out := by
  refine ⟨⟨fun _ => ⟨s, hs⟩, fun _ => hok⟩, fun s' hs' => ?_, fun hno => absurd ⟨s, hs⟩ hno⟩
  rw [← hs.unique hs']
  exact h

theorem handleEvent_empty (hmap : c.map = []) : c.Refuses (c.handleEvent req) := by
  unfold handleEvent
  rw [if_pos (by rw [hmap]; rfl)]
  exact ⟨⟨_, rfl, rfl⟩, rfl, rfl⟩

theorem handleEvent_takes (h : c.Takes req s) :
    Accepted (c.handleEvent req).1 ∧ c.Announces s (c.handleEvent req) := by
  obtain ⟨cmd, hcmd, hnext⟩ := h.command
  have hlen : ¬c.map.length = 0 := fun hzero => h.map (List.length_eq_zero_iff.1 hzero)
  simp only [handleEvent, hlen, hcmd, RCFSM.process_of_next hnext, if_false, reduceCtorEq]
  exact ⟨⟨_, rfl, rfl⟩, pushBroadcast_announces rfl rfl⟩

theorem handleEvent_refused {cmd : RCcommand} (hcmd : commandOf req.valueStr = some cmd)
    (hnext : RCFSM.next cmd c.rc.curstate = none) : c.Refuses (c.handleEvent req) := by
  unfold handleEvent
  split
  · exact ⟨⟨_, rfl, rfl⟩, rfl, rfl⟩
  · simp only [hcmd, RCFSM.process_of_next_none hnext, if_true]
    exact ⟨⟨_, rfl, rfl⟩, rfl, rfl⟩

/-- An unknown value is answered as a transition to the state that the controller is in. -/
theorem handleEvent_unknown (hmap : c.map ≠ []) (hcmd : commandOf req.valueStr = none) :
    Accepted (c.handleEvent req).1 ∧ c.Announces c.rc.curstate (c.handleEvent req) := by
  have hlen : ¬c.map.length = 0 := fun hzero => hmap (List.length_eq_zero_iff.1 hzero)
  simp only [handleEvent, hlen, hcmd, if_false, reduceCtorEq]
  exact ⟨⟨_, rfl, rfl⟩, pushBroadcast_announces rfl rfl⟩

theorem handleRequest_write (hmodule : req.module = .cnt) (hchannel : req.channel = .rc)
    (hoperation : req.operation = .write) (unicast : Request → String → Option Reply) :
    c.handleRequest unicast (some req) =
      if req.varname = "event" then c.handleEvent req
      else (.response { formatError with reason := "variable not found" }, c, []) := by
  simp only [handleRequest, hmodule, hchannel, hoperation]

theorem handleEvent_honest_iff (hvar : req.varname = "event") :
    c.Honest req (c.handleEvent req) ↔ c.map = [] ∨ (commandOf req.valueStr).isSome := by
  by_cases hmap : c.map = []
  · refine iff_of_true ((handleEvent_empty hmap).honest ?_) (.inl hmap)
    exact fun ⟨s, hs⟩ => hs.map hmap
  cases hcmd : commandOf req.valueStr with
  | none =>
    -- The answer is OK, and no command is taken.
    have hnot : ¬∃ s, c.Takes req s := by
      rintro ⟨s, hs⟩
      obtain ⟨cmd, hsome, -⟩ := hs.command
      rw [hcmd] at hsome
      cases hsome
    refine iff_of_false (fun h => hnot (h.accepted.1 (handleEvent_unknown hmap hcmd).1)) ?_
    simp [hmap]
  | some cmd =>
    refine iff_of_true ?_ (.inr rfl)
    cases hnext : RCFSM.next cmd c.rc.curstate with
    | none =>
      refine (handleEvent_refused hcmd hnext).honest ?_
      rintro ⟨s, hs⟩
      obtain ⟨cmd', hcmd', hsome⟩ := hs.command
      rw [hcmd, Option.some.injEq] at hcmd'
      rw [← hcmd', hnext] at hsome
      cases hsome
    | some s =>
      have hs : c.Takes req s := ⟨hvar, hmap, cmd, hcmd, hnext⟩
      exact (handleEvent_takes hs).2.honest hs (handleEvent_takes hs).1

/-- Whatever a request writes, the controller answers OK exactly if it moves, but for an
event of an unknown value. -/
theorem handleRequest_honest_iff (c : FzController) (unicast : Request → String → Option Reply)
    (req : Request) (hmodule : req.module = .cnt) (hchannel : req.channel = .rc)
    (hoperation : req.operation = .write) :
    c.Honest req (c.handleRequest unicast (some req)) ↔
      req.varname ≠ "event" ∨ c.map = [] ∨ (commandOf req.valueStr).isSome := by
  rw [handleRequest_write hmodule hchannel hoperation]
  by_cases hvar : req.varname = "event"
  · rw [if_pos hvar, handleEvent_honest_iff hvar]
    simp [hvar]
  · rw [if_neg hvar]
    refine iff_of_true (Refuses.honest ⟨⟨_, rfl, rfl⟩, rfl, rfl⟩ ?_) (.inl hvar)
    exact fun ⟨s, hs⟩ => hvar hs.varname

/-- A node in the controller's map, and an event written to it. -/
def oneNode : FzController :=
  { map := [("fazia0", { hostname := "fazia0", profile := "compute", status := "IDLE" })] }

def eventOf (value : String) : Request :=
  { channel := .rc, operation := .write, module := .cnt, varname := "event", value := some value }

/-- `handleRequest_honest_iff` at a configure. -/
theorem configure_honest :
    oneNode.Honest (eventOf "configure")
      (oneNode.handleRequest (fun _ _ => none) (some (eventOf "configure"))) :=
  (handleRequest_honest_iff oneNode (fun _ _ => none) (eventOf "configure") rfl rfl rfl).2
    (.inr (.inr (by decide)))

/-- A value that names no event is answered OK, and the node hears of a transition. -/
theorem unknown_event_not_honest :
    ¬oneNode.Honest (eventOf "resume")
      (oneNode.handleRequest (fun _ _ => none) (some (eventOf "resume"))) := by
  intro h
  obtain ⟨s, hs⟩ := h.accepted.1
    ⟨{ errorcode := .ok, reason := "RC transition ok" }, by decide, rfl⟩
  obtain ⟨cmd, hcmd, -⟩ := hs.command
  have hnone : commandOf (eventOf "resume").valueStr = none := by decide
  rw [hnone] at hcmd
  cases hcmd

end FzController

end FzDaq.RunControl
