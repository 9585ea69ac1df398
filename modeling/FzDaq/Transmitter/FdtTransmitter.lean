import FzDaq.Machine.Frames
import FzDaq.Transmitter.MfmFrame
import FzDaq.Transmitter.Tcp

/-!
# The transmitter

Every event set that the spy gets is sent on in one frame. When a frame cannot be sent, the
event is lost and one try is made to connect again; if it fails, the next event is lost too
and gives the next try. The server cuts what comes in on each connection by the size in the
frames, so a lost event must not shift the frames behind it.
-/

namespace FzDaq.Transmitter

open FzDaq.Machine FzDaq.Parser

/-- `fdtTransmitter`, with what has been put on its connections. -/
structure FdtTransmitter where
  past : List (List UInt8) := []
  /-- `ConnectionSocket`; `none` for -1. -/
  connectionSocket : Option (List UInt8) := none
  deriving DecidableEq, Repr

namespace FdtTransmitter

/-- All connections, the open one last. -/
def connections (trm : FdtTransmitter) : List (List UInt8) :=
  trm.past ++ trm.connectionSocket.toList

def isConnected (trm : FdtTransmitter) : Bool := trm.connectionSocket.isSome

def disconnect (trm : FdtTransmitter) : FdtTransmitter :=
  if trm.isConnected then { past := trm.connections, connectionSocket := none }
  else { trm with connectionSocket := none }

/-- `opened` says if `TcpOpen` returns OK. -/
def connect (trm : FdtTransmitter) (opened : Bool) : FdtTransmitter :=
  if opened then { trm.disconnect with connectionSocket := some [] } else trm.disconnect

/-- Without a connection the descriptor is -1: nothing is written, and `::send` fails with
`EBADF`. -/
def send (trm : FdtTransmitter) (address : List UInt8) (answers : List Answer) :
    FdtTransmitter × TcpError :=
  match trm.connectionSocket with
  | none => (trm, .rTcpWrite)
  | some sent =>
    let r := tcpWrite address answers
    ({ trm with connectionSocket := some (sent ++ r.1) }, r.2)

end FdtTransmitter

/-- A message of the spy, and what the network does while it is sent on. -/
structure Turn where
  message : List UInt8
  /-- The events of the set, if `ParseFromArray` succeeds. `ByteSize()` is then the length of
  the message. -/
  evs : Option (List FzEvent)
  /-- The byte behind the message. -/
  behind : UInt8 := 0
  answers : List Answer
  opened : Bool := false

/-- A call of `send` in `main`: if there was a connection, and the code. -/
structure Call where
  turn : Turn
  connected : Bool
  code : TcpError

/-- What the loop of `main` keeps from turn to turn. -/
structure Main where
  trm : FdtTransmitter
  mfmevent : Nat → UInt8

namespace Main

/-- `none` when there is no first event to take the stamp of, and when the frame does not fit
the buffer. -/
def turn (m : Main) (t : Turn) : Option (Main × List Call) :=
  match t.evs with
  | none => some (m, [])
  | some [] => none
  | some (ev :: _) =>
    if mfmeventsize t.message.length > 0x400000 then none
    else
      let frame := mfmFrame m.mfmevent t.message.length ev t.message t.behind
      let r := m.trm.send frame t.answers
      some ({ trm := if r.2 = .ok then r.1 else r.1.connect t.opened
              mfmevent := fun i => (frame[i]?).getD (m.mfmevent i) },
        [{ turn := t, connected := m.trm.isConnected, code := r.2 }])

/-- The turns of the loop, with all calls of `send`. -/
def run (m : Main) : List Turn → Option (Main × List Call)
  | [] => some (m, [])
  | t :: ts => do
    let (m, calls) ← m.turn t
    let (m, calls') ← m.run ts
    return (m, calls ++ calls')

end Main

/-! ## What the server gets -/

/-- The size in the header, in bytes. -/
def frameSize (xs : List UInt8) : Option Nat :=
  if xs.length < 4 then none else some (ofBigEndian ((xs.drop 1).take 3) * 2)

/-- The data of a frame. -/
def frameData (f : List UInt8) : List UInt8 :=
  (f.drop 24).take (ofLittleEndian ((f.drop 20).take 4))

theorem frameSize_stable : Stable frameSize := by
  intro xs ys n h
  unfold frameSize at h ⊢
  split at h
  · contradiction
  · rename_i hlen
    rw [if_neg (by rw [List.length_append]; omega), List.drop_append_of_le_length (by omega),
      List.take_append_of_le_length (by rw [List.length_drop]; omega)]
    exact h

variable {mfmevent : Nat → UInt8} {ev : FzEvent} {message : List UInt8} {behind : UInt8}

theorem mfmFrame_announced (hsize : mfmeventsize message.length ≤ 0x400000) :
    Announced frameSize (mfmFrame mfmevent message.length ev message behind) := by
  have hge := mfmeventsize_ge message.length
  have heven : mfmeventsize message.length / 2 * 2 = mfmeventsize message.length := by
    unfold mfmeventsize
    split <;> omega
  refine ⟨?_, by rw [length_mfmFrame]; omega⟩
  rw [frameSize, if_neg (by rw [length_mfmFrame]; omega), mfmFrame_size hsize, heven,
    length_mfmFrame]

theorem frameData_mfmFrame (hsize : mfmeventsize message.length ≤ 0x400000) :
    frameData (mfmFrame mfmevent message.length ev message behind) = message := by
  have hge := mfmeventsize_ge message.length
  rw [frameData, mfmFrame_length_field (by omega), mfmFrame_data]

namespace Turn

/-- The frame of an event; it is the same for every content of the buffer. -/
def frame (t : Turn) : List UInt8 :=
  match t.evs with
  | some (ev :: _) => mfmFrame (fun _ => 0) t.message.length ev t.message t.behind
  | _ => []

/-- The message is an event set. -/
def parsed (t : Turn) : Bool := t.evs.isSome

/-- The set has an event, and the frame fits the buffer. -/
def Fits (t : Turn) : Prop := t.evs ≠ some [] ∧
  (t.parsed → mfmeventsize t.message.length ≤ 0x400000)

end Turn

namespace Call

def sent (c : Call) : Bool := c.code == .ok

/-- The event is lost, and the connection is given up. -/
def breaks (c : Call) : Bool := c.connected && !c.sent

/-- What has been put on the connection of the frame. -/
def written (c : Call) : List UInt8 :=
  if c.connected then (tcpWrite c.turn.frame c.turn.answers).1 else []

end Call

variable {m m' : Main} {trm : FdtTransmitter} {t : Turn} {ts : List Turn} {calls : List Call}

/-- An event that fits has an even frame, and its message is in it. -/
theorem Turn.Fits.frame_spec (h : t.Fits) (hparsed : t.parsed) :
    Announced frameSize t.frame ∧ frameData t.frame = t.message := by
  have hsize := h.2 hparsed
  rcases hevs : t.evs with _ | _ | ⟨ev, evs⟩
  · rw [Turn.parsed, hevs] at hparsed
    contradiction
  · exact absurd hevs h.1
  · rw [Turn.frame, hevs]
    exact ⟨mfmFrame_announced hsize, frameData_mfmFrame hsize⟩

namespace FdtTransmitter

/-- The call for an event. -/
def call (trm : FdtTransmitter) (t : Turn) : Call where
  turn := t
  connected := trm.isConnected
  code := (trm.send t.frame t.answers).2

/-- The transmitter behind it. -/
def after (trm : FdtTransmitter) (t : Turn) : FdtTransmitter :=
  let r := trm.send t.frame t.answers
  if r.2 = .ok then r.1 else r.1.connect t.opened

end FdtTransmitter

/-! ## One turn -/

theorem turn_unparsed (hparsed : t.parsed = false) : m.turn t = some (m, []) := by
  have hevs : t.evs = none := Option.not_isSome_iff_eq_none.1 (by simpa [Turn.parsed] using hparsed)
  rw [Main.turn, hevs]

theorem turn_parsed (hparsed : t.parsed) (hfits : t.Fits) :
    ∃ m', m.turn t = some (m', [m.trm.call t]) ∧ m'.trm = m.trm.after t := by
  rcases hevs : t.evs with _ | _ | ⟨ev, evs⟩
  · rw [Turn.parsed, hevs] at hparsed
    contradiction
  · exact absurd hevs hfits.1
  have hframe : mfmFrame m.mfmevent t.message.length ev t.message t.behind = t.frame := by
    rw [Turn.frame, hevs]
    exact mfmFrame_set ..
  rw [Main.turn, hevs]
  dsimp only
  rw [hframe, if_neg (Nat.not_lt.2 (hfits.2 hparsed))]
  exact ⟨_, rfl, rfl⟩

theorem turn_unfit (hparsed : t.parsed) (hfits : ¬t.Fits) : m.turn t = none := by
  rcases hevs : t.evs with _ | _ | ⟨ev, evs⟩
  · rw [Turn.parsed, hevs] at hparsed
    contradiction
  · rw [Main.turn, hevs]
  · have hsize : mfmeventsize t.message.length > 0x400000 :=
      Nat.lt_of_not_le fun hle => hfits ⟨by rw [hevs]; simp, fun _ => hle⟩
    rw [Main.turn, hevs]
    exact if_pos hsize

theorem turn_cases {new : List Call} (h : m.turn t = some (m', new)) :
    (t.parsed = false ∧ m' = m ∧ new = []) ∨
      (t.parsed ∧ t.Fits ∧ m'.trm = m.trm.after t ∧ new = [m.trm.call t]) := by
  cases hparsed : t.parsed with
  | false =>
    obtain ⟨rfl, rfl⟩ := Prod.mk.inj (Option.some.inj ((turn_unparsed hparsed).symm.trans h))
    exact .inl ⟨rfl, rfl, rfl⟩
  | true =>
    by_cases hfits : t.Fits
    · obtain ⟨m₁, hturn, hafter⟩ := turn_parsed (m := m) hparsed hfits
      obtain ⟨rfl, rfl⟩ := Prod.mk.inj (Option.some.inj (hturn.symm.trans h))
      exact .inr ⟨rfl, hfits, hafter, rfl⟩
    · rw [turn_unfit hparsed hfits] at h
      contradiction

theorem run_cons_cases (h : m.run (t :: ts) = some (m', calls)) :
    ∃ m₁ new rest, m.turn t = some (m₁, new) ∧ m₁.run ts = some (m', rest) ∧
      calls = new ++ rest := by
  simp only [Main.run, Option.bind_eq_bind, Option.bind_eq_some_iff, Option.pure_def,
    Option.some.injEq, Prod.mk.injEq, Prod.exists] at h
  obtain ⟨m₁, new, hturn, m₂, rest, hrun, rfl, rfl⟩ := h
  exact ⟨m₁, new, rest, hturn, hrun, rfl⟩

/-- After `connect` the old connection is closed, with what was put on it. -/
theorem connect_spec (trm : FdtTransmitter) (opened : Bool) :
    (trm.connect opened).past = trm.connections ∧
      (trm.connect opened).connectionSocket = if opened then some [] else none := by
  rcases trm with ⟨past, _ | c⟩ <;> cases opened <;>
    simp [FdtTransmitter.connect, FdtTransmitter.disconnect, FdtTransmitter.isConnected,
      FdtTransmitter.connections]

/-- Every closed connection ends with the part of a lost event; in front of these parts are the
frames of the events that have been sent. -/
structure Delivers (calls : List Call) (trm : FdtTransmitter) (old : List (Session frameSize))
    (now : List (List UInt8)) : Prop where
  past : trm.past = old.map Session.stream
  announced : ∀ f ∈ now, Announced frameSize f
  socket : trm.connectionSocket = none ∧ now = [] ∨ trm.connectionSocket = some now.flatten
  frames : old.flatMap Session.frames ++ now =
    (calls.filter Call.sent).map fun c => c.turn.frame
  parts : old.map Session.part = (calls.filter Call.breaks).map Call.written

variable {old : List (Session frameSize)} {now : List (List UInt8)}

theorem Delivers.now_eq {c : List UInt8} (hd : Delivers calls trm old now)
    (hc : trm.connectionSocket = some c) : c = now.flatten := by
  rcases hd.socket with ⟨hnone, -⟩ | hsome
  · rw [hc] at hnone
    contradiction
  · exact Option.some.inj (hc.symm.trans hsome)

/-- Without a connection the event is lost, and leaves nothing behind. -/
theorem Delivers.closed (hd : Delivers calls trm old now)
    (hnone : trm.connectionSocket = none) :
    Delivers (calls ++ [trm.call t]) (trm.after t) old [] := by
  have hnow : now = [] := by
    rcases hd.socket with ⟨-, hnow⟩ | hsome
    · exact hnow
    · rw [hnone] at hsome
      contradiction
  subst hnow
  have hsend : trm.send t.frame t.answers = (trm, .rTcpWrite) := by
    rw [FdtTransmitter.send, hnone]
  have hsent : (trm.call t).sent = false := by rw [Call.sent, FdtTransmitter.call, hsend]; rfl
  have hbreaks : (trm.call t).breaks = false := by
    rw [Call.breaks, FdtTransmitter.call, FdtTransmitter.isConnected, hnone]
    rfl
  have hafter : trm.after t = trm.connect t.opened := by
    unfold FdtTransmitter.after
    rw [hsend]
    rfl
  obtain ⟨hpast, hsocket⟩ := connect_spec trm t.opened
  have hconns : trm.connections = trm.past := by simp [FdtTransmitter.connections, hnone]
  rw [hafter]
  refine ⟨hpast.trans (hconns.trans hd.past), by simp, ?_, ?_, ?_⟩
  · rw [hsocket]
    cases t.opened
    · exact .inl ⟨rfl, rfl⟩
    · exact .inr rfl
  · rw [hd.frames, List.filter_append]
    simp [hsent]
  · rw [hd.parts, List.filter_append]
    simp [hbreaks]

theorem Delivers.sent {c : List UInt8} (hd : Delivers calls trm old now) (hparsed : t.parsed)
    (hfits : t.Fits) (hc : trm.connectionSocket = some c)
    (hok : (tcpWrite t.frame t.answers).2 = .ok) :
    Delivers (calls ++ [trm.call t]) (trm.after t) old (now ++ [t.frame]) := by
  have hann := (hfits.frame_spec hparsed).1
  obtain ⟨rest, hframe, hcode⟩ := tcpWrite_spec (List.length_pos_iff.1 hann.pos) t.answers
  obtain rfl := hcode.2 hok
  rw [List.append_nil] at hframe
  have hsend : trm.send t.frame t.answers =
      ({ trm with connectionSocket := some (c ++ t.frame) }, .ok) := by
    rw [FdtTransmitter.send, hc]
    dsimp only
    rw [← hframe, hok]
  have hsent : (trm.call t).sent = true := by rw [Call.sent, FdtTransmitter.call, hsend]; rfl
  have hbreaks : (trm.call t).breaks = false := by
    rw [Call.breaks, hsent]
    exact Bool.and_false _
  have hafter : trm.after t = { trm with connectionSocket := some (c ++ t.frame) } := by
    unfold FdtTransmitter.after
    rw [hsend]
    rfl
  rw [hafter]
  refine ⟨hd.past, ?_, .inr ?_, ?_, ?_⟩
  · intro f hf
    rcases List.mem_append.1 hf with hf | hf
    · exact hd.announced f hf
    · rw [List.mem_singleton.1 hf]
      exact hann
  · dsimp only
    rw [hd.now_eq hc, List.flatten_append, List.flatten_singleton]
  · rw [← List.append_assoc, hd.frames, List.filter_append, List.map_append]
    simp only [List.filter_singleton, hsent, Bool.cond_true, List.map_singleton]
    rfl
  · rw [hd.parts, List.filter_append]
    simp [hbreaks]

/-- A write that fails closes the connection, and leaves the beginning of the frame on it. -/
theorem Delivers.broken {c : List UInt8} (hd : Delivers calls trm old now) (hparsed : t.parsed)
    (hfits : t.Fits) (hc : trm.connectionSocket = some c)
    (hcode : (tcpWrite t.frame t.answers).2 ≠ .ok) :
    ∃ s, Delivers (calls ++ [trm.call t]) (trm.after t) (old ++ [s]) [] := by
  have hann := (hfits.frame_spec hparsed).1
  obtain ⟨rest, hframe, hrest⟩ := tcpWrite_spec (List.length_pos_iff.1 hann.pos) t.answers
  have hparts : Announced frameSize ((tcpWrite t.frame t.answers).1 ++ rest) := by
    rw [← hframe]
    exact hann
  have hcut : cutFrames frameSize (tcpWrite t.frame t.answers).1 =
      ([], (tcpWrite t.frame t.answers).1) :=
    cutFrames_part frameSize_stable hparts (mt hrest.1 hcode)
  have hsend : trm.send t.frame t.answers =
      ({ trm with connectionSocket := some (c ++ (tcpWrite t.frame t.answers).1) },
        (tcpWrite t.frame t.answers).2) := by
    rw [FdtTransmitter.send, hc]
  have hsent : (trm.call t).sent = false := by
    rw [Call.sent, FdtTransmitter.call, hsend]
    simpa using hcode
  have hconn : (trm.call t).connected = true := by
    rw [FdtTransmitter.call, FdtTransmitter.isConnected, hc]
    rfl
  have hbreaks : (trm.call t).breaks = true := by rw [Call.breaks, hsent, hconn]; rfl
  have hwritten : (trm.call t).written = (tcpWrite t.frame t.answers).1 := by
    rw [Call.written, hconn]
    rfl
  have hafter : trm.after t = FdtTransmitter.connect
      { trm with connectionSocket := some (c ++ (tcpWrite t.frame t.answers).1) } t.opened := by
    unfold FdtTransmitter.after
    rw [hsend]
    exact if_neg hcode
  obtain ⟨hpast, hsocket⟩ := connect_spec
    { trm with connectionSocket := some (c ++ (tcpWrite t.frame t.answers).1) } t.opened
  refine ⟨⟨now, (tcpWrite t.frame t.answers).1, hd.announced, hcut⟩, ?_⟩
  rw [hafter]
  refine ⟨?_, by simp, ?_, ?_, ?_⟩
  · rw [hpast, List.map_append, ← hd.past, hd.now_eq hc]
    rfl
  · rw [hsocket]
    cases t.opened
    · exact .inl ⟨rfl, rfl⟩
    · exact .inr rfl
  · rw [List.flatMap_append, List.append_nil, List.filter_append, List.map_append, ← hd.frames]
    simp [hsent]
  · rw [List.map_append, hd.parts, List.filter_append, List.map_append]
    simp [hbreaks, hwritten]

theorem Delivers.after (hd : Delivers calls trm old now) (hparsed : t.parsed) (hfits : t.Fits) :
    ∃ old now, Delivers (calls ++ [trm.call t]) (trm.after t) old now := by
  rcases hc : trm.connectionSocket with _ | c
  · exact ⟨_, _, hd.closed hc⟩
  by_cases hok : (tcpWrite t.frame t.answers).2 = .ok
  · exact ⟨_, _, hd.sent hparsed hfits hc hok⟩
  · obtain ⟨s, hs⟩ := hd.broken hparsed hfits hc hok
    exact ⟨_, _, hs⟩

theorem Delivers.run {before : List Call} (hd : Delivers before m.trm old now)
    (h : m.run ts = some (m', calls)) :
    (∃ old now, Delivers (before ++ calls) m'.trm old now) ∧
      calls.map Call.turn = ts.filter Turn.parsed ∧
      ∀ c ∈ calls, ∃ trm t, c = FdtTransmitter.call trm t ∧ t.parsed ∧ t.Fits := by
  induction ts generalizing m before old now calls with
  | nil =>
    obtain ⟨rfl, rfl⟩ := Prod.mk.inj (Option.some.inj h)
    rw [List.append_nil]
    exact ⟨⟨old, now, hd⟩, rfl, by simp⟩
  | cons t ts ih =>
    obtain ⟨m₁, new, rest, hturn, hrun, rfl⟩ := run_cons_cases h
    rcases turn_cases hturn with ⟨hparsed, rfl, rfl⟩ | ⟨hparsed, hfits, hafter, rfl⟩
    · rw [List.filter_cons_of_neg (by simp [hparsed])]
      exact ih hd hrun
    · obtain ⟨old₁, now₁, hd₁⟩ := hd.after hparsed hfits
      rw [← hafter] at hd₁
      obtain ⟨hend, hturns, hall⟩ := ih hd₁ hrun
      rw [List.append_assoc] at hend
      rw [List.filter_cons_of_pos hparsed]
      exact ⟨hend, congrArg (t :: ·) hturns,
        List.forall_mem_cons.2 ⟨⟨_, t, rfl, hparsed, hfits⟩, hall⟩⟩

/-- The loop starts when the first `connect` has returned OK. -/
def Main.connected (mfmevent : Nat → UInt8) : Main :=
  { trm := FdtTransmitter.connect {} true, mfmevent }

theorem Main.delivers_connected (mfmevent : Nat → UInt8) :
    Delivers [] (Main.connected mfmevent).trm [] [] :=
  ⟨rfl, by simp, .inr rfl, rfl, rfl⟩

theorem written_prefix (hfits : t.Fits) (hparsed : t.parsed)
    (hlost : (trm.call t).sent = false) :
    (trm.call t).written <+: t.frame ∧ (trm.call t).written ≠ t.frame := by
  have hne := List.length_pos_iff.1 (hfits.frame_spec hparsed).1.pos
  rcases hc : trm.connectionSocket with _ | c
  · have hwritten : (trm.call t).written = [] := by
      rw [Call.written, FdtTransmitter.call, FdtTransmitter.isConnected, hc]
      rfl
    rw [hwritten]
    exact ⟨List.nil_prefix, hne.symm⟩
  · have hwritten : (trm.call t).written = (tcpWrite t.frame t.answers).1 := by
      rw [Call.written, FdtTransmitter.call, FdtTransmitter.isConnected, hc]
      rfl
    obtain ⟨rest, hframe, hcode⟩ := tcpWrite_spec hne t.answers
    rw [hwritten]
    refine ⟨⟨rest, hframe.symm⟩, fun heq => ?_⟩
    rw [heq] at hframe
    have hok := hcode.1 (List.append_cancel_left (hframe.symm.trans (List.append_nil _).symm))
    rw [Call.sent, FdtTransmitter.call, FdtTransmitter.send, hc] at hlost
    simp [hok] at hlost

/-- In every run of the loop, whatever happens to the connections: the server gets the
messages that have been sent with OK, each once and in order, and for each connection that was
given up a part of the event that was lost on it. That part stays alone at the end of its
connection. -/
theorem run_serves (mfmevent : Nat → UInt8)
    (h : (Main.connected mfmevent).run ts = some (m, calls)) :
    calls.map Call.turn = ts.filter Turn.parsed ∧
      (m.trm.connections.flatMap fun c => (cutFrames frameSize c).1.map frameData) =
        ((calls.filter Call.sent).map fun c => c.turn.message) ∧
      (m.trm.past.map fun c => (cutFrames frameSize c).2) =
        (calls.filter Call.breaks).map Call.written ∧
      (∀ c ∈ calls, c.sent = false → c.written <+: c.turn.frame ∧ c.written ≠ c.turn.frame) ∧
      ∀ c ∈ m.trm.connectionSocket, (cutFrames frameSize c).2 = [] := by
  obtain ⟨⟨old, now, hd⟩, hturns, hcalls⟩ := (Main.delivers_connected mfmevent).run h
  rw [List.nil_append] at hd
  have hnone : cutFrames frameSize ([] : List UInt8) = ([], []) := cutFrames_nil rfl
  have hopen : cutFrames frameSize now.flatten = (now, []) := by
    have hcut := cutFrames_flatten frameSize_stable hd.announced hnone
    rwa [List.append_nil] at hcut
  refine ⟨hturns, ?_, ?_, ?_, ?_⟩
  · have hsocket : (m.trm.connectionSocket.toList.flatMap fun c =>
        (cutFrames frameSize c).1) = now := by
      rcases hd.socket with ⟨hsome, rfl⟩ | hsome
      · rw [hsome]
        rfl
      · rw [hsome]
        simp [hopen]
    have hall : (m.trm.connections.flatMap fun c => (cutFrames frameSize c).1) =
        (calls.filter Call.sent).map fun c => c.turn.frame := by
      rw [FdtTransmitter.connections, List.flatMap_append, hsocket, hd.past,
        Session.flatMap_stream frameSize_stable, hd.frames]
    rw [← List.map_flatMap, hall, List.map_map]
    refine List.map_congr_left fun c hc => ?_
    obtain ⟨trm, t, rfl, hparsed, hfits⟩ := hcalls c (List.mem_filter.1 hc).1
    exact (hfits.frame_spec hparsed).2
  · rw [hd.past, List.map_map, ← hd.parts]
    refine List.map_congr_left fun s _ => ?_
    exact congrArg Prod.snd (s.cutFrames_stream frameSize_stable)
  · intro c hc hlost
    obtain ⟨trm, t, rfl, hparsed, hfits⟩ := hcalls c hc
    exact written_prefix hfits hparsed hlost
  · intro c hc
    obtain rfl := hd.now_eq hc
    rw [hopen]

/-- Two lost events, of which the second one finds no connection, between two that are sent,
and a message that is none. -/
def fiveTurns : List Turn :=
  [{ message := [1, 2, 3], evs := some [{}], answers := [.moved 20, .moved 20] },
    { message := [4, 5], evs := some [{}], answers := [.moved 7, .failed] },
    { message := [7], evs := some [{}], answers := [], opened := true },
    { message := [9], evs := none, answers := [] },
    { message := [6], evs := some [{}], answers := [.moved 0x8000] }]

/-- `run_serves` on them. -/
theorem fiveTurns_serves : ∃ m calls,
    (Main.connected fun _ => 0xFF).run fiveTurns = some (m, calls) ∧
      calls.map Call.code = [.ok, .rTcpWrite, .rTcpWrite, .ok] ∧
      (m.trm.connections.flatMap fun c => (cutFrames frameSize c).1.map frameData) =
        ((calls.filter Call.sent).map fun c => c.turn.message) := by
  have hcodes : ((Main.connected fun _ => 0xFF).run fiveTurns).map (fun r => r.2.map Call.code) =
      some [.ok, .rTcpWrite, .rTcpWrite, .ok] := by decide +kernel
  obtain ⟨⟨m, calls⟩, hrun, hcodes⟩ := Option.map_eq_some_iff.1 hcodes
  exact ⟨m, calls, hrun, hcodes, (run_serves _ hrun).2.1⟩

/-! ## Outages -/

end FzDaq.Transmitter
