/-
  PlezyRelay/Server.lean
  ======================
  **The shared state of the relay and its atomic actions.**

  A room handle (`Arc<Room>`) is an index into `heap`, which only grows, so that
  pointer equality is equality of indices and a room that has left the registry can
  still be held by a task.  `Act` lists everything a task does in one step: a section
  under one acquisition of a room's mutex, of the registry lock or of the quota
  mutex, a send on a channel, firing a cancellation token, and waiting for the
  snapshot writer.  Only `Registry::create` keeps the registry's write lock across
  several actions; `writeLock` names the task that holds it, and whoever needs the
  registry meanwhile waits.

  The snapshot writer (`snapshot::run`) is a single task with a loop of its own.  It
  is given as a transition system: `Phase` is where it is in its loop, and the list
  of rooms still to be visited and the entries built so far are its locals.  An entry
  remembers the room it was built from.

  `World` adds the history of all actions and their responses.  No action reads it;
  it is there to say what has happened to a connection or a room so far.
-/
import PlezyRelay.RoomOp
import PlezyRelay.Snapshot
import PlezyRelay.Foundation.Threads

namespace PlezyRelay

/-- A room handle. -/
abbrev RoomId := Nat

/-- The reply channel of one request to the snapshot writer. -/
abbrev Ticket := Nat

/-- The tasks: one per connection, the cleanup task (any number of sweeps may run),
    and the main task. -/
inductive Tid where
  | conn (k : Nat)
  | sweeper (n : Nat)
  | main
deriving DecidableEq

def MAX_ROOMS_PER_IP : Nat := 3
def MAX_RETAINED_ROOMS : Nat := 2000

/-! ### The snapshot writer's state -/

inductive Command where
  | mutate
  | terminal (reply : Ticket)
  | flushAndStop (reply : Ticket)
deriving DecidableEq

/-- What the writer does once a write has been settled. -/
inductive After where
  | loop
  | stop (reply : Ticket)
deriving DecidableEq

/-- Where the writer is: at the top of its loop, waiting to read the room table,
    visiting the rooms, answering waiters, or gone. -/
inductive Phase where
  | idle
  | collecting (next : After)
  | building (todo : List RoomId) (dtos : List (RoomId × RoomDto)) (next : After)
  | resolving (ok : Bool) (todo : List (Nat × Ticket)) (next : After)
  | stopped

structure Writer where
  dirtySeq : Nat := 0
  durableSeq : Nat := 0
  waiters : List (Nat × Ticket) := []
  phase : Phase := .idle

def Phase.isStopped : Phase → Bool
  | .stopped => true
  | _ => false

/-- Everything the tasks share. -/
structure Server where
  /-- Every room ever made, by handle. -/
  heap : List RoomState := []
  /-- `Registry::rooms`. -/
  rooms : AssocMap String RoomId := ∅
  roomsPerIp : AssocMap String Nat := ∅
  /-- The task that holds the registry's write lock across steps. -/
  writeLock : Option Tid := none
  /-- The writer's command channel. -/
  queue : List Command := []
  writer : Writer := {}
  /-- Replies delivered to the requesters of terminal writes: whether it succeeded. -/
  replies : AssocMap Ticket Bool := ∅
  nextTicket : Nat := 0
  /-- What this process last wrote to the state file; `none` before its first write. -/
  file : Option (List (RoomId × RoomDto)) := none
  cancelled : List CancellationToken := []
  nextToken : Nat := 0
  /-- Everything handed to a connection's outbound channel, oldest first. -/
  sent : List Outbound := []

/-! ### Actions -/

inductive Act where
  /-- `rooms.write().await`, then `rooms.get(session_id).cloned()`. -/
  | lockRooms (sessionId : String)
  | unlockRooms
  | removeRoom (sessionId : String)
  | roomsLen
  /-- `RoomState::new_room`, `Arc::new`, `rooms.insert`. -/
  | newRoom (sessionId hostPeerId : String) (hostVerifier : Verifier) (reconnectToken : String)
      (ownerIpKey : String) (admission : Admission)
  /-- `Registry::get`. -/
  | getRoom (sessionId : String)
  | allRooms
  /-- The map section of `remove_if_current`. -/
  | removeIfCurrent (room : RoomId)
  /-- The map section of `end_session`. -/
  | removeEnded (room : RoomId)
  | tryClaimRoomQuota (ownerIpKey : String)
  /-- The room is the one whose slot the caller gives back; the code only sees the key. -/
  | releaseRoomQuota (ownerIpKey : String) (room : RoomId)
  /-- One critical section of a room. -/
  | room (room : RoomId) (op : RoomOp)
  | recordMutation
  /-- The sending half of `record_terminal_mutation`; `none` once the writer is gone. -/
  | sendTerminal
  | awaitReply (reply : Ticket)
  | sendFlush
  | awaitFlush (reply : Ticket)
  | send (tx : Sender) (msg : ServerMessage)
  | cancel (token : CancellationToken)

@[reducible] def Act.Resp : Act → Type
  | .lockRooms _ | .removeRoom _ | .getRoom _ => Option RoomId
  | .roomsLen => Nat
  | .newRoom .. => RoomId × Effects
  | .allRooms => List RoomId
  | .removeIfCurrent _ | .removeEnded _ | .tryClaimRoomQuota _ => Bool
  | .room _ op => op.Result
  | .sendTerminal | .sendFlush => Option Ticket
  | .awaitReply _ | .awaitFlush _ => Bool
  | .unlockRooms | .releaseRoomQuota .. | .recordMutation | .send .. | .cancel _ => Unit

/-- What an action reads from outside the server. -/
structure Env where
  now : SystemTime := 0
  instants : String → Instant := fun _ => 0
  /-- Whether a timed wait gives up. -/
  timedOut : Bool := false

def Env.readings (e : Env) (token : CancellationToken) : Readings :=
  { now := e.now, instants := e.instants, token := token }

namespace Server

/-- `rooms.remove(session_id)` if the table still points at `room`. -/
def removeIfCurrent (s : Server) (room : RoomId) : Option (Bool × Server) :=
  if s.writeLock = none then
    match s.heap[room]? with
    | none => none
    | some state =>
        if s.rooms.lookup state.sessionId = some room then
          some (true, { s with rooms := s.rooms.erase state.sessionId })
        else some (false, s)
  else none

/-- `release_room_quota`. -/
def releaseRoomQuota (s : Server) (ownerIpKey : String) : Server :=
  match s.roomsPerIp.lookup ownerIpKey with
  | none => s
  | some count =>
      let count := if 0 < count then count - 1 else count
      { s with
        roomsPerIp :=
          if count = 0 then s.roomsPerIp.erase ownerIpKey
          else s.roomsPerIp.insert ownerIpKey count }

/-- `try_claim_room_quota`. -/
def tryClaimRoomQuota (s : Server) (ownerIpKey : String) : Bool × Server :=
  let count := (s.roomsPerIp.lookup ownerIpKey).getD 0
  if MAX_ROOMS_PER_IP ≤ count then
    (false, { s with roomsPerIp := s.roomsPerIp.insert ownerIpKey count })
  else (true, { s with roomsPerIp := s.roomsPerIp.insert ownerIpKey (count + 1) })

/-- `tx.send(command)` on the writer's channel, which is closed once it has stopped. -/
def sendCommand (s : Server) (command : Command) : Server :=
  if s.writer.phase.isStopped then s else { s with queue := s.queue ++ [command] }

/-- Sends a command with a fresh reply channel. -/
def sendRequest (s : Server) (command : Ticket → Command) : Option Ticket × Server :=
  if s.writer.phase.isStopped then (none, s)
  else
    (some s.nextTicket,
      { s with queue := s.queue ++ [command s.nextTicket], nextTicket := s.nextTicket + 1 })

variable [TokenCodec]

/-- One critical section of a room. -/
def room (s : Server) (e : Env) (r : RoomId) (op : RoomOp) : Option (op.Result × Server) :=
  match s.heap[r]? with
  | none => none
  | some state =>
      let x := op.run (e.readings ⟨s.nextToken⟩) state
      some (x.2, { s with heap := s.heap.set r x.1, nextToken := s.nextToken + 1 })

def exec (t : Tid) (a : Act) (e : Env) (s : Server) : Option (a.Resp × Server) :=
  match a with
  | .lockRooms sessionId =>
      if s.writeLock = none then
        some (s.rooms.lookup sessionId, { s with writeLock := some t })
      else none
  | .unlockRooms =>
      if s.writeLock = some t then some ((), { s with writeLock := none }) else none
  | .removeRoom sessionId =>
      if s.writeLock = some t then
        some (s.rooms.lookup sessionId, { s with rooms := s.rooms.erase sessionId })
      else none
  | .roomsLen => if s.writeLock = some t then some (s.rooms.size, s) else none
  | .newRoom sessionId hostPeerId hostVerifier reconnectToken ownerIpKey admission =>
      if s.writeLock = some t then
        let x := RoomState.newRoom sessionId hostPeerId hostVerifier reconnectToken ownerIpKey
          admission e.now ⟨s.nextToken⟩
        some ((s.heap.length, x.2),
          { s with
            heap := s.heap ++ [x.1]
            rooms := s.rooms.insert sessionId s.heap.length
            nextToken := s.nextToken + 1 })
      else none
  | .getRoom sessionId =>
      if s.writeLock = none then some (s.rooms.lookup sessionId, s) else none
  | .allRooms => if s.writeLock = none then some (s.rooms.values, s) else none
  | .removeIfCurrent r => s.removeIfCurrent r
  | .removeEnded r => s.removeIfCurrent r
  | .tryClaimRoomQuota ownerIpKey => some (s.tryClaimRoomQuota ownerIpKey)
  | .releaseRoomQuota ownerIpKey _ => some ((), s.releaseRoomQuota ownerIpKey)
  | .room r op => s.room e r op
  | .recordMutation => some ((), s.sendCommand .mutate)
  | .sendTerminal => some (s.sendRequest .terminal)
  | .awaitReply reply =>
      match s.replies.lookup reply with
      | some ok => some (ok, s)
      | none => if s.writer.phase.isStopped then some (false, s) else none
  | .sendFlush => some (s.sendRequest .flushAndStop)
  | .awaitFlush reply =>
      if e.timedOut then some (false, s)
      else
        match s.replies.lookup reply with
        | some ok => some (ok, s)
        | none => if s.writer.phase.isStopped then some (true, s) else none
  | .send tx msg => some ((), { s with sent := s.sent ++ [⟨tx, msg⟩] })
  | .cancel token => some ((), { s with cancelled := token :: s.cancelled })

end Server

/-! ### The snapshot writer's loop -/

/-- A step of the writer; `capture` reads the clocks for each reservation, and
    `persist` succeeds or fails as the file system decides. -/
inductive WriterStep where
  | recv
  | debounce
  | collect
  | capture (clock : String → Instant × SystemTime)
  | persist (ok : Bool)
  | resolve

namespace Server

variable (s : Server)

/-- One command taken from the channel. -/
def recv : Option Server :=
  match s.queue with
  | [] => none
  | .mutate :: rest =>
      some { s with queue := rest, writer := { s.writer with dirtySeq := s.writer.dirtySeq + 1 } }
  | .terminal reply :: rest =>
      some
        { s with
          queue := rest
          writer :=
            { s.writer with
              dirtySeq := s.writer.dirtySeq + 1
              waiters := s.writer.waiters ++ [(s.writer.dirtySeq + 1, reply)]
              phase := .collecting .loop } }
  | .flushAndStop reply :: rest =>
      if s.writer.durableSeq < s.writer.dirtySeq then
        some { s with queue := rest, writer := { s.writer with phase := .collecting (.stop reply) } }
      else
        some
          { s with
            queue := rest
            writer :=
              { s.writer with
                waiters := []
                phase := .resolving true s.writer.waiters (.stop reply) } }

/-- `persist_atomic` has returned: the file is replaced or as it was. -/
def persisted (ok : Bool) (dtos : List (RoomId × RoomDto)) (next : After) : Server :=
  { s with
    file := if ok then some dtos else s.file
    writer :=
      { s.writer with
        durableSeq := if ok then s.writer.dirtySeq else s.writer.durableSeq
        waiters := []
        phase := .resolving ok s.writer.waiters next } }

/-- One round of the loop in `resolve_waiters`. -/
def resolveOne (ok : Bool) (waiter : Nat × Ticket) (todo : List (Nat × Ticket)) (next : After) :
    Server :=
  if waiter.1 ≤ s.writer.durableSeq ∨ ok = false then
    { s with
      replies := s.replies.insert waiter.2 ok
      writer := { s.writer with phase := .resolving ok todo next } }
  else
    { s with
      writer :=
        { s.writer with
          waiters := s.writer.waiters ++ [waiter]
          phase := .resolving ok todo next } }

/-- All waiters have been looked at: back to the loop, or answer and stop. -/
def resolved (ok : Bool) : After → Server
  | .loop => { s with writer := { s.writer with phase := .idle } }
  | .stop reply =>
      { s with
        queue := []
        replies := s.replies.insert reply ok
        writer := { s.writer with phase := .stopped } }

variable [TokenCodec]

/-- The entry the writer adds for a room: none once it is closing. -/
def captured (clock : String → Instant × SystemTime) (r : RoomId) (state : RoomState) :
    List (RoomId × RoomDto) :=
  if state.closing then [] else [(r, buildRoomDto clock state)]

def writerStep (m : WriterStep) : Option Server :=
  match m, s.writer.phase with
  | .recv, .idle => s.recv
  | .debounce, .idle =>
      if s.writer.durableSeq < s.writer.dirtySeq then
        some { s with writer := { s.writer with phase := .collecting .loop } }
      else none
  | .collect, .collecting next =>
      if s.writeLock = none then
        some { s with writer := { s.writer with phase := .building s.rooms.values [] next } }
      else none
  | .capture clock, .building (r :: todo) dtos next =>
      match s.heap[r]? with
      | none => none
      | some state =>
          some
            { s with
              writer :=
                { s.writer with
                  phase := .building todo (dtos ++ captured clock r state) next } }
  | .persist ok, .building [] dtos next => some (s.persisted ok dtos next)
  | .resolve, .resolving ok (waiter :: todo) next => some (s.resolveOne ok waiter todo next)
  | .resolve, .resolving ok [] next => some (s.resolved ok next)
  | _, _ => none

/-- `Registry::build_snapshot` taken at once: the entries of the registered rooms that
    are not closing. -/
def buildSnapshot (clock : String → Instant × SystemTime) : List (RoomId × RoomDto) :=
  s.rooms.values.flatMap fun r =>
    match s.heap[r]? with
    | none => []
    | some state => captured clock r state

/-- `Registry::restore` at startup. -/
def restore (restored : List RestoredRoom) : Server :=
  restored.foldl
    (fun s r =>
      { s with
        heap := s.heap ++ [r.state]
        rooms := s.rooms.insert r.sessionId s.heap.length
        roomsPerIp := s.roomsPerIp.insert "" ((s.roomsPerIp.lookup "").getD 0 + 1) })
    s

end Server

/-! ### History -/

/-- One action of one task, with the response it got. -/
structure Event where
  thread : Tid
  act : Act
  resp : act.Resp

/-- The shared state together with what has happened so far, latest first. -/
structure World where
  server : Server
  history : List Event

variable [TokenCodec]

def World.exec (t : Tid) (a : Act) (e : Env) (w : World) : Option (a.Resp × World) :=
  (w.server.exec t a e).map fun x => (x.1, ⟨x.2, ⟨t, a, x.1⟩ :: w.history⟩)

def World.writerStep (m : WriterStep) (w : World) : Option World :=
  (w.server.writerStep m).map fun s => ⟨s, w.history⟩

end PlezyRelay
