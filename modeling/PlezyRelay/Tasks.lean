/-
  PlezyRelay/Tasks.lean
  =====================
  **The tasks of the relay** — the asynchronous code of `room.rs`, `registry.rs`,
  `snapshot.rs`, `cleanup.rs` and `connection.rs`, as programs of atomic actions.

  Every `.await` on a lock or on the writer's reply is an action; what a task does
  between two of them is plain computation on its locals.  The branches keep the
  order of the source.

  A connection's locals between two frames are a `Connection`; a handler returns the
  locals it leaves behind, which nobody else reads.  Decoding a frame,
  its size limit and the rate limiter only decide which of the four kinds of `Frame`
  the loop sees, so any of them may come at any time; likewise the loop may end at
  any time (a close frame, a socket error, the deadline, or the fired cancellation
  token).
-/
import PlezyRelay.Server

namespace PlezyRelay

abbrev Task := Proc Act Act.Resp

abbrev perform (a : Act) : Task a.Resp := Proc.perform a

open Proc (forEach)

variable [TokenCodec]

/-! ### `snapshot.rs`: the handle -/

/-- Whether the write became durable. -/
def recordTerminalMutation : Task Bool := do
  match ← perform .sendTerminal with
  | none => pure false
  | some reply => perform (.awaitReply reply)

/-- Whether the flush returned `Ok`. -/
def flushAndStop : Task Bool := do
  match ← perform .sendFlush with
  | none => pure true
  | some reply => perform (.awaitFlush reply)

/-! ### `room.rs`: the two-phase leave -/

def Room.leave (room : RoomId) (peerId : String) (connId : Nat) (token : String)
    (protocolVersion : Nat) : Task Effects := do
  match ← perform (.room room (.beginLeave peerId connId token protocolVersion)) with
  | .error effects => pure effects
  | .ok () =>
      let persisted ← recordTerminalMutation
      perform (.room room (.finishLeave peerId connId persisted))

/-! ### `registry.rs` -/

namespace Registry

def removeIfCurrent (room : RoomId) : Task Bool := do
  if ← perform (.removeIfCurrent room) then
    let ownerIpKey ← perform (.room room .ownerIpKey)
    perform (.releaseRoomQuota ownerIpKey room)
    pure true
  else pure false

/-- The end of `create`, reached with the lock held and no room under the id. -/
def createFresh (sessionId hostPeerId : String) (hostVerifier : Verifier)
    (presentedToken ownerIpKey : String) (admission : Admission) :
    Task (Option RoomId × Effects) := do
  if MAX_RETAINED_ROOMS ≤ (← perform .roomsLen) then
    perform .unlockRooms
    pure (none, Effects.error .rateLimited "Too many retained rooms")
  else if ← perform (.tryClaimRoomQuota ownerIpKey) then
    let (room, effects) ← perform
      (.newRoom sessionId hostPeerId hostVerifier presentedToken ownerIpKey admission)
    perform .unlockRooms
    perform .recordMutation
    pure (some room, effects)
  else
    perform .unlockRooms
    pure (none, Effects.error .rateLimited "Too many rooms created")

/-- The idempotent branch of `create`: the caller is the host of the room. -/
def createReconnect (existing : RoomId) (presentedToken : String) (admission : Admission) :
    Task (Option RoomId × Effects) := do
  let effects ← perform (.room existing (.reconnectHost admission presentedToken))
  perform .unlockRooms
  perform .recordMutation
  pure (some existing, effects)

/-- The reclaim branch of `create`: the room is closed and taken out of the table. -/
def createReclaim (existing : RoomId) (sessionId hostPeerId : String) (hostVerifier : Verifier)
    (presentedToken ownerIpKey : String) (admission : Admission) :
    Task (Option RoomId × Effects) := do
  let oldOwner ← perform (.room existing .ownerIpKey)
  perform (.room existing .markClosing)
  let _ ← perform (.removeRoom sessionId)
  perform (.releaseRoomQuota oldOwner existing)
  createFresh sessionId hostPeerId hostVerifier presentedToken ownerIpKey admission

def create (sessionId hostPeerId presentedToken ownerIpKey : String) (admission : Admission) :
    Task (Option RoomId × Effects) :=
  match Verifier.fromToken presentedToken with
  | none => pure (none, Effects.error .invalidMessage "Invalid reconnect token")
  | some hostVerifier => do
      match ← perform (.lockRooms sessionId) with
      | none =>
          createFresh sessionId hostPeerId hostVerifier presentedToken ownerIpKey admission
      | some existing =>
          if ← perform (.room existing (.isIdempotent hostPeerId hostVerifier)) then
            createReconnect existing presentedToken admission
          else if ← perform (.room existing .isReclaimable) then
            createReclaim existing sessionId hostPeerId hostVerifier presentedToken ownerIpKey
              admission
          else
            perform .unlockRooms
            pure (none, Effects.error .roomExists "Room already exists")

def endSession (room : RoomId) (peerId : String) (connId : Nat) (token : String)
    (protocolVersion : Nat) : Task Effects := do
  match ← perform (.room room (.beginEndSession peerId connId token protocolVersion)) with
  | .error effects => pure effects
  | .ok (ownerIpKey, guests) =>
      let _ ← perform (.removeEnded room)
      perform (.releaseRoomQuota ownerIpKey room)
      let persisted ← recordTerminalMutation
      perform (.room room (.finishEndSession guests persisted))

end Registry

/-! ### `cleanup.rs` -/

/-- The body of the sweep's loop. -/
def sweepOne (now : SystemTime) (room : RoomId) : Task Unit := do
  let (remove, changed, evict) ← perform (.room room (.sweep now))
  Proc.when remove do
    let _ ← Registry.removeIfCurrent room
    pure ()
  Proc.when changed (perform .recordMutation)
  forEach (fun token => perform (.cancel token)) evict

def sweep (now : SystemTime) : Task Unit := do
  let rooms ← perform .allRooms
  forEach (sweepOne now) rooms

/-! ### `connection.rs` -/

/-- The locals of `connection::run`. -/
structure Connection where
  tx : Sender
  ip : String
  currentRoom : Option RoomId := none
  currentPeerId : String := ""
  currentConnId : Nat := 0
  currentCancel : Option CancellationToken := none
deriving DecidableEq

/-- What the read loop gets from the socket. -/
inductive Frame where
  /-- Ping, pong, binary, or too long. -/
  | ignored
  /-- Refused by the rate limiter. -/
  | limited
  /-- Not a client message. -/
  | malformed
  | message (msg : ClientMessage)

def protocolMismatch : ServerMessage :=
  { msgType := .error
    code := some ClientError.protocolMismatch.code
    message := some "Unsupported relay protocol version"
    protocolVersion := RELAY_PROTOCOL_VERSION }

def applyEffects (tx : Sender) (effects : Effects) : Task Unit := do
  forEach (fun reply => perform (.send tx reply)) effects.reply.toList
  forEach (fun outbound : Outbound => perform (.send outbound.tx outbound.msg)) effects.broadcast
  forEach (fun token => perform (.cancel token)) effects.evict
  Proc.when effects.dirty (perform .recordMutation)

namespace Connection

variable (self : Connection)

/-- The connection is sent a message and keeps its locals. -/
def answer (reply : ServerMessage) : Task Connection := do
  perform (.send self.tx reply)
  pure self

def admission (msg : ClientMessage) : Admission :=
  { peerId := msg.peerId
    tx := self.tx
    syncProtocolVersion := msg.syncProtocolVersion
    hostTransferCapable := msg.capabilities.any (· == HOST_TRANSFER) }

/-- The locals after an attempt to enter a room. -/
def entered (msg : ClientMessage) (room : Option RoomId) (effects : Effects) : Connection :=
  match room, effects.assignedConnId with
  | some room, some connId =>
      { self with
        currentRoom := some room
        currentPeerId := msg.peerId
        currentConnId := connId
        currentCancel := effects.assignedCancel }
  | _, _ => self

/-- The locals once the connection takes itself to be in no room. -/
def cleared : Connection :=
  { self with currentRoom := none, currentPeerId := "", currentCancel := none }

def handleCreate (msg : ClientMessage) : Task Connection :=
  if !validSessionAndPeerId msg.sessionId msg.peerId then
    self.answer (ClientError.invalidMessage.intoMessage "Invalid sessionId or peerId")
  else if !supportedProtocolVersion msg.protocolVersion then self.answer protocolMismatch
  else do
    let (room, effects) ← Registry.create msg.sessionId msg.peerId msg.reconnectToken self.ip
      (self.admission msg)
    applyEffects self.tx effects
    pure (self.entered msg room effects)

def handleJoin (msg : ClientMessage) (resumeOnly : Bool) : Task Connection :=
  if !validSessionAndPeerId msg.sessionId msg.peerId then
    self.answer (ClientError.invalidMessage.intoMessage "Invalid sessionId or peerId")
  else if !(supportedProtocolVersion msg.protocolVersion &&
      (!resumeOnly || msg.protocolVersion == RELAY_PROTOCOL_VERSION)) then
    self.answer protocolMismatch
  else do
    match ← perform (.getRoom msg.sessionId) with
    | none => self.answer (ClientError.roomNotFound.intoMessage "Room does not exist")
    | some room =>
        let effects ← perform (.room room (.joinOrResume msg (self.admission msg) resumeOnly))
        applyEffects self.tx effects
        pure (self.entered msg (some room) effects)

def handleLeave (msg : ClientMessage) : Task Connection :=
  match self.currentRoom with
  | none => self.answer (ClientError.notInRoom.intoMessage "Not in a room")
  | some room => do
      let effects ← Room.leave room self.currentPeerId self.currentConnId msg.reconnectToken
        msg.protocolVersion
      let failed := effects.reply.any (·.code.isSome)
      applyEffects self.tx effects
      pure (if failed then self else self.cleared)

def handleEndSession (msg : ClientMessage) : Task Connection :=
  match self.currentRoom with
  | none => self.answer (ClientError.notInRoom.intoMessage "Not in a room")
  | some room => do
      let effects ← Registry.endSession room self.currentPeerId self.currentConnId
        msg.reconnectToken msg.protocolVersion
      applyEffects self.tx effects
      pure self.cleared

/-- A message that runs one section of the current room and keeps the locals. -/
def inCurrentRoom (op : RoomId → Task Effects) : Task Connection :=
  match self.currentRoom with
  | none => self.answer (ClientError.notInRoom.intoMessage "Not in a room")
  | some room => do
      let effects ← op room
      applyEffects self.tx effects
      pure self

/-- As `inCurrentRoom`, for the messages whose `to` field is checked after the room. -/
def inCurrentRoomTo (msg : ClientMessage) (op : RoomId → Task Effects) : Task Connection :=
  match self.currentRoom with
  | none => self.answer (ClientError.notInRoom.intoMessage "Not in a room")
  | some _ =>
      if !validId msg.target MAX_PEER_ID_LENGTH then
        self.answer (ClientError.invalidMessage.intoMessage "Invalid to field")
      else self.inCurrentRoom op

def handleTransferHost (msg : ClientMessage) : Task Connection :=
  self.inCurrentRoomTo msg fun room =>
    perform (.room room
      (.transferHost self.currentPeerId self.currentConnId msg.protocolVersion msg.target))

def handleBroadcast (msg : ClientMessage) : Task Connection :=
  self.inCurrentRoom fun room =>
    perform (.room room (.broadcast self.currentPeerId self.currentConnId msg.payload))

def handleSendTo (msg : ClientMessage) : Task Connection :=
  self.inCurrentRoomTo msg fun room =>
    perform (.room room (.sendTo self.currentPeerId self.currentConnId msg.target msg.payload))

/-- `create`, `join` and `resume` are refused while the connection is in a room. -/
def fromOutside (handler : Task Connection) : Task Connection :=
  match self.currentRoom with
  | some _ =>
      self.answer (ClientError.alreadyInRoom.intoMessage
        "Leave the current room before creating or joining another")
  | none => handler

def handleMessage (msg : ClientMessage) : Task Connection :=
  match msg.msgType with
  | .ping => self.answer { msgType := .pong }
  | .create => self.fromOutside (self.handleCreate msg)
  | .join => self.fromOutside (self.handleJoin msg false)
  | .resume => self.fromOutside (self.handleJoin msg true)
  | .leave => self.handleLeave msg
  | .endSession => self.handleEndSession msg
  | .transferHost => self.handleTransferHost msg
  | .broadcast => self.handleBroadcast msg
  | .sendTo => self.handleSendTo msg
  | .other _ => self.answer (ClientError.invalidMessage.intoMessage "Unknown message type")

def handleFrame : Frame → Task Connection
  | .ignored => pure self
  | .limited => self.answer (ClientError.rateLimited.intoMessage "Too many messages")
  | .malformed => self.answer (ClientError.invalidMessage.intoMessage "Invalid JSON")
  | .message msg => self.handleMessage msg

/-- What `run` does once its loop has ended. -/
def exit : Task Unit :=
  match self.currentRoom with
  | none => pure ()
  | some room =>
      if self.currentPeerId.isEmpty then pure ()
      else do
        let effects ← perform
          (.room room (.handleDisconnect self.currentPeerId self.currentConnId))
        applyEffects self.tx effects

end Connection

end PlezyRelay
