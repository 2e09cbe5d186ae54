/-
  PlezyRelay/Room.lean
  ====================
  **The room state machine** (`room.rs`).

  Every mutating method of `RoomState` becomes a function from the state to the
  new state and the `Effects` the caller has to apply once the room lock is
  dropped.  What the source reads from its surroundings is an argument: wall-clock
  readings (`now`), monotonic readings (`instants`, one for each reservation the
  call looks at, because the source reads the clock anew inside its closures), and
  the fresh `CancellationToken` an admission creates.

  A channel sender is represented by the identity of the connection that owns the
  channel.  `next_conn_id` is a natural number: the source's `u64` would need
  2^64 - 1 admissions to one room to wrap.
-/
import PlezyRelay.Foundation.AssocMap
import PlezyRelay.HostTransfer

namespace PlezyRelay

def PEER_RESERVATION_GRACE : Duration := secs (5 * 60)
def EMPTY_ROOM_MAX_AGE : Duration := secs (5 * 60)
def ROOM_MAX_AGE : Duration := secs (24 * 60 * 60)

/-- The sending half of a connection's outbound channel. -/
abbrev Sender := Nat

structure CancellationToken where
  id : Nat
deriving DecidableEq

structure ConnectedPeer where
  tx : Sender
  syncProtocolVersion : Int
  hostTransferCapable : Bool
  connId : Nat
  cancel : CancellationToken
deriving DecidableEq

/-- `absentSince` is `none` while the identity is connected; `releasePending` is
    set while a `leave` is durably committing. -/
structure PeerReservation where
  verifier : Verifier
  absentSince : Option Instant
  releasePending : Bool
deriving DecidableEq

structure RoomState where
  sessionId : String
  hostPeerId : String
  hostVerifier : Verifier
  peers : AssocMap String ConnectedPeer
  reservations : AssocMap String PeerReservation
  ownerIpKey : String
  createdAt : SystemTime
  lastActivityAt : SystemTime
  closing : Bool
  nextConnId : Nat
deriving DecidableEq

/-- A message queued for one connected peer. -/
structure Outbound where
  tx : Sender
  msg : ServerMessage
deriving DecidableEq

/-- What a method decided should happen once the lock is released. -/
structure Effects where
  reply : Option ServerMessage := none
  broadcast : List Outbound := []
  evict : List CancellationToken := []
  dirty : Bool := false
  assignedConnId : Option Nat := none
  assignedCancel : Option CancellationToken := none
deriving DecidableEq

def Effects.error (err : ClientError) (text : String) : Effects :=
  { reply := some (err.intoMessage text) }

/-- Everything needed to admit a connection into a room. -/
structure Admission where
  peerId : String
  tx : Sender
  syncProtocolVersion : Int
  hostTransferCapable : Bool
deriving DecidableEq

def Admission.connect (admission : Admission) (connId : Nat) (cancel : CancellationToken) :
    ConnectedPeer :=
  { tx := admission.tx
    syncProtocolVersion := admission.syncProtocolVersion
    hostTransferCapable := admission.hostTransferCapable
    connId := connId
    cancel := cancel }

def peerJoined (peerId : String) : ServerMessage := { msgType := .peerJoined, peerId := some peerId }

def peerLeft (peerId : String) : ServerMessage := { msgType := .peerLeft, peerId := some peerId }

namespace RoomState

/-! ### Views of the peer map -/

/-- The connection id currently occupying `peerId`. -/
def connIdOf (self : RoomState) (peerId : String) : Option Nat :=
  (self.peers.lookup peerId).map (·.connId)

/-- `reservations.get(id).map_or(false, |r| !r.release_pending)`. -/
def isReserved (self : RoomState) (peerId : String) : Bool :=
  match self.reservations.lookup peerId with
  | some res => !res.releasePending
  | none => false

def peerInfos (self : RoomState) : List HostTransfer.PeerInfo :=
  self.peers.entries.map fun e =>
    { peerId := e.1
      syncProtocolVersion := e.2.syncProtocolVersion
      hostTransferCapable := e.2.hostTransferCapable }

def canTransferHostTo (self : RoomState) (targetPeerId : String) : Bool :=
  HostTransfer.isValidTarget self.hostPeerId self.peerInfos self.isReserved targetPeerId

def peerIdsExcept (self : RoomState) (exclude : String) : List String :=
  self.peers.keys.filter (· ≠ exclude)

def broadcastExcept (self : RoomState) (exclude : String) (msg : ServerMessage)
    (effects : Effects) : Effects :=
  { effects with
    broadcast := effects.broadcast ++
      (self.peers.entries.filter (fun e => decide (e.1 ≠ exclude))).map fun e => ⟨e.2.tx, msg⟩ }

def broadcastAll (self : RoomState) (msg : ServerMessage) (effects : Effects) : Effects :=
  { effects with broadcast := effects.broadcast ++ self.peers.values.map fun p => ⟨p.tx, msg⟩ }

def hostTransferEligibilityMessage (self : RoomState) (targets : List String) : ServerMessage :=
  { msgType := .hostTransferEligibility
    sessionId := some self.sessionId
    hostPeerId := some self.hostPeerId
    hostTransferTargets := some targets }

def appendHostTransferEligibility (self : RoomState) (effects : Effects) : Effects :=
  match HostTransfer.computeEligibility self.hostPeerId self.peerInfos self.isReserved with
  | none => effects
  | some (recipients, targets) =>
      { effects with
        broadcast := effects.broadcast ++ recipients.filterMap fun recipient =>
          (self.peers.lookup recipient).map fun peer =>
            ⟨peer.tx, self.hostTransferEligibilityMessage targets⟩ }

/-! ### Creation -/

/-- The reply that tells a connection it is in the room. -/
def admissionReply (self : RoomState) (msgType : ServerType) (reconnectToken : String)
    (peers : Option (List String)) : ServerMessage :=
  { msgType := msgType
    sessionId := some self.sessionId
    hostPeerId := some self.hostPeerId
    reconnectToken := some reconnectToken
    protocolVersion := RELAY_PROTOCOL_VERSION
    peers := peers
    features := some relayFeatures }

def newRoom (sessionId hostPeerId : String) (hostVerifier : Verifier) (reconnectToken : String)
    (ownerIpKey : String) (host : Admission) (now : SystemTime) (cancel : CancellationToken) :
    RoomState × Effects :=
  let connId := 1
  let state : RoomState :=
    { sessionId := sessionId
      hostPeerId := hostPeerId
      hostVerifier := hostVerifier
      peers := (∅ : AssocMap String ConnectedPeer).insert hostPeerId (host.connect connId cancel)
      reservations := ∅
      ownerIpKey := ownerIpKey
      createdAt := now
      lastActivityAt := now
      closing := false
      nextConnId := connId + 1 }
  let effects : Effects :=
    { reply := some (state.admissionReply .created reconnectToken none)
      dirty := true
      assignedConnId := some connId
      assignedCancel := some cancel }
  (state, state.appendHostTransferEligibility effects)

/-! ### Admission -/

/-- `RoomState::admit`: replaces any connection under `peerId` by the new one, which gets
    a fresh connection id; returns the id and the replaced connection. -/
def admitPeer (self : RoomState) (peerId : String) (admission : Admission)
    (cancel : CancellationToken) : RoomState × Nat × Option ConnectedPeer :=
  let connId := self.nextConnId
  ({ self with
      nextConnId := self.nextConnId + 1
      peers := self.peers.insert peerId (admission.connect connId cancel) },
    connId, self.peers.lookup peerId)

/-- The effects every admission into an existing room starts from. -/
def admissionEffects (self : RoomState) (msgType : ServerType) (peerId reconnectToken : String)
    (connId : Nat) (cancel : CancellationToken) (old : Option ConnectedPeer) : Effects :=
  { reply := some (self.admissionReply msgType reconnectToken (some (self.peerIdsExcept peerId)))
    dirty := true
    assignedConnId := some connId
    assignedCancel := some cancel
    evict := old.toList.map (·.cancel) }

/-- Idempotent host re-`create`: admits the connection as host. -/
def reconnectHost (self : RoomState) (host : Admission) (reconnectToken : String)
    (cancel : CancellationToken) : RoomState × Effects :=
  let wasAbsent := !self.peers.contains self.hostPeerId
  let (state, connId, old) := self.admitPeer self.hostPeerId host cancel
  let effects := state.admissionEffects .created state.hostPeerId reconnectToken connId cancel old
  let effects :=
    if wasAbsent then
      state.broadcastExcept state.hostPeerId (peerJoined state.hostPeerId) effects
    else effects
  (state, state.appendHostTransferEligibility effects)

/-- `create` may reclaim an abandoned session id. -/
def isReclaimable (self : RoomState) : Bool := !self.closing && self.peers.size == 0

/-- Whether a reservation survives pruning at the monotonic reading `now`. -/
def keepsReservation (self : RoomState) (instants : String → Instant) (peerId : String)
    (res : PeerReservation) : Bool :=
  if res.releasePending || self.peers.contains peerId then true
  else
    match res.absentSince with
    | none => true
    | some absentSince =>
        decide ((instants peerId).saturatingDurationSince absentSince < PEER_RESERVATION_GRACE)

def pruned (self : RoomState) (instants : String → Instant) : RoomState :=
  { self with reservations := self.reservations.retain (self.keepsReservation instants) }

def pruneExpiredReservations (self : RoomState) (instants : String → Instant) :
    RoomState × Bool :=
  (self.pruned instants, self.reservations.size != (self.pruned instants).reservations.size)

section Codec

variable [TokenCodec]

/-- The authorization decision of `join_or_resume`, taken after pruning. -/
def joinAuthorized (self : RoomState) (peerId : String) (presented : Option Verifier)
    (resumeOnly : Bool) : Bool :=
  if peerId = self.hostPeerId then self.hostVerifier.accepts presented
  else
    match self.reservations.lookup peerId with
    | some res => !res.releasePending && res.verifier.accepts presented
    | none =>
        if self.peers.contains peerId then false
        else !resumeOnly && presented.isSome

/-- The capacity check of `join_or_resume`: only new identities are counted. -/
def joinRoomFull (self : RoomState) (peerId : String) : Bool :=
  !self.peers.contains peerId &&
    (decide (peerId ≠ self.hostPeerId) && (self.reservations.lookup peerId).isNone) &&
    decide (MAX_ROOM_SIZE - 1 ≤ self.reservations.size)

/-- The verifier stored for an admitted guest. -/
def joinVerifier (self : RoomState) (peerId : String) (presented : Option Verifier) : Verifier :=
  presented.getD (((self.reservations.lookup peerId).map (·.verifier)).getD self.hostVerifier)

/-- The state once `join_or_resume` has admitted the connection. -/
def joined (self : RoomState) (admission : Admission) (presented : Option Verifier)
    (now : SystemTime) (cancel : CancellationToken) : RoomState :=
  let peerId := admission.peerId
  let verifier := self.joinVerifier peerId presented
  let state := (self.admitPeer peerId admission cancel).1
  let state :=
    if peerId ≠ state.hostPeerId then
      { state with
        reservations := state.reservations.insert peerId
          { verifier := verifier, absentSince := none, releasePending := false } }
    else state
  { state with lastActivityAt := now }

def joinOrResume (self : RoomState) (msg : ClientMessage) (admission : Admission)
    (resumeOnly : Bool) (now : SystemTime) (instants : String → Instant)
    (cancel : CancellationToken) : RoomState × Effects :=
  if self.closing then (self, Effects.error .roomNotFound "Room does not exist")
  else
    let self := (self.pruneExpiredReservations instants).1
    let peerId := admission.peerId
    let presented := Verifier.fromToken msg.reconnectToken
    if !self.joinAuthorized peerId presented resumeOnly then
      (self, Effects.error .peerIdUnavailable "Peer ID is unavailable")
    else if self.joinRoomFull peerId then
      (self, Effects.error .roomFull "Room is full")
    else
      let state := self.joined admission presented now cancel
      let responseType := if resumeOnly then ServerType.resumed else ServerType.joined
      let effects := state.admissionEffects responseType peerId msg.reconnectToken
        self.nextConnId cancel (self.peers.lookup peerId)
      let effects := state.broadcastExcept peerId (peerJoined peerId) effects
      (state, state.appendHostTransferEligibility effects)

/-! ### Leaving, in two phases -/

/-- `res.release_pending = pending` on the reservation of `peerId`. -/
def setReleasePending (self : RoomState) (peerId : String) (pending : Bool) : RoomState :=
  { self with
    reservations := self.reservations.modify peerId fun res =>
      { res with releasePending := pending } }

/-- The state once a leave has committed. -/
def released (self : RoomState) (peerId : String) (now : SystemTime) : RoomState :=
  { self with
    peers := self.peers.erase peerId
    reservations := self.reservations.erase peerId
    lastActivityAt := now }

def leaveRefused : Effects := Effects.error .peerIdUnavailable "Unable to release peer identity"

/-- Phase 1 of `leave`: marks the caller's reservation release-pending. -/
def beginLeave (self : RoomState) (peerId : String) (connId : Nat) (token : String)
    (protocolVersion : Nat) : RoomState × Except Effects Unit :=
  let isCurrent := self.connIdOf peerId = some connId
  let isGuest := peerId ≠ self.hostPeerId
  if self.closing = true ∨ ¬isCurrent ∨ ¬isGuest ∨ protocolVersion ≠ RELAY_PROTOCOL_VERSION then
    (self, .error leaveRefused)
  else
    let presented := Verifier.fromToken token
    let authorized :=
      match self.reservations.lookup peerId with
      | some res => !res.releasePending && res.verifier.accepts presented
      | none => false
    if !authorized then (self, .error leaveRefused)
    else
      (self.setReleasePending peerId true, .ok ())

end Codec

/-- Whether the leave of `(peerId, connId)` is still the one that is pending. -/
def ownsPendingLeave (self : RoomState) (peerId : String) (connId : Nat) : Bool :=
  decide (self.connIdOf peerId = some connId) &&
    (match self.reservations.lookup peerId with
      | some res => res.releasePending
      | none => false)

/-- Phase 2 of `leave`, after the snapshot write succeeded or failed. -/
def finishLeave (self : RoomState) (peerId : String) (connId : Nat) (persisted : Bool)
    (now : SystemTime) : RoomState × Effects :=
  if !self.ownsPendingLeave peerId connId then (self, {})
  else if !persisted then
    (self.setReleasePending peerId false,
      Effects.error .invalidMessage "Unable to persist released peer identity")
  else
    let state := self.released peerId now
    let effects : Effects :=
      { reply := some
          { msgType := .left
            sessionId := some state.sessionId
            peerId := some peerId
            protocolVersion := RELAY_PROTOCOL_VERSION }
        dirty := true }
    let effects := state.broadcastExcept peerId (peerLeft peerId) effects
    (state, state.appendHostTransferEligibility effects)

/-! ### Ending the session, in two phases -/

def endRefused : Effects := Effects.error .peerIdUnavailable "Unable to end room"

/-- Phase 1 of `endSession`: marks the room closing and returns the owner key and
    the guests to notify. -/
def beginEndSession [TokenCodec] (self : RoomState) (peerId : String) (connId : Nat)
    (token : String) (protocolVersion : Nat) :
    RoomState × Except Effects (String × List Sender) :=
  let isCurrentHost := peerId = self.hostPeerId ∧ self.connIdOf peerId = some connId
  if self.closing = true ∨ ¬isCurrentHost ∨ protocolVersion ≠ RELAY_PROTOCOL_VERSION then
    (self, .error endRefused)
  else
    let presented := Verifier.fromToken token
    if !self.hostVerifier.accepts presented then (self, .error endRefused)
    else
      let guests := (self.peers.entries.filter fun e => decide (e.1 ≠ peerId)).map (·.2.tx)
      ({ self with closing := true }, .ok (self.ownerIpKey, guests))

def endedMessage (self : RoomState) : ServerMessage :=
  { msgType := .ended
    sessionId := some self.sessionId
    protocolVersion := RELAY_PROTOCOL_VERSION }

/-- The state once everyone has been torn down. -/
def cleared (self : RoomState) : RoomState := { self with peers := ∅, reservations := ∅ }

/-- Phase 2 of `endSession`: everyone is evicted, and told so if it is durable. -/
def finishEndSession (self : RoomState) (guests : List Sender) (persisted : Bool) :
    RoomState × Effects :=
  let evict := self.peers.values.map (·.cancel)
  let state := self.cleared
  if !persisted then
    (state,
      { reply := some (ClientError.invalidMessage.intoMessage "Unable to persist ended room")
        evict := evict })
  else
    (state,
      { reply := some state.endedMessage
        broadcast := guests.map fun tx => ⟨tx, state.endedMessage⟩
        evict := evict })

/-! ### Host transfer -/

/-- The swap of the two representations: the target's reservation is dissolved
    into the host fields and the old host gets a reservation. -/
def transferred (self : RoomState) (target : String) (targetReservation : PeerReservation) :
    RoomState :=
  { self with
    reservations := (self.reservations.erase target).insert self.hostPeerId
      { verifier := self.hostVerifier, absentSince := none, releasePending := false }
    hostVerifier := targetReservation.verifier
    hostPeerId := target }

def transferHost (self : RoomState) (peerId : String) (connId : Nat) (protocolVersion : Nat)
    (targetPeerId : String) : RoomState × Effects :=
  if self.closing = true ∨ self.connIdOf peerId ≠ some connId ∨
      protocolVersion ≠ RELAY_PROTOCOL_VERSION then
    (self, Effects.error .peerIdUnavailable "Unable to transfer host authority")
  else if peerId ≠ self.hostPeerId then
    (self, Effects.error .notHost "Only the host can transfer host authority")
  else if !validId targetPeerId MAX_PEER_ID_LENGTH || decide (targetPeerId = peerId) ||
      !self.peers.contains targetPeerId then
    (self, Effects.error .peerNotFound "Target peer not found")
  else if !self.isReserved targetPeerId then
    (self, Effects.error .peerNotFound "Target peer not found")
  else if !self.canTransferHostTo targetPeerId then
    (self, Effects.error .hostTransferUnavailable
      "The current room roster cannot follow a host transfer")
  else
    match self.reservations.lookup targetPeerId with
    | none => (self, {})   -- `expect("checked above")`: `isReserved` has found it
    | some targetReservation =>
        let state := self.transferred targetPeerId targetReservation
        let hostChanged : ServerMessage :=
          { msgType := .hostChanged
            sessionId := some state.sessionId
            hostPeerId := some targetPeerId
            sender := some self.hostPeerId }
        let effects := state.broadcastAll hostChanged { dirty := true }
        (state, state.appendHostTransferEligibility effects)

/-! ### Relaying -/

def relayMessage (senderId : String) (payload : Option Payload) : ServerMessage :=
  { msgType := .message, sender := some senderId, payload := payload }

def broadcast (self : RoomState) (senderId : String) (connId : Nat) (payload : Option Payload)
    (now : SystemTime) : RoomState × Effects :=
  if self.connIdOf senderId ≠ some connId then (self, {})
  else if self.closing then (self, {})
  else
    let state := { self with lastActivityAt := now }
    (state, state.broadcastExcept senderId (relayMessage senderId payload) {})

def sendTo (self : RoomState) (senderId : String) (connId : Nat) (targetId : String)
    (payload : Option Payload) (now : SystemTime) : RoomState × Effects :=
  if self.connIdOf senderId ≠ some connId then (self, {})
  else if self.closing then (self, {})
  else
    match self.peers.lookup targetId with
    | none => (self, Effects.error .notInRoom "Target peer not found")
    | some target =>
        ({ self with lastActivityAt := now },
          { broadcast := [⟨target.tx, relayMessage senderId payload⟩] })

/-! ### Disconnection and clean-up -/

/-- The state once the connection under `peerId` is gone: a guest's grace clock
    starts. -/
def disconnected (self : RoomState) (peerId : String) (now : SystemTime) (instant : Instant) :
    RoomState :=
  let state := { self with peers := self.peers.erase peerId }
  let state :=
    if peerId ≠ state.hostPeerId then
      { state with
        reservations := state.reservations.modify peerId fun res =>
          { res with absentSince := some instant } }
    else state
  { state with lastActivityAt := now }

def handleDisconnect (self : RoomState) (peerId : String) (connId : Nat) (now : SystemTime)
    (instant : Instant) : RoomState × Effects :=
  if self.closing = true ∨ self.connIdOf peerId ≠ some connId then (self, {})
  else
    let state := self.disconnected peerId now instant
    let effects := state.broadcastExcept peerId (peerLeft peerId) { dirty := true }
    (state, state.appendHostTransferEligibility effects)

def connectedPeerCount (self : RoomState) : Nat := self.peers.size

def idleFor (self : RoomState) (now : SystemTime) : Duration :=
  now.durationSince self.lastActivityAt

def age (self : RoomState) (now : SystemTime) : Duration :=
  now.durationSince self.createdAt

end RoomState

end PlezyRelay
