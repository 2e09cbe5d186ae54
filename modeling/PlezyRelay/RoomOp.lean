/-
  PlezyRelay/RoomOp.lean
  ======================
  **The critical sections of a room, and what each can do.**

  `RoomOp` lists everything that runs under a room's mutex: the methods of
  `RoomState`, the reads and the closing mark of `Registry::create`, and the
  per-room block of the cleanup sweep.  `RoomOp.run` is what one such section does,
  given the clock readings and the fresh cancellation token it happens to get.

  `Change` says once what a section can do to the state, guards included, and
  `RoomOp.run_change` that every section does one of these things.  An invariant of
  rooms is proved by cases on `Change` and never unfolds an operation.  The
  `_cases` lemmas add, for the operations whose callers look at it, which effects
  come with which change.
-/
import PlezyRelay.Room

namespace PlezyRelay

variable [TokenCodec]

/-- What a critical section reads from outside the room. -/
structure Readings where
  now : SystemTime
  instants : String → Instant
  token : CancellationToken

/-- The verdict of the cleanup sweep on one room: `(remove, changed, evict)`. -/
abbrev SweepVerdict := Bool × Bool × List CancellationToken

/-- The part of `sweep` that runs under the room's lock, at the sweep's `now`. -/
def RoomState.sweepRoom (self : RoomState) (now : SystemTime) (instants : String → Instant) :
    RoomState × SweepVerdict :=
  let (state, pruned) := self.pruneExpiredReservations instants
  let empty := state.connectedPeerCount == 0
  let expired := decide (ROOM_MAX_AGE < state.age now)
  let remove := (empty && decide (EMPTY_ROOM_MAX_AGE < state.idleFor now)) || expired
  if remove then
    if expired && !empty then
      ({ state with closing := true, peers := ∅ },
        (remove, pruned || remove, state.peers.values.map (·.cancel)))
    else ({ state with closing := true }, (remove, pruned || remove, []))
  else (state, (remove, pruned || remove, []))

/-- A section executed under one acquisition of a room's lock. -/
inductive RoomOp where
  | isIdempotent (hostPeerId : String) (hostVerifier : Verifier)
  | isReclaimable
  | ownerIpKey
  | markClosing
  | reconnectHost (host : Admission) (reconnectToken : String)
  | joinOrResume (msg : ClientMessage) (admission : Admission) (resumeOnly : Bool)
  | beginLeave (peerId : String) (connId : Nat) (token : String) (protocolVersion : Nat)
  | finishLeave (peerId : String) (connId : Nat) (persisted : Bool)
  | beginEndSession (peerId : String) (connId : Nat) (token : String) (protocolVersion : Nat)
  | finishEndSession (guests : List Sender) (persisted : Bool)
  | transferHost (peerId : String) (connId : Nat) (protocolVersion : Nat) (targetPeerId : String)
  | broadcast (senderId : String) (connId : Nat) (payload : Option Payload)
  | sendTo (senderId : String) (connId : Nat) (targetId : String) (payload : Option Payload)
  | handleDisconnect (peerId : String) (connId : Nat)
  | pruneExpiredReservations
  | sweep (now : SystemTime)

/-- What the section hands back to its caller. -/
@[reducible] def RoomOp.Result : RoomOp → Type
  | .isIdempotent .. | .isReclaimable | .pruneExpiredReservations => Bool
  | .ownerIpKey => String
  | .markClosing => Unit
  | .beginLeave .. => Except Effects Unit
  | .beginEndSession .. => Except Effects (String × List Sender)
  | .sweep .. => SweepVerdict
  | _ => Effects

/-- The identity test `Registry::create` makes before it reuses a room. -/
def RoomState.isIdempotent (self : RoomState) (hostPeerId : String) (hostVerifier : Verifier) :
    Bool :=
  !self.closing && self.hostPeerId == hostPeerId && self.hostVerifier.matches hostVerifier

def RoomOp.run (rd : Readings) (state : RoomState) : (op : RoomOp) → RoomState × op.Result
  | .isIdempotent hostPeerId hostVerifier => (state, state.isIdempotent hostPeerId hostVerifier)
  | .isReclaimable => (state, state.isReclaimable)
  | .ownerIpKey => (state, state.ownerIpKey)
  | .markClosing => ({ state with closing := true }, ())
  | .reconnectHost host token => state.reconnectHost host token rd.token
  | .joinOrResume msg admission resumeOnly =>
      state.joinOrResume msg admission resumeOnly rd.now rd.instants rd.token
  | .beginLeave peerId connId token version => state.beginLeave peerId connId token version
  | .finishLeave peerId connId persisted => state.finishLeave peerId connId persisted rd.now
  | .beginEndSession peerId connId token version =>
      state.beginEndSession peerId connId token version
  | .finishEndSession guests persisted => state.finishEndSession guests persisted
  | .transferHost peerId connId version target => state.transferHost peerId connId version target
  | .broadcast senderId connId payload => state.broadcast senderId connId payload rd.now
  | .sendTo senderId connId targetId payload =>
      state.sendTo senderId connId targetId payload rd.now
  | .handleDisconnect peerId connId =>
      state.handleDisconnect peerId connId rd.now (rd.instants peerId)
  | .pruneExpiredReservations => state.pruneExpiredReservations rd.instants
  | .sweep now => state.sweepRoom now rd.instants

/-- The connection id on whose behalf a section is run. -/
def RoomOp.connId : RoomOp → Option Nat
  | .beginLeave _ connId _ _ | .finishLeave _ connId _ | .beginEndSession _ connId _ _
  | .transferHost _ connId _ _ | .broadcast _ connId _ | .sendTo _ connId _ _
  | .handleDisconnect _ connId => some connId
  | _ => none

/-- The section that empties an ended room. -/
def RoomOp.isTeardown : RoomOp → Bool
  | .finishEndSession .. => true
  | _ => false

/-- The sections that only `Registry::create` runs, under the registry's write lock. -/
def RoomOp.inCreate : RoomOp → Bool
  | .isIdempotent .. | .isReclaimable | .markClosing | .reconnectHost .. => true
  | _ => false

/-! ### Effects that only add messages -/

section Effects

omit [TokenCodec]

variable (st : RoomState) (exclude : String) (msg : ServerMessage) (e : Effects)

@[simp] theorem RoomState.broadcastExcept_reply :
    (st.broadcastExcept exclude msg e).reply = e.reply := rfl
@[simp] theorem RoomState.broadcastExcept_evict :
    (st.broadcastExcept exclude msg e).evict = e.evict := rfl
@[simp] theorem RoomState.broadcastExcept_dirty :
    (st.broadcastExcept exclude msg e).dirty = e.dirty := rfl
@[simp] theorem RoomState.broadcastExcept_assignedConnId :
    (st.broadcastExcept exclude msg e).assignedConnId = e.assignedConnId := rfl
@[simp] theorem RoomState.broadcastExcept_assignedCancel :
    (st.broadcastExcept exclude msg e).assignedCancel = e.assignedCancel := rfl
@[simp] theorem RoomState.broadcastAll_reply : (st.broadcastAll msg e).reply = e.reply := rfl
@[simp] theorem RoomState.broadcastAll_evict : (st.broadcastAll msg e).evict = e.evict := rfl
@[simp] theorem RoomState.broadcastAll_dirty : (st.broadcastAll msg e).dirty = e.dirty := rfl
@[simp] theorem RoomState.broadcastAll_assignedConnId :
    (st.broadcastAll msg e).assignedConnId = e.assignedConnId := rfl

/-- Publishing the eligibility only adds messages. -/
theorem RoomState.appendHostTransferEligibility_frame :
    ∃ out, st.appendHostTransferEligibility e = { e with broadcast := e.broadcast ++ out } := by
  unfold RoomState.appendHostTransferEligibility
  split
  · exact ⟨[], by simp⟩
  · exact ⟨_, rfl⟩

@[simp] theorem RoomState.appendHostTransferEligibility_reply :
    (st.appendHostTransferEligibility e).reply = e.reply := by
  obtain ⟨out, hout⟩ := st.appendHostTransferEligibility_frame e; rw [hout]
@[simp] theorem RoomState.appendHostTransferEligibility_evict :
    (st.appendHostTransferEligibility e).evict = e.evict := by
  obtain ⟨out, hout⟩ := st.appendHostTransferEligibility_frame e; rw [hout]
@[simp] theorem RoomState.appendHostTransferEligibility_dirty :
    (st.appendHostTransferEligibility e).dirty = e.dirty := by
  obtain ⟨out, hout⟩ := st.appendHostTransferEligibility_frame e; rw [hout]
@[simp] theorem RoomState.appendHostTransferEligibility_assignedConnId :
    (st.appendHostTransferEligibility e).assignedConnId = e.assignedConnId := by
  obtain ⟨out, hout⟩ := st.appendHostTransferEligibility_frame e; rw [hout]
@[simp] theorem RoomState.appendHostTransferEligibility_assignedCancel :
    (st.appendHostTransferEligibility e).assignedCancel = e.assignedCancel := by
  obtain ⟨out, hout⟩ := st.appendHostTransferEligibility_frame e; rw [hout]

end Effects

/-! ### What a section can do to the state -/

/-- One change a critical section can make to a room, with what it has checked. -/
inductive Change (st : RoomState) : RoomState → Prop where
  | same : Change st st
  | touched (now : SystemTime) : Change st { st with lastActivityAt := now }
  | closed : Change st { st with closing := true }
  | pruned (instants : String → Instant) : Change st (st.pruned instants)
  | hostAdmitted (host : Admission) (cancel : CancellationToken) :
      Change st (st.admitPeer st.hostPeerId host cancel).1
  | joined (instants : String → Instant) (admission : Admission) (presented : Option Verifier)
      (resumeOnly : Bool) (now : SystemTime) (cancel : CancellationToken)
      (hopen : st.closing = false)
      (hauth : (st.pruned instants).joinAuthorized admission.peerId presented resumeOnly = true)
      (hfits : (st.pruned instants).joinRoomFull admission.peerId = false) :
      Change st ((st.pruned instants).joined admission presented now cancel)
  | leaveBegun (peerId : String) (connId : Nat) (res : PeerReservation)
      (hopen : st.closing = false) (hconn : st.connIdOf peerId = some connId)
      (hguest : peerId ≠ st.hostPeerId) (hres : st.reservations.lookup peerId = some res)
      (hidle : res.releasePending = false) : Change st (st.setReleasePending peerId true)
  | leaveUndone (peerId : String) (connId : Nat)
      (howns : st.ownsPendingLeave peerId connId = true) :
      Change st (st.setReleasePending peerId false)
  | released (peerId : String) (connId : Nat) (now : SystemTime)
      (howns : st.ownsPendingLeave peerId connId = true) : Change st (st.released peerId now)
  | cleared : Change st st.cleared
  | transferred (connId : Nat) (target : String) (res : PeerReservation)
      (hopen : st.closing = false) (hhost : st.connIdOf st.hostPeerId = some connId)
      (hne : target ≠ st.hostPeerId) (hpeer : target ∈ st.peers)
      (hres : st.reservations.lookup target = some res) (hidle : res.releasePending = false) :
      Change st (st.transferred target res)
  | disconnected (peerId : String) (connId : Nat) (now : SystemTime) (instant : Instant)
      (hopen : st.closing = false) (hconn : st.connIdOf peerId = some connId) :
      Change st (st.disconnected peerId now instant)
  | swept (instants : String → Instant) :
      Change st { st.pruned instants with closing := true }
  | sweptOut (instants : String → Instant) :
      Change st { st.pruned instants with closing := true, peers := ∅ }

/-! ### The outcomes of each section -/

section Outcomes

variable {st st' : RoomState} {e : Effects}

omit [TokenCodec] in
@[simp] theorem RoomState.pruneExpiredReservations_fst (instants : String → Instant) :
    (st.pruneExpiredReservations instants).1 = st.pruned instants := rfl

/-- A join or resume finds the room closing, is refused after pruning, or admits. -/
theorem RoomState.joinOrResume_cases {msg : ClientMessage} {admission : Admission}
    {resumeOnly : Bool} {now : SystemTime} {instants : String → Instant}
    {cancel : CancellationToken}
    (h : st.joinOrResume msg admission resumeOnly now instants cancel = (st', e)) :
    (st.closing = true ∧ st' = st ∧ e = Effects.error .roomNotFound "Room does not exist") ∨
    (st.closing = false ∧ st' = st.pruned instants ∧ ∃ err text, e = Effects.error err text) ∨
    (st.closing = false ∧
      (st.pruned instants).joinAuthorized admission.peerId
        (Verifier.fromToken msg.reconnectToken) resumeOnly = true ∧
      (st.pruned instants).joinRoomFull admission.peerId = false ∧
      st' = (st.pruned instants).joined admission (Verifier.fromToken msg.reconnectToken) now
        cancel ∧
      e.dirty = true ∧ e.assignedConnId = some st.nextConnId ∧ e.assignedCancel = some cancel ∧
      e.evict = (st.peers.lookup admission.peerId).toList.map (·.cancel)) := by
  unfold RoomState.joinOrResume at h
  split at h
  case isTrue hclosing => cases h; exact Or.inl ⟨hclosing, rfl, rfl⟩
  case isFalse hclosing =>
    right
    dsimp only at h
    split at h
    case isTrue => cases h; exact Or.inl ⟨by simpa using hclosing, rfl, _, _, rfl⟩
    case isFalse hauth =>
      split at h
      case isTrue => cases h; exact Or.inl ⟨by simpa using hclosing, rfl, _, _, rfl⟩
      case isFalse hfull =>
        cases h
        refine Or.inr ⟨by simpa using hclosing, by simpa using hauth, by simpa using hfull, rfl, ?_⟩
        simp [RoomState.admissionEffects, RoomState.pruned]

/-- Phase 1 of a leave refuses, or marks the caller's own reservation. -/
theorem RoomState.beginLeave_cases {peerId : String} {connId : Nat} {token : String}
    {version : Nat} {r : Except Effects Unit}
    (h : st.beginLeave peerId connId token version = (st', r)) :
    (st' = st ∧ r = .error leaveRefused) ∨
    (st.closing = false ∧ st.connIdOf peerId = some connId ∧ peerId ≠ st.hostPeerId ∧
      (∃ res, st.reservations.lookup peerId = some res ∧ res.releasePending = false ∧
        Verifier.fromToken token = some res.verifier) ∧
      st' = st.setReleasePending peerId true ∧ r = .ok ()) := by
  simp only [RoomState.beginLeave] at h
  split_ifs at h with hguard hauth <;> cases h
  · exact Or.inl ⟨rfl, rfl⟩
  · exact Or.inl ⟨rfl, rfl⟩
  · right
    push Not at hguard
    obtain ⟨hopen, hconn, hguest, _⟩ := hguard
    rcases hres : st.reservations.lookup peerId with _ | res
    · simp [hres] at hauth
    · simp only [hres, Bool.and_eq_false_iff, not_or, Bool.not_eq_false, Bool.not_eq_eq_eq_not,
        Bool.not_true, Verifier.accepts_iff] at hauth
      exact ⟨by simpa using hopen, hconn, hguest, ⟨res, rfl, by simpa using hauth.1, hauth.2⟩,
        rfl, rfl⟩

omit [TokenCodec] in
/-- Phase 2 of a leave finds nothing to settle, rolls back, or commits. -/
theorem RoomState.finishLeave_cases {peerId : String} {connId : Nat} {persisted : Bool}
    {now : SystemTime} (h : st.finishLeave peerId connId persisted now = (st', e)) :
    (st.ownsPendingLeave peerId connId = false ∧ st' = st ∧ e = {}) ∨
    (st.ownsPendingLeave peerId connId = true ∧ persisted = false ∧
      st' = st.setReleasePending peerId false ∧
      e = Effects.error .invalidMessage "Unable to persist released peer identity") ∨
    (st.ownsPendingLeave peerId connId = true ∧ persisted = true ∧ st' = st.released peerId now ∧
      e.dirty = true ∧ e.evict = [] ∧ e.assignedConnId = none ∧
      ∃ reply, e.reply = some reply ∧ reply.msgType = .left ∧ reply.code = none) := by
  simp only [RoomState.finishLeave] at h
  split_ifs at h with howns hpersisted <;> cases h
  · exact Or.inl ⟨by simpa using howns, rfl, rfl⟩
  · exact Or.inr (Or.inl ⟨by simpa using howns, by simpa using hpersisted, rfl, rfl⟩)
  · refine Or.inr (Or.inr ⟨by simpa using howns, by simpa using hpersisted, rfl, ?_⟩)
    simp

/-- Phase 1 of an end of session refuses, or the authenticated host closes the room. -/
theorem RoomState.beginEndSession_cases {peerId : String} {connId : Nat} {token : String}
    {version : Nat} {r : Except Effects (String × List Sender)}
    (h : st.beginEndSession peerId connId token version = (st', r)) :
    (st' = st ∧ r = .error endRefused) ∨
    (st.closing = false ∧ peerId = st.hostPeerId ∧ st.connIdOf peerId = some connId ∧
      Verifier.fromToken token = some st.hostVerifier ∧ st' = { st with closing := true } ∧
      ∃ guests, r = .ok (st.ownerIpKey, guests)) := by
  simp only [RoomState.beginEndSession] at h
  split_ifs at h with hguard hauth <;> cases h
  · exact Or.inl ⟨rfl, rfl⟩
  · exact Or.inl ⟨rfl, rfl⟩
  · right
    push Not at hguard
    obtain ⟨hopen, ⟨hhost, hconn⟩, _⟩ := hguard
    exact ⟨by simpa using hopen, hhost, hconn, by simpa using hauth, rfl, _, rfl⟩

omit [TokenCodec]

/-- A re-`create` always admits, under the room's current host. -/
theorem RoomState.reconnectHost_cases {host : Admission} {token : String}
    {cancel : CancellationToken} (h : st.reconnectHost host token cancel = (st', e)) :
    st' = (st.admitPeer st.hostPeerId host cancel).1 ∧ e.dirty = true ∧
      e.assignedConnId = some st.nextConnId ∧ e.assignedCancel = some cancel ∧
      e.evict = (st.peers.lookup st.hostPeerId).toList.map (·.cancel) := by
  cases h
  refine ⟨rfl, ?_, ?_, ?_, ?_⟩ <;>
    simp only [RoomState.appendHostTransferEligibility_dirty,
      RoomState.appendHostTransferEligibility_assignedConnId,
      RoomState.appendHostTransferEligibility_assignedCancel,
      RoomState.appendHostTransferEligibility_evict] <;>
    split <;> rfl

/-- Phase 2 of an end of session evicts everyone. -/
theorem RoomState.finishEndSession_cases {guests : List Sender} {persisted : Bool}
    (h : st.finishEndSession guests persisted = (st', e)) :
    st' = st.cleared ∧ e.dirty = false ∧ e.assignedConnId = none ∧
      e.evict = st.peers.values.map (·.cancel) ∧
      e.reply = some (if persisted then st.endedMessage
        else ClientError.invalidMessage.intoMessage "Unable to persist ended room") := by
  simp only [RoomState.finishEndSession] at h
  cases persisted <;> cases h <;> exact ⟨rfl, rfl, rfl, rfl, rfl⟩

/-- A host transfer is refused, or it swaps the host with a connected guest whose
    reservation is not pending release. -/
theorem RoomState.transferHost_cases {peerId : String} {connId version : Nat} {target : String}
    (h : st.transferHost peerId connId version target = (st', e)) :
    (st' = st ∧ ∃ err text, e = Effects.error err text) ∨
    (st.closing = false ∧ peerId = st.hostPeerId ∧ st.connIdOf st.hostPeerId = some connId ∧
      target ≠ st.hostPeerId ∧ target ∈ st.peers ∧
      ∃ res, st.reservations.lookup target = some res ∧ res.releasePending = false ∧
        st' = st.transferred target res ∧
        e.dirty = true ∧ e.evict = [] ∧ e.assignedConnId = none ∧ e.reply = none) := by
  simp only [RoomState.transferHost] at h
  split_ifs at h with hguard hhost hvalid hreserved hcan
  · cases h; exact Or.inl ⟨rfl, _, _, rfl⟩
  · cases h; exact Or.inl ⟨rfl, _, _, rfl⟩
  · cases h; exact Or.inl ⟨rfl, _, _, rfl⟩
  · cases h; exact Or.inl ⟨rfl, _, _, rfl⟩
  · cases h; exact Or.inl ⟨rfl, _, _, rfl⟩
  · right
    push Not at hguard hhost
    simp only [Bool.or_eq_true, Bool.not_eq_true', decide_eq_true_eq, not_or, Bool.not_eq_false]
      at hvalid
    obtain ⟨hopen, hconn, _⟩ := hguard
    rcases hres : st.reservations.lookup target with _ | res
    · simp [RoomState.isReserved, hres] at hreserved
    · have hidle : res.releasePending = false := by
        simpa [RoomState.isReserved, hres] using hreserved
      simp only [hres] at h
      cases h
      refine ⟨by simpa using hopen, hhost, hhost ▸ hconn, fun h => hvalid.1.2 (h.trans hhost.symm),
        by simpa using hvalid.2, res, rfl, hidle, rfl, ?_⟩
      simp

/-- A disconnect is ignored, or it removes the caller's own connection. -/
theorem RoomState.handleDisconnect_cases {peerId : String} {connId : Nat} {now : SystemTime}
    {instant : Instant} (h : st.handleDisconnect peerId connId now instant = (st', e)) :
    ((st.closing = true ∨ st.connIdOf peerId ≠ some connId) ∧ st' = st ∧ e = {}) ∨
    (st.closing = false ∧ st.connIdOf peerId = some connId ∧
      st' = st.disconnected peerId now instant ∧
      e.dirty = true ∧ e.evict = [] ∧ e.assignedConnId = none) := by
  simp only [RoomState.handleDisconnect] at h
  split_ifs at h with hguard <;> cases h
  · exact Or.inl ⟨hguard, rfl, rfl⟩
  · right
    push Not at hguard
    refine ⟨by simpa using hguard.1, hguard.2, rfl, ?_⟩
    simp

/-- Relaying touches the activity time at most. -/
theorem RoomState.broadcast_cases {senderId : String} {connId : Nat} {payload : Option Payload}
    {now : SystemTime} (h : st.broadcast senderId connId payload now = (st', e)) :
    (st' = st ∨ st' = { st with lastActivityAt := now }) ∧ e.dirty = false ∧ e.evict = [] ∧
      e.assignedConnId = none := by
  simp only [RoomState.broadcast] at h
  split_ifs at h <;> cases h <;> simp

theorem RoomState.sendTo_cases {senderId : String} {connId : Nat} {targetId : String}
    {payload : Option Payload} {now : SystemTime}
    (h : st.sendTo senderId connId targetId payload now = (st', e)) :
    (st' = st ∨ st' = { st with lastActivityAt := now }) ∧ e.dirty = false ∧ e.evict = [] ∧
      e.assignedConnId = none := by
  simp only [RoomState.sendTo] at h
  split_ifs at h
  · cases h; simp
  · cases h; simp
  · split at h <;> cases h <;> simp [Effects.error]

/-- The sweep leaves a room open, or closes it with its peers absent or evicted. -/
theorem RoomState.sweepRoom_cases {now : SystemTime} {instants : String → Instant}
    {verdict : SweepVerdict} (h : st.sweepRoom now instants = (st', verdict)) :
    (st' = st.pruned instants ∧
      verdict = (false, (st.pruneExpiredReservations instants).2, [])) ∨
    (st' = { st.pruned instants with closing := true } ∧ verdict = (true, true, []) ∧
      st.peers.size = 0) ∨
    (st' = { st.pruned instants with closing := true, peers := ∅ } ∧
      verdict = (true, true, st.peers.values.map (·.cancel))) := by
  have hpeers : (st.pruned instants).connectedPeerCount = st.peers.size := rfl
  simp only [RoomState.sweepRoom, RoomState.pruneExpiredReservations, hpeers] at h
  split_ifs at h with hremove hexpired
  · rw [hremove] at h
    cases h
    exact Or.inr (Or.inr ⟨rfl, by simp [RoomState.pruned]⟩)
  · rw [hremove] at h
    cases h
    refine Or.inr (Or.inl ⟨rfl, by simp, ?_⟩)
    -- not expired with peers, yet removed: the room was empty
    cases hempty : st.peers.size == 0 with
    | true => simpa using hempty
    | false => simp_all
  · rw [Bool.not_eq_true] at hremove
    rw [hremove] at h
    cases h
    exact Or.inl ⟨rfl, by simp [RoomState.pruneExpiredReservations]⟩

/-! ### What the sweep keeps -/

/-- A cleanup sweep at `now` leaves the room alone. -/
def RoomState.KeptBySweep (now : SystemTime) (st : RoomState) : Prop :=
  (0 < st.connectedPeerCount ∨ st.idleFor now ≤ EMPTY_ROOM_MAX_AGE) ∧ st.age now ≤ ROOM_MAX_AGE

instance (now : SystemTime) (st : RoomState) : Decidable (st.KeptBySweep now) :=
  inferInstanceAs (Decidable (_ ∧ _))

omit [TokenCodec] in
theorem keptBySweep_iff {now : SystemTime} {instants : String → Instant} :
    st.KeptBySweep now ↔ (st.sweepRoom now instants).2.1 = false := by
  have hremove : (st.sweepRoom now instants).2.1 =
      ((st.connectedPeerCount == 0 && decide (EMPTY_ROOM_MAX_AGE < st.idleFor now)) ||
        decide (ROOM_MAX_AGE < st.age now)) := by
    unfold RoomState.sweepRoom
    dsimp only
    split <;> try split
    all_goals rfl
  rw [hremove]
  simp only [RoomState.KeptBySweep, Bool.or_eq_false_iff, Bool.and_eq_false_iff, beq_eq_false_iff_ne,
    decide_eq_false_iff_not, not_lt, Nat.pos_iff_ne_zero, ne_eq]

end Outcomes

theorem RoomOp.run_change (rd : Readings) (st : RoomState) (op : RoomOp) :
    Change st (op.run rd st).1 := by
  rcases hrun : op.run rd st with ⟨st', r⟩
  cases op with
  | isIdempotent | isReclaimable | ownerIpKey => cases hrun; exact .same
  | markClosing => cases hrun; exact .closed
  | reconnectHost host token => cases hrun; exact .hostAdmitted host rd.token
  | joinOrResume msg admission resumeOnly =>
      rcases RoomState.joinOrResume_cases hrun with
        ⟨_, rfl, _⟩ | ⟨_, rfl, _⟩ | ⟨hopen, hauth, hfits, rfl, _⟩
      · exact .same
      · exact .pruned _
      · exact .joined _ _ _ resumeOnly _ _ hopen hauth hfits
  | beginLeave peerId connId token version =>
      rcases RoomState.beginLeave_cases hrun with
        ⟨rfl, _⟩ | ⟨hopen, hconn, hguest, ⟨res, hres, hidle, _⟩, rfl, _⟩
      · exact .same
      · exact .leaveBegun _ _ res hopen hconn hguest hres hidle
  | finishLeave peerId connId persisted =>
      rcases RoomState.finishLeave_cases hrun with
        ⟨_, rfl, _⟩ | ⟨howns, _, rfl, _⟩ | ⟨howns, _, rfl, _⟩
      · exact .same
      · exact .leaveUndone _ _ howns
      · exact .released _ _ _ howns
  | beginEndSession peerId connId token version =>
      rcases RoomState.beginEndSession_cases hrun with ⟨rfl, _⟩ | ⟨_, _, _, _, rfl, _⟩
      · exact .same
      · exact .closed
  | finishEndSession guests persisted =>
      obtain ⟨rfl, _⟩ := RoomState.finishEndSession_cases hrun
      exact .cleared
  | transferHost peerId connId version target =>
      rcases RoomState.transferHost_cases hrun with
        ⟨rfl, _⟩ | ⟨hopen, _, hhost, hne, hpeer, res, hres, hidle, rfl, _⟩
      · exact .same
      · exact .transferred _ _ res hopen hhost hne hpeer hres hidle
  | broadcast senderId connId payload =>
      obtain ⟨rfl | rfl, _⟩ := RoomState.broadcast_cases hrun
      · exact .same
      · exact .touched _
  | sendTo senderId connId targetId payload =>
      obtain ⟨rfl | rfl, _⟩ := RoomState.sendTo_cases hrun
      · exact .same
      · exact .touched _
  | handleDisconnect peerId connId =>
      rcases RoomState.handleDisconnect_cases hrun with ⟨_, rfl, _⟩ | ⟨hopen, hconn, rfl, _⟩
      · exact .same
      · exact .disconnected _ _ _ _ hopen hconn
  | pruneExpiredReservations => cases hrun; exact .pruned _
  | sweep now =>
      rcases RoomState.sweepRoom_cases hrun with ⟨rfl, _⟩ | ⟨rfl, _⟩ | ⟨rfl, _⟩
      · exact .pruned _
      · exact .swept _
      · exact .sweptOut _

end PlezyRelay
