/-
  PlezyRelay/ClientViews.lean
  ===========================
  **What the clients are told, and what they make of it.**

  A `Transcript` is a room together with everything its sections have put on the
  connections' channels, in order and with nothing dropped: first the reply, on the
  caller's channel, then the broadcasts.  A client keeps a `View` of the room from what
  it hears: the reply that admits it starts the view afresh, `peerJoined`, `peerLeft` and
  `hostChanged` update it, and nothing else matters.

  The invariant is that every connected peer's view shows the room as it is.  A section
  that changes the roster or the host has to tell exactly those who are still there and
  do not know yet: everyone but the newcomer, who learns it from the reply; nobody if a
  connected host replaces its own socket; everyone for a change of host.

  That takes channels that tell the peers apart: `OwnChannel` says that an admitted
  connection's channel is not that of another peer who is in the room.  `connection.rs`
  makes one channel per socket and turns down a create, join or resume of a socket that is
  in a room, but it goes by what the task remembers, and the task forgets its room after
  an `endSession` also if that was refused.  The socket can then be admitted a second time
  under another name, and hears itself announced (`own_arrival_after_refused_end_session`).
-/
import PlezyRelay.Connections
import PlezyRelay.Relay
import Mathlib.Data.Finset.Basic
import Mathlib.Data.Finset.Insert

namespace PlezyRelay

/-! ### Views -/

/-- What a client knows: who else is connected, and who the host is. -/
structure View where
  roster : Finset String
  host : Option String
deriving DecidableEq

/-- The view of a client that has heard nothing. -/
def View.blank : View := ⟨∅, none⟩

/-- The replies that admit a connection, and the messages about members and host. -/
def ServerMessage.isRoster (msg : ServerMessage) : Bool :=
  match msg.msgType with
  | .created | .joined | .resumed | .peerJoined | .peerLeft | .hostChanged => true
  | _ => false

/-- A client hears a message. -/
def View.apply (v : View) (msg : ServerMessage) : View :=
  match msg.msgType with
  | .created | .joined | .resumed =>
      { roster := (msg.peers.getD []).toFinset, host := msg.hostPeerId }
  | .peerJoined => { v with roster := v.roster ∪ msg.peerId.toList.toFinset }
  | .peerLeft => { v with roster := v.roster \ msg.peerId.toList.toFinset }
  | .hostChanged => { v with host := msg.hostPeerId }
  | _ => v

theorem View.apply_of_not_isRoster (v : View) {msg : ServerMessage} (h : msg.isRoster = false) :
    v.apply msg = v := by
  cases htype : msg.msgType <;> simp_all [ServerMessage.isRoster, View.apply]

/-- The messages for one channel, in order. -/
def heard (tx : Sender) (out : List Outbound) : List ServerMessage :=
  (out.filter fun o => o.tx == tx).map (·.msg)

/-- The view of a client after it has heard what was sent on its channel. -/
def View.hear (tx : Sender) (out : List Outbound) (v : View) : View :=
  (heard tx out).foldl View.apply v

section Hear

variable {tx : Sender} {out more : List Outbound} {v : View} {msg : ServerMessage}

theorem mem_heard : msg ∈ heard tx out ↔ ⟨tx, msg⟩ ∈ out := by
  simp only [heard, List.mem_map, List.mem_filter, beq_iff_eq]
  constructor
  · rintro ⟨⟨tx', msg'⟩, ⟨hmem, htx⟩, hmsg⟩
    dsimp only at htx hmsg
    subst htx hmsg
    exact hmem
  · intro hmem
    exact ⟨⟨tx, msg⟩, ⟨hmem, rfl⟩, rfl⟩

theorem View.hear_append : v.hear tx (out ++ more) = (v.hear tx out).hear tx more := by
  simp [View.hear, heard, List.filter_append, List.map_append, List.foldl_append]

theorem View.hear_cons_self : v.hear tx (⟨tx, msg⟩ :: out) = (v.apply msg).hear tx out := by
  simp [View.hear, heard]

theorem View.hear_cons_ne {tx' : Sender} (h : tx' ≠ tx) :
    v.hear tx (⟨tx', msg⟩ :: out) = v.hear tx out := by
  simp [View.hear, heard, h]

/-- What has nothing to do with the roster changes no view. -/
theorem View.hear_of_not_isRoster (h : ∀ o ∈ out, o.msg.isRoster = false) : v.hear tx out = v := by
  unfold View.hear
  have hheard : ∀ m ∈ heard tx out, m.isRoster = false := fun m hm => h _ (mem_heard.mp hm)
  generalize heard tx out = msgs at hheard
  induction msgs with
  | nil => rfl
  | cons m msgs ih =>
      rw [List.foldl_cons, v.apply_of_not_isRoster (hheard m List.mem_cons_self)]
      exact ih fun m' hm' => hheard m' (List.mem_cons_of_mem m hm')

/-- Neither does what goes to other channels. -/
theorem View.hear_of_other (h : ∀ o ∈ out, o.tx ≠ tx) : v.hear tx out = v := by
  have hnone : heard tx out = [] := by
    rw [List.eq_nil_iff_forall_not_mem]
    intro m hm
    exact h _ (mem_heard.mp hm) rfl
  simp [View.hear, hnone]

/-- The same announcement heard once or more often. -/
theorem View.hear_announced (hidem : ∀ v : View, (v.apply msg).apply msg = v.apply msg)
    (hall : ∀ o ∈ out, o.msg = msg) (hmem : ⟨tx, msg⟩ ∈ out) : v.hear tx out = v.apply msg := by
  have hheard : ∀ m ∈ heard tx out, m = msg := fun m hm => hall _ (mem_heard.mp hm)
  have hsome : heard tx out ≠ [] := List.ne_nil_of_mem (mem_heard.mpr hmem)
  unfold View.hear
  generalize heard tx out = msgs at hheard hsome
  obtain ⟨m, msgs, rfl⟩ := List.exists_cons_of_ne_nil hsome
  obtain rfl := hheard m List.mem_cons_self
  rw [List.foldl_cons]
  have hrest : ∀ m' ∈ msgs, m' = m := fun m' hm' => hheard m' (List.mem_cons_of_mem m hm')
  clear hheard hsome hmem hall
  induction msgs with
  | nil => rfl
  | cons m' msgs ih =>
      obtain rfl := hrest m' List.mem_cons_self
      rw [List.foldl_cons, hidem]
      exact ih fun m'' hm'' => hrest m'' (List.mem_cons_of_mem m' hm'')

end Hear

/-! ### What a section puts on the channels -/

variable [TokenCodec]

/-- The channel a section's reply goes to: the newcomer's, or that of the connection it is
    run for, if it is in the room. -/
def RoomOp.channel (st : RoomState) : RoomOp → Option Sender
  | .reconnectHost host _ => some host.tx
  | .joinOrResume _ admission _ => some admission.tx
  | op => op.caller.bind fun caller =>
      (st.peers.lookup caller.1).bind fun peer =>
        if peer.connId = caller.2 then some peer.tx else none

/-- `apply_effects`: the reply, then the broadcasts. -/
def Effects.deliveries (e : Effects) (channel : Option Sender) : List Outbound :=
  (channel.bind fun tx => e.reply.map fun reply => ⟨tx, reply⟩).toList ++ e.broadcast

/-- A room, and everything that was put on the channels of its connections, oldest first. -/
structure Transcript where
  room : RoomState
  sent : List Outbound

/-- One section, with all its effects delivered. -/
def Transcript.step (t : Transcript) (op : RoomOp) (rd : Readings) : Transcript where
  room := (op.run rd t.room).1
  sent := t.sent ++ (op.outcome (op.run rd t.room).2).deliveries (op.channel t.room)

def Transcript.run (t : Transcript) (ops : List (RoomOp × Readings)) : Transcript :=
  ops.foldl (fun t step => t.step step.1 step.2) t

/-- A room that is open after a section was open before. -/
theorem Transcript.open_of_step (t : Transcript) {op : RoomOp} {rd : Readings}
    (hopen : (t.step op rd).room.closing = false) : t.room.closing = false := by
  by_contra hclosing
  rw [Bool.not_eq_false] at hclosing
  rw [Transcript.step, (op.run_change rd t.room).closing hclosing] at hopen
  cases hopen

theorem Transcript.open_of_run (t : Transcript) {ops : List (RoomOp × Readings)}
    (hopen : (t.run ops).room.closing = false) : t.room.closing = false := by
  induction ops generalizing t with
  | nil => exact hopen
  | cons step ops ih => exact t.open_of_step (ih _ hopen)

/-- A new room; the host has got its reply. -/
def Transcript.newRoom (sessionId hostPeerId : String) (hostVerifier : Verifier)
    (reconnectToken ownerIpKey : String) (host : Admission) (now : SystemTime)
    (cancel : CancellationToken) : Transcript :=
  let made := RoomState.newRoom sessionId hostPeerId hostVerifier reconnectToken ownerIpKey host
    now cancel
  { room := made.1, sent := made.2.deliveries (some host.tx) }

/-- The transcript of a room that has just been made. -/
inductive Transcript.New : Transcript → Prop where
  | newRoom (sessionId hostPeerId : String) (hostVerifier : Verifier)
      (reconnectToken ownerIpKey : String) (host : Admission) (now : SystemTime)
      (cancel : CancellationToken) : Transcript.New (Transcript.newRoom sessionId hostPeerId
        hostVerifier reconnectToken ownerIpKey host now cancel)

/-- An admitted connection's channel is not that of another connected peer: the connection is
    not already in the room under another name. -/
def OwnChannel (st : RoomState) (op : RoomOp) : Prop :=
  ∀ admitted ∈ op.admits st, ∀ e ∈ st.peers.entries, e.1 ≠ admitted.1 → e.2.tx ≠ admitted.2

instance (st : RoomState) (op : RoomOp) : Decidable (OwnChannel st op) := by
  unfold OwnChannel
  infer_instance

/-- Every admission of a run comes on a channel of its own. -/
def OwnChannels : Transcript → List (RoomOp × Readings) → Prop
  | _, [] => True
  | t, (op, rd) :: ops => OwnChannel t.room op ∧ OwnChannels (t.step op rd) ops

instance decidableOwnChannels : (t : Transcript) → (ops : List (RoomOp × Readings)) →
    Decidable (OwnChannels t ops)
  | _, [] => .isTrue trivial
  | t, (op, rd) :: ops =>
      let _ := decidableOwnChannels (t.step op rd) ops
      inferInstanceAs (Decidable (_ ∧ _))

/-! ### Who is told what -/

/-- The messages of `broadcast_except`. -/
def RoomState.messagesExcept (st : RoomState) (exclude : String) (msg : ServerMessage) :
    List Outbound :=
  (st.broadcastExcept exclude msg {}).broadcast

/-- The messages of `broadcast_all`. -/
def RoomState.messagesAll (st : RoomState) (msg : ServerMessage) : List Outbound :=
  (st.broadcastAll msg {}).broadcast

/-- The messages of `append_host_transfer_eligibility`. -/
def RoomState.eligibilityMessages (st : RoomState) : List Outbound :=
  (st.appendHostTransferEligibility {}).broadcast

/-- Roster messages and eligibility messages. -/
def ServerMessage.isNews (msg : ServerMessage) : Bool :=
  msg.isRoster || msg.msgType == .hostTransferEligibility

section Messages

omit [TokenCodec]

variable (st : RoomState) (e : Effects)

@[simp] theorem RoomState.broadcastExcept_broadcast (exclude : String) (msg : ServerMessage) :
    (st.broadcastExcept exclude msg e).broadcast =
      e.broadcast ++ st.messagesExcept exclude msg := rfl

@[simp] theorem RoomState.broadcastAll_broadcast (msg : ServerMessage) :
    (st.broadcastAll msg e).broadcast = e.broadcast ++ st.messagesAll msg := rfl

@[simp] theorem RoomState.appendHostTransferEligibility_broadcast :
    (st.appendHostTransferEligibility e).broadcast =
      e.broadcast ++ st.eligibilityMessages := by
  unfold RoomState.eligibilityMessages RoomState.appendHostTransferEligibility
  split
  · simp
  · rfl

variable {st} {exclude : String} {msg : ServerMessage} {o : Outbound}

theorem RoomState.mem_messagesExcept : o ∈ st.messagesExcept exclude msg ↔
    o.msg = msg ∧ ∃ q peer, st.peers.lookup q = some peer ∧ q ≠ exclude ∧ peer.tx = o.tx := by
  simp only [messagesExcept, broadcastExcept, List.nil_append, List.mem_map, List.mem_filter,
    decide_eq_true_eq]
  constructor
  · rintro ⟨⟨q, peer⟩, ⟨hentry, hne⟩, rfl⟩
    exact ⟨rfl, q, peer, AList.mem_entries_iff.mp hentry, hne, rfl⟩
  · rintro ⟨rfl, q, peer, hq, hne, htx⟩
    refine ⟨⟨q, peer⟩, ⟨AList.mem_entries_iff.mpr hq, hne⟩, ?_⟩
    rw [htx]

theorem RoomState.mem_messagesAll : o ∈ st.messagesAll msg ↔
    o.msg = msg ∧ ∃ q peer, st.peers.lookup q = some peer ∧ peer.tx = o.tx := by
  simp only [messagesAll, broadcastAll, List.nil_append, List.mem_map, AList.mem_values]
  constructor
  · rintro ⟨peer, ⟨q, hq⟩, rfl⟩
    exact ⟨rfl, q, peer, hq, rfl⟩
  · rintro ⟨rfl, q, peer, hq, htx⟩
    refine ⟨peer, ⟨q, hq⟩, ?_⟩
    rw [htx]

/-- The targets that are published. -/
def RoomState.transferTargets (st : RoomState) : List String :=
  (st.peerInfos.filter fun p => st.canTransferHostTo p.peerId).map (·.peerId)

/-- Every connected peer that declared the capability is sent the same message. -/
theorem RoomState.mem_eligibilityMessages : o ∈ st.eligibilityMessages ↔
    o.msg = st.hostTransferEligibilityMessage st.transferTargets ∧
      ∃ q peer, st.peers.lookup q = some peer ∧ peer.hostTransferCapable = true ∧
        peer.tx = o.tx := by
  have hcapable : ∀ q, q ∈ (st.peerInfos.filter (·.hostTransferCapable)).map (·.peerId) ↔
      ∃ peer, st.peers.lookup q = some peer ∧ peer.hostTransferCapable = true := by
    intro q
    simp only [RoomState.peerInfos, List.mem_map, List.mem_filter]
    constructor
    · rintro ⟨_, ⟨⟨e, he, rfl⟩, hcap⟩, rfl⟩
      exact ⟨e.2, AList.mem_entries_iff.mp he, hcap⟩
    · rintro ⟨peer, hq, hcap⟩
      exact ⟨_, ⟨⟨⟨q, peer⟩, AList.mem_entries_iff.mpr hq, rfl⟩, hcap⟩, rfl⟩
  unfold eligibilityMessages appendHostTransferEligibility HostTransfer.computeEligibility
  dsimp only
  split_ifs with hnone
  · -- nobody declared the capability
    rw [List.isEmpty_iff] at hnone
    simp only [List.not_mem_nil, false_iff, not_and, not_exists]
    intro _ q peer hq hcap
    have hmem := (hcapable q).mpr ⟨peer, hq, hcap⟩
    rw [hnone] at hmem
    cases hmem
  · simp only [List.nil_append, List.mem_filterMap, Option.map_eq_some_iff, hcapable]
    constructor
    · rintro ⟨q, ⟨peer, hq, hcap⟩, peer', hq', rfl⟩
      obtain rfl := Option.some.inj (hq.symm.trans hq')
      exact ⟨rfl, q, peer, hq, hcap, rfl⟩
    · rintro ⟨hmsg, q, peer, hq, hcap, htx⟩
      refine ⟨q, ⟨peer, hq, hcap⟩, peer, hq, ?_⟩
      rcases o with ⟨tx, msg⟩
      cases hmsg
      cases htx
      rfl

/-- The eligibility message is no roster message. -/
theorem RoomState.eligibilityMessages_not_isRoster (h : o ∈ st.eligibilityMessages) :
    o.msg.isRoster = false := by
  rw [(RoomState.mem_eligibilityMessages.mp h).1]
  rfl

end Messages

/-- What a section tells whom, beside what it does to the peer map and the host. -/
inductive Told (st : RoomState) (op : RoomOp) (st' : RoomState) (e : Effects) : Prop where
  | quiet (hpeers : st'.peers = st.peers) (hhost : st'.hostPeerId = st.hostPeerId)
      (hreply : ∀ r ∈ e.reply, r.isNews = false) (hout : ∀ o ∈ e.broadcast, o.msg.isNews = false)
  | admitted (p token : String) (new : ConnectedPeer) (type : ServerType) (announced : Bool)
      (hadmits : op.admits st = some (p, new.tx)) (hconn : new.connId = st.nextConnId)
      (hpeers : st'.peers = st.peers.insert p new) (hhost : st'.hostPeerId = st.hostPeerId)
      (htype : type = .created ∨ type = .joined ∨ type = .resumed)
      (hreply : e.reply = some (st'.admissionReply type token (some (st'.peerIdsExcept p))))
      (hknown : announced = false → p ∈ st.peers)
      (hout : e.broadcast = (if announced then st'.messagesExcept p (peerJoined p) else []) ++
        st'.eligibilityMessages)
  | departed (p : String) (hadmits : op.admits st = none) (hp : p ∈ st.peers)
      (hpeers : st'.peers = st.peers.erase p) (hhost : st'.hostPeerId = st.hostPeerId)
      (hreply : ∀ r ∈ e.reply, r.isNews = false)
      (hout : e.broadcast = st'.messagesExcept p (peerLeft p) ++ st'.eligibilityMessages)
  | transferred (msg : ServerMessage) (hadmits : op.admits st = none)
      (hpeers : st'.peers = st.peers) (hmoved : st'.hostPeerId ≠ st.hostPeerId)
      (hmsg : msg.msgType = .hostChanged)
      (hhost : msg.hostPeerId = some st'.hostPeerId) (hreply : e.reply = none)
      (hout : e.broadcast = st'.messagesAll msg ++ st'.eligibilityMessages)
  | ended (hover : st'.closing = true ∨ st'.peers = ∅)
      (hpeers : st'.peers = st.peers ∨ st'.peers = ∅)

namespace Told

omit [TokenCodec]

variable {st st' : RoomState} {op : RoomOp}

theorem silent (hpeers : st'.peers = st.peers) (hhost : st'.hostPeerId = st.hostPeerId) :
    Told st op st' {} := by
  apply Told.quiet hpeers hhost
  · intro r hr
    cases hr
  · intro o ho
    cases ho

theorem refused (err : ClientError) (text : String) (hpeers : st'.peers = st.peers)
    (hhost : st'.hostPeerId = st.hostPeerId) : Told st op st' (Effects.error err text) := by
  apply Told.quiet hpeers hhost
  · intro r hr
    obtain rfl := Option.some.inj hr
    rfl
  · intro o ho
    cases ho

end Told

section Outcomes

variable {st st' : RoomState} {e : Effects}

/-- What an admission through `join_or_resume` tells. -/
theorem RoomState.joinOrResume_told {msg : ClientMessage} {admission : Admission}
    {resumeOnly : Bool} {now : SystemTime} {instants : String → Instant}
    {cancel : CancellationToken}
    (h : st.joinOrResume msg admission resumeOnly now instants cancel = (st', e))
    (hopen : st.closing = false)
    (hauth : (st.pruned instants).joinAuthorized admission.peerId
      (Verifier.fromToken msg.reconnectToken) resumeOnly = true)
    (hfits : (st.pruned instants).joinRoomFull admission.peerId = false) :
    e.reply = some (st'.admissionReply (if resumeOnly then .resumed else .joined)
        msg.reconnectToken (some (st'.peerIdsExcept admission.peerId))) ∧
      e.broadcast = st'.messagesExcept admission.peerId (peerJoined admission.peerId) ++
        st'.eligibilityMessages := by
  simp only [RoomState.joinOrResume, RoomState.pruneExpiredReservations_fst, hopen, hauth, hfits,
    Bool.not_true, Bool.false_eq_true, if_false] at h
  cases h
  simp [RoomState.admissionEffects]

omit [TokenCodec]

/-- A re-`create` is announced if the host was away. -/
theorem RoomState.reconnectHost_told {host : Admission} {token : String}
    {cancel : CancellationToken} (h : st.reconnectHost host token cancel = (st', e)) :
    e.reply = some (st'.admissionReply .created token
        (some (st'.peerIdsExcept st'.hostPeerId))) ∧
      e.broadcast = (if !st.peers.contains st.hostPeerId then
          st'.messagesExcept st'.hostPeerId (peerJoined st'.hostPeerId) else []) ++
        st'.eligibilityMessages := by
  simp only [RoomState.reconnectHost] at h
  cases h
  by_cases haway : (!st.peers.contains st.hostPeerId) = true
  · simp [haway, RoomState.admissionEffects]
  · simp [haway, RoomState.admissionEffects]

/-- What a committed leave tells. -/
theorem RoomState.finishLeave_told {p : String} {c : Nat} {now : SystemTime}
    (h : st.finishLeave p c true now = (st', e)) (howns : st.ownsPendingLeave p c = true) :
    e.broadcast = st'.messagesExcept p (peerLeft p) ++ st'.eligibilityMessages := by
  simp only [RoomState.finishLeave, howns, Bool.not_true, Bool.false_eq_true, if_false] at h
  cases h
  simp

theorem RoomState.handleDisconnect_told {p : String} {c : Nat} {now : SystemTime} {i : Instant}
    (h : st.handleDisconnect p c now i = (st', e)) (hopen : st.closing = false)
    (hconn : st.connIdOf p = some c) :
    e.reply = none ∧
      e.broadcast = st'.messagesExcept p (peerLeft p) ++ st'.eligibilityMessages := by
  simp only [RoomState.handleDisconnect, hopen, hconn, Bool.false_eq_true, ne_eq, not_true,
    or_self, if_false] at h
  cases h
  simp

/-- A transfer tells everyone who the host is now. -/
theorem RoomState.transferHost_told {p : String} {c version : Nat} {target : String}
    (h : st.transferHost p c version target = (st', e)) (hdirty : e.dirty = true) :
    ∃ msg, msg.msgType = .hostChanged ∧ msg.hostPeerId = some target ∧
      e.broadcast = st'.messagesAll msg ++ st'.eligibilityMessages := by
  simp only [RoomState.transferHost] at h
  split_ifs at h
  · cases h; cases hdirty
  · cases h; cases hdirty
  · cases h; cases hdirty
  · cases h; cases hdirty
  · cases h; cases hdirty
  · split at h
    · cases h; cases hdirty
    · cases h
      refine ⟨{ msgType := .hostChanged
                sessionId := some st.sessionId
                hostPeerId := some target
                sender := some st.hostPeerId }, rfl, rfl, ?_⟩
      simp only [RoomState.appendHostTransferEligibility_broadcast,
        RoomState.broadcastAll_broadcast, List.nil_append]
      rfl

/-- Relayed messages are no news. -/
theorem RoomState.broadcast_told {p : String} {c : Nat} {payload : Option Payload}
    {now : SystemTime} (h : st.broadcast p c payload now = (st', e)) :
    e.reply = none ∧ ∀ o ∈ e.broadcast, o.msg.isNews = false := by
  simp only [RoomState.broadcast] at h
  split_ifs at h
  · cases h
    simp
  · cases h
    simp
  · cases h
    refine ⟨rfl, ?_⟩
    intro o ho
    rw [RoomState.broadcastExcept_broadcast, List.nil_append, RoomState.mem_messagesExcept] at ho
    rw [ho.1]
    rfl

theorem RoomState.sendTo_told {p : String} {c : Nat} {target : String}
    {payload : Option Payload} {now : SystemTime}
    (h : st.sendTo p c target payload now = (st', e)) :
    (∀ r ∈ e.reply, r.isNews = false) ∧ ∀ o ∈ e.broadcast, o.msg.isNews = false := by
  simp only [RoomState.sendTo] at h
  split_ifs at h
  · cases h
    simp
  · cases h
    simp
  · split at h
    · cases h
      simp [Effects.error, ClientError.intoMessage, ServerMessage.error, ServerMessage.isNews,
        ServerMessage.isRoster]
    · cases h
      simp [RoomState.relayMessage, ServerMessage.isNews, ServerMessage.isRoster]

end Outcomes

theorem RoomOp.run_told (rd : Readings) (st : RoomState) (op : RoomOp) :
    Told st op (op.run rd st).1 (op.outcome (op.run rd st).2) := by
  rcases hrun : op.run rd st with ⟨st', r⟩
  dsimp only
  cases op with
  | isIdempotent | isReclaimable | ownerIpKey | pruneExpiredReservations =>
      cases hrun
      exact .silent rfl rfl
  | markClosing => cases hrun; exact .ended (Or.inl rfl) (Or.inl rfl)
  | reconnectHost host token =>
      obtain ⟨hreply, hout⟩ := RoomState.reconnectHost_told hrun
      obtain ⟨rfl, _⟩ := RoomState.reconnectHost_cases hrun
      refine .admitted st.hostPeerId token (host.connect st.nextConnId rd.token) .created
        (!st.peers.contains st.hostPeerId) rfl rfl rfl rfl (Or.inl rfl) hreply ?_ hout
      intro hknown
      simpa using hknown
  | joinOrResume msg admission resumeOnly =>
      rcases RoomState.joinOrResume_cases hrun with
        ⟨_, rfl, rfl⟩ | ⟨_, rfl, err, text, rfl⟩ | ⟨hopen, hauth, hfits, rfl, _⟩
      · exact .refused _ _ rfl rfl
      · exact .refused _ _ rfl rfl
      · obtain ⟨hreply, hout⟩ := RoomState.joinOrResume_told hrun hopen hauth hfits
        refine .admitted admission.peerId msg.reconnectToken
          (admission.connect st.nextConnId rd.token) (if resumeOnly then .resumed else .joined) true
          rfl rfl (by simp) (by simp) ?_ hreply ?_ hout
        · cases resumeOnly <;> simp
        · intro hfalse
          cases hfalse
  | beginLeave peerId c token version =>
      rcases RoomState.beginLeave_cases hrun with ⟨rfl, rfl⟩ | ⟨_, _, _, _, rfl, rfl⟩
      · exact .refused _ _ rfl rfl
      · exact .silent rfl rfl
  | finishLeave peerId c persisted =>
      rcases RoomState.finishLeave_cases hrun with
        ⟨_, rfl, rfl⟩ | ⟨_, _, rfl, rfl⟩ | ⟨howns, rfl, rfl, _, _, _, reply, hreply, htype, _⟩
      · exact .silent rfl rfl
      · exact .refused _ _ rfl rfl
      · have hp := RoomState.mem_peers_of_connIdOf (RoomState.ownsPendingLeave_iff.mp howns).1
        refine .departed peerId rfl hp rfl rfl ?_ (RoomState.finishLeave_told hrun howns)
        intro m hm
        obtain rfl := Option.some.inj (hreply.symm.trans hm)
        simp [ServerMessage.isNews, ServerMessage.isRoster, htype]
  | beginEndSession peerId c token version =>
      rcases RoomState.beginEndSession_cases hrun with ⟨rfl, rfl⟩ | ⟨_, _, _, _, rfl, _⟩
      · exact .refused _ _ rfl rfl
      · exact .ended (Or.inl rfl) (Or.inl rfl)
  | finishEndSession guests persisted =>
      obtain ⟨rfl, _⟩ := RoomState.finishEndSession_cases hrun
      exact .ended (Or.inr rfl) (Or.inr rfl)
  | transferHost peerId c version target =>
      rcases RoomState.transferHost_cases hrun with
        ⟨rfl, err, text, rfl⟩ | ⟨_, _, _, hne, _, _, _, _, rfl, hdirty, _, _, hreply⟩
      · exact .refused err text rfl rfl
      · obtain ⟨msg, htype, hmsg, hout⟩ := RoomState.transferHost_told hrun hdirty
        exact .transferred msg rfl rfl hne htype hmsg hreply hout
  | broadcast senderId c payload =>
      obtain ⟨hreply, hout⟩ := RoomState.broadcast_told hrun
      have hnone : ∀ m ∈ r.reply, m.isNews = false := by
        intro m hm
        cases hreply.symm.trans hm
      obtain ⟨rfl | rfl, _⟩ := RoomState.broadcast_cases hrun
      · exact .quiet rfl rfl hnone hout
      · exact .quiet rfl rfl hnone hout
  | sendTo senderId c targetId payload =>
      obtain ⟨hreply, hout⟩ := RoomState.sendTo_told hrun
      obtain ⟨rfl | rfl, _⟩ := RoomState.sendTo_cases hrun
      · exact .quiet rfl rfl hreply hout
      · exact .quiet rfl rfl hreply hout
  | handleDisconnect peerId c =>
      rcases RoomState.handleDisconnect_cases hrun with ⟨_, rfl, rfl⟩ | ⟨hopen, hconn, rfl, _⟩
      · exact .silent rfl rfl
      · obtain ⟨hreply, hout⟩ := RoomState.handleDisconnect_told hrun hopen hconn
        refine .departed peerId rfl (RoomState.mem_peers_of_connIdOf hconn) (by simp) (by simp) ?_ hout
        intro m hm
        cases hreply.symm.trans hm
  | sweep now =>
      rcases RoomState.sweepRoom_cases hrun with ⟨rfl, rfl⟩ | ⟨rfl, rfl, _⟩ | ⟨rfl, rfl⟩
      · refine .quiet rfl rfl ?_ ?_
        · intro m hm
          cases hm
        · intro o ho
          cases ho
      · exact .ended (Or.inl rfl) (Or.inl rfl)
      · exact .ended (Or.inl rfl) (Or.inr rfl)

/-! ### Views that show the room -/

/-- The view shows `q` everyone else in the room, and its host. -/
structure View.Shows (v : View) (q : String) (st : RoomState) : Prop where
  roster : ∀ x, x ∈ v.roster ↔ x ≠ q ∧ x ∈ st.peers
  host : v.host = some st.hostPeerId

namespace View.Shows

omit [TokenCodec]

variable {v : View} {st st' : RoomState} {p q : String}

/-- Nobody is shown themselves. -/
theorem not_mem_self (h : v.Shows q st) : q ∉ v.roster := fun hq => ((h.roster q).mp hq).1 rfl

theorem congr (h : v.Shows q st) (hpeers : ∀ x, x ∈ st'.peers ↔ x ∈ st.peers)
    (hhost : st'.hostPeerId = st.hostPeerId) : v.Shows q st' where
  roster x := by rw [h.roster x, hpeers]
  host := by rw [h.host, hhost]

/-- The reply that admits a connection shows it the room. -/
theorem admitted (v : View) (st : RoomState) (p token : String) {type : ServerType}
    (htype : type = .created ∨ type = .joined ∨ type = .resumed) :
    (v.apply (st.admissionReply type token (some (st.peerIdsExcept p)))).Shows p st := by
  have happly : v.apply (st.admissionReply type token (some (st.peerIdsExcept p))) =
      { roster := (st.peerIdsExcept p).toFinset, host := some st.hostPeerId } := by
    rcases htype with rfl | rfl | rfl <;> rfl
  rw [happly]
  constructor
  · intro x
    simp only [List.mem_toFinset, RoomState.peerIdsExcept, List.mem_filter, decide_eq_true_eq]
    rw [← AList.mem_keys]
    exact and_comm
  · rfl

theorem peerJoined (h : v.Shows q st) (hne : p ≠ q)
    (hpeers : ∀ x, x ∈ st'.peers ↔ x = p ∨ x ∈ st.peers)
    (hhost : st'.hostPeerId = st.hostPeerId) : (v.apply (PlezyRelay.peerJoined p)).Shows q st' where
  roster x := by
    simp only [View.apply, PlezyRelay.peerJoined, Option.toList_some, List.toFinset_cons,
      List.toFinset_nil, insert_empty_eq, Finset.mem_union, Finset.mem_singleton, h.roster, hpeers]
    constructor
    · rintro (⟨hx, hmem⟩ | rfl)
      · exact ⟨hx, Or.inr hmem⟩
      · exact ⟨hne, Or.inl rfl⟩
    · rintro ⟨hx, rfl | hmem⟩
      · exact Or.inr rfl
      · exact Or.inl ⟨hx, hmem⟩
  host := by
    rw [hhost, ← h.host]
    rfl

theorem peerLeft (h : v.Shows q st) (hpeers : ∀ x, x ∈ st'.peers ↔ x ≠ p ∧ x ∈ st.peers)
    (hhost : st'.hostPeerId = st.hostPeerId) : (v.apply (PlezyRelay.peerLeft p)).Shows q st' where
  roster x := by
    simp only [View.apply, PlezyRelay.peerLeft, Option.toList_some, List.toFinset_cons,
      List.toFinset_nil, insert_empty_eq, Finset.mem_sdiff, Finset.mem_singleton, h.roster, hpeers]
    constructor
    · rintro ⟨⟨hx, hmem⟩, hp⟩
      exact ⟨hx, hp, hmem⟩
    · rintro ⟨hx, hp, hmem⟩
      exact ⟨⟨hx, hmem⟩, hp⟩
  host := by
    rw [hhost, ← h.host]
    rfl

theorem hostChanged (h : v.Shows q st) {msg : ServerMessage} (hmsg : msg.msgType = .hostChanged)
    (hhost : msg.hostPeerId = some st'.hostPeerId) (hpeers : ∀ x, x ∈ st'.peers ↔ x ∈ st.peers) :
    (v.apply msg).Shows q st' := by
  have happly : v.apply msg = { v with host := msg.hostPeerId } := by simp [View.apply, hmsg]
  rw [happly]
  exact ⟨fun x => by rw [h.roster x, hpeers], hhost⟩

end View.Shows

section Idempotence

omit [TokenCodec]

theorem View.apply_peerJoined_twice (p : String) (v : View) :
    (v.apply (peerJoined p)).apply (peerJoined p) = v.apply (peerJoined p) := by
  simp [View.apply, peerJoined]

theorem View.apply_peerLeft_twice (p : String) (v : View) :
    (v.apply (peerLeft p)).apply (peerLeft p) = v.apply (peerLeft p) := by
  simp [View.apply, peerLeft]

theorem View.apply_hostChanged_twice {msg : ServerMessage} (h : msg.msgType = .hostChanged)
    (v : View) : (v.apply msg).apply msg = v.apply msg := by
  simp [View.apply, h]

end Idempotence

/-! ### Hearing what a section tells -/

section HearTold

omit [TokenCodec]

variable {st : RoomState} {e : Effects} {tx : Sender} {v : View} {msg : ServerMessage}
  {exclude q : String} {peer : ConnectedPeer}

/-- A reply that is no roster message can be left out. -/
theorem View.hear_deliveries {channel : Option Sender}
    (hreply : ∀ r ∈ e.reply, r.isRoster = false) :
    v.hear tx (e.deliveries channel) = v.hear tx e.broadcast := by
  rw [Effects.deliveries, View.hear_append]
  congr 1
  apply View.hear_of_not_isRoster
  intro o ho
  simp only [Option.mem_toList, Option.bind_eq_some_iff, Option.map_eq_some_iff] at ho
  obtain ⟨_, _, r, hr, rfl⟩ := ho
  exact hreply r hr

theorem ServerMessage.isRoster_of_isNews (h : msg.isNews = false) : msg.isRoster = false := by
  unfold ServerMessage.isNews at h
  exact (Bool.or_eq_false_iff.mp h).1

/-- A connected peer other than the excluded one hears an announcement. -/
theorem View.hear_messagesExcept
    (hidem : ∀ v : View, (v.apply msg).apply msg = v.apply msg)
    (hq : st.peers.lookup q = some peer) (hne : q ≠ exclude) :
    v.hear peer.tx (st.messagesExcept exclude msg ++ st.eligibilityMessages) = v.apply msg := by
  rw [View.hear_append, View.hear_of_not_isRoster fun o ho => st.eligibilityMessages_not_isRoster ho]
  apply View.hear_announced hidem
  · intro o ho
    exact (RoomState.mem_messagesExcept.mp ho).1
  · exact RoomState.mem_messagesExcept.mpr ⟨rfl, q, peer, hq, hne, rfl⟩

/-- The excluded peer does not, if its channel is its own. -/
theorem View.hear_messagesExcept_self
    (hown : ∀ q peer, st.peers.lookup q = some peer → q ≠ exclude → peer.tx ≠ tx) :
    v.hear tx (st.messagesExcept exclude msg ++ st.eligibilityMessages) = v := by
  rw [View.hear_append, View.hear_of_not_isRoster fun o ho => st.eligibilityMessages_not_isRoster ho]
  apply View.hear_of_other
  intro o ho
  obtain ⟨_, q, peer, hq, hne, htx⟩ := RoomState.mem_messagesExcept.mp ho
  rw [← htx]
  exact hown q peer hq hne

theorem View.hear_messagesAll
    (hidem : ∀ v : View, (v.apply msg).apply msg = v.apply msg)
    (hq : st.peers.lookup q = some peer) :
    v.hear peer.tx (st.messagesAll msg ++ st.eligibilityMessages) = v.apply msg := by
  rw [View.hear_append, View.hear_of_not_isRoster fun o ho => st.eligibilityMessages_not_isRoster ho]
  apply View.hear_announced hidem
  · intro o ho
    exact (RoomState.mem_messagesAll.mp ho).1
  · exact RoomState.mem_messagesAll.mpr ⟨rfl, q, peer, hq, rfl⟩

end HearTold

/-! ### The invariant -/

/-- Connected peers have channels of their own. -/
def ChannelsDistinct (st : RoomState) : Prop :=
  ∀ p q a b, st.peers.lookup p = some a → st.peers.lookup q = some b → a.tx = b.tx → p = q

/-- The view a client has of the room, from everything sent on its channel. -/
def Transcript.view (t : Transcript) (tx : Sender) : View := View.blank.hear tx t.sent

/-- Everyone who is in an open room sees it as it is. -/
structure ViewsAgree (t : Transcript) : Prop where
  channels : ChannelsDistinct t.room
  shown : t.room.closing = false → ∀ q peer, t.room.peers.lookup q = some peer →
    (t.view peer.tx).Shows q t.room

theorem ChannelsDistinct.run {st : RoomState} (h : ChannelsDistinct st) {op : RoomOp}
    (hown : OwnChannel st op) (rd : Readings) : ChannelsDistinct (op.run rd st).1 := by
  rcases op.peers_cases rd st with
    ⟨hpeers, _⟩ | ⟨r, admission, hadmits, hpeers, _⟩ | ⟨r, c, _, _, _, _, hpeers, _⟩ | ⟨hpeers, _⟩
  · intro p q a b ha hb heq
    rw [hpeers] at ha hb
    exact h p q a b ha hb heq
  · -- the newcomer's channel is nobody else's
    have hnew : ∀ q b, st.peers.lookup q = some b → q ≠ r → b.tx ≠ admission.tx := by
      intro q b hb hne
      exact hown (r, admission.tx) (by rw [hadmits]; rfl) ⟨q, b⟩ (AList.mem_entries_iff.mpr hb) hne
    intro p q a b ha hb heq
    rw [hpeers, AList.lookup_insert_eq] at ha hb
    split at ha
    · rename_i hp
      obtain rfl := Option.some.inj ha
      split at hb
      · rename_i hq
        exact hp.trans hq.symm
      · rename_i hq
        exact absurd heq.symm (hnew q b hb hq)
    · rename_i hp
      split at hb
      · obtain rfl := Option.some.inj hb
        exact absurd heq (hnew p a ha hp)
      · exact h p q a b ha hb heq
  · intro p q a b ha hb heq
    rw [hpeers, AList.lookup_erase_eq] at ha hb
    split at ha
    · cases ha
    · split at hb
      · cases hb
      · exact h p q a b ha hb heq
  · intro p q a b ha
    rw [hpeers] at ha
    cases ha

omit [TokenCodec] in
theorem RoomOp.channel_of_admits {st : RoomState} {op : RoomOp} {p : String} {tx : Sender}
    (h : op.admits st = some (p, tx)) : op.channel st = some tx := by
  cases op with
  | reconnectHost host token => cases h; rfl
  | joinOrResume msg admission resumeOnly => cases h; rfl
  | _ => cases h

section ToldShows

omit [TokenCodec]

variable {st st' : RoomState} {op : RoomOp} {e : Effects} {view : Sender → View}

/-- If everyone's view showed the room before a section, what the section tells makes
    everyone's view show the room after it. -/
theorem Told.shows (h : Told st op st' e) (hchannels : ChannelsDistinct st')
    (hopen : st'.closing = false)
    (hold : ∀ q peer, st.peers.lookup q = some peer → (view peer.tx).Shows q st)
    (q : String) (peer : ConnectedPeer) (hq : st'.peers.lookup q = some peer) :
    ((view peer.tx).hear peer.tx (e.deliveries (op.channel st))).Shows q st' := by
  cases h with
  | quiet hpeers hhost hreply hout =>
      rw [View.hear_deliveries fun r hr => ServerMessage.isRoster_of_isNews (hreply r hr),
        View.hear_of_not_isRoster fun o ho => ServerMessage.isRoster_of_isNews (hout o ho)]
      rw [hpeers] at hq
      exact (hold q peer hq).congr (by simp [hpeers]) hhost
  | admitted p token new type announced hadmits _ hpeers hhost htype hreply hknown hout =>
      have hnew : st'.peers.lookup p = some new := by rw [hpeers, AList.lookup_insert]
      have hmem : ∀ x, x ∈ st'.peers ↔ x = p ∨ x ∈ st.peers := by
        intro x
        rw [hpeers, AList.mem_insert]
      rw [Effects.deliveries, RoomOp.channel_of_admits hadmits, hreply, hout]
      by_cases hqp : q = p
      · -- the newcomer starts from its reply, and what is announced goes to others
        subst hqp
        obtain rfl := Option.some.inj (hnew.symm.trans hq)
        have hown : ∀ r b, st'.peers.lookup r = some b → r ≠ q → b.tx ≠ new.tx :=
          fun r b hr hne htx => hne (hchannels r q b new hr hnew htx)
        simp only [Option.bind_some, Option.map_some, Option.toList_some, List.singleton_append,
          View.hear_cons_self]
        have hrest : ∀ v : View, v.hear new.tx
            ((if announced then st'.messagesExcept q (peerJoined q) else []) ++
              st'.eligibilityMessages) = v := by
          intro v
          cases announced with
          | true => exact View.hear_messagesExcept_self hown
          | false =>
              exact View.hear_of_not_isRoster fun o ho => st'.eligibilityMessages_not_isRoster ho
        rw [hrest]
        exact .admitted _ st' q token htype
      · have hq₀ : st.peers.lookup q = some peer := by
          rwa [hpeers, AList.lookup_insert_ne hqp] at hq
        have hne : new.tx ≠ peer.tx := fun htx => hqp (hchannels q p peer new hq hnew htx.symm)
        simp only [Option.bind_some, Option.map_some, Option.toList_some, List.singleton_append,
          View.hear_cons_ne hne]
        cases announced with
        | true =>
            rw [if_pos rfl, View.hear_messagesExcept (View.apply_peerJoined_twice p) hq hqp]
            exact (hold q peer hq₀).peerJoined (Ne.symm hqp) hmem hhost
        | false =>
            -- a replaced socket: the peer was in everyone's view
            rw [if_neg Bool.false_ne_true, List.nil_append,
              View.hear_of_not_isRoster fun o ho => st'.eligibilityMessages_not_isRoster ho]
            refine (hold q peer hq₀).congr (fun x => ?_) hhost
            rw [hmem]
            constructor
            · rintro (rfl | hx)
              · exact hknown rfl
              · exact hx
            · exact Or.inr
  | departed p hadmits _ hpeers hhost hreply hout =>
      have hmem : ∀ x, x ∈ st'.peers ↔ x ≠ p ∧ x ∈ st.peers := by
        intro x
        rw [hpeers, AList.mem_erase]
      have hqp : q ≠ p := ((hmem q).mp (AList.mem_of_lookup hq)).1
      have hq₀ : st.peers.lookup q = some peer := by
        rwa [hpeers, AList.lookup_erase_ne hqp] at hq
      rw [View.hear_deliveries fun r hr => ServerMessage.isRoster_of_isNews (hreply r hr), hout,
        View.hear_messagesExcept (View.apply_peerLeft_twice p) hq hqp]
      exact (hold q peer hq₀).peerLeft hmem hhost
  | transferred msg hadmits hpeers _ hmsg hhost hreply hout =>
      have hq₀ : st.peers.lookup q = some peer := by rwa [hpeers] at hq
      rw [View.hear_deliveries (by simp [hreply]), hout,
        View.hear_messagesAll (View.apply_hostChanged_twice hmsg) hq]
      exact (hold q peer hq₀).hostChanged hmsg hhost (by simp [hpeers])
  | ended hover hpeers =>
      rcases hover with hclosing | hempty
      · rw [hopen] at hclosing
        cases hclosing
      · rw [hempty] at hq
        cases hq

end ToldShows

/-- A section keeps the views right. -/
theorem ViewsAgree.step {t : Transcript} (h : ViewsAgree t) {op : RoomOp}
    (hown : OwnChannel t.room op) (rd : Readings) : ViewsAgree (t.step op rd) where
  channels := h.channels.run hown rd
  shown := by
    intro hopen q peer hq
    have hopen₀ := t.open_of_step hopen
    have hview : (t.step op rd).view peer.tx = (t.view peer.tx).hear peer.tx
        ((op.outcome (op.run rd t.room).2).deliveries (op.channel t.room)) := View.hear_append
    rw [hview]
    exact (op.run_told rd t.room).shows (h.channels.run hown rd) hopen (h.shown hopen₀) q peer hq

theorem ViewsAgree.run {t : Transcript} (h : ViewsAgree t) :
    ∀ {ops : List (RoomOp × Readings)}, OwnChannels t ops → ViewsAgree (t.run ops) := by
  intro ops
  induction ops generalizing t with
  | nil => exact fun _ => h
  | cons step ops ih => exact fun hown => ih (h.step hown.1 step.2) hown.2

omit [TokenCodec] in
/-- The reply of a new room names no peers, and there are none. -/
theorem Transcript.New.viewsAgree {t : Transcript} (hnew : t.New) : ViewsAgree t := by
  obtain ⟨sessionId, hostPeerId, hostVerifier, reconnectToken, ownerIpKey, host, now, cancel⟩ := hnew
  set t := Transcript.newRoom sessionId hostPeerId hostVerifier reconnectToken ownerIpKey host now
    cancel with ht
  have honly : ∀ q peer, t.room.peers.lookup q = some peer → q = hostPeerId ∧ peer.tx = host.tx := by
    intro q peer hq
    change ((∅ : AssocMap String ConnectedPeer).insert hostPeerId (host.connect 1 cancel)).lookup q
      = some peer at hq
    rw [AList.lookup_insert_eq] at hq
    split at hq
    · rename_i hqh
      obtain rfl := Option.some.inj hq
      exact ⟨hqh, rfl⟩
    · cases hq
  have hsent : t.sent = ⟨host.tx, t.room.admissionReply .created reconnectToken none⟩ ::
      t.room.eligibilityMessages := by
    simp [ht, Transcript.newRoom, RoomState.newRoom, Effects.deliveries]
  constructor
  · intro p q a b ha hb _
    exact (honly p a ha).1.trans (honly q b hb).1.symm
  · intro _ q peer hq
    obtain ⟨rfl, htx⟩ := honly q peer hq
    rw [Transcript.view, hsent, htx, View.hear_cons_self,
      View.hear_of_not_isRoster fun o ho => t.room.eligibilityMessages_not_isRoster ho]
    constructor
    · intro x
      show x ∈ (∅ : Finset String) ↔ _
      simp only [Finset.notMem_empty, false_iff, not_and]
      intro hne hx
      obtain ⟨peer', hx'⟩ := AList.mem_iff_lookup.mp hx
      exact hne (honly x peer' hx').1
    · rfl

/-- A client that starts from the reply that admitted its connection and follows `peerJoined`,
    `peerLeft` and `hostChanged` knows, as long as the room is open, exactly who else is
    connected and who the host is.  The last admission reply on a connected peer's channel is
    the one for its current connection, and `View.apply` starts afresh there. -/
theorem views_agree_with_room {t₀ : Transcript} (hnew : t₀.New) (ops : List (RoomOp × Readings))
    (hown : OwnChannels t₀ ops) (hopen : (t₀.run ops).room.closing = false) (q : String)
    (peer : ConnectedPeer) (hq : (t₀.run ops).room.peers.lookup q = some peer) :
    ((t₀.run ops).view peer.tx).Shows q (t₀.run ops).room :=
  (hnew.viewsAgree.run hown).shown hopen q peer hq

omit [TokenCodec] in
/-- Two guests join, authority passes to the first of them and the second one's socket drops:
    the old host has seen it all. -/
theorem views_agree_with_room_after_transfer : letI : TokenCodec := sampleCodec
    let host : Admission :=
      { peerId := "a", tx := 0, syncProtocolVersion := 4, hostTransferCapable := true }
    let rd : Readings := { now := 0, instants := fun _ => 0, token := ⟨1⟩ }
    let join (p : String) (tx : Sender) : RoomOp × Readings :=
      (.joinOrResume { msgType := .join, reconnectToken := tokenTwos }
        { host with peerId := p, tx := tx } false, rd)
    let peer := host.connect 1 ⟨0⟩
    let t := (Transcript.newRoom "s" "a" ⟨digestOnes⟩ tokenOnes "ip" host 0 ⟨0⟩).run
      [join "b" 1, join "d" 2, (.transferHost "a" 1 2 "b", rd), (.handleDisconnect "d" 3, rd)]
    t.room.closing = false ∧ t.room.hostPeerId = "b" ∧ (t.view peer.tx).Shows "a" t.room := by
  let _ : TokenCodec := sampleCodec
  intro host rd join peer t
  have hopen : t.room.closing = false := by decide +kernel
  refine ⟨hopen, by decide +kernel, ?_⟩
  exact views_agree_with_room (.newRoom "s" "a" ⟨digestOnes⟩ tokenOnes "ip" host 0 ⟨0⟩)
    [join "b" 1, join "d" 2, (.transferHost "a" 1 2 "b", rd), (.handleDisconnect "d" 3, rd)]
    (by decide +kernel) hopen "a" peer (by decide +kernel)

omit [TokenCodec] in
/-- A guest sends an `endSession`, which is refused, and joins again on the same socket under
    another name.  The channel is then that of two peers of the room, and what is announced
    to the first is heard by the second: its roster has its own name. -/
theorem own_arrival_after_refused_end_session : letI : TokenCodec := sampleCodec
    let host : Admission :=
      { peerId := "a", tx := 0, syncProtocolVersion := 0, hostTransferCapable := false }
    let rd (token : Nat) : Readings := { now := 0, instants := fun _ => 0, token := ⟨token⟩ }
    let join (p : String) (token : Nat) : RoomOp × Readings :=
      (.joinOrResume (message .join "s" p tokenTwos) { host with peerId := p, tx := 1 } false,
        rd token)
    let peer := Admission.connect { host with peerId := "c", tx := 1 } 3 ⟨3⟩
    let t := (Transcript.newRoom "s" "a" ⟨digestOnes⟩ tokenOnes "ip" host 0 ⟨0⟩).run
      [join "b" 1, (.beginEndSession "b" 2 tokenTwos RELAY_PROTOCOL_VERSION, rd 2), join "c" 3]
    -- a run of the relay has these operations, one after the other, and these messages
    (∃ sys, Reaches Always sys ∧ (∀ t, ∃ l, sys.threads t = .ret l) ∧
      sys.shared.server.sent = t.sent ∧ ∃ st, sys.shared.server.heap[0]? = some st ∧
        st.closing = false ∧ st.peers = t.room.peers) ∧
    t.room.closing = false ∧ t.room.peers.lookup "c" = some peer ∧
    "c" ∈ (t.view peer.tx).roster ∧ ¬(t.view peer.tx).Shows "c" t.room := by
  let _ : TokenCodec := sampleCodec
  intro host rd join peer t
  have hself : ∀ v : View, "c" ∈ v.roster → "c" ∈ v.roster ∧ ¬v.Shows "c" t.room :=
    fun v hv => ⟨hv, fun hshows => hshows.not_mem_self hv⟩
  refine ⟨?_, by decide +kernel, by decide +kernel, hself _ (by decide +kernel)⟩
  obtain ⟨sys, hreach, hrest, hsent, st, hst, hopen, hpeers⟩ := rests_of_run (C := Always)
    (P := fun sys => sys.shared.server.sent = t.sent ∧ ∃ st ∈ sys.shared.server.heap[0]?,
      st.closing = false ∧ st.peers.entries = t.room.peers.entries)
    (.start (.conn 0) (.connect "ip") :: .start (.conn 1) (.connect "ip") ::
      handles 0 (message .create "s" "a" tokenOnes) 8 ++
      handles 1 (message .join "s" "b" tokenTwos) 5 ++
      handles 1 (message .endSession "s" "b" tokenTwos) 2 ++
      handles 1 (message .join "s" "c" tokenTwos) 6) (by decide +kernel)
  exact ⟨sys, hreach, hrest, hsent, st, hst, hopen, AList.ext hpeers⟩

end PlezyRelay
