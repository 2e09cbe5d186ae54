/-
  PlezyRelay/Routing.lean
  =======================
  **Who gets which message, in every interleaving.**

  A section of a room asks for messages under the room's lock; they are put on the channels
  later, by the task that ran it, and while it does so connections come and go.  The
  channel of a connection is a number here, and nothing in the types keeps a task from
  writing to any of them.  So the questions a client of the relay would ask are about
  whole runs:

    * is the peer named in a relayed message the one who sent it, and the payload what was
      sent?  — `relayed_messages_authentic`;
    * can a connection hear anything of a room that never admitted it?
      — `rooms_isolated`;
    * can a reconnect token, which is as good as the identity, reach anyone but the
      connection that presented it?  — `tokens_return_to_presenter`.

  The three rest on one invariant.  `RoomOp.mail` and `RoomOp.reply` say what a section
  can ask for; `Addressed` is what this means for an event given the events before it;
  `Routed` adds where the members of the rooms come from.
-/
import PlezyRelay.TaskRecords

namespace PlezyRelay

/-! ### What a section asks for -/

/-- What a section relays: the sender, its connection id and the payload. -/
def RoomOp.speech : RoomOp → Option (String × Nat × Option Payload)
  | .broadcast p c payload | .sendTo p c _ payload => some (p, c, payload)
  | _ => none

/-- The token a section is shown. -/
def RoomOp.presents : RoomOp → Option String
  | .reconnectHost _ token => some token
  | .joinOrResume msg _ _ => some msg.reconnectToken
  | _ => none

/-- A message that a section has for a channel. -/
structure Mail (st st' : RoomState) (op : RoomOp) (o : Outbound) : Prop where
  recipient : (∃ q peer, st'.peers.lookup q = some peer ∧ peer.tx = o.tx) ∨
    ∃ guests persisted, op = .finishEndSession guests persisted ∧ o.tx ∈ guests
  untokened : o.msg.reconnectToken = none
  speech : o.msg.msgType = .message → ∃ p c payload, op.speech = some (p, c, payload) ∧
    st.connIdOf p = some c ∧ o.msg = RoomState.relayMessage p payload

namespace Mail

variable {st st' : RoomState} {op : RoomOp} {o : Outbound} {msg : ServerMessage}

theorem of_except {exclude : String} (h : o ∈ st'.messagesExcept exclude msg)
    (htoken : msg.reconnectToken = none) (htype : msg.msgType ≠ .message) : Mail st st' op o := by
  obtain ⟨rfl, q, peer, hq, _, htx⟩ := RoomState.mem_messagesExcept.mp h
  exact ⟨Or.inl ⟨q, peer, hq, htx⟩, htoken, fun h => absurd h htype⟩

theorem of_all (h : o ∈ st'.messagesAll msg) (htoken : msg.reconnectToken = none)
    (htype : msg.msgType ≠ .message) : Mail st st' op o := by
  obtain ⟨rfl, q, peer, hq, htx⟩ := RoomState.mem_messagesAll.mp h
  exact ⟨Or.inl ⟨q, peer, hq, htx⟩, htoken, fun h => absurd h htype⟩

theorem of_eligibility (h : o ∈ st'.eligibilityMessages) : Mail st st' op o := by
  obtain ⟨hmsg, q, peer, hq, _, htx⟩ := RoomState.mem_eligibilityMessages.mp h
  refine ⟨Or.inl ⟨q, peer, hq, htx⟩, by rw [hmsg]; rfl, fun h => ?_⟩
  rw [hmsg] at h
  cases h

end Mail

section Sections

variable [TokenCodec] {st st' : RoomState} {e : Effects}

omit [TokenCodec] in
/-- The announcement of a transfer carries no token. -/
theorem RoomState.transferHost_mail {p : String} {c version : Nat} {target : String}
    {op : RoomOp} (h : st.transferHost p c version target = (st', e)) {o : Outbound}
    (ho : o ∈ e.broadcast) : Mail st st' op o := by
  simp only [RoomState.transferHost] at h
  split_ifs at h
  · cases h; cases ho
  · cases h; cases ho
  · cases h; cases ho
  · cases h; cases ho
  · cases h; cases ho
  · split at h
    · cases h; cases ho
    · cases h
      rw [RoomState.appendHostTransferEligibility_broadcast, RoomState.broadcastAll_broadcast,
        List.nil_append, List.mem_append] at ho
      rcases ho with ho | ho
      · exact .of_all ho rfl (by simp)
      · exact .of_eligibility ho

omit [TokenCodec] in
theorem RoomState.broadcast_mail {p : String} {c : Nat} {payload : Option Payload}
    {now : SystemTime} (h : st.broadcast p c payload now = (st', e)) {o : Outbound}
    (ho : o ∈ e.broadcast) : Mail st st' (.broadcast p c payload) o := by
  simp only [RoomState.broadcast] at h
  split_ifs at h with hcurrent
  · cases h; cases ho
  · cases h; cases ho
  · cases h
    rw [RoomState.broadcastExcept_broadcast, List.nil_append] at ho
    obtain ⟨hmsg, q, peer, hq, _, htx⟩ := RoomState.mem_messagesExcept.mp ho
    refine ⟨Or.inl ⟨q, peer, hq, htx⟩, by rw [hmsg]; rfl, fun _ => ?_⟩
    exact ⟨p, c, payload, rfl, by simpa using hcurrent, hmsg⟩

omit [TokenCodec] in
theorem RoomState.sendTo_mail {p : String} {c : Nat} {target : String}
    {payload : Option Payload} {now : SystemTime}
    (h : st.sendTo p c target payload now = (st', e)) {o : Outbound} (ho : o ∈ e.broadcast) :
    Mail st st' (.sendTo p c target payload) o := by
  simp only [RoomState.sendTo] at h
  split_ifs at h with hcurrent
  · cases h; cases ho
  · cases h; cases ho
  · split at h
    · cases h; cases ho
    · rename_i peer hpeer
      cases h
      obtain rfl := List.mem_singleton.mp ho
      refine ⟨Or.inl ⟨target, peer, hpeer, rfl⟩, rfl, fun _ => ?_⟩
      exact ⟨p, c, payload, rfl, by simpa using hcurrent, rfl⟩

/-- **Who a section writes to, and what.** -/
theorem RoomOp.mail (rd : Readings) (st : RoomState) (op : RoomOp) {o : Outbound}
    (ho : o ∈ (op.outcome (op.run rd st).2).broadcast) : Mail st (op.run rd st).1 op o := by
  rcases hrun : op.run rd st with ⟨st', r⟩
  rw [hrun] at ho
  dsimp only at ho ⊢
  cases op with
  | isIdempotent | isReclaimable | ownerIpKey | markClosing | pruneExpiredReservations | sweep =>
      cases ho
  | reconnectHost host token =>
      have hout : o ∈ Effects.broadcast r := ho
      rw [(RoomState.reconnectHost_told hrun).2, List.mem_append] at hout
      rcases hout with hout | hout
      · split at hout
        · exact .of_except hout rfl (by simp [peerJoined])
        · cases hout
      · exact .of_eligibility hout
  | joinOrResume msg admission resumeOnly =>
      rcases RoomState.joinOrResume_cases hrun with
        ⟨_, _, rfl⟩ | ⟨_, _, _, _, rfl⟩ | ⟨hopen, hauth, hfits, _⟩
      · cases ho
      · cases ho
      · have hout : o ∈ Effects.broadcast r := ho
        rw [(RoomState.joinOrResume_told hrun hopen hauth hfits).2, List.mem_append] at hout
        rcases hout with hout | hout
        · exact .of_except hout rfl (by simp [peerJoined])
        · exact .of_eligibility hout
  | beginLeave p c token version =>
      rcases RoomState.beginLeave_cases hrun with ⟨_, rfl⟩ | ⟨_, _, _, _, _, rfl⟩ <;> cases ho
  | finishLeave p c persisted =>
      rcases RoomState.finishLeave_cases hrun with
        ⟨_, _, rfl⟩ | ⟨_, _, _, rfl⟩ | ⟨howns, rfl, _⟩
      · cases ho
      · cases ho
      · have hout : o ∈ Effects.broadcast r := ho
        rw [RoomState.finishLeave_told hrun howns, List.mem_append] at hout
        rcases hout with hout | hout
        · exact .of_except hout rfl (by simp [peerLeft])
        · exact .of_eligibility hout
  | beginEndSession p c token version =>
      rcases RoomState.beginEndSession_cases hrun with ⟨_, rfl⟩ | ⟨_, _, _, _, _, _, rfl⟩ <;>
        cases ho
  | finishEndSession guests persisted =>
      cases persisted with
      | false => cases hrun; cases ho
      | true =>
          cases hrun
          obtain ⟨tx, htx, rfl⟩ := List.mem_map.mp ho
          exact ⟨Or.inr ⟨guests, true, rfl, htx⟩, rfl, fun h => by cases h⟩
  | transferHost p c version target => exact RoomState.transferHost_mail hrun ho
  | broadcast p c payload => exact RoomState.broadcast_mail hrun ho
  | sendTo p c target payload => exact RoomState.sendTo_mail hrun ho
  | handleDisconnect p c =>
      rcases RoomState.handleDisconnect_cases hrun with ⟨_, _, rfl⟩ | ⟨hopen, hconn, _⟩
      · cases ho
      · have hout : o ∈ Effects.broadcast r := ho
        rw [(RoomState.handleDisconnect_told hrun hopen hconn).2, List.mem_append] at hout
        rcases hout with hout | hout
        · exact .of_except hout rfl (by simp [peerLeft])
        · exact .of_eligibility hout

/-- What a section has to tell its caller, if it is more than an error. -/
structure Reply (op : RoomOp) (e : Effects) (msg : ServerMessage) : Prop where
  unspoken : msg.msgType ≠ .message
  token : ∀ token ∈ msg.reconnectToken, op.presents = some token
  insider : (op.presents.isSome = true ∧ e.admitted.isSome = true) ∨ op.connId.isSome = true ∨
    op.isTeardown = true

theorem RoomOp.reply (rd : Readings) (st : RoomState) (op : RoomOp) {msg : ServerMessage}
    (hmsg : (op.outcome (op.run rd st).2).reply = some msg) :
    msg.isAnswer = true ∨ Reply op (op.outcome (op.run rd st).2) msg := by
  rcases hrun : op.run rd st with ⟨st', r⟩
  rw [hrun] at hmsg
  dsimp only at hmsg ⊢
  have herror : ∀ err text, (Effects.error err text).reply = some msg → msg.isAnswer = true := by
    intro err text h
    obtain rfl := Option.some.inj h
    exact isAnswer_intoMessage err text
  cases op with
  | isIdempotent | isReclaimable | ownerIpKey | markClosing | pruneExpiredReservations | sweep =>
      cases hmsg
  | reconnectHost host token =>
      right
      have hreply : Effects.reply r = some msg := hmsg
      rw [(RoomState.reconnectHost_told hrun).1] at hreply
      obtain rfl := Option.some.inj hreply
      refine ⟨by simp [RoomState.admissionReply], ?_, Or.inl ?_⟩
      · intro token' htoken
        exact htoken
      · obtain ⟨_, _, hid, hcancel, _⟩ := RoomState.reconnectHost_cases hrun
        simp [RoomOp.presents, RoomOp.outcome, Effects.admitted, hid, hcancel]
  | joinOrResume m admission resumeOnly =>
      rcases RoomState.joinOrResume_cases hrun with
        ⟨_, _, rfl⟩ | ⟨_, _, err, text, rfl⟩ | ⟨hopen, hauth, hfits, _, _, hid, hcancel, _⟩
      · exact Or.inl (herror _ _ hmsg)
      · exact Or.inl (herror _ _ hmsg)
      · right
        have hreply : Effects.reply r = some msg := hmsg
        rw [(RoomState.joinOrResume_told hrun hopen hauth hfits).1] at hreply
        obtain rfl := Option.some.inj hreply
        refine ⟨?_, ?_, Or.inl ?_⟩
        · cases resumeOnly <;> simp [RoomState.admissionReply]
        · intro token' htoken
          exact htoken
        · simp [RoomOp.presents, RoomOp.outcome, Effects.admitted, hid, hcancel]
  | beginLeave p c token version =>
      rcases RoomState.beginLeave_cases hrun with ⟨_, rfl⟩ | ⟨_, _, _, _, _, rfl⟩
      · exact Or.inl (herror _ _ hmsg)
      · cases hmsg
  | finishLeave p c persisted =>
      rcases RoomState.finishLeave_cases hrun with
        ⟨_, _, rfl⟩ | ⟨_, _, _, rfl⟩ | ⟨howns, rfl, _⟩
      · cases hmsg
      · exact Or.inl (herror _ _ hmsg)
      · right
        have hreply : (st.finishLeave p c true rd.now).2.reply = some msg := by
          rw [show st.finishLeave p c true rd.now = (st', r) from hrun]
          exact hmsg
        simp only [RoomState.finishLeave, howns, Bool.not_true, Bool.false_eq_true, if_false,
          RoomState.appendHostTransferEligibility_reply, RoomState.broadcastExcept_reply,
          Option.some.injEq] at hreply
        subst hreply
        exact ⟨by simp, by simp, Or.inr (Or.inl rfl)⟩
  | beginEndSession p c token version =>
      rcases RoomState.beginEndSession_cases hrun with ⟨_, rfl⟩ | ⟨_, _, _, _, _, _, rfl⟩
      · exact Or.inl (herror _ _ hmsg)
      · cases hmsg
  | finishEndSession guests persisted =>
      cases persisted with
      | false => cases hrun; exact Or.inl (herror .invalidMessage "Unable to persist ended room" hmsg)
      | true =>
          cases hrun
          obtain rfl := Option.some.inj hmsg
          refine Or.inr ⟨by simp [RoomState.endedMessage], ?_, Or.inr (Or.inr rfl)⟩
          intro token htoken
          cases htoken
  | transferHost p c version target =>
      rcases RoomState.transferHost_cases hrun with
        ⟨_, err, text, rfl⟩ | ⟨_, _, _, _, _, _, _, _, _, _, _, _, hreply⟩
      · exact Or.inl (herror _ _ hmsg)
      · cases hreply.symm.trans hmsg
  | broadcast p c payload => cases (RoomState.broadcast_told hrun).1.symm.trans hmsg
  | sendTo p c target payload =>
      have hreply : (st.sendTo p c target payload rd.now).2.reply = some msg := by
        rw [show st.sendTo p c target payload rd.now = (st', r) from hrun]
        exact hmsg
      simp only [RoomState.sendTo] at hreply
      split_ifs at hreply
      split at hreply
      · exact Or.inl (herror _ _ hreply)
      · cases hreply
  | handleDisconnect p c =>
      rcases RoomState.handleDisconnect_cases hrun with ⟨_, _, rfl⟩ | ⟨hopen, hconn, _⟩
      · cases hmsg
      · cases (RoomState.handleDisconnect_told hrun hopen hconn).1.symm.trans hmsg

end Sections

/-! ### Admissions, read off the history -/

/-- The room an event is about. -/
def Event.roomId : Event → Option RoomId
  | ⟨_, .newRoom .., (room, _)⟩ => some room
  | ⟨_, .room room _, _⟩ => some room
  | _ => none

/-- The peer id under which an event takes its task's connection in.  A host that is taken
    back gets the id the reply tells it. -/
def Event.entrant : Event → Option String
  | ⟨_, .newRoom _ hostPeerId .., _⟩ => some hostPeerId
  | ⟨_, .room _ (.reconnectHost ..), effects⟩ => effects.reply.bind (·.hostPeerId)
  | ⟨_, .room _ (.joinOrResume _ admission _), _⟩ => some admission.peerId
  | _ => none

/-- What an event relays. -/
def Event.speech : Event → Option (String × Nat × Option Payload)
  | ⟨_, .room _ op, _⟩ => op.speech
  | _ => none

/-- The token an event is shown. -/
def Event.presents : Event → Option String
  | ⟨_, .newRoom _ _ _ token .., _⟩ => some token
  | ⟨_, .room _ op, _⟩ => op.presents
  | _ => none

/-- The guests an end of session will notify. -/
def Event.guests : Event → List Sender
  | ⟨_, .room _ (.beginEndSession ..), .ok (_, guests)⟩ => guests
  | _ => []

/-- The connection id in whose name an event is. -/
def Event.connId : Event → Option Nat
  | ⟨_, .room _ op, _⟩ => op.connId
  | _ => none

def Event.effects (ev : Event) : Effects := ev.act.effects ev.resp

/-- Room `r` has taken connection `k` in as peer `p`, with connection id `c`. -/
def Admitted (h : List Event) (k : Sender) (r : RoomId) (p : String) (c : Nat) : Prop :=
  ∃ ev ∈ h, ev.thread = .conn k ∧ ev.entrant = some p ∧ ∃ cancel, ev.assigns = some (r, c, cancel)

section Histories

variable {h h' : List Event} {k : Sender} {r : RoomId} {p : String} {c : Nat}

theorem Admitted.cons (ha : Admitted h k r p c) (ev : Event) : Admitted (ev :: h) k r p c := by
  obtain ⟨ev', hev', hrest⟩ := ha
  exact ⟨ev', List.mem_cons_of_mem ev hev', hrest⟩

theorem Admitted.assigned (ha : Admitted h k r p c) : Assigned h (.conn k) r c := by
  obtain ⟨ev, hev, hthread, _, hassigns⟩ := ha
  exact ⟨ev, hev, hthread, hassigns⟩

theorem Assigned.mono {t : Tid} (ha : Assigned h t r c) (hsub : ∀ ev ∈ h, ev ∈ h') :
    Assigned h' t r c := by
  obtain ⟨ev, hev, hrest⟩ := ha
  exact ⟨ev, hsub ev hev, hrest⟩

end Histories

/-! ### The invariant -/

variable [TokenCodec]

/-- Whom an event writes to, given what came before it. -/
structure Addressed (earlier : List Event) (ev : Event) : Prop where
  proper : Proper ev.thread (record ev.thread earlier) ev.act
  mail : ∀ o ∈ ev.effects.broadcast, o.msg.reconnectToken = none ∧ ∃ r,
    ev.roomId = some r ∧ (∃ c, Assigned (ev :: earlier) (.conn o.tx) r c) ∧
    (o.msg.msgType = .message → ∃ k p c payload, ev.thread = .conn k ∧
      ev.speech = some (p, c, payload) ∧ Admitted earlier k r p c ∧
      o.msg = RoomState.relayMessage p payload)
  reply : ∀ msg ∈ ev.effects.reply, msg.isAnswer = true ∨
    (msg.msgType ≠ .message ∧ (∀ token ∈ msg.reconnectToken, ev.presents = some token) ∧
      ∃ r c, ev.roomId = some r ∧ Assigned (ev :: earlier) ev.thread r c)
  guests : ∀ tx ∈ ev.guests, ∃ r c, ev.roomId = some r ∧ Assigned earlier (.conn tx) r c
  caller : ∀ c ∈ ev.connId, ∃ r, ev.roomId = some r ∧ Assigned earlier ev.thread r c

/-- What holds of the messages and members of all rooms. -/
structure Routed (w : World) : Prop where
  members : ∀ {r st p peer}, w.server.heap[r]? = some st → st.peers.lookup p = some peer →
    Admitted w.history peer.tx r p peer.connId
  events : EachAfter Addressed w.history
  sent : ∀ o ∈ w.server.sent, ∃ t, ⟨t, .send o.tx o.msg, ()⟩ ∈ w.history

/-! ### Where members come from -/

/-- Whoever is connected after a section was so before or has been admitted by it. -/
theorem RoomOp.new_member (rd : Readings) (st : RoomState) (op : RoomOp) {p : String}
    {peer : ConnectedPeer} (hpeer : (op.run rd st).1.peers.lookup p = some peer) :
    st.peers.lookup p = some peer ∨ (op.admits st = some (p, peer.tx) ∧
      (op.outcome (op.run rd st).2).admitted = some (peer.connId, peer.cancel)) := by
  have hinsert : ∀ q new, (op.run rd st).1.peers = st.peers.insert q new →
      st.peers.lookup p = some peer ∨ (p = q ∧ peer = new) := by
    intro q new hpeers
    rw [hpeers, AList.lookup_insert_eq] at hpeer
    split at hpeer
    · rename_i hpq
      exact Or.inr ⟨hpq, (Option.some.inj hpeer).symm⟩
    · exact Or.inl hpeer
  cases op with
  | reconnectHost host token =>
      rcases hrun : (RoomOp.reconnectHost host token).run rd st with ⟨st', r⟩
      obtain ⟨rfl, _, hid, hcancel, _⟩ := RoomState.reconnectHost_cases hrun
      rw [hrun] at hinsert
      rcases hinsert st.hostPeerId (host.connect st.nextConnId rd.token) rfl with hold | ⟨rfl, rfl⟩
      · exact Or.inl hold
      · right
        simp [RoomOp.admits, RoomOp.outcome, Effects.admitted, hid, hcancel, Admission.connect]
  | joinOrResume msg admission resumeOnly =>
      rcases hrun : (RoomOp.joinOrResume msg admission resumeOnly).run rd st with ⟨st', r⟩
      rw [hrun] at hpeer hinsert
      rcases RoomState.joinOrResume_cases hrun with
        ⟨_, rfl, _⟩ | ⟨_, rfl, _⟩ | ⟨_, _, _, rfl, _, hid, hcancel, _⟩
      · exact Or.inl hpeer
      · exact Or.inl hpeer
      · rcases hinsert admission.peerId (admission.connect st.nextConnId rd.token)
          (RoomState.joined_peers ..) with hold | ⟨rfl, rfl⟩
        · exact Or.inl hold
        · right
          simp [RoomOp.admits, RoomOp.outcome, Effects.admitted, hid, hcancel, Admission.connect]
  | _ =>
      left
      rcases RoomOp.peers_cases rd st _ with
        ⟨hpeers, _⟩ | ⟨_, _, hadmits, _⟩ | ⟨q, _, _, _, _, _, hpeers, _⟩ | ⟨hpeers, _⟩
      · rw [hpeers] at hpeer
        exact hpeer
      · cases hadmits
      · rw [hpeers, AList.lookup_erase_eq] at hpeer
        split at hpeer
        · cases hpeer
        · exact hpeer
      · rw [hpeers] at hpeer
        cases hpeer

/-- The guests of an end of session are connected peers. -/
theorem RoomState.beginEndSession_guests {st st' : RoomState} {p token key : String}
    {c version : Nat} {guests : List Sender}
    (h : st.beginEndSession p c token version = (st', .ok (key, guests))) {tx : Sender}
    (htx : tx ∈ guests) : ∃ q peer, st.peers.lookup q = some peer ∧ peer.tx = tx := by
  simp only [RoomState.beginEndSession] at h
  split_ifs at h <;> cases h
  obtain ⟨⟨q, peer⟩, hentry, rfl⟩ := List.mem_map.mp htx
  exact ⟨q, peer, AList.mem_entries_iff.mp (List.mem_filter.mp hentry).1, rfl⟩

namespace Routed

variable {t : Tid} {a : Act} {e : Env} {w w' : World} {x : a.Resp}

/-- The members after an action. -/
theorem did_members (h : Routed w) (hproper : Proper t (record t w.history) a)
    (hx : Did t a e w x w') {r : RoomId} {st' : RoomState} {p : String} {peer : ConnectedPeer}
    (hst' : w'.server.heap[r]? = some st') (hpeer : st'.peers.lookup p = some peer) :
    Admitted w'.history peer.tx r p peer.connId := by
  rw [World.did_history hx]
  rcases (World.did_moves hx).heap_of_some hst' with
    ⟨st, hst, rfl | ⟨op, rfl, rfl⟩⟩ | ⟨rfl, _, sid, host, v, token, key, admission, rfl, rfl, _⟩
  · exact (h.members hst hpeer).cons _
  · obtain ⟨st₀, hst₀, hrun, _⟩ := World.did_room hx
    obtain rfl := Option.some.inj (hst₀.symm.trans hst)
    have hresp := congrArg Prod.snd hrun
    rcases RoomOp.new_member _ st₀ op hpeer with hold | ⟨hadmits, hadmitted⟩
    · exact (h.members hst hold).cons _
    · rw [hresp] at hadmitted
      refine ⟨_, List.mem_cons_self, ?_⟩
      cases op with
      | reconnectHost host token =>
          obtain ⟨rfl, htx⟩ : st₀.hostPeerId = p ∧ host.tx = peer.tx := by
            simpa [RoomOp.admits] using hadmits
          refine ⟨htx ▸ hproper.1, ?_, peer.cancel, ?_⟩
          · show (Effects.reply x).bind (·.hostPeerId) = some st₀.hostPeerId
            rw [(RoomState.reconnectHost_told hrun).1]
            rfl
          · show (Effects.admitted x).map _ = _
            rw [show Effects.admitted x = _ from hadmitted]
            rfl
      | joinOrResume msg admission resumeOnly =>
          obtain ⟨rfl, htx⟩ : admission.peerId = p ∧ admission.tx = peer.tx := by
            simpa [RoomOp.admits] using hadmits
          refine ⟨htx ▸ hproper.1, rfl, peer.cancel, ?_⟩
          show (Effects.admitted x).map _ = _
          rw [show Effects.admitted x = _ from hadmitted]
          rfl
      | _ => cases hadmits
  · have hpeer' : ((∅ : AssocMap String ConnectedPeer).insert host
        (admission.connect 1 ⟨w.server.nextToken⟩)).lookup p = some peer := hpeer
    rw [AList.lookup_insert_eq] at hpeer'
    split at hpeer'
    · rename_i hp
      subst hp
      obtain rfl := Option.some.inj hpeer'
      exact ⟨_, List.mem_cons_self, hproper.1, rfl, _, assigns_newRoom hx⟩
    · cases hpeer'

/-- What an event in a room says about the events before it. -/
theorem of_mem_record (h : Routed w) {b : Act} {y : b.Resp}
    (hmem : (⟨b, y⟩ : Done) ∈ record t w.history) :
    ∃ later earlier, w.history = later ++ ⟨t, b, y⟩ :: earlier ∧ Addressed earlier ⟨t, b, y⟩ := by
  obtain ⟨later, earlier, hsplit⟩ := List.append_of_mem (mem_record.mp hmem)
  refine ⟨later, earlier, hsplit, ?_⟩
  have hevents := h.events
  rw [hsplit] at hevents
  exact hevents.of_append

/-- The guests that get the end of session were admitted to the room. -/
theorem guests_of_proper (h : Routed w) {r : RoomId} {guests : List Sender} {persisted : Bool}
    (hproper : Proper t (record t w.history) (.room r (.finishEndSession guests persisted))) :
    (∀ tx ∈ guests, ∃ c, Assigned w.history (.conn tx) r c) ∧ ∃ c, Assigned w.history t r c := by
  obtain ⟨p, c, token, version, key, hmem⟩ := hproper
  obtain ⟨later, earlier, hsplit, haddressed⟩ := h.of_mem_record hmem
  have hsub : ∀ ev ∈ earlier, ev ∈ w.history := by
    intro ev hev
    rw [hsplit]
    exact List.mem_append_right _ (List.mem_cons_of_mem _ hev)
  constructor
  · intro tx htx
    obtain ⟨r', c', hr, hassigned⟩ := haddressed.guests tx htx
    obtain rfl := Option.some.inj hr
    exact ⟨c', hassigned.mono hsub⟩
  · obtain ⟨r', hr, hassigned⟩ := haddressed.caller c rfl
    obtain rfl := Option.some.inj hr
    exact ⟨c, hassigned.mono hsub⟩

/-- A section is addressed as its room's members and its caller's record allow. -/
theorem addressed_room (h : Routed w) (hb : Base w) {r : RoomId} {op : RoomOp} {y : op.Result}
    (hlegal : Legal t (.room r op) w) (hproper : Proper t (record t w.history) (.room r op))
    (hx : Did t (.room r op) e w y w') : Addressed w.history ⟨t, .room r op, y⟩ := by
  obtain ⟨st, hst, hrun, hst'⟩ := World.did_room hx
  have hresp : (op.run (e.readings ⟨w.server.nextToken⟩) st).2 = y := congrArg Prod.snd hrun
  have hmembers : ∀ p peer, (op.run (e.readings ⟨w.server.nextToken⟩) st).1.peers.lookup p =
      some peer → Admitted (⟨t, .room r op, y⟩ :: w.history) peer.tx r p peer.connId := by
    intro p peer hpeer
    rw [← World.did_history hx]
    exact h.did_members hproper hx hst' hpeer
  refine ⟨hproper, ?_, ?_, ?_, ?_⟩
  · intro o ho
    have ho' : o ∈ (op.outcome (op.run (e.readings ⟨w.server.nextToken⟩) st).2).broadcast := by
      rw [hresp]
      exact ho
    have hmail := RoomOp.mail _ st op ho'
    refine ⟨hmail.untokened, r, rfl, ?_, ?_⟩
    · rcases hmail.recipient with ⟨q, peer, hq, htx⟩ | ⟨guests, persisted, rfl, htx⟩
      · rw [← htx]
        exact ⟨_, (hmembers q peer hq).assigned⟩
      · obtain ⟨c, hassigned⟩ := (h.guests_of_proper hproper).1 o.tx htx
        exact ⟨c, hassigned.cons⟩
    · intro htype
      obtain ⟨p, c, payload, hspeech, hconn, hmsg⟩ := hmail.speech htype
      -- the caller's connection id is that of the peer in whose name it speaks
      obtain ⟨peer, hpeer, rfl⟩ := Option.map_eq_some_iff.mp hconn
      have hadmitted := h.members hst hpeer
      have hcaller : op.connId = some peer.connId := by
        cases op <;> cases hspeech <;> rfl
      have hthread := hb.assigned_unique (hlegal.2.1 _ hcaller) hadmitted.assigned
      exact ⟨peer.tx, p, peer.connId, payload, hthread, hspeech, hadmitted, hmsg⟩
  · intro msg hmsg
    have hmsg' : (op.outcome (op.run (e.readings ⟨w.server.nextToken⟩) st).2).reply = some msg := by
      rw [hresp]
      exact hmsg
    rcases RoomOp.reply _ st op hmsg' with hanswer | hreply
    · exact Or.inl hanswer
    · refine Or.inr ⟨hreply.unspoken, hreply.token, r, ?_⟩
      rcases hreply.insider with ⟨hpresents, hadmitted⟩ | hcaller | hteardown
      · rw [hresp] at hadmitted
        obtain ⟨⟨c, k⟩, hc⟩ := Option.isSome_iff_exists.mp hadmitted
        refine ⟨c, rfl, assigned_cons.mpr (Or.inl ⟨rfl, k, ?_⟩)⟩
        cases op with
        | reconnectHost | joinOrResume =>
            show (Effects.admitted y).map _ = _
            rw [show Effects.admitted y = _ from hc]
            rfl
        | _ => cases hpresents
      · obtain ⟨c, hc⟩ := Option.isSome_iff_exists.mp hcaller
        exact ⟨c, rfl, (hlegal.2.1 c hc).cons⟩
      · cases op with
        | finishEndSession guests persisted =>
            obtain ⟨c, hc⟩ := (h.guests_of_proper hproper).2
            exact ⟨c, rfl, hc.cons⟩
        | _ => cases hteardown
  · intro tx htx
    cases op with
    | beginEndSession p c token version =>
        cases y with
        | error effects => cases htx
        | ok closed =>
            obtain ⟨q, peer, hq, rfl⟩ := RoomState.beginEndSession_guests hrun htx
            exact ⟨r, _, rfl, (h.members hst hq).assigned⟩
    | _ => cases htx
  · intro c hc
    exact ⟨r, rfl, hlegal.2.1 c hc⟩

/-- A new room writes to its host only. -/
theorem addressed_newRoom {sid host : String} {v : Verifier} {token key : String}
    {admission : Admission} {y : RoomId × Effects}
    (hproper : Proper t (record t w.history) (.newRoom sid host v token key admission))
    (hx : Did t (.newRoom sid host v token key admission) e w y w') :
    Addressed w.history ⟨t, .newRoom sid host v token key admission, y⟩ := by
  have hassigns := assigns_newRoom hx
  obtain ⟨_, rfl, hs⟩ := World.did_newRoom hx
  have hself : Assigned (⟨t, .newRoom sid host v token key admission, _⟩ :: w.history) t
      w.server.heap.length 1 := assigned_cons.mpr (Or.inl ⟨rfl, _, hassigns⟩)
  refine ⟨hproper, ?_, ?_, ?_, ?_⟩
  · intro o ho
    have ho' : o ∈ (RoomState.newRoom sid host v token key admission e.now
        ⟨w.server.nextToken⟩).2.broadcast := ho
    simp only [RoomState.newRoom, RoomState.appendHostTransferEligibility_broadcast,
      List.nil_append] at ho'
    have hmail : Mail (RoomState.newRoom sid host v token key admission e.now
      ⟨w.server.nextToken⟩).1 _ .isReclaimable o := .of_eligibility ho'
    refine ⟨hmail.untokened, w.server.heap.length, rfl, ?_, ?_⟩
    · rcases hmail.recipient with ⟨q, peer, hq, htx⟩ | ⟨_, _, hop, _⟩
      · rw [AList.lookup_insert_eq] at hq
        split at hq
        · obtain rfl := Option.some.inj hq
          rw [← htx]
          exact ⟨1, hproper.1 ▸ hself⟩
        · cases hq
      · cases hop
    · intro htype
      obtain ⟨_, _, _, hspeech, _⟩ := hmail.speech htype
      cases hspeech
  · intro msg hmsg
    have hmsg' : (RoomState.newRoom sid host v token key admission e.now
        ⟨w.server.nextToken⟩).2.reply = some msg := hmsg
    simp only [RoomState.newRoom, RoomState.appendHostTransferEligibility_reply,
      Option.some.injEq] at hmsg'
    subst hmsg'
    refine Or.inr ⟨by simp [RoomState.admissionReply], ?_, _, 1, rfl, hself⟩
    intro token' htoken
    exact htoken
  · intro tx htx
    cases htx
  · intro c hc
    cases hc

/-- Every step of a task keeps the invariant. -/
theorem did (h : Routed w) (hb : Base w) (hlegal : Legal t a w)
    (hproper : Proper t (record t w.history) a) (hx : Did t a e w x w') : Routed w' where
  members := h.did_members hproper hx
  events := by
    rw [World.did_history hx]
    refine ⟨?_, h.events⟩
    cases a with
    | room r op => exact h.addressed_room hb hlegal hproper hx
    | newRoom sid host v token key admission => exact addressed_newRoom hproper hx
    | _ =>
        constructor
        · exact hproper
        · intro o ho
          cases ho
        · intro msg hmsg
          cases hmsg
        · intro tx htx
          cases htx
        · intro c hc
          cases hc
  sent := by
    intro o ho
    rw [World.did_history hx]
    have hold : o ∈ w.server.sent → ∃ u, ⟨u, .send o.tx o.msg, ()⟩ ∈ ⟨t, a, x⟩ :: w.history := by
      intro ho
      obtain ⟨u, hu⟩ := h.sent o ho
      exact ⟨u, List.mem_cons_of_mem _ hu⟩
    have hmoves := World.did_moves hx
    generalize w'.server = s' at hmoves ho
    cases hmoves with
    | send tx msg =>
        rcases List.mem_append.mp ho with ho | ho
        · exact hold ho
        · obtain rfl := List.mem_singleton.mp ho
          exact ⟨t, List.mem_cons_self⟩
    | _ => exact hold ho

theorem writer (h : Routed w) {m : WriterStep} (hm : w.writerStep m = some w') : Routed w' := by
  obtain ⟨hs, hh⟩ := World.writerStep_iff.mp hm
  constructor
  · intro r st p peer hst hpeer
    rw [(Server.writerStep_frame hs).1] at hst
    rw [hh]
    exact h.members hst hpeer
  · rw [hh]
    exact h.events
  · intro o ho
    rw [hh]
    apply h.sent o
    rw [← (Server.writerStep_frame hs).2.2.2.2.2.2.2]
    exact ho

theorem startup {sys : RelaySys} (h : Startup sys) : Routed sys.shared where
  members hst hpeer := by
    obtain ⟨room, rfl⟩ := heap_startup h hst
    cases hpeer
  events := by
    obtain ⟨heap, rooms, quota, hshared⟩ := h.shared_eq
    rw [hshared]
    trivial
  sent := by
    obtain ⟨heap, rooms, quota, hshared⟩ := h.shared_eq
    rw [hshared]
    intro o ho
    cases ho

end Routed

theorem relay_routed {C : RelaySys → RelayLabel → Prop} {sys : RelaySys} (h : Reaches C sys) :
    Routed sys.shared := by
  apply relay_rule h
  · intro sys hsys
    exact .startup hsys
  · intro t a e w x w' hb hlegal hproper hrouted hx
    exact hrouted.did hb hlegal hproper hx
  · intro m w w' hrouted hm
    exact hrouted.writer hm

/-- Everything on a channel is an error, a pong, the reply of a section that the channel's
    own task ran, or a message some section had for the channel. -/
theorem Routed.sent_cases {w : World} (h : Routed w) {o : Outbound} (ho : o ∈ w.server.sent) :
    o.msg.isAnswer = true ∨ ∃ later ev earlier, w.history = later ++ ev :: earlier ∧
      Addressed earlier ev ∧ ((ev.thread = .conn o.tx ∧ ev.effects.reply = some o.msg) ∨
        o ∈ ev.effects.broadcast) := by
  obtain ⟨t, hsend⟩ := h.sent o ho
  obtain ⟨later, earlier, hsplit, haddressed⟩ := h.of_mem_record (mem_record.mpr hsend)
  have hback : ∀ d ∈ record t earlier, ∃ later ev earlier, w.history = later ++ ev :: earlier ∧
      Addressed earlier ev ∧ ev.thread = t ∧ ev.effects = d.1.effects d.2 := by
    rintro ⟨b, y⟩ hd
    have hmem : (⟨b, y⟩ : Done) ∈ record t w.history := by
      rw [mem_record, hsplit]
      exact List.mem_append_right _ (List.mem_cons_of_mem _ (mem_record.mp hd))
    obtain ⟨later', earlier', hsplit', haddressed'⟩ := h.of_mem_record hmem
    exact ⟨later', _, earlier', hsplit', haddressed', rfl, rfl⟩
  rcases haddressed.proper with ⟨rfl, hanswer | ⟨d, hd, hreply⟩⟩ | ⟨d, hd, hmail⟩
  · exact Or.inl hanswer
  · obtain ⟨later', ev, earlier', hsplit', haddressed', hthread, heffects⟩ := hback d hd
    exact Or.inr ⟨later', ev, earlier', hsplit', haddressed', Or.inl ⟨hthread, heffects ▸ hreply⟩⟩
  · obtain ⟨later', ev, earlier', hsplit', haddressed', hthread, heffects⟩ := hback d hd
    exact Or.inr ⟨later', ev, earlier', hsplit', haddressed', Or.inr (heffects ▸ hmail)⟩

/-- A relayed message comes from a section in which a member of the room spoke. -/
theorem Routed.speech_of_sent {w : World} (h : Routed w) {o : Outbound} (ho : o ∈ w.server.sent)
    (hmessage : o.msg.msgType = .message) :
    ∃ later ev earlier r k p c payload, w.history = later ++ ev :: earlier ∧ ev.roomId = some r ∧
      ev.thread = .conn k ∧ ev.speech = some (p, c, payload) ∧
      o.msg = RoomState.relayMessage p payload ∧ Admitted earlier k r p c ∧
      ∃ c', Assigned (ev :: earlier) (.conn o.tx) r c' := by
  rcases h.sent_cases ho with
    hanswer | ⟨later, ev, earlier, hsplit, haddressed, ⟨_, hreply⟩ | hmail⟩
  · simp [ServerMessage.isAnswer, hmessage] at hanswer
  · rcases haddressed.reply _ hreply with hanswer | ⟨hunspoken, _⟩
    · simp [ServerMessage.isAnswer, hmessage] at hanswer
    · exact absurd hmessage hunspoken
  · obtain ⟨_, r, hroom, hreceiver, hspeech⟩ := haddressed.mail o hmail
    obtain ⟨k, p, c, payload, hthread, hsaid, hadmitted, hmsg⟩ := hspeech hmessage
    exact ⟨later, ev, earlier, r, k, p, c, payload, hsplit, hroom, hthread, hsaid, hmsg,
      hadmitted, hreceiver⟩

/-! ### The results -/

/-- The section that relayed `o`: connection `k` ran it for the peer id `p` under which the
    room had admitted it, with this payload, and the receiving connection had been admitted
    to the same room by then. -/
def Authentic (h : List Event) (o : Outbound) : Prop :=
  ∃ later ev earlier r k p c payload, h = later ++ ev :: earlier ∧ ev.roomId = some r ∧
    ev.thread = .conn k ∧ ev.speech = some (p, c, payload) ∧
    o.msg = RoomState.relayMessage p payload ∧ Admitted earlier k r p c ∧
    (∀ t, Assigned h t r c → t = .conn k) ∧ ∃ c', Assigned earlier (.conn o.tx) r c'

/-- **Relayed messages are authentic.**  Whatever the tasks do in between, a `message` on
    any channel was relayed by a `broadcast` or `sendTo` of one connection: its `from` is the
    peer id under which the room admitted that very connection, whose connection id nobody
    else ever had, its payload is what that request carried, and the receiver had been
    admitted to the same room. -/
theorem relayed_messages_authentic {sys : RelaySys} (h : Reaches Always sys) {o : Outbound}
    (ho : o ∈ sys.shared.server.sent) (hmessage : o.msg.msgType = .message) :
    Authentic sys.shared.history o := by
  obtain ⟨later, ev, earlier, r, k, p, c, payload, hsplit, hroom, hthread, hsaid, hmsg, hadmitted,
    c', hreceiver⟩ := (relay_routed h).speech_of_sent ho hmessage
  refine ⟨later, ev, earlier, r, k, p, c, payload, hsplit, hroom, hthread, hsaid, hmsg,
    hadmitted, ?_, c', ?_⟩
  · intro t hassigned
    apply (relay_base h).1.assigned_unique hassigned
    rw [hsplit]
    exact hadmitted.assigned.mono fun ev hev =>
      List.mem_append_right _ (List.mem_cons_of_mem _ hev)
  · -- a section that relays admits nobody
    rcases assigned_cons.mp hreceiver with ⟨_, _, hassigns⟩ | hold
    · obtain ⟨t, a, x⟩ := ev
      cases a with
      | room r' op => cases op <;> first | cases hassigns | cases hsaid
      | _ => cases hsaid
    · exact hold

/-- A host and a guest in a room; the guest broadcasts. -/
def chat : List RelayLabel :=
  .start (.conn 0) (.connect "ip") :: .start (.conn 1) (.connect "ip") ::
    handles 0 (message .create "s" "a" tokenOnes) 8 ++
    handles 1 (message .join "s" "b" tokenTwos) 5 ++
    handles 1 { message .broadcast "s" "b" "" with payload := some "1" } 2

omit [TokenCodec] in
theorem relayed_messages_authentic_in_chat : letI : TokenCodec := sampleCodec
    ∃ sys o, Reaches Always sys ∧ o ∈ sys.shared.server.sent ∧
      o = ⟨0, RoomState.relayMessage "b" (some "1")⟩ ∧ Authentic sys.shared.history o := by
  let _ : TokenCodec := sampleCodec
  obtain ⟨sys, h, ho⟩ := reaches_of_run (C := Always) (P := fun sys =>
    ⟨0, RoomState.relayMessage "b" (some "1")⟩ ∈ sys.shared.server.sent) chat (by decide +kernel)
  exact ⟨sys, _, h, ho, rfl, relayed_messages_authentic h ho rfl⟩

/-- **Rooms are isolated.**  Beside errors and pongs, a channel carries only what sections of
    rooms had for it that had admitted its connection by then, or the replies of the sections
    its own task ran there. -/
theorem rooms_isolated {sys : RelaySys} (h : Reaches Always sys) {o : Outbound}
    (ho : o ∈ sys.shared.server.sent) (hroom : o.msg.isAnswer = false) :
    ∃ later ev earlier r c, sys.shared.history = later ++ ev :: earlier ∧ ev.roomId = some r ∧
      (o ∈ ev.effects.broadcast ∨ (ev.thread = .conn o.tx ∧ ev.effects.reply = some o.msg)) ∧
      Assigned (ev :: earlier) (.conn o.tx) r c := by
  rcases (relay_routed h).sent_cases ho with
    hanswer | ⟨later, ev, earlier, hsplit, haddressed, ⟨hthread, hreply⟩ | hmail⟩
  · rw [hroom] at hanswer
    cases hanswer
  · rcases haddressed.reply _ hreply with hanswer | ⟨_, _, r, c, hr, hassigned⟩
    · rw [hroom] at hanswer
      cases hanswer
    · exact ⟨later, ev, earlier, r, c, hsplit, hr, Or.inr ⟨hthread, hreply⟩, hthread ▸ hassigned⟩
  · obtain ⟨_, r, hr, ⟨c, hassigned⟩, _⟩ := haddressed.mail o hmail
    exact ⟨later, ev, earlier, r, c, hsplit, hr, Or.inl hmail, hassigned⟩

omit [TokenCodec] in
/-- The guest's arrival is news for the host only. -/
theorem rooms_isolated_in_chat : letI : TokenCodec := sampleCodec
    ∃ sys o, Reaches Always sys ∧ o ∈ sys.shared.server.sent ∧ o = ⟨0, peerJoined "b"⟩ ∧
      ∃ r c, Assigned sys.shared.history (.conn 0) r c := by
  let _ : TokenCodec := sampleCodec
  obtain ⟨sys, h, ho⟩ := reaches_of_run (C := Always) (P := fun sys =>
    ⟨0, peerJoined "b"⟩ ∈ sys.shared.server.sent) chat (by decide +kernel)
  obtain ⟨later, ev, earlier, r, c, hsplit, _, _, hassigned⟩ := rooms_isolated h ho (by decide)
  refine ⟨sys, _, h, ho, rfl, r, c, ?_⟩
  rw [hsplit]
  exact hassigned.mono fun ev' hev' => List.mem_append_right later hev'

/-- **Reconnect tokens go back to who presented them.**  A token is put only on the channel of
    the connection whose own request had shown it to the room. -/
theorem tokens_return_to_presenter {sys : RelaySys} (h : Reaches Always sys) {o : Outbound}
    (ho : o ∈ sys.shared.server.sent) {token : String}
    (htoken : o.msg.reconnectToken = some token) :
    ∃ ev ∈ sys.shared.history, ev.thread = .conn o.tx ∧ ev.presents = some token ∧
      ev.effects.reply = some o.msg := by
  rcases (relay_routed h).sent_cases ho with
    hanswer | ⟨later, ev, earlier, hsplit, haddressed, ⟨hthread, hreply⟩ | hmail⟩
  · simp only [ServerMessage.isAnswer, Bool.and_eq_true, decide_eq_true_eq] at hanswer
    rw [hanswer.2] at htoken
    cases htoken
  · rcases haddressed.reply _ hreply with hanswer | ⟨_, hpresents, _⟩
    · simp only [ServerMessage.isAnswer, Bool.and_eq_true, decide_eq_true_eq] at hanswer
      rw [hanswer.2] at htoken
      cases htoken
    · refine ⟨ev, ?_, hthread, hpresents token htoken, hreply⟩
      rw [hsplit]
      exact List.mem_append_right _ List.mem_cons_self
  · rw [(haddressed.mail o hmail).1] at htoken
    cases htoken

omit [TokenCodec] in
theorem tokens_return_to_presenter_in_chat : letI : TokenCodec := sampleCodec
    ∃ sys o, Reaches Always sys ∧ o ∈ sys.shared.server.sent ∧
      o.msg.reconnectToken = some tokenTwos ∧ o.tx = 1 ∧
      ∃ ev ∈ sys.shared.history, ev.thread = .conn 1 ∧ ev.presents = some tokenTwos := by
  let _ : TokenCodec := sampleCodec
  obtain ⟨sys, h, o, ho, htoken, htx⟩ := reaches_of_run (C := Always) (P := fun sys =>
    ∃ o ∈ sys.shared.server.sent, o.msg.reconnectToken = some tokenTwos ∧ o.tx = 1) chat
    (by decide +kernel)
  obtain ⟨ev, hev, hthread, hpresents, _⟩ := tokens_return_to_presenter h ho htoken
  exact ⟨sys, o, h, ho, htoken, htx, ev, hev, htx ▸ hthread, hpresents⟩

end PlezyRelay
