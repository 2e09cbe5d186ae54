/-
  PlezyRelay/TransferEligibility.lean
  ===================================
  **What the clients know about host transfers.**

  Whenever the peer map or the host changes, every connected peer that declared the
  capability is sent the list of peers that authority can be transferred to.  The list
  also depends on which reservations are being released: `begin_leave` takes its caller
  off the legal targets without telling anyone, which is harmless as long as the leave
  commits, because that publishes a new list, or is undone before anything else is
  published.  If a list is published between `begin_leave` and the rollback, it lacks the
  leaver, and the rollback publishes no other: the clients do not offer a transfer that
  the room would accept.

  The room at the time of the last publication is followed as a ghost; the rollbacks that
  do no harm are those of leaves that were not pending then.  Everything else keeps the
  published list right.
-/
import PlezyRelay.ClientViews

namespace PlezyRelay

/-! ### The last list a client was sent -/

def ServerMessage.isEligibility (msg : ServerMessage) : Bool :=
  msg.msgType == .hostTransferEligibility

/-- The last `hostTransferEligibility` on a channel. -/
def lastEligibility (tx : Sender) (out : List Outbound) : Option ServerMessage :=
  ((heard tx out).filter (·.isEligibility)).getLast?

section LastEligibility

variable {tx : Sender} {out more : List Outbound} {msg : ServerMessage}

theorem heard_append : heard tx (out ++ more) = heard tx out ++ heard tx more := by
  simp [heard]

theorem lastEligibility_append_of_not (h : ∀ o ∈ more, o.msg.isEligibility = false) :
    lastEligibility tx (out ++ more) = lastEligibility tx out := by
  have hnone : (heard tx more).filter (·.isEligibility) = [] := by
    rw [List.filter_eq_nil_iff]
    intro m hm
    simp [h _ (mem_heard.mp hm)]
  rw [lastEligibility, heard_append, List.filter_append, hnone, List.append_nil]
  rfl

theorem lastEligibility_append_of_mem (hmem : ⟨tx, msg⟩ ∈ more) (hmsg : msg.isEligibility = true)
    (hall : ∀ o ∈ more, o.msg.isEligibility = true → o.msg = msg) :
    lastEligibility tx (out ++ more) = some msg := by
  have hin : msg ∈ (heard tx more).filter (·.isEligibility) :=
    List.mem_filter.mpr ⟨mem_heard.mpr hmem, hmsg⟩
  obtain ⟨last, hlast⟩ : ∃ last, ((heard tx more).filter (·.isEligibility)).getLast? = some last :=
    Option.ne_none_iff_exists'.mp fun hnone => by
      rw [List.getLast?_eq_none_iff] at hnone
      rw [hnone] at hin
      cases hin
  have heq : last = msg := by
    have hlastmem := List.mem_filter.mp (List.mem_of_getLast? hlast)
    exact hall _ (mem_heard.mp hlastmem.1) hlastmem.2
  rw [lastEligibility, heard_append, List.filter_append, List.getLast?_append, hlast, heq]
  rfl

theorem ServerMessage.isEligibility_of_isNews (h : msg.isNews = false) :
    msg.isEligibility = false := by
  unfold ServerMessage.isNews at h
  exact (Bool.or_eq_false_iff.mp h).2

end LastEligibility

/-! ### Legal targets -/

namespace RoomState

variable {st published : RoomState} {x : String}

theorem mem_transferTargets : x ∈ st.transferTargets ↔ st.canTransferHostTo x = true :=
  HostTransfer.mem_targets

theorem isReserved_iff : st.isReserved x = true ↔
    ∃ res, st.reservations.lookup x = some res ∧ res.releasePending = false := by
  unfold isReserved
  rcases st.reservations.lookup x with _ | res <;> simp

theorem isReserved_of_canTransferHostTo (h : st.canTransferHostTo x = true) :
    st.isReserved x = true :=
  (HostTransfer.isValidTarget_iff.mp h).1

theorem mem_peers_of_peerInfos {p : HostTransfer.PeerInfo} (h : p ∈ st.peerInfos) :
    p.peerId ∈ st.peers := by
  obtain ⟨e, he, rfl⟩ := List.mem_map.mp h
  exact AList.mem_of_lookup (AList.mem_entries_iff.mp he)

theorem mem_peers_of_canTransferHostTo (h : st.canTransferHostTo x = true) :
    x ≠ st.hostPeerId ∧ x ∈ st.peers ∧ st.hostPeerId ∈ st.peers := by
  obtain ⟨hne, ⟨p, hp, hpx⟩, ⟨host, hhost, heq⟩⟩ := HostTransfer.connected_of_isValidTarget h
  refine ⟨hne, ?_, ?_⟩
  · rw [← hpx]
    exact mem_peers_of_peerInfos hp
  · rw [← heq]
    exact mem_peers_of_peerInfos hhost

/-- With the same roster and host, only the reservation of a target can make a difference. -/
theorem canTransferHostTo_of_isReserved (hpeers : published.peers = st.peers)
    (hhost : published.hostPeerId = st.hostPeerId) (h : published.canTransferHostTo x = true)
    (hres : st.isReserved x = true) : st.canTransferHostTo x = true := by
  refine HostTransfer.isValidTarget_iff.mpr ⟨hres, ?_⟩
  have hroster := (HostTransfer.isValidTarget_iff.mp h).2
  rwa [peerInfos, hpeers, hhost] at hroster

/-- Whether the room would transfer authority to `x` for its host's connection. -/
def transferSucceeds (st : RoomState) (x : String) : Bool :=
  match st.connIdOf st.hostPeerId with
  | none => false
  | some connId =>
      (st.transferHost st.hostPeerId connId RELAY_PROTOCOL_VERSION x).2.reply.isNone

/-- In an open room a transfer succeeds exactly to the legal targets with a valid id. -/
theorem transferSucceeds_iff (hopen : st.closing = false) : st.transferSucceeds x = true ↔
    validId x MAX_PEER_ID_LENGTH = true ∧ st.canTransferHostTo x = true := by
  unfold transferSucceeds
  rcases hconn : st.connIdOf st.hostPeerId with _ | connId
  · simp only [Bool.false_eq_true, false_iff, not_and]
    intro _ hcan
    obtain ⟨host, hhost⟩ := AList.mem_iff_lookup.mp (mem_peers_of_canTransferHostTo hcan).2.2
    simp [connIdOf, hhost] at hconn
  · unfold transferHost
    simp only [hopen, hconn, Bool.false_eq_true, ne_eq, not_true, or_self, if_false]
    split_ifs with hvalid hreserved hcan
    · simp only [Effects.error, Option.isNone_some, Bool.false_eq_true, false_iff, not_and]
      intro hid hcan
      obtain ⟨hne, hmem, _⟩ := mem_peers_of_canTransferHostTo hcan
      simp [hid, hne, AList.contains_iff.mpr hmem] at hvalid
    · simp only [Effects.error, Option.isNone_some, Bool.false_eq_true, false_iff, not_and]
      intro _ hcan
      simp [isReserved_of_canTransferHostTo hcan] at hreserved
    · simp only [Effects.error, Option.isNone_some, Bool.false_eq_true, false_iff, not_and]
      intro _ hcan'
      simp [hcan'] at hcan
    · simp only [Bool.or_eq_true, Bool.not_eq_true', decide_eq_true_eq, not_or,
        Bool.not_eq_false] at hvalid hcan
      refine iff_of_true ?_ ⟨hvalid.1.1, hcan⟩
      split
      · rfl
      · simp

end RoomState

/-! ### The ghost: the room as it was last published -/

/-- Neither the peer map nor the host has changed. -/
def Unmoved (st st' : RoomState) : Prop :=
  st'.peers = st.peers ∧ st'.hostPeerId = st.hostPeerId

instance (st st' : RoomState) : Decidable (Unmoved st st') :=
  decidable_of_iff (st'.peers.entries = st.peers.entries ∧ st'.hostPeerId = st.hostPeerId)
    (by rw [Unmoved, AList.ext_iff])

/-- A section that changes the peer map or the host publishes the new list. -/
def republished (published st st' : RoomState) : RoomState :=
  if Unmoved st st' then published else st'

variable [TokenCodec]

/-- A rolled back leave was not pending at the last publication, or its peer does not become a
    legal target again; and ids have passed the check of `connection.rs`. -/
def RollbackListed (published st : RoomState) : RoomOp → Prop
  | .finishLeave p c false => st.ownsPendingLeave p c = true →
      (st.setReleasePending p false).canTransferHostTo p = true → published.isReserved p = true
  | .joinOrResume _ admission _ => validId admission.peerId MAX_PEER_ID_LENGTH = true
  | _ => True

instance (published st : RoomState) (op : RoomOp) : Decidable (RollbackListed published st op) := by
  induction op using RoomOp.casesOn with
  | finishLeave p c persisted =>
      induction persisted using Bool.casesOn <;> (dsimp only [RollbackListed]; infer_instance)
  | joinOrResume => dsimp only [RollbackListed]; infer_instance
  | _ => exact isTrue trivial

/-- All sections of a run meet the condition. -/
def RollbacksListed : (published st : RoomState) → List (RoomOp × Readings) → Prop
  | _, _, [] => True
  | published, st, (op, rd) :: ops => RollbackListed published st op ∧
      RollbacksListed (republished published st (op.run rd st).1) (op.run rd st).1 ops

instance decidableRollbacksListed : (published st : RoomState) →
    (ops : List (RoomOp × Readings)) → Decidable (RollbacksListed published st ops)
  | _, _, [] => .isTrue trivial
  | published, st, (op, rd) :: ops =>
      let _ := decidableRollbacksListed (republished published st (op.run rd st).1)
        (op.run rd st).1 ops
      inferInstanceAs (Decidable (_ ∧ _))

/-! ### Sections that publish nothing -/

/-- Where the peer map and the host stay, a connected peer's reservation stays too, except
    that its leave begins or is rolled back. -/
theorem RoomOp.reservation_unmoved {st : RoomState} (hwf : ConnsWf st) (rd : Readings)
    (op : RoomOp) (hunmoved : Unmoved st (op.run rd st).1) {x : String} (hx : x ∈ st.peers) :
    (op.run rd st).1.reservations.lookup x = st.reservations.lookup x ∨
    (∃ res, st.reservations.lookup x = some res ∧
      (op.run rd st).1.reservations.lookup x = some { res with releasePending := true }) ∨
    ∃ c, op = .finishLeave x c false ∧ st.ownsPendingLeave x c = true ∧
      (op.run rd st).1 = st.setReleasePending x false := by
  obtain ⟨hpeers, hhost⟩ := hunmoved
  have hmove := op.reservation_move rd st x
  generalize (op.run rd st).1.reservations.lookup x = new at hmove ⊢
  generalize (op.run rd st).1 = st' at hmove hpeers hhost ⊢
  cases hmove with
  | kept => exact Or.inl rfl
  | expired _ _ res _ hdrop =>
      -- nothing of a connected peer expires
      simp [RoomState.keepsReservation, AList.contains_iff.mpr hx] at hdrop
  | joined msg admission resumeOnly presented verifier hp =>
      -- the newcomer has a connection id nobody had
      have hfresh : st.connIdOf admission.peerId = some st.nextConnId := by
        rw [RoomState.connIdOf, ← hpeers]
        simp [Admission.connect]
      exact absurd (hwf.conn_lt _ _ hfresh) (lt_irrefl _)
  | leaveBegun c token version res _ hres => exact Or.inr (Or.inl ⟨res, hres, rfl⟩)
  | leaveUndone c res howns => exact Or.inr (Or.inr ⟨c, rfl, howns, rfl⟩)
  | released =>
      rw [← hpeers] at hx
      exact absurd rfl (AList.mem_erase.mp hx).1
  | cleared =>
      rw [← hpeers] at hx
      cases hx
  | promoted peerId c version res hguest => exact absurd hhost hguest
  | demoted c version target res hp hne => exact absurd (hhost.trans hp.symm) hne
  | disconnected =>
      rw [← hpeers, RoomState.disconnected_peers] at hx
      exact absurd rfl (AList.mem_erase.mp hx).1

/-! ### The invariant -/

/-- The clients have been told what the room was when it last changed, and that differs from
    what it is only in leaves that have begun since. -/
structure Listed (published : RoomState) (t : Transcript) : Prop where
  peers : published.peers = t.room.peers
  host : published.hostPeerId = t.room.hostPeerId
  legal : ∀ x, t.room.canTransferHostTo x = true → published.isReserved x = true
  kept : ∀ x ∈ t.room.peers, published.isReserved x = true → x ∈ t.room.reservations
  told : ∀ q peer, t.room.peers.lookup q = some peer → peer.hostTransferCapable = true →
    lastEligibility peer.tx t.sent =
      some (published.hostTransferEligibilityMessage published.transferTargets)

omit [TokenCodec] in
/-- What has just been published is right. -/
theorem Listed.refl {t : Transcript}
    (h : ∀ q peer, t.room.peers.lookup q = some peer → peer.hostTransferCapable = true →
      lastEligibility peer.tx t.sent =
        some (t.room.hostTransferEligibilityMessage t.room.transferTargets)) :
    Listed t.room t where
  peers := rfl
  host := rfl
  legal _ hcan := RoomState.isReserved_of_canTransferHostTo hcan
  kept x _ hres := by
    obtain ⟨res, hlookup, _⟩ := RoomState.isReserved_iff.mp hres
    exact AList.mem_of_lookup hlookup
  told := h

/-- A section that moves nobody keeps the list right, if it sends no other. -/
theorem Listed.unmoved {published : RoomState} {t : Transcript} (h : Listed published t)
    (hwf : ConnsWf t.room) {op : RoomOp} {rd : Readings}
    (hunmoved : Unmoved t.room (op.run rd t.room).1)
    (hlisted : RollbackListed published t.room op)
    (htold : ∀ q peer, t.room.peers.lookup q = some peer → peer.hostTransferCapable = true →
      lastEligibility peer.tx (t.step op rd).sent = lastEligibility peer.tx t.sent) :
    Listed published (t.step op rd) where
  peers := h.peers.trans hunmoved.1.symm
  host := h.host.trans hunmoved.2.symm
  legal := by
    intro x hcan
    have hx : x ∈ t.room.peers := by
      rw [← hunmoved.1]
      exact (RoomState.mem_peers_of_canTransferHostTo hcan).2.1
    have hres := RoomState.isReserved_of_canTransferHostTo hcan
    rcases op.reservation_unmoved hwf rd hunmoved hx with
      hsame | ⟨res, _, hmarked⟩ | ⟨c, rfl, howns, hrolled⟩
    · apply h.legal
      apply RoomState.canTransferHostTo_of_isReserved hunmoved.1 hunmoved.2 hcan
      rw [RoomState.isReserved, ← hsame]
      exact hres
    · -- a leave that has begun is no legal target
      obtain ⟨res', hres', hidle⟩ := RoomState.isReserved_iff.mp hres
      obtain rfl := Option.some.inj (hmarked.symm.trans hres')
      cases hidle
    · apply hlisted howns
      rw [← hrolled]
      exact hcan
  kept := by
    intro x hx hres
    rw [Transcript.step, hunmoved.1] at hx
    obtain ⟨res, hlookup⟩ := AList.mem_iff_lookup.mp (h.kept x hx hres)
    rcases op.reservation_unmoved hwf rd hunmoved hx with
      hsame | ⟨_, _, hmarked⟩ | ⟨c, _, _, hrolled⟩
    · exact AList.mem_of_lookup (hsame.trans hlookup)
    · exact AList.mem_of_lookup hmarked
    · show x ∈ (op.run rd t.room).1.reservations
      rw [hrolled, RoomState.setReleasePending, AList.mem_modify]
      exact AList.mem_of_lookup hlookup
  told := by
    intro q peer hq hcap
    rw [Transcript.step, hunmoved.1] at hq
    rw [htold q peer hq hcap]
    exact h.told q peer hq hcap

section Told

omit [TokenCodec]

variable {st st' : RoomState} {op : RoomOp} {e : Effects} {sent : List Outbound} {q : String}
  {peer : ConnectedPeer} {channel : Option Sender}

theorem Effects.mem_deliveries {o : Outbound} (h : o ∈ e.deliveries channel) :
    (∃ r ∈ e.reply, o.msg = r) ∨ o ∈ e.broadcast := by
  rcases List.mem_append.mp h with hreply | hout
  · simp only [Option.mem_toList, Option.bind_eq_some_iff, Option.map_eq_some_iff] at hreply
    obtain ⟨_, _, r, hr, rfl⟩ := hreply
    exact Or.inl ⟨r, hr, rfl⟩
  · exact Or.inr hout

/-- After a publication everyone who declared the capability has the new list. -/
theorem lastEligibility_published {news : List Outbound}
    (hreply : ∀ r ∈ e.reply, r.isEligibility = false)
    (hout : e.broadcast = news ++ st'.eligibilityMessages)
    (hnews : ∀ o ∈ news, o.msg.isEligibility = false) (hq : st'.peers.lookup q = some peer)
    (hcap : peer.hostTransferCapable = true) :
    lastEligibility peer.tx (sent ++ e.deliveries channel) =
      some (st'.hostTransferEligibilityMessage st'.transferTargets) := by
  apply lastEligibility_append_of_mem
  · apply List.mem_append_right
    rw [hout]
    apply List.mem_append_right
    exact RoomState.mem_eligibilityMessages.mpr ⟨rfl, q, peer, hq, hcap, rfl⟩
  · rfl
  · intro o ho helig
    rcases Effects.mem_deliveries ho with ⟨r, hr, hmsg⟩ | hbroadcast
    · rw [hmsg, hreply r hr] at helig
      cases helig
    · rw [hout] at hbroadcast
      rcases List.mem_append.mp hbroadcast with hnew | hmem
      · rw [hnews o hnew] at helig
        cases helig
      · exact (RoomState.mem_eligibilityMessages.mp hmem).1

/-- A section of an open room that moves somebody publishes the new list. -/
theorem Told.published (h : Told st op st' e) (hopen : st'.closing = false)
    (hmoved : ¬Unmoved st st') (hq : st'.peers.lookup q = some peer)
    (hcap : peer.hostTransferCapable = true) :
    lastEligibility peer.tx (sent ++ e.deliveries channel) =
      some (st'.hostTransferEligibilityMessage st'.transferTargets) := by
  cases h with
  | quiet hpeers hhost => exact absurd ⟨hpeers, hhost⟩ hmoved
  | admitted p token new type announced _ _ _ _ htype hreply _ hout =>
      refine lastEligibility_published ?_ hout ?_ hq hcap
      · intro r hr
        obtain rfl := Option.some.inj (hreply.symm.trans hr)
        rcases htype with rfl | rfl | rfl <;> rfl
      · intro o ho
        cases announced with
        | true =>
            rw [(RoomState.mem_messagesExcept.mp ho).1]
            rfl
        | false => cases ho
  | departed p _ _ _ _ hreply hout =>
      refine lastEligibility_published ?_ hout ?_ hq hcap
      · intro r hr
        exact ServerMessage.isEligibility_of_isNews (hreply r hr)
      · intro o ho
        rw [(RoomState.mem_messagesExcept.mp ho).1]
        rfl
  | transferred msg _ _ _ hmsg _ hreply hout =>
      refine lastEligibility_published ?_ hout ?_ hq hcap
      · intro r hr
        cases hreply.symm.trans hr
      · intro o ho
        simp [(RoomState.mem_messagesAll.mp ho).1, ServerMessage.isEligibility, hmsg]
  | ended hover =>
      rcases hover with hclosing | hempty
      · rw [hopen] at hclosing
        cases hclosing
      · rw [hempty] at hq
        cases hq

/-- One that moves nobody publishes nothing. -/
theorem Told.unpublished (h : Told st op st' e) (hopen : st'.closing = false) (hwf : ConnsWf st)
    (hunmoved : Unmoved st st') (hq : st.peers.lookup q = some peer) :
    lastEligibility peer.tx (sent ++ e.deliveries channel) = lastEligibility peer.tx sent := by
  cases h with
  | quiet _ _ hreply hout =>
      apply lastEligibility_append_of_not
      intro o ho
      rcases Effects.mem_deliveries ho with ⟨r, hr, hmsg⟩ | hbroadcast
      · rw [hmsg]
        exact ServerMessage.isEligibility_of_isNews (hreply r hr)
      · exact ServerMessage.isEligibility_of_isNews (hout o hbroadcast)
  | admitted p token new type announced _ hconn hpeers =>
      have hfresh : st.connIdOf p = some st.nextConnId := by
        rw [RoomState.connIdOf, ← hunmoved.1, hpeers, AList.lookup_insert, Option.map_some, hconn]
      exact absurd (hwf.conn_lt _ _ hfresh) (lt_irrefl _)
  | departed p _ hp hpeers =>
      rw [← hunmoved.1, hpeers] at hp
      exact absurd rfl (AList.mem_erase.mp hp).1
  | transferred _ _ _ hmoved => exact absurd hunmoved.2 hmoved
  | ended hover =>
      rcases hover with hclosing | hempty
      · rw [hopen] at hclosing
        cases hclosing
      · rw [← hunmoved.1, hempty] at hq
        cases hq

end Told

/-- A section keeps the list right. -/
theorem Listed.step {published : RoomState} {t : Transcript} (h : Listed published t)
    (hwf : ConnsWf t.room) {op : RoomOp} {rd : Readings} (hopen : (t.step op rd).room.closing = false)
    (hlisted : RollbackListed published t.room op) :
    Listed (republished published t.room (op.run rd t.room).1) (t.step op rd) := by
  have htold := op.run_told rd t.room
  unfold republished
  split_ifs with hunmoved
  · exact h.unmoved hwf hunmoved hlisted fun q peer hq _ => htold.unpublished hopen hwf hunmoved hq
  · exact Listed.refl (t := t.step op rd) fun q peer hq hcap => htold.published hopen hunmoved hq hcap

/-- So does a run that ends in an open room. -/
theorem Listed.run {published : RoomState} {t : Transcript} (h : Listed published t)
    (hwf : ConnsWf t.room) {ops : List (RoomOp × Readings)}
    (hlisted : RollbacksListed published t.room ops) (hopen : (t.run ops).room.closing = false) :
    ∃ published', Listed published' (t.run ops) := by
  induction ops generalizing published t with
  | nil => exact ⟨published, h⟩
  | cons step ops ih =>
      have hopen₁ := (t.step step.1 step.2).open_of_run hopen
      exact ih (h.step hwf hopen₁ hlisted.1) (hwf.change (step.1.run_change step.2 t.room)) hlisted.2
        hopen

/-! ### Valid ids -/

omit [TokenCodec] in
theorem RollbackListed.idsChecked {published st : RoomState} {op : RoomOp}
    (h : RollbackListed published st op) : op.idsChecked := by
  cases op with
  | joinOrResume => exact h
  | _ => trivial

theorem ValidIds.run {t : Transcript} {published : RoomState} (h : ValidIds t.room)
    {ops : List (RoomOp × Readings)} (hlisted : RollbacksListed published t.room ops) :
    ValidIds (t.run ops).room := by
  induction ops generalizing published t with
  | nil => exact h
  | cons step ops ih => exact ih (h.op hlisted.1.idsChecked step.2) hlisted.2

omit [TokenCodec] in
/-- A new room knows its host, who has been sent the first list. -/
theorem Transcript.New.listed {t : Transcript} (hnew : t.New) :
    Listed t.room t ∧ ConnsWf t.room ∧
      (validId t.room.hostPeerId MAX_PEER_ID_LENGTH = true → ValidIds t.room) := by
  obtain ⟨sessionId, hostPeerId, hostVerifier, reconnectToken, ownerIpKey, host, now, cancel⟩ := hnew
  set t := Transcript.newRoom sessionId hostPeerId hostVerifier reconnectToken ownerIpKey host now
    cancel with ht
  have hpeers : t.room.peers =
      (∅ : AssocMap String ConnectedPeer).insert hostPeerId (host.connect 1 cancel) := rfl
  refine ⟨?_, (Made.created sessionId hostPeerId hostVerifier reconnectToken ownerIpKey host now
    cancel).connsWf, ?_⟩
  · have hsent : t.sent = [] ++ Effects.deliveries
        { reply := some (t.room.admissionReply .created reconnectToken none)
          broadcast := [] ++ t.room.eligibilityMessages } (some host.tx) := by
      simp [ht, Transcript.newRoom, RoomState.newRoom, Effects.deliveries]
    refine Listed.refl fun q peer hq hcap => ?_
    rw [hsent]
    refine lastEligibility_published ?_ rfl (by simp) hq hcap
    intro r hr
    obtain rfl := Option.some.inj hr
    rfl
  · intro hvalid x hx
    rcases hx with rfl | hpeer | hres
    · exact hvalid
    · rw [hpeers, AList.mem_insert] at hpeer
      rcases hpeer with rfl | hnone
      · exact hvalid
      · cases hnone
    · cases hres

/-! ### The list is current -/

/-- **The published list is current whenever no leave is in flight.**  In a run whose
    rollbacks meet the condition, if the room is open and nothing is being released, the last
    `hostTransferEligibility` on the channel of a connected peer that declared the capability
    names the host and exactly the peers that the room would transfer authority to. -/
theorem published_eligibility_current {t₀ : Transcript} (hnew : t₀.New)
    (hhost : validId t₀.room.hostPeerId MAX_PEER_ID_LENGTH = true)
    (ops : List (RoomOp × Readings)) (hlisted : RollbacksListed t₀.room t₀.room ops)
    (hopen : (t₀.run ops).room.closing = false)
    (hidle : ∀ p res, (t₀.run ops).room.reservations.lookup p = some res →
      res.releasePending = false)
    (q : String) (peer : ConnectedPeer) (hq : (t₀.run ops).room.peers.lookup q = some peer)
    (hcap : peer.hostTransferCapable = true) :
    ∃ msg targets, lastEligibility peer.tx (t₀.run ops).sent = some msg ∧
      msg.hostPeerId = some (t₀.run ops).room.hostPeerId ∧
      msg.hostTransferTargets = some targets ∧
      ∀ x, x ∈ targets ↔ (t₀.run ops).room.transferSucceeds x = true := by
  obtain ⟨hfirst, hwf, hids⟩ := hnew.listed
  obtain ⟨published, hlast⟩ := hfirst.run hwf hlisted hopen
  have hvalid := (hids hhost).run hlisted
  refine ⟨_, published.transferTargets, hlast.told q peer hq hcap, congrArg some hlast.host, rfl, ?_⟩
  intro x
  rw [RoomState.mem_transferTargets, RoomState.transferSucceeds_iff hopen]
  constructor
  · intro hcan
    have hx : x ∈ (t₀.run ops).room.peers := by
      rw [← hlast.peers]
      exact (RoomState.mem_peers_of_canTransferHostTo hcan).2.1
    refine ⟨hvalid x (Or.inr (Or.inl hx)), ?_⟩
    apply RoomState.canTransferHostTo_of_isReserved hlast.peers hlast.host hcan
    obtain ⟨res, hres⟩ := AList.mem_iff_lookup.mp
      (hlast.kept x hx (RoomState.isReserved_of_canTransferHostTo hcan))
    exact RoomState.isReserved_iff.mpr ⟨res, hres, hidle x res hres⟩
  · rintro ⟨_, hcan⟩
    exact RoomState.canTransferHostTo_of_isReserved hlast.peers.symm hlast.host.symm hcan
      (hlast.legal x hcan)

omit [TokenCodec] in
/-- A leave is rolled back before anything else happens: the host still knows its target. -/
theorem published_eligibility_current_after_rollback : letI : TokenCodec := sampleCodec
    let host : Admission :=
      { peerId := "a", tx := 0, syncProtocolVersion := 4, hostTransferCapable := true }
    let rd : Readings := { now := 0, instants := fun _ => 0, token := ⟨1⟩ }
    let ops := [(.joinOrResume { msgType := .join, reconnectToken := tokenTwos }
        { host with peerId := "b", tx := 1 } false, rd),
      (.beginLeave "b" 2 tokenTwos 2, rd), (.finishLeave "b" 2 false, rd)]
    let t := (Transcript.newRoom "s" "a" ⟨digestOnes⟩ tokenOnes "ip" host 0 ⟨0⟩).run ops
    t.room.transferSucceeds "b" = true ∧ ∃ msg targets, lastEligibility 0 t.sent = some msg ∧
      msg.hostPeerId = some t.room.hostPeerId ∧ msg.hostTransferTargets = some targets ∧
      ∀ x, x ∈ targets ↔ t.room.transferSucceeds x = true := by
  let _ : TokenCodec := sampleCodec
  intro host rd ops t
  refine ⟨by decide +kernel, ?_⟩
  have hidle : ∀ e ∈ t.room.reservations.entries, e.2.releasePending = false := by decide +kernel
  exact published_eligibility_current (.newRoom "s" "a" ⟨digestOnes⟩ tokenOnes "ip" host 0 ⟨0⟩)
    (by decide +kernel) ops (by decide +kernel) (by decide +kernel)
    (fun p res h => hidle ⟨p, res⟩ (AList.mem_entries_iff.mpr h)) "a" (host.connect 1 ⟨0⟩) (by decide +kernel) rfl

omit [TokenCodec] in
/-- "d" joins while the leave of "b" waits for the disk, and the write fails: the host's last
    list has "d" only, but the room would transfer to "b". -/
theorem rollback_leaves_list_stale : letI : TokenCodec := sampleCodec
    let host : Admission :=
      { peerId := "a", tx := 0, syncProtocolVersion := 4, hostTransferCapable := true }
    let rd : Readings := { now := 0, instants := fun _ => 0, token := ⟨1⟩ }
    let join (p : String) (tx : Sender) : RoomOp × Readings :=
      (.joinOrResume { msgType := .join, reconnectToken := tokenTwos }
        { host with peerId := p, tx := tx } false, rd)
    let t := (Transcript.newRoom "s" "a" ⟨digestOnes⟩ tokenOnes "ip" host 0 ⟨0⟩).run
      [join "b" 1, (.beginLeave "b" 2 tokenTwos 2, rd), join "d" 2, (.finishLeave "b" 2 false, rd)]
    t.room.closing = false ∧ (∀ e ∈ t.room.reservations.entries, e.2.releasePending = false) ∧
      t.room.peers.lookup "a" = some (host.connect 1 ⟨0⟩) ∧
      (lastEligibility 0 t.sent).bind (·.hostTransferTargets) = some ["d"] ∧
      t.room.transferSucceeds "b" = true := by
  decide +kernel

end PlezyRelay
