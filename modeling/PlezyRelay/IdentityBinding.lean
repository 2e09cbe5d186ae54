/-
  PlezyRelay/IdentityBinding.lean
  ===============================
  **Identity binding: no takeover of a peer id.**

  A peer id is bound to the verifier of the token that claimed it.  The binding of
  the host is `host_verifier`, everyone else's is in their reservation, and a host
  transfer moves two bindings between these places at once.

  `RoomState.bound` is that one notion of binding.  Each state update gets an
  equation for it, and from these come the four facts about one critical section:
  how a binding can change, begin, end, and what an admission has presented.  That
  a committed release goes back to a `begin_leave` by the same connection with the
  identity's own token is a property of the run, proved by induction over it
  (`PendingOrigin`).
-/
import PlezyRelay.RoomInvariant
import PlezyRelay.Snapshot
import Mathlib.Data.List.Induction

namespace PlezyRelay

variable [TokenCodec]

namespace RoomState

/-- The verifier that speaks for `p`. -/
def bound (st : RoomState) (p : String) : Option Verifier :=
  if p = st.hostPeerId then some st.hostVerifier
  else (st.reservations.lookup p).map (·.verifier)

/-- `p`'s reservation has run out at the monotonic reading `now`. -/
def Expired (st : RoomState) (now : Instant) (p : String) : Prop :=
  p ∉ st.peers ∧ ∃ res, st.reservations.lookup p = some res ∧ res.releasePending = false ∧
    ∃ since, res.absentSince = some since ∧
      PEER_RESERVATION_GRACE ≤ now.saturatingDurationSince since

/-! ### The binding after each update -/

section Bound

omit [TokenCodec]

variable {st : RoomState} {p q : String}

theorem bound_of_lookup {res : PeerReservation} (hm : Membership st)
    (h : st.reservations.lookup p = some res) : st.bound p = some res.verifier := by
  rw [bound, if_neg (hm.guest_of_reserved (AList.mem_of_lookup h)), h]
  rfl

/-- Pruning drops a binding only if it has expired. -/
theorem bound_pruned (i : String → Instant) :
    (st.pruned i).bound p = st.bound p ∨
      (st.Expired (i p) p ∧ (st.pruned i).bound p = none) := by
  unfold bound
  by_cases hhost : p = st.hostPeerId
  · left; simp [hhost]
  · rw [pruned_hostPeerId, if_neg hhost, if_neg hhost, lookup_pruned]
    rcases hres : st.reservations.lookup p with _ | res
    · left; rfl
    · cases hkeep : st.keepsReservation i p res with
      | true => left; simp [Option.filter, hkeep]
      | false =>
          right
          refine ⟨?_, by simp [Option.filter, hkeep]⟩
          unfold keepsReservation at hkeep
          split at hkeep
          · cases hkeep
          · rename_i hrel
            simp only [Bool.or_eq_true, not_or, Bool.not_eq_true, AList.contains_eq_false] at hrel
            rcases habs : res.absentSince with _ | since
            · simp [habs] at hkeep
            · exact ⟨hrel.2, res, hres, hrel.1, since, habs, by simpa [habs] using hkeep⟩

theorem bound_setReleasePending (b : Bool) : (st.setReleasePending q b).bound p = st.bound p := by
  unfold bound
  simp only [setReleasePending, AList.lookup_modify]
  split
  · rfl
  · split
    · simp [Option.map_map, Function.comp_def]
    · rfl

theorem bound_disconnected (now : SystemTime) (i : Instant) :
    (st.disconnected q now i).bound p = st.bound p := by
  unfold bound
  rw [disconnected_hostPeerId, disconnected_hostVerifier, disconnected_reservations]
  split
  · rfl
  · split
    · rfl
    · rw [AList.lookup_modify]
      split
      · simp [Option.map_map, Function.comp_def]
      · rfl

/-- The swap moves two bindings and changes none. -/
theorem bound_transferred {target : String} {res : PeerReservation}
    (hne : target ≠ st.hostPeerId) (hres : st.reservations.lookup target = some res) :
    (st.transferred target res).bound p = st.bound p := by
  unfold bound
  simp only [transferred, AList.lookup_insert_eq, AList.lookup_erase_eq]
  by_cases htarget : p = target
  · subst htarget
    simp [hne, hres]
  · by_cases hhost : p = st.hostPeerId
    · simp [hhost, Ne.symm hne]
    · simp [htarget, hhost]

theorem bound_released_ne (now : SystemTime) (h : p ≠ q) :
    (st.released q now).bound p = st.bound p := by
  simp [bound, released, h]

theorem bound_cleared_host (h : p = st.hostPeerId) : st.cleared.bound p = st.bound p := by
  simp [bound, cleared, h]

variable {admission : Admission} {presented : Option Verifier} {resumeOnly : Bool}
  (now : SystemTime) (cancel : CancellationToken)

theorem bound_joined_ne (h : p ≠ admission.peerId) :
    (st.joined admission presented now cancel).bound p = st.bound p := by
  unfold bound
  rw [joined_hostPeerId, joined_hostVerifier, joined_reservations]
  split
  · rfl
  · split
    · rfl
    · rw [AList.lookup_insert_eq, if_neg h]

/-- An admitted connection ends up under the verifier it presented, which is the
    binding if there is one. -/
theorem bound_joined_self
    (hauth : st.joinAuthorized admission.peerId presented resumeOnly = true) :
    ∃ v, presented = some v ∧
      (st.joined admission presented now cancel).bound admission.peerId = some v ∧
      (st.bound admission.peerId = some v ∨
        (st.bound admission.peerId = none ∧ resumeOnly = false)) := by
  unfold bound
  rw [joined_hostPeerId, joined_hostVerifier, joined_reservations]
  rcases joinAuthorized_cases hauth with
    ⟨hhost, hpres⟩ | ⟨hguest, res, hres, _, hpres⟩ | ⟨hguest, hnew, _, hro, v, hpres⟩
  · exact ⟨_, hpres, by rw [if_pos hhost], Or.inl (by rw [if_pos hhost])⟩
  · refine ⟨_, hpres, ?_, Or.inl ?_⟩
    · simp [hguest, joinVerifier, hpres]
    · simp [hguest, hres]
  · refine ⟨v, hpres, ?_, Or.inr ⟨?_, hro⟩⟩
    · simp [hguest, joinVerifier, hpres]
    · simp [hguest, AList.lookup_eq_none.mpr hnew]

end Bound

end RoomState

/-! ### What one critical section does to a binding -/

/-- A binding stays, expires, is made by a plain join, is released by a committed
    leave, or goes with the room. -/
theorem RoomOp.bound_cases {st : RoomState} (hm : Membership st) (rd : Readings) (op : RoomOp)
    (p : String) :
    (op.run rd st).1.bound p = st.bound p ∨
    (st.Expired (rd.instants p) p ∧ (op.run rd st).1.bound p = none) ∨
    (∃ msg admission v, op = .joinOrResume msg admission false ∧ admission.peerId = p ∧
      (st.bound p = none ∨ st.Expired (rd.instants p) p) ∧
      Verifier.fromToken msg.reconnectToken = some v ∧ (op.run rd st).1.bound p = some v) ∨
    (∃ connId, op = .finishLeave p connId true ∧ st.ownsPendingLeave p connId = true ∧
      (op.run rd st).1.bound p = none) ∨
    (∃ guests persisted, op = .finishEndSession guests persisted ∧
      (op.run rd st).1.bound p = none) := by
  have hprune : ∀ st' : RoomState, st'.bound p = (st.pruned rd.instants).bound p →
      st'.bound p = st.bound p ∨ (st.Expired (rd.instants p) p ∧ st'.bound p = none) := by
    intro st' h
    rw [h]
    exact RoomState.bound_pruned rd.instants
  rcases hrun : op.run rd st with ⟨st', r⟩
  cases op with
  | isIdempotent | isReclaimable | ownerIpKey | markClosing | reconnectHost =>
      cases hrun; exact Or.inl rfl
  | joinOrResume msg admission resumeOnly =>
      rcases RoomState.joinOrResume_cases hrun with
        ⟨_, rfl, _⟩ | ⟨_, rfl, _⟩ | ⟨_, hauth, _, rfl, _⟩
      · exact Or.inl rfl
      · exact (hprune _ rfl).imp id Or.inl
      · by_cases hp : p = admission.peerId
        · subst hp
          obtain ⟨v, hpres, hnew, hold⟩ := RoomState.bound_joined_self rd.now rd.token hauth
          have hpruned : (st.pruned rd.instants).bound admission.peerId = _ ∨ _ :=
            RoomState.bound_pruned rd.instants
          rcases hpruned with hsame | ⟨hexp, hnone⟩
          · rw [hsame] at hold
            rcases hold with hold | ⟨hold, rfl⟩
            · exact Or.inl (hnew.trans hold.symm)
            · exact Or.inr (Or.inr (Or.inl ⟨msg, admission, v, rfl, rfl, Or.inl hold, hpres, hnew⟩))
          · rw [hnone] at hold
            rcases hold with hold | ⟨_, rfl⟩
            · cases hold
            · exact Or.inr (Or.inr (Or.inl ⟨msg, admission, v, rfl, rfl, Or.inr hexp, hpres, hnew⟩))
        · exact (hprune _ (RoomState.bound_joined_ne _ _ hp)).imp id Or.inl
  | beginLeave peerId connId token version =>
      rcases RoomState.beginLeave_cases hrun with ⟨rfl, _⟩ | ⟨_, _, _, _, rfl, _⟩
      · exact Or.inl rfl
      · exact Or.inl (RoomState.bound_setReleasePending true)
  | finishLeave peerId connId persisted =>
      rcases RoomState.finishLeave_cases hrun with
        ⟨_, rfl, _⟩ | ⟨_, _, rfl, _⟩ | ⟨howns, rfl, rfl, _⟩
      · exact Or.inl rfl
      · exact Or.inl (RoomState.bound_setReleasePending false)
      · by_cases hp : p = peerId
        · subst hp
          obtain ⟨_, res, hres, _⟩ := RoomState.ownsPendingLeave_iff.mp howns
          have hguest := hm.guest_of_reserved (AList.mem_of_lookup hres)
          refine Or.inr (Or.inr (Or.inr (Or.inl ⟨connId, rfl, howns, ?_⟩)))
          simp [RoomState.bound, RoomState.released, hguest]
        · exact Or.inl (RoomState.bound_released_ne _ hp)
  | beginEndSession peerId connId token version =>
      rcases RoomState.beginEndSession_cases hrun with ⟨rfl, _⟩ | ⟨_, _, _, _, rfl, _⟩ <;>
        exact Or.inl rfl
  | finishEndSession guests persisted =>
      have hst' : st' = st.cleared := by
        simp only [RoomOp.run, RoomState.finishEndSession] at hrun
        split at hrun <;> exact (congrArg Prod.fst hrun).symm
      subst hst'
      by_cases hhost : p = st.hostPeerId
      · exact Or.inl (RoomState.bound_cleared_host hhost)
      · refine Or.inr (Or.inr (Or.inr (Or.inr ⟨guests, persisted, rfl, ?_⟩)))
        simp [RoomState.bound, RoomState.cleared, hhost]
  | transferHost peerId connId version target =>
      rcases RoomState.transferHost_cases hrun with
        ⟨rfl, _⟩ | ⟨_, _, _, hne, _, res, hres, _, rfl, _⟩
      · exact Or.inl rfl
      · exact Or.inl (RoomState.bound_transferred hne hres)
  | broadcast senderId connId payload =>
      obtain ⟨rfl | rfl, _⟩ := RoomState.broadcast_cases hrun <;> exact Or.inl rfl
  | sendTo senderId connId targetId payload =>
      obtain ⟨rfl | rfl, _⟩ := RoomState.sendTo_cases hrun <;> exact Or.inl rfl
  | handleDisconnect peerId connId =>
      rcases RoomState.handleDisconnect_cases hrun with ⟨_, rfl, _⟩ | ⟨_, _, rfl, _⟩
      · exact Or.inl rfl
      · exact Or.inl (RoomState.bound_disconnected _ _)
  | pruneExpiredReservations => cases hrun; exact (hprune _ rfl).imp id Or.inl
  | sweep now =>
      rcases RoomState.sweepRoom_cases hrun with ⟨rfl, _⟩ | ⟨rfl, _⟩ | ⟨rfl, _⟩ <;>
        exact (hprune _ rfl).imp id Or.inl

/-! ### Where a pending release comes from -/

/-- The connection `connId` occupies `p`, whose reservation is pending release. -/
structure PendingAt (st : RoomState) (p : String) (connId : Nat) (res : PeerReservation) :
    Prop where
  conn : st.connIdOf p = some connId
  lookup : st.reservations.lookup p = some res
  pending : res.releasePending = true

namespace PendingAt

omit [TokenCodec]

variable {st : RoomState} {p q : String} {connId : Nat} {res : PeerReservation}

theorem of_pruned {i : String → Instant} (h : PendingAt (st.pruned i) p connId res) :
    PendingAt st p connId res :=
  ⟨h.conn, st.lookup_of_lookup_pruned h.lookup, h.pending⟩

/-- An admission neither makes a pending reservation nor takes over one. -/
theorem of_joined {admission : Admission} {presented : Option Verifier} {now : SystemTime}
    {cancel : CancellationToken} (hm : Membership st)
    (h : PendingAt (st.joined admission presented now cancel) p connId res) :
    PendingAt st p connId res := by
  have hne : p ≠ admission.peerId := by
    rintro rfl
    have hlookup := h.lookup
    rw [RoomState.joined_reservations] at hlookup
    split at hlookup
    · rename_i hhost
      exact hm.guest_of_reserved (AList.mem_of_lookup hlookup) hhost
    · rw [AList.lookup_insert_eq, if_pos rfl] at hlookup
      obtain rfl := Option.some.inj hlookup
      cases h.pending
  refine ⟨?_, ?_, h.pending⟩
  · simpa [RoomState.connIdOf, AList.lookup_insert_eq, hne] using h.conn
  · have hlookup := h.lookup
    rw [RoomState.joined_reservations] at hlookup
    split at hlookup
    · exact hlookup
    · rwa [AList.lookup_insert_eq, if_neg hne] at hlookup

theorem of_unset (h : PendingAt (st.setReleasePending q false) p connId res) :
    PendingAt st p connId res := by
  refine ⟨h.conn, ?_, h.pending⟩
  have hlookup := h.lookup
  simp only [RoomState.lookup_setReleasePending] at hlookup
  split at hlookup
  · obtain ⟨old, _, rfl⟩ := Option.map_eq_some_iff.mp hlookup
    cases h.pending
  · exact hlookup

theorem of_released {now : SystemTime} (h : PendingAt (st.released q now) p connId res) :
    PendingAt st p connId res := by
  have hconn := h.conn
  have hlookup := h.lookup
  simp only [RoomState.released, RoomState.connIdOf, AList.lookup_erase_eq] at hconn hlookup
  split at hlookup
  · cases hlookup
  · rename_i hne
    rw [if_neg hne] at hconn
    exact ⟨hconn, hlookup, h.pending⟩

theorem of_transferred {target : String} {old : PeerReservation}
    (h : PendingAt (st.transferred target old) p connId res) : PendingAt st p connId res := by
  refine ⟨h.conn, ?_, h.pending⟩
  have hlookup := h.lookup
  simp only [RoomState.transferred, AList.lookup_insert_eq, AList.lookup_erase_eq] at hlookup
  split at hlookup
  · obtain rfl := Option.some.inj hlookup
    cases h.pending
  · split at hlookup
    · cases hlookup
    · exact hlookup

theorem of_disconnected {now : SystemTime} {i : Instant}
    (h : PendingAt (st.disconnected q now i) p connId res) : PendingAt st p connId res := by
  have hconn := h.conn
  simp only [RoomState.connIdOf, RoomState.disconnected_peers, AList.lookup_erase_eq] at hconn
  split at hconn
  · cases hconn
  · rename_i hne
    refine ⟨hconn, ?_, h.pending⟩
    have hlookup := h.lookup
    rw [RoomState.disconnected_reservations] at hlookup
    split at hlookup
    · exact hlookup
    · rwa [AList.lookup_modify, if_neg hne] at hlookup

theorem of_hostAdmitted {host : Admission} {cancel : CancellationToken} (hm : Membership st)
    (h : PendingAt (st.admitPeer st.hostPeerId host cancel).1 p connId res) :
    PendingAt st p connId res := by
  have hne := hm.guest_of_reserved (AList.mem_of_lookup h.lookup)
  refine ⟨?_, h.lookup, h.pending⟩
  simpa [RoomState.admitPeer, RoomState.connIdOf, AList.lookup_insert_eq, hne] using h.conn

end PendingAt

/-- A section keeps a pending release as it was, or is the `begin_leave` that made
    it, presenting the identity's own token on its current connection. -/
theorem RoomOp.pendingAt_cases {st : RoomState} (hm : Membership st) (rd : Readings)
    (op : RoomOp) {p : String} {connId : Nat} {res : PeerReservation}
    (h : PendingAt (op.run rd st).1 p connId res) :
    PendingAt st p connId res ∨
    (∃ token version, op = .beginLeave p connId token version ∧
      (st.beginLeave p connId token version).2 = .ok () ∧ st.connIdOf p = some connId ∧
      Verifier.fromToken token = some res.verifier ∧ st.bound p = some res.verifier) := by
  rcases hrun : op.run rd st with ⟨st', r⟩
  rw [hrun] at h
  dsimp only at h
  cases op with
  | isIdempotent | isReclaimable | ownerIpKey | markClosing => cases hrun; exact Or.inl ⟨h.1, h.2, h.3⟩
  | reconnectHost => cases hrun; exact Or.inl (h.of_hostAdmitted hm)
  | joinOrResume msg admission resumeOnly =>
      rcases RoomState.joinOrResume_cases hrun with
        ⟨_, rfl, _⟩ | ⟨_, rfl, _⟩ | ⟨_, _, _, rfl, _⟩
      · exact Or.inl h
      · exact Or.inl h.of_pruned
      · exact Or.inl (h.of_joined (hm.pruned _)).of_pruned
  | beginLeave peerId c token version =>
      rcases RoomState.beginLeave_cases hrun with
        ⟨rfl, _⟩ | ⟨_, hconn, _, ⟨old, hold, _, htoken⟩, rfl, rfl⟩
      · exact Or.inl h
      · by_cases hp : p = peerId
        · subst hp
          have hbound := RoomState.bound_of_lookup hm hold
          have hlookup := h.lookup
          simp only [RoomState.lookup_setReleasePending, hold] at hlookup
          obtain rfl := Option.some.inj hlookup
          obtain rfl := Option.some.inj (hconn.symm.trans h.conn)
          exact Or.inr ⟨token, version, rfl, congrArg Prod.snd hrun, hconn, htoken, hbound⟩
        · refine Or.inl ⟨h.conn, ?_, h.pending⟩
          have hlookup := h.lookup
          simpa only [RoomState.lookup_setReleasePending, if_neg hp] using hlookup
  | finishLeave peerId c persisted =>
      rcases RoomState.finishLeave_cases hrun with
        ⟨_, rfl, _⟩ | ⟨_, _, rfl, _⟩ | ⟨_, _, rfl, _⟩
      · exact Or.inl h
      · exact Or.inl h.of_unset
      · exact Or.inl h.of_released
  | beginEndSession peerId c token version =>
      rcases RoomState.beginEndSession_cases hrun with ⟨rfl, _⟩ | ⟨_, _, _, _, rfl, _⟩
      · exact Or.inl h
      · exact Or.inl ⟨h.1, h.2, h.3⟩
  | finishEndSession guests persisted =>
      have hlookup := h.lookup
      simp only [RoomOp.run, RoomState.finishEndSession] at hrun
      split at hrun <;> cases hrun <;> simp [RoomState.cleared] at hlookup
  | transferHost peerId c version target =>
      rcases RoomState.transferHost_cases hrun with
        ⟨rfl, _⟩ | ⟨_, _, _, _, _, _, _, _, rfl, _⟩
      · exact Or.inl h
      · exact Or.inl h.of_transferred
  | broadcast senderId c payload =>
      obtain ⟨rfl | rfl, _⟩ := RoomState.broadcast_cases hrun <;> exact Or.inl ⟨h.1, h.2, h.3⟩
  | sendTo senderId c targetId payload =>
      obtain ⟨rfl | rfl, _⟩ := RoomState.sendTo_cases hrun <;> exact Or.inl ⟨h.1, h.2, h.3⟩
  | handleDisconnect peerId c =>
      rcases RoomState.handleDisconnect_cases hrun with ⟨_, rfl, _⟩ | ⟨_, _, rfl, _⟩
      · exact Or.inl h
      · exact Or.inl h.of_disconnected
  | pruneExpiredReservations => cases hrun; exact Or.inl h.of_pruned
  | sweep now =>
      rcases RoomState.sweepRoom_cases hrun with ⟨rfl, _⟩ | ⟨rfl, _⟩ | ⟨rfl, _⟩
      · exact Or.inl h.of_pruned
      · exact Or.inl (PendingAt.of_pruned ⟨h.1, h.2, h.3⟩)
      · have hconn := h.conn
        simp [RoomState.connIdOf] at hconn

namespace PendingAt

omit [TokenCodec]

variable {st : RoomState} {p q : String} {connId : Nat} {res : PeerReservation}

theorem mem_peers (h : PendingAt st p connId res) : p ∈ st.peers :=
  RoomState.mem_peers_of_connIdOf h.conn

/-- Another peer id with another connection is another peer. -/
theorem ne_of_conn (h : PendingAt st p connId res) {c : Nat} (hq : st.connIdOf q = some c)
    (hne : c ≠ connId) : p ≠ q := by
  rintro rfl
  exact hne (Option.some.inj (hq.symm.trans h.conn))

theorem pruned (h : PendingAt st p connId res) (i : String → Instant) :
    PendingAt (st.pruned i) p connId res :=
  ⟨h.conn, by rw [st.lookup_pruned_of_mem_peers h.mem_peers]; exact h.lookup, h.pending⟩

theorem setReleasePending (h : PendingAt st p connId res) (hne : p ≠ q) (b : Bool) :
    PendingAt (st.setReleasePending q b) p connId res :=
  ⟨h.conn, by simp only [RoomState.lookup_setReleasePending, if_neg hne, h.lookup],
    h.pending⟩

/-- Nobody is admitted as a peer whose release is pending. -/
theorem joined (h : PendingAt st p connId res) (hm : Membership st) {admission : Admission}
    {presented : Option Verifier} {resumeOnly : Bool} {now : SystemTime}
    {cancel : CancellationToken}
    (hauth : st.joinAuthorized admission.peerId presented resumeOnly = true) :
    PendingAt (st.joined admission presented now cancel) p connId res := by
  have hne : p ≠ admission.peerId := by
    rintro rfl
    rcases RoomState.joinAuthorized_cases hauth with
      ⟨hhost, _⟩ | ⟨_, r, hr, hidle, _⟩ | ⟨_, hnew, _⟩
    · exact hm.guest_of_reserved (AList.mem_of_lookup h.lookup) hhost
    · rw [← Option.some.inj (h.lookup.symm.trans hr), h.pending] at hidle
      cases hidle
    · exact hnew (AList.mem_of_lookup h.lookup)
  refine ⟨?_, ?_, h.pending⟩
  · simp only [RoomState.connIdOf, RoomState.joined_peers, AList.lookup_insert_eq, if_neg hne]
    exact h.conn
  · rw [RoomState.joined_reservations]
    split
    · exact h.lookup
    · rw [AList.lookup_insert_eq, if_neg hne]
      exact h.lookup

theorem released (h : PendingAt st p connId res) (hne : p ≠ q) (now : SystemTime) :
    PendingAt (st.released q now) p connId res :=
  ⟨by simp only [RoomState.connIdOf, RoomState.released, AList.lookup_erase_eq, if_neg hne]
      exact h.conn,
    by simp only [RoomState.released, AList.lookup_erase_eq, if_neg hne, h.lookup], h.pending⟩

theorem transferred (h : PendingAt st p connId res) (hm : Membership st) {target : String}
    {old : PeerReservation} (hold : st.reservations.lookup target = some old)
    (hidle : old.releasePending = false) : PendingAt (st.transferred target old) p connId res := by
  have htarget : p ≠ target := by
    rintro rfl
    rw [← Option.some.inj (h.lookup.symm.trans hold), h.pending] at hidle
    cases hidle
  have hhost := hm.guest_of_reserved (AList.mem_of_lookup h.lookup)
  refine ⟨h.conn, ?_, h.pending⟩
  simp only [RoomState.transferred, AList.lookup_insert_eq, AList.lookup_erase_eq, if_neg htarget,
    if_neg hhost, h.lookup]

theorem disconnected (h : PendingAt st p connId res) (hne : p ≠ q) (now : SystemTime)
    (i : Instant) : PendingAt (st.disconnected q now i) p connId res := by
  refine ⟨?_, ?_, h.pending⟩
  · simp only [RoomState.connIdOf, RoomState.disconnected_peers, AList.lookup_erase_eq, if_neg hne]
    exact h.conn
  · rw [RoomState.disconnected_reservations]
    split
    · exact h.lookup
    · rw [AList.lookup_modify, if_neg hne]
      exact h.lookup

end PendingAt

/-- As long as the room is open, a pending release is settled only by its own
    connection. -/
theorem RoomOp.pendingAt_forward {st : RoomState} (hm : Membership st) (rd : Readings)
    (op : RoomOp) {p : String} {connId : Nat} {res : PeerReservation}
    (h : PendingAt st p connId res) (hconn : op.connId ≠ some connId)
    (hteardown : op.isTeardown = false) :
    (op.run rd st).1.closing = true ∨ PendingAt (op.run rd st).1 p connId res := by
  rcases hrun : op.run rd st with ⟨st', r⟩
  dsimp only
  cases op with
  | isIdempotent | isReclaimable | ownerIpKey => cases hrun; exact Or.inr h
  | markClosing => cases hrun; exact Or.inl rfl
  | reconnectHost host token =>
      cases hrun
      have hne := hm.guest_of_reserved (AList.mem_of_lookup h.lookup)
      refine Or.inr ⟨?_, h.lookup, h.pending⟩
      simp only [RoomState.connIdOf, AList.lookup_insert_eq, if_neg hne]
      exact h.conn
  | joinOrResume msg admission resumeOnly =>
      rcases RoomState.joinOrResume_cases hrun with
        ⟨_, rfl, _⟩ | ⟨_, rfl, _⟩ | ⟨_, hauth, _, rfl, _⟩
      · exact Or.inr h
      · exact Or.inr (h.pruned _)
      · exact Or.inr ((h.pruned _).joined (hm.pruned _) hauth)
  | beginLeave peerId c token version =>
      rcases RoomState.beginLeave_cases hrun with ⟨rfl, _⟩ | ⟨_, hc, _, _, rfl, _⟩
      · exact Or.inr h
      · exact Or.inr (h.setReleasePending (h.ne_of_conn hc fun heq => hconn (heq ▸ rfl)) true)
  | finishLeave peerId c persisted =>
      have hne : st.ownsPendingLeave peerId c = true → p ≠ peerId := fun howns =>
        h.ne_of_conn (RoomState.ownsPendingLeave_iff.mp howns).1 fun heq => hconn (heq ▸ rfl)
      rcases RoomState.finishLeave_cases hrun with
        ⟨_, rfl, _⟩ | ⟨howns, _, rfl, _⟩ | ⟨howns, _, rfl, _⟩
      · exact Or.inr h
      · exact Or.inr (h.setReleasePending (hne howns) false)
      · exact Or.inr (h.released (hne howns) _)
  | beginEndSession peerId c token version =>
      rcases RoomState.beginEndSession_cases hrun with ⟨rfl, _⟩ | ⟨_, _, _, _, rfl, _⟩
      · exact Or.inr h
      · exact Or.inl rfl
  | finishEndSession => cases hteardown
  | transferHost peerId c version target =>
      rcases RoomState.transferHost_cases hrun with
        ⟨rfl, _⟩ | ⟨_, _, _, _, _, old, hold, hidle, rfl, _⟩
      · exact Or.inr h
      · exact Or.inr (h.transferred hm hold hidle)
  | broadcast senderId c payload =>
      obtain ⟨rfl | rfl, _⟩ := RoomState.broadcast_cases hrun <;> exact Or.inr ⟨h.1, h.2, h.3⟩
  | sendTo senderId c targetId payload =>
      obtain ⟨rfl | rfl, _⟩ := RoomState.sendTo_cases hrun <;> exact Or.inr ⟨h.1, h.2, h.3⟩
  | handleDisconnect peerId c =>
      rcases RoomState.handleDisconnect_cases hrun with ⟨_, rfl, _⟩ | ⟨_, hc, rfl, _⟩
      · exact Or.inr h
      · exact Or.inr (h.disconnected (h.ne_of_conn hc fun heq => hconn (heq ▸ rfl)) _ _)
  | pruneExpiredReservations => cases hrun; exact Or.inr (h.pruned _)
  | sweep now =>
      rcases RoomState.sweepRoom_cases hrun with ⟨rfl, _⟩ | ⟨rfl, _⟩ | ⟨rfl, _⟩
      · exact Or.inr (h.pruned _)
      · exact Or.inl rfl
      · exact Or.inl rfl

/-- A release that is pending on a connection was begun on it, with the token the
    identity is bound to. -/
theorem pendingAt_origin {st : RoomState} (hm : Membership st)
    (hfresh : ∀ p connId res, ¬PendingAt st p connId res) (ops : List (RoomOp × Readings))
    {p : String} {connId : Nat} {res : PeerReservation}
    (h : PendingAt (st.runOps ops) p connId res) :
    ∃ earlier later rd token version,
      ops = earlier ++ (.beginLeave p connId token version, rd) :: later ∧
      ((st.runOps earlier).beginLeave p connId token version).2 = .ok () ∧
      (st.runOps earlier).connIdOf p = some connId ∧
      Verifier.fromToken token = some res.verifier ∧
      (st.runOps earlier).bound p = some res.verifier := by
  induction ops using List.reverseRecOn with
  | nil => exact (hfresh p connId res h).elim
  | append_singleton ops last ih =>
      obtain ⟨op, rd⟩ := last
      rw [RoomState.runOps_append] at h
      rcases op.pendingAt_cases (hm.runOps ops) rd h with h | ⟨token, version, rfl, hok⟩
      · obtain ⟨earlier, later, rd', token, version, rfl, hbegin⟩ := ih h
        exact ⟨earlier, later ++ [(op, rd)], rd', token, version, by simp, hbegin⟩
      · exact ⟨ops, [], rd, token, version, rfl, hok⟩

/-! ### Rooms as they come into being -/

/-- A room state `Registry::create` or a restart can start from. -/
inductive Origin : RoomState → Prop where
  | created (sessionId hostPeerId : String) (hostVerifier : Verifier) (token ownerIpKey : String)
      (host : Admission) (now : SystemTime) (cancel : CancellationToken) :
      Origin (RoomState.newRoom sessionId hostPeerId hostVerifier token ownerIpKey host now
        cancel).1
  | restored (file : Option StateSnapshotDto) (now : SystemTime)
      (clock : String → String → Instant × Instant) (r : RestoredRoom)
      (hloaded : r ∈ loadSnapshot file now clock) : Origin r.state

/-- The loader refuses a host that also has a reservation. -/
theorem host_notMem_loadSnapshot {file : Option StateSnapshotDto} {now : SystemTime}
    {clock : String → String → Instant × Instant} {room : RestoredRoom}
    (h : room ∈ loadSnapshot file now clock) : room.hostPeerId ∉ room.reservations := by
  obtain ⟨_, _, saved, _, hload⟩ := load_of_mem_loadSnapshot h
  obtain ⟨hloadable, _, hloads⟩ := RoomDto.load_spec hload
  intro hmem
  obtain ⟨r, hr⟩ := hloads.saved hmem
  exact (hloadable.reservations hr).ne_host hloads.hostPeerId

theorem Origin.membership {st : RoomState} (h : Origin st) : Membership st := by
  cases h with
  | created => exact (RoomInv.newRoom ..).toMembership
  | restored file now clock r hloaded =>
      refine ⟨fun hmem => host_notMem_loadSnapshot hloaded (AList.mem_mapValues.mp hmem), ?_⟩
      exact fun p hp => (AList.notMem_empty p hp).elim

theorem Origin.not_pendingAt {st : RoomState} (h : Origin st) (p : String) (connId : Nat)
    (res : PeerReservation) : ¬PendingAt st p connId res := by
  intro hpending
  cases h with
  | created =>
      have hlookup := hpending.lookup
      simp [RoomState.newRoom] at hlookup
  | restored =>
      have hconn := hpending.conn
      simp [RestoredRoom.state, RoomState.restore, RoomState.connIdOf] at hconn

/-! ### Identity binding -/

/-- **No takeover.**  In every state a room can reach, and for every critical section
    run in it: a binding is only replaced once it has expired; a new binding is made
    by a plain join, to the verifier of the token it presents; a binding ends by a
    committed leave that its own token began on its current connection, by expiry, or
    with the room; and whoever is admitted under an identity that is still bound
    after pruning presented its token. -/
theorem identity_binding {st₀ : RoomState} (horigin : Origin st₀)
    (ops : List (RoomOp × Readings)) (op : RoomOp) (rd : Readings) (p : String) :
    let st := st₀.runOps ops
    let st' := (op.run rd st).1
    (∀ v w, st.bound p = some v → st'.bound p = some w → w ≠ v →
      st.Expired (rd.instants p) p) ∧
    (∀ v, st.bound p = none → st'.bound p = some v →
      ∃ msg admission, op = .joinOrResume msg admission false ∧ admission.peerId = p ∧
        Verifier.fromToken msg.reconnectToken = some v) ∧
    (∀ v, st.bound p = some v → st'.bound p = none →
      (∃ connId, op = .finishLeave p connId true ∧
        ∃ earlier later rd₀ token version,
          ops = earlier ++ (.beginLeave p connId token version, rd₀) :: later ∧
          ((st₀.runOps earlier).beginLeave p connId token version).2 = .ok () ∧
          (st₀.runOps earlier).connIdOf p = some connId ∧
          (st₀.runOps earlier).bound p = some v ∧ Verifier.fromToken token = some v) ∨
      st.Expired (rd.instants p) p ∨
      ∃ guests persisted, op = .finishEndSession guests persisted) ∧
    (∀ msg admission resumeOnly connId v, op = .joinOrResume msg admission resumeOnly →
      (st.joinOrResume msg admission resumeOnly rd.now rd.instants rd.token).2.assignedConnId =
        some connId →
      (st.pruned rd.instants).bound admission.peerId = some v →
      Verifier.fromToken msg.reconnectToken = some v) := by
  intro st st'
  have hm : Membership st := horigin.membership.runOps ops
  have hcases := op.bound_cases hm rd p
  refine ⟨?_, ?_, ?_, ?_⟩
  · intro v w hv hw hne
    rcases hcases with hsame | ⟨hexp, _⟩ | ⟨_, _, _, _, _, hold, _, _⟩ |
      ⟨_, _, _, hnone⟩ | ⟨_, _, _, hnone⟩
    · exact absurd (Option.some.inj (hw.symm.trans (hsame.trans hv))) hne
    · exact hexp
    · exact hold.resolve_left (by simp [hv])
    · cases hnone.symm.trans hw
    · cases hnone.symm.trans hw
  · intro v hnone hv
    rcases hcases with hsame | ⟨_, hgone⟩ | ⟨msg, admission, w, hop, hp, _, htoken, hw⟩ |
      ⟨_, _, _, hgone⟩ | ⟨_, _, _, hgone⟩
    · cases hv.symm.trans (hsame.trans hnone)
    · cases hgone.symm.trans hv
    · obtain rfl := Option.some.inj (hw.symm.trans hv)
      exact ⟨msg, admission, hop, hp, htoken⟩
    · cases hgone.symm.trans hv
    · cases hgone.symm.trans hv
  · intro v hv hnone
    rcases hcases with hsame | ⟨hexp, _⟩ | ⟨_, _, _, _, _, _, _, hw⟩ |
      ⟨connId, hop, howns, _⟩ | ⟨guests, persisted, hop, _⟩
    · cases hv.symm.trans (hsame.symm.trans hnone)
    · exact Or.inr (Or.inl hexp)
    · cases hw.symm.trans hnone
    · left
      obtain ⟨hconn, res, hres, hpending⟩ := RoomState.ownsPendingLeave_iff.mp howns
      obtain rfl : res.verifier = v :=
        Option.some.inj ((RoomState.bound_of_lookup hm hres).symm.trans hv)
      obtain ⟨earlier, later, rd₀, token, version, hops, hok, hconn₀, htoken, hbound⟩ :=
        pendingAt_origin horigin.membership horigin.not_pendingAt ops ⟨hconn, hres, hpending⟩
      exact ⟨connId, hop, earlier, later, rd₀, token, version, hops, hok, hconn₀, hbound, htoken⟩
    · exact Or.inr (Or.inr ⟨guests, persisted, hop⟩)
  · intro msg admission resumeOnly connId v _ hadmitted hbound
    rcases hjoin : st.joinOrResume msg admission resumeOnly rd.now rd.instants rd.token with ⟨s, e⟩
    rw [hjoin] at hadmitted
    rcases RoomState.joinOrResume_cases hjoin with
      ⟨_, _, rfl⟩ | ⟨_, _, _, _, rfl⟩ | ⟨_, hauth, _⟩
    · cases hadmitted
    · cases hadmitted
    · obtain ⟨w, hpres, _, hold⟩ := RoomState.bound_joined_self rd.now rd.token hauth
      rcases hold with hold | ⟨hold, _⟩
      · rw [hpres, ← hold, hbound]
      · cases hold.symm.trans hbound

omit [TokenCodec] in
/-- A section it speaks about: the first join of a guest. -/
theorem identity_binding_of_first_join : letI : TokenCodec := sampleCodec
    let host : Admission :=
      { peerId := "a", tx := 0, syncProtocolVersion := 0, hostTransferCapable := false }
    let st := (RoomState.newRoom "s" "a" ⟨digestOnes⟩ tokenOnes "ip" host 0 ⟨0⟩).1
    let join : RoomOp := .joinOrResume
      { msgType := .join, sessionId := "s", peerId := "b", reconnectToken := tokenTwos,
        protocolVersion := RELAY_PROTOCOL_VERSION } { host with peerId := "b" } false
    let rd : Readings := { now := 0, instants := fun _ => 0, token := ⟨1⟩ }
    st.bound "b" = none ∧ (join.run rd st).1.bound "b" = some ⟨digestTwos⟩ ∧
      ∃ msg admission, join = .joinOrResume msg admission false ∧ admission.peerId = "b" ∧
        Verifier.fromToken msg.reconnectToken = some ⟨digestTwos⟩ := by
  let _ : TokenCodec := sampleCodec
  intro host st join rd
  have hnone : st.bound "b" = none := by decide +kernel
  have hbound : (join.run rd st).1.bound "b" = some ⟨digestTwos⟩ := by decide +kernel
  have hbinding := identity_binding
    (.created "s" "a" ⟨digestOnes⟩ tokenOnes "ip" host 0 ⟨0⟩) [] join rd "b"
  exact ⟨hnone, hbound, hbinding.2.1 ⟨digestTwos⟩ hnone hbound⟩
end PlezyRelay
