/-
  PlezyRelay/RoomInvariant.lean
  =============================
  **The representation invariant of a room.**

  The host lives outside the reservation map and a host transfer swaps the two
  representations, so the invariant has four parts that only hold together:

    * the host is not reserved, and every connected peer is the host or reserved
      (`Membership`);
    * at most `MAX_ROOM_SIZE - 1` identities are reserved (`Capacity`) — the
      capacity check of `join_or_resume` is skipped for known identities, and it
      is `Membership` that makes an unreserved guest an unoccupied one;
    * while the room is open, a reservation has no absence time exactly when its
      peer is connected (`Presence`).

  Each part is proved by cases on `Change`; `Membership` alone also holds of rooms
  restored from a snapshot, which is why it is kept apart.
-/
import PlezyRelay.RoomOp

namespace PlezyRelay

/-! ### The fields of an updated state -/

namespace RoomState

variable (st : RoomState)

@[simp] theorem pruned_peers (i : String → Instant) : (st.pruned i).peers = st.peers := rfl
@[simp] theorem pruned_hostPeerId (i : String → Instant) :
    (st.pruned i).hostPeerId = st.hostPeerId := rfl
@[simp] theorem pruned_hostVerifier (i : String → Instant) :
    (st.pruned i).hostVerifier = st.hostVerifier := rfl
@[simp] theorem pruned_closing (i : String → Instant) : (st.pruned i).closing = st.closing := rfl
@[simp] theorem pruned_nextConnId (i : String → Instant) :
    (st.pruned i).nextConnId = st.nextConnId := rfl

theorem lookup_pruned (i : String → Instant) (p : String) :
    (st.pruned i).reservations.lookup p =
      (st.reservations.lookup p).filter (st.keepsReservation i p) :=
  AList.lookup_retain _ _ _

theorem lookup_of_lookup_pruned {i : String → Instant} {p : String} {res : PeerReservation}
    (h : (st.pruned i).reservations.lookup p = some res) : st.reservations.lookup p = some res := by
  rw [lookup_pruned, Option.filter_eq_some_iff] at h
  exact h.1

theorem mem_of_mem_pruned {i : String → Instant} {p : String}
    (h : p ∈ (st.pruned i).reservations) : p ∈ st.reservations :=
  AList.mem_of_mem_retain h

/-- Pruning never drops a connected peer's reservation. -/
theorem lookup_pruned_of_mem_peers {i : String → Instant} {p : String} (h : p ∈ st.peers) :
    (st.pruned i).reservations.lookup p = st.reservations.lookup p := by
  rw [lookup_pruned]
  rcases st.reservations.lookup p with _ | res
  · rfl
  · have hkeep : st.keepsReservation i p res = true := by
      simp [keepsReservation, AList.contains_iff.mpr h]
    simp [Option.filter, hkeep]

variable (admission : Admission) (presented : Option Verifier) (now : SystemTime)
  (cancel : CancellationToken)

@[simp] theorem joined_peers : (st.joined admission presented now cancel).peers =
    st.peers.insert admission.peerId (admission.connect st.nextConnId cancel) := by
  by_cases h : admission.peerId = st.hostPeerId <;> simp [joined, admitPeer, h]
@[simp] theorem joined_hostPeerId :
    (st.joined admission presented now cancel).hostPeerId = st.hostPeerId := by
  by_cases h : admission.peerId = st.hostPeerId <;> simp [joined, admitPeer, h]
@[simp] theorem joined_hostVerifier :
    (st.joined admission presented now cancel).hostVerifier = st.hostVerifier := by
  by_cases h : admission.peerId = st.hostPeerId <;> simp [joined, admitPeer, h]
@[simp] theorem joined_closing :
    (st.joined admission presented now cancel).closing = st.closing := by
  by_cases h : admission.peerId = st.hostPeerId <;> simp [joined, admitPeer, h]
@[simp] theorem joined_nextConnId :
    (st.joined admission presented now cancel).nextConnId = st.nextConnId + 1 := by
  by_cases h : admission.peerId = st.hostPeerId <;> simp [joined, admitPeer, h]

theorem joined_reservations : (st.joined admission presented now cancel).reservations =
    if admission.peerId = st.hostPeerId then st.reservations
    else st.reservations.insert admission.peerId
      ⟨st.joinVerifier admission.peerId presented, none, false⟩ := by
  by_cases h : admission.peerId = st.hostPeerId <;> simp [joined, admitPeer, h]

variable (peerId : String) (instant : Instant)

@[simp] theorem disconnected_peers :
    (st.disconnected peerId now instant).peers = st.peers.erase peerId := by
  by_cases h : peerId = st.hostPeerId <;> simp [disconnected, h]
@[simp] theorem disconnected_hostPeerId :
    (st.disconnected peerId now instant).hostPeerId = st.hostPeerId := by
  by_cases h : peerId = st.hostPeerId <;> simp [disconnected, h]
@[simp] theorem disconnected_hostVerifier :
    (st.disconnected peerId now instant).hostVerifier = st.hostVerifier := by
  by_cases h : peerId = st.hostPeerId <;> simp [disconnected, h]
@[simp] theorem disconnected_closing :
    (st.disconnected peerId now instant).closing = st.closing := by
  by_cases h : peerId = st.hostPeerId <;> simp [disconnected, h]
@[simp] theorem disconnected_nextConnId :
    (st.disconnected peerId now instant).nextConnId = st.nextConnId := by
  by_cases h : peerId = st.hostPeerId <;> simp [disconnected, h]

theorem disconnected_reservations : (st.disconnected peerId now instant).reservations =
    if peerId = st.hostPeerId then st.reservations
    else st.reservations.modify peerId fun res => { res with absentSince := some instant } := by
  by_cases h : peerId = st.hostPeerId <;> simp [disconnected, h]

theorem lookup_setReleasePending (pending : Bool) (q : String) :
    (st.setReleasePending peerId pending).reservations.lookup q =
      if q = peerId then
        (st.reservations.lookup q).map fun res => { res with releasePending := pending }
      else st.reservations.lookup q :=
  AList.lookup_modify _ _ _ _

/-- A peer with a current connection id is connected. -/
theorem mem_peers_of_connIdOf {st : RoomState} {p : String} {c : Nat}
    (h : st.connIdOf p = some c) : p ∈ st.peers := by
  obtain ⟨peer, hpeer, _⟩ := Option.map_eq_some_iff.mp h
  exact AList.mem_of_lookup hpeer

/-- What a leave that can still be settled looks like. -/
theorem ownsPendingLeave_iff {st : RoomState} {p : String} {c : Nat} :
    st.ownsPendingLeave p c = true ↔ st.connIdOf p = some c ∧
      ∃ res, st.reservations.lookup p = some res ∧ res.releasePending = true := by
  unfold ownsPendingLeave
  rcases hres : st.reservations.lookup p with _ | res <;> simp

/-- Who an authorized joiner is: the host with the host's token, a reserved identity
    with its own token, or a new identity that presents some valid token. -/
theorem joinAuthorized_cases {st : RoomState} {p : String} {presented : Option Verifier}
    {resumeOnly : Bool} (h : st.joinAuthorized p presented resumeOnly = true) :
    (p = st.hostPeerId ∧ presented = some st.hostVerifier) ∨
    (p ≠ st.hostPeerId ∧ ∃ res, st.reservations.lookup p = some res ∧
      res.releasePending = false ∧ presented = some res.verifier) ∨
    (p ≠ st.hostPeerId ∧ p ∉ st.reservations ∧ p ∉ st.peers ∧ resumeOnly = false ∧
      ∃ v, presented = some v) := by
  unfold joinAuthorized at h
  by_cases hhost : p = st.hostPeerId
  · rw [if_pos hhost, Verifier.accepts_iff] at h
    exact Or.inl ⟨hhost, h⟩
  · rw [if_neg hhost] at h
    right
    rcases hres : st.reservations.lookup p with _ | res
    · right
      rw [hres] at h
      by_cases hocc : st.peers.contains p = true
      · simp [hocc] at h
      · simp only [hocc, Bool.false_eq_true, if_false, Bool.and_eq_true, Bool.not_eq_true',
          Option.isSome_iff_exists] at h
        exact ⟨hhost, AList.lookup_eq_none.mp hres, fun hp => hocc (AList.contains_iff.mpr hp), h⟩
    · left
      rw [hres] at h
      simp only [Bool.and_eq_true, Bool.not_eq_true', Verifier.accepts_iff] at h
      exact ⟨hhost, res, rfl, h.1, h.2⟩

end RoomState

/-! ### Membership -/

/-- Who may be where: the host outside the reservations, everyone else inside. -/
structure Membership (st : RoomState) : Prop where
  host_unreserved : st.hostPeerId ∉ st.reservations
  known : ∀ p ∈ st.peers, p = st.hostPeerId ∨ p ∈ st.reservations

namespace Membership

variable {st st' : RoomState}

/-- A reserved identity is a guest. -/
theorem guest_of_reserved (h : Membership st) {p : String} (hp : p ∈ st.reservations) :
    p ≠ st.hostPeerId := by
  rintro rfl
  exact h.host_unreserved hp

theorem pruned (h : Membership st) (i : String → Instant) : Membership (st.pruned i) where
  host_unreserved hmem := h.host_unreserved (st.mem_of_mem_pruned hmem)
  known p hp := by
    refine (h.known p hp).imp id fun hres => ?_
    rw [AList.mem_iff_lookup] at hres ⊢
    rwa [st.lookup_pruned_of_mem_peers hp]

theorem setReleasePending (h : Membership st) (p : String) (b : Bool) :
    Membership (st.setReleasePending p b) where
  host_unreserved hmem := h.host_unreserved (AList.mem_modify.mp hmem)
  known q hq := (h.known q hq).imp id AList.mem_modify.mpr

theorem joined (h : Membership st) (admission : Admission) (presented : Option Verifier)
    (now : SystemTime) (cancel : CancellationToken) :
    Membership (st.joined admission presented now cancel) := by
  by_cases hhost : admission.peerId = st.hostPeerId
  · constructor
    · simpa [RoomState.joined_reservations, hhost] using h.host_unreserved
    · intro p hp
      rw [RoomState.joined_peers, AList.mem_insert] at hp
      rw [RoomState.joined_hostPeerId, RoomState.joined_reservations, if_pos hhost]
      rcases hp with rfl | hp
      · exact Or.inl hhost
      · exact h.known p hp
  · constructor
    · rw [RoomState.joined_hostPeerId, RoomState.joined_reservations, if_neg hhost,
        AList.mem_insert]
      rintro (heq | hmem)
      · exact hhost heq.symm
      · exact h.host_unreserved hmem
    · intro p hp
      rw [RoomState.joined_peers, AList.mem_insert] at hp
      rw [RoomState.joined_hostPeerId, RoomState.joined_reservations, if_neg hhost,
        AList.mem_insert]
      rcases hp with rfl | hp
      · exact Or.inr (Or.inl rfl)
      · exact (h.known p hp).imp id Or.inr

theorem released (h : Membership st) (p : String) (now : SystemTime) :
    Membership (st.released p now) where
  host_unreserved hmem := h.host_unreserved (AList.mem_erase.mp hmem).2
  known q hq := by
    obtain ⟨hne, hq⟩ := AList.mem_erase.mp hq
    exact (h.known q hq).imp id fun hres => AList.mem_erase.mpr ⟨hne, hres⟩

theorem transferred (h : Membership st) {target : String} {res : PeerReservation}
    (hne : target ≠ st.hostPeerId) : Membership (st.transferred target res) where
  host_unreserved hmem := by
    rcases (AList.mem_insert _).mp hmem with heq | hmem
    · exact hne heq
    · exact (AList.mem_erase.mp hmem).1 rfl
  known p hp := by
    -- the target becomes the host; the old host and the other guests are reserved
    by_cases hp' : p = target
    · exact Or.inl hp'
    · refine Or.inr ((AList.mem_insert _).mpr ((h.known p hp).imp id fun hres => ?_))
      exact AList.mem_erase.mpr ⟨hp', hres⟩

theorem disconnected (h : Membership st) (p : String) (now : SystemTime) (i : Instant) :
    Membership (st.disconnected p now i) := by
  have hmem : ∀ q, q ∈ (st.disconnected p now i).reservations ↔ q ∈ st.reservations := by
    intro q
    rw [RoomState.disconnected_reservations]
    split
    · rfl
    · exact AList.mem_modify
  constructor
  · rw [RoomState.disconnected_hostPeerId, hmem]
    exact h.host_unreserved
  · intro q hq
    rw [RoomState.disconnected_hostPeerId, hmem]
    rw [RoomState.disconnected_peers] at hq
    exact h.known q (AList.mem_erase.mp hq).2

theorem change (h : Membership st) (hstep : Change st st') : Membership st' := by
  cases hstep with
  | same => exact h
  | touched | closed => exact ⟨h.host_unreserved, h.known⟩
  | pruned i => exact h.pruned i
  | hostAdmitted host cancel =>
      refine ⟨h.host_unreserved, fun p hp => ?_⟩
      rcases (AList.mem_insert _).mp hp with rfl | hp
      · exact Or.inl rfl
      · exact h.known p hp
  | joined i admission presented _ now cancel => exact (h.pruned i).joined ..
  | leaveBegun p => exact h.setReleasePending p true
  | leaveUndone p => exact h.setReleasePending p false
  | released p _ now => exact h.released p now
  | cleared => exact ⟨AList.notMem_empty _, fun p hp => (AList.notMem_empty p hp).elim⟩
  | transferred _ target res _ _ hne => exact h.transferred hne
  | disconnected p _ now i => exact h.disconnected p now i
  | swept i => exact ⟨(h.pruned i).host_unreserved, (h.pruned i).known⟩
  | sweptOut i =>
      exact ⟨(h.pruned i).host_unreserved, fun p hp => (AList.notMem_empty p hp).elim⟩

end Membership

/-! ### Capacity -/

/-- One identity more fits whenever `join_or_resume` allocates one. -/
theorem joined_reservations_size_le {st : RoomState} {admission : Admission}
    {presented : Option Verifier} {resumeOnly : Bool} {now : SystemTime}
    {cancel : CancellationToken} (h : st.reservations.size ≤ MAX_ROOM_SIZE - 1)
    (hauth : st.joinAuthorized admission.peerId presented resumeOnly = true)
    (hfits : st.joinRoomFull admission.peerId = false) :
    (st.joined admission presented now cancel).reservations.size ≤ MAX_ROOM_SIZE - 1 := by
  rw [RoomState.joined_reservations]
  rcases RoomState.joinAuthorized_cases hauth with
    ⟨hhost, _⟩ | ⟨hguest, res, hres, _⟩ | ⟨hguest, hnew, habsent, _⟩
  · rwa [if_pos hhost]
  · rwa [if_neg hguest, AList.size_insert_of_mem (AList.mem_of_lookup hres)]
  · have hroom : st.reservations.size + 1 < MAX_ROOM_SIZE := by
      simpa [RoomState.joinRoomFull, AList.contains_eq_false.mpr habsent, hguest,
        AList.lookup_eq_none.mpr hnew] using hfits
    rw [if_neg hguest, AList.size_insert_of_notMem hnew]
    exact Nat.le_sub_one_of_lt hroom

theorem capacity_change {st st' : RoomState} (hm : Membership st)
    (h : st.reservations.size ≤ MAX_ROOM_SIZE - 1) (hstep : Change st st') :
    st'.reservations.size ≤ MAX_ROOM_SIZE - 1 := by
  have hpruned : ∀ i, (st.pruned i).reservations.size ≤ MAX_ROOM_SIZE - 1 := fun i =>
    le_trans (AList.size_retain_le _ _) h
  cases hstep with
  | same | touched | closed | hostAdmitted => exact h
  | pruned i | swept i | sweptOut i => exact hpruned i
  | joined i _ _ _ _ _ _ hauth hfits => exact joined_reservations_size_le (hpruned i) hauth hfits
  | leaveBegun p | leaveUndone p => exact le_of_eq_of_le (AList.size_modify _ _ _) h
  | released p => exact le_trans (AList.size_erase_le _ _) h
  | cleared => exact Nat.zero_le _
  | transferred _ target res _ _ _ _ hres =>
      -- one reservation is dissolved and one is made
      have hold : st.hostPeerId ∉ st.reservations.erase target := fun hmem =>
        hm.host_unreserved (AList.mem_erase.mp hmem).2
      have herase := AList.size_erase_of_mem (AList.mem_of_lookup hres)
      have hpos := AList.size_pos_of_mem (AList.mem_of_lookup hres)
      simp only [RoomState.transferred, AList.size_insert_of_notMem hold]
      omega
  | disconnected p =>
      rw [RoomState.disconnected_reservations]
      split
      · exact h
      · exact le_of_eq_of_le (AList.size_modify _ _ _) h

/-- The peers are the host and reserved guests, so they are one more at most. -/
theorem Membership.peers_size_le {st : RoomState} (hm : Membership st) :
    st.peers.size ≤ st.reservations.size + 1 := by
  rw [AList.size_eq_length_keys st.reservations, ← List.length_cons (a := st.hostPeerId)]
  refine AList.size_le_of_keys_subset fun p hp => ?_
  exact List.mem_cons.mpr (hm.known p hp)

/-! ### Presence -/

/-- Absence times are kept for exactly the reserved identities that are away. -/
def Presence (st : RoomState) : Prop :=
  st.closing = false → ∀ p res, st.reservations.lookup p = some res →
    (res.absentSince = none ↔ p ∈ st.peers)

namespace Presence

variable {st st' : RoomState}

theorem pruned (h : Presence st) (i : String → Instant) : Presence (st.pruned i) :=
  fun hopen p res hres => h hopen p res (st.lookup_of_lookup_pruned hres)

theorem setReleasePending (h : Presence st) (p : String) (b : Bool) :
    Presence (st.setReleasePending p b) := by
  intro hopen q res hres
  simp only [RoomState.lookup_setReleasePending] at hres
  split at hres
  · obtain ⟨old, hold, rfl⟩ := Option.map_eq_some_iff.mp hres
    exact h hopen q old hold
  · exact h hopen q res hres

theorem joined (h : Presence st) (hm : Membership st) (admission : Admission)
    (presented : Option Verifier) (now : SystemTime) (cancel : CancellationToken) :
    Presence (st.joined admission presented now cancel) := by
  intro hopen p res hres
  rw [RoomState.joined_closing] at hopen
  rw [RoomState.joined_peers, AList.mem_insert]
  rw [RoomState.joined_reservations] at hres
  split at hres
  · -- the host was admitted: no reservation is the host's
    rename_i hhost
    have hguest := hm.guest_of_reserved (AList.mem_of_lookup hres)
    rw [h hopen p res hres, hhost]
    exact ⟨Or.inr, fun hp => hp.resolve_left hguest⟩
  · rw [AList.lookup_insert_eq] at hres
    split at hres
    · rename_i hp
      obtain rfl := Option.some.inj hres
      exact ⟨fun _ => Or.inl hp, fun _ => rfl⟩
    · rename_i hp
      rw [h hopen p res hres]
      exact ⟨Or.inr, fun hmem => hmem.resolve_left hp⟩

theorem transferred (h : Presence st) {connId : Nat} {target : String} {res : PeerReservation}
    (hhost : st.connIdOf st.hostPeerId = some connId) : Presence (st.transferred target res) := by
  intro hopen p r hr
  simp only [RoomState.transferred, AList.lookup_insert_eq, AList.lookup_erase_eq] at hr
  split at hr
  · rename_i hp
    obtain rfl := Option.some.inj hr
    exact ⟨fun _ => hp ▸ RoomState.mem_peers_of_connIdOf hhost, fun _ => rfl⟩
  · split at hr
    · cases hr
    · exact h hopen p r hr

theorem disconnected (h : Presence st) (hm : Membership st) (p : String) (now : SystemTime)
    (i : Instant) : Presence (st.disconnected p now i) := by
  intro hopen q res hres
  rw [RoomState.disconnected_closing] at hopen
  rw [RoomState.disconnected_peers, AList.mem_erase]
  rw [RoomState.disconnected_reservations] at hres
  split at hres
  · rename_i hhost
    have hguest : q ≠ p := hhost ▸ hm.guest_of_reserved (AList.mem_of_lookup hres)
    rw [h hopen q res hres]
    exact ⟨fun hq => ⟨hguest, hq⟩, And.right⟩
  · rw [AList.lookup_modify] at hres
    split at hres
    · rename_i hq
      obtain ⟨old, _, rfl⟩ := Option.map_eq_some_iff.mp hres
      exact ⟨nofun, fun hmem => (hmem.1 hq).elim⟩
    · rename_i hq
      rw [h hopen q res hres]
      exact ⟨fun hmem => ⟨hq, hmem⟩, And.right⟩

theorem change (h : Presence st) (hm : Membership st) (hstep : Change st st') : Presence st' := by
  cases hstep with
  | same => exact h
  | touched => exact h
  | closed => exact nofun
  | pruned i => exact h.pruned i
  | hostAdmitted host cancel =>
      intro hopen p res hres
      have hguest := hm.guest_of_reserved (AList.mem_of_lookup hres)
      refine (h hopen p res hres).trans ?_
      exact ⟨fun hp => (AList.mem_insert _).mpr (Or.inr hp),
        fun hp => ((AList.mem_insert _).mp hp).resolve_left hguest⟩
  | joined i => exact (h.pruned i).joined (hm.pruned i) _ _ _ _
  | leaveBegun p => exact h.setReleasePending p true
  | leaveUndone p => exact h.setReleasePending p false
  | released p =>
      intro hopen q res hres
      simp only [RoomState.released, AList.lookup_erase_eq] at hres ⊢
      split at hres
      · cases hres
      · rename_i hq
        rw [h hopen q res hres, AList.mem_erase]
        exact ⟨fun hmem => ⟨hq, hmem⟩, And.right⟩
  | cleared => exact fun _ p res hres => by simp [RoomState.cleared] at hres
  | transferred _ _ _ _ hhost => exact h.transferred hhost
  | disconnected p _ now i => exact h.disconnected hm p now i
  | swept | sweptOut => exact nofun

end Presence

/-! ### Connection ids and what never changes -/

namespace Change

variable {st st' : RoomState}

/-- A connection id found after a change was there before under the same peer, or is
    the fresh one. -/
theorem connIdOf (h : Change st st') {p : String} {c : Nat} (hc : st'.connIdOf p = some c) :
    st.connIdOf p = some c ∨ (c = st.nextConnId ∧ c < st'.nextConnId) := by
  cases h with
  | same | touched | closed | pruned | leaveBegun | leaveUndone | transferred | swept =>
      exact Or.inl hc
  | hostAdmitted host cancel =>
      simp only [RoomState.connIdOf, RoomState.admitPeer, AList.lookup_insert_eq] at hc ⊢
      split at hc
      · exact Or.inr ⟨(Option.some.inj hc).symm, by rw [← Option.some.inj hc]; exact Nat.lt_succ_self _⟩
      · exact Or.inl hc
  | joined i admission presented _ now cancel =>
      simp only [RoomState.connIdOf, RoomState.joined_peers, AList.lookup_insert_eq,
        RoomState.joined_nextConnId] at hc ⊢
      split at hc
      · exact Or.inr ⟨(Option.some.inj hc).symm, by rw [← Option.some.inj hc]; exact Nat.lt_succ_self _⟩
      · exact Or.inl hc
  | released q =>
      simp only [RoomState.connIdOf, RoomState.released, AList.lookup_erase_eq] at hc
      split at hc
      · cases hc
      · exact Or.inl hc
  | disconnected q =>
      simp only [RoomState.connIdOf, RoomState.disconnected_peers, AList.lookup_erase_eq] at hc
      split at hc
      · cases hc
      · exact Or.inl hc
  | cleared | sweptOut => cases hc

theorem nextConnId_le (h : Change st st') : st.nextConnId ≤ st'.nextConnId := by
  cases h with
  | hostAdmitted => exact Nat.le_succ _
  | joined => rw [RoomState.joined_nextConnId]; exact Nat.le_succ _
  | disconnected => rw [RoomState.disconnected_nextConnId]
  | _ => exact le_rfl

/-- A closing room stays closing. -/
theorem closing (h : Change st st') (hc : st.closing = true) : st'.closing = true := by
  cases h with
  | joined _ _ _ _ _ _ hopen => cases hopen.symm.trans hc
  | disconnected _ _ _ _ hopen => cases hopen.symm.trans hc
  | closed | swept | sweptOut => rfl
  | _ => exact hc

/-- What no section changes. -/
theorem fixed (h : Change st st') : st'.sessionId = st.sessionId ∧
    st'.ownerIpKey = st.ownerIpKey ∧ st'.createdAt = st.createdAt := by
  cases h with
  | joined _ admission =>
      by_cases hp : admission.peerId = st.hostPeerId <;>
        simp [RoomState.joined, RoomState.admitPeer, RoomState.pruned, hp]
  | disconnected p =>
      by_cases hp : p = st.hostPeerId <;> simp [RoomState.disconnected, hp]
  | _ => exact ⟨rfl, rfl, rfl⟩

theorem sessionId (h : Change st st') : st'.sessionId = st.sessionId := h.fixed.1

theorem ownerIpKey (h : Change st st') : st'.ownerIpKey = st.ownerIpKey := h.fixed.2.1

theorem createdAt (h : Change st st') : st'.createdAt = st.createdAt := h.fixed.2.2

end Change

/-- The connection ids in use have been handed out. -/
structure Numbered (st : RoomState) : Prop where
  conn_lt : ∀ p c, st.connIdOf p = some c → c < st.nextConnId

theorem Numbered.change {st st' : RoomState} (h : Numbered st) (hstep : Change st st') :
    Numbered st' where
  conn_lt p c hc := by
    rcases hstep.connIdOf hc with hold | ⟨_, hlt⟩
    · exact lt_of_lt_of_le (h.conn_lt p c hold) hstep.nextConnId_le
    · exact hlt

/-- What holds of every room, restored ones included. -/
structure RoomWf (st : RoomState) : Prop extends Membership st, Numbered st

theorem RoomWf.change {st st' : RoomState} (h : RoomWf st) (hstep : Change st st') :
    RoomWf st' where
  toMembership := h.toMembership.change hstep
  toNumbered := h.toNumbered.change hstep

/-! ### Whole runs -/

/-- The four parts together. -/
structure RoomInv (st : RoomState) : Prop extends Membership st where
  capacity : st.reservations.size ≤ MAX_ROOM_SIZE - 1
  presence : Presence st

theorem RoomInv.change {st st' : RoomState} (h : RoomInv st) (hstep : Change st st') :
    RoomInv st' where
  toMembership := h.toMembership.change hstep
  capacity := capacity_change h.toMembership h.capacity hstep
  presence := h.presence.change h.toMembership hstep

variable [TokenCodec]

/-- Critical sections of one room, run one after the other. -/
def RoomState.runOps (st : RoomState) (ops : List (RoomOp × Readings)) : RoomState :=
  ops.foldl (fun st op => (op.1.run op.2 st).1) st

/-- An invariant of every change holds after any run. -/
theorem RoomState.runOps_induction {P : RoomState → Prop} {st : RoomState}
    (ops : List (RoomOp × Readings)) (hst : P st)
    (hstep : ∀ st st', P st → Change st st' → P st') : P (st.runOps ops) :=
  List.foldlRecOn ops _ hst fun st h op _ => hstep st _ h (RoomOp.run_change op.2 st op.1)

theorem RoomState.runOps_runOps (st : RoomState) (ops later : List (RoomOp × Readings)) :
    (st.runOps ops).runOps later = st.runOps (ops ++ later) :=
  List.foldl_append.symm

theorem RoomState.runOps_append (st : RoomState) (ops : List (RoomOp × Readings)) (op : RoomOp)
    (rd : Readings) : st.runOps (ops ++ [(op, rd)]) = (op.run rd (st.runOps ops)).1 := by
  simp [RoomState.runOps]

theorem Membership.runOps {st : RoomState} (h : Membership st) (ops : List (RoomOp × Readings)) :
    Membership (st.runOps ops) :=
  RoomState.runOps_induction ops h fun _ _ h hstep => h.change hstep

omit [TokenCodec] in
theorem RoomInv.newRoom (sessionId hostPeerId : String) (hostVerifier : Verifier)
    (token ownerIpKey : String) (host : Admission) (now : SystemTime)
    (cancel : CancellationToken) :
    RoomInv (RoomState.newRoom sessionId hostPeerId hostVerifier token ownerIpKey host now
      cancel).1 where
  host_unreserved := AList.notMem_empty _
  known p hp := Or.inl (((AList.mem_insert _).mp hp).resolve_right (AList.notMem_empty p))
  capacity := Nat.zero_le _
  presence := fun _ p res hres => by simp [RoomState.newRoom] at hres

omit [TokenCodec] in
theorem RoomWf.newRoom (sessionId hostPeerId : String) (hostVerifier : Verifier)
    (token ownerIpKey : String) (host : Admission) (now : SystemTime)
    (cancel : CancellationToken) :
    RoomWf (RoomState.newRoom sessionId hostPeerId hostVerifier token ownerIpKey host now
      cancel).1 where
  toMembership := (RoomInv.newRoom ..).toMembership
  conn_lt p c hc := by
    simp only [RoomState.newRoom, RoomState.connIdOf, AList.lookup_insert_eq] at hc ⊢
    split at hc
    · cases hc
      exact Nat.lt_succ_self 1
    · cases hc

/-- **The representation invariant of a room**, over every run from `new_room`. -/
theorem newRoom_runOps_representation (sessionId hostPeerId : String) (hostVerifier : Verifier)
    (token ownerIpKey : String) (host : Admission) (now : SystemTime)
    (cancel : CancellationToken) (ops : List (RoomOp × Readings)) :
    let st := (RoomState.newRoom sessionId hostPeerId hostVerifier token ownerIpKey host now
      cancel).1.runOps ops
    st.hostPeerId ∉ st.reservations ∧
    (∀ p ∈ st.peers, p = st.hostPeerId ∨ p ∈ st.reservations) ∧
    st.reservations.size ≤ MAX_ROOM_SIZE - 1 ∧ st.peers.size ≤ MAX_ROOM_SIZE ∧
    (st.closing = false → ∀ p res, st.reservations.lookup p = some res →
      (res.absentSince = none ↔ p ∈ st.peers)) := by
  intro st
  have hinv : RoomInv st :=
    RoomState.runOps_induction ops (RoomInv.newRoom ..) fun _ _ h hstep => h.change hstep
  refine ⟨hinv.host_unreserved, hinv.known, hinv.capacity, ?_, hinv.presence⟩
  have hpeers := hinv.toMembership.peers_size_le
  have hcap := hinv.capacity
  simp only [MAX_ROOM_SIZE] at hcap ⊢
  omega

/-! ### One reservation -/

/-- What a section can do to the reservation of `p`, with what it has checked and the state
    it leaves behind. -/
inductive ReservationMove (rd : Readings) (st : RoomState) (p : String) :
    RoomOp → RoomState → Option PeerReservation → Prop where
  | kept (op : RoomOp) (st' : RoomState) :
      ReservationMove rd st p op st' (st.reservations.lookup p)
  | expired (op : RoomOp) (st' : RoomState) (res : PeerReservation)
      (hres : st.reservations.lookup p = some res)
      (hdrop : st.keepsReservation rd.instants p res = false) :
      ReservationMove rd st p op st' none
  | joined (msg : ClientMessage) (admission : Admission) (resumeOnly : Bool)
      (presented : Option Verifier) (verifier : Verifier) (hp : admission.peerId = p)
      (hguest : p ≠ st.hostPeerId) :
      ReservationMove rd st p (.joinOrResume msg admission resumeOnly)
        ((st.pruned rd.instants).joined admission presented rd.now rd.token)
        (some { verifier := verifier, absentSince := none, releasePending := false })
  | leaveBegun (connId : Nat) (token : String) (version : Nat) (res : PeerReservation)
      (hbegun : (st.beginLeave p connId token version).2 = .ok ())
      (hres : st.reservations.lookup p = some res) :
      ReservationMove rd st p (.beginLeave p connId token version) (st.setReleasePending p true)
        (some { res with releasePending := true })
  | leaveUndone (connId : Nat) (res : PeerReservation)
      (howns : st.ownsPendingLeave p connId = true) (hres : st.reservations.lookup p = some res) :
      ReservationMove rd st p (.finishLeave p connId false) (st.setReleasePending p false)
        (some { res with releasePending := false })
  | released (connId : Nat) (howns : st.ownsPendingLeave p connId = true) :
      ReservationMove rd st p (.finishLeave p connId true) (st.released p rd.now) none
  | cleared (guests : List Sender) (persisted : Bool) :
      ReservationMove rd st p (.finishEndSession guests persisted) st.cleared none
  | promoted (peerId : String) (connId version : Nat) (res : PeerReservation)
      (hguest : p ≠ st.hostPeerId) :
      ReservationMove rd st p (.transferHost peerId connId version p) (st.transferred p res) none
  | demoted (connId version : Nat) (target : String) (res : PeerReservation)
      (hp : p = st.hostPeerId) (hne : target ≠ p) (hhost : st.connIdOf p = some connId) :
      ReservationMove rd st p (.transferHost p connId version target) (st.transferred target res)
        (some { verifier := st.hostVerifier, absentSince := none, releasePending := false })
  | disconnected (connId : Nat) (res : PeerReservation) (hopen : st.closing = false)
      (hconn : st.connIdOf p = some connId) (hguest : p ≠ st.hostPeerId)
      (hres : st.reservations.lookup p = some res) :
      ReservationMove rd st p (.handleDisconnect p connId)
        (st.disconnected p rd.now (rd.instants p))
        (some { res with absentSince := some (rd.instants p) })

theorem ReservationMove.pruned (rd : Readings) (st st' : RoomState) (p : String) (op : RoomOp) :
    ReservationMove rd st p op st' ((st.pruned rd.instants).reservations.lookup p) := by
  rw [RoomState.lookup_pruned]
  cases hres : st.reservations.lookup p with
  | none =>
      rw [Option.filter_none, ← hres]
      exact .kept op st'
  | some res =>
      cases hkeep : st.keepsReservation rd.instants p res with
      | false =>
          rw [Option.filter_some_neg (by simp [hkeep])]
          exact .expired op st' res hres hkeep
      | true =>
          rw [Option.filter_some_pos hkeep, ← hres]
          exact .kept op st'

/-- Every section moves the reservation of each peer id in one of these ways. -/
theorem RoomOp.reservation_move (rd : Readings) (st : RoomState) (op : RoomOp) (p : String) :
    ReservationMove rd st p op (op.run rd st).1 ((op.run rd st).1.reservations.lookup p) := by
  rcases hrun : op.run rd st with ⟨st', r⟩
  dsimp only
  have hsame : ∀ {m : AssocMap String PeerReservation}, m = st.reservations →
      ReservationMove rd st p op st' (m.lookup p) := by
    intro m heq
    rw [heq]
    exact .kept op st'
  have hpruned := ReservationMove.pruned rd st st' p op
  cases op with
  | isIdempotent | isReclaimable | ownerIpKey | markClosing | reconnectHost =>
      cases hrun
      exact hsame rfl
  | joinOrResume msg admission resumeOnly =>
      rcases RoomState.joinOrResume_cases hrun with
        ⟨_, rfl, _⟩ | ⟨_, rfl, _⟩ | ⟨_, _, _, rfl, _⟩
      · exact hsame rfl
      · exact hpruned
      · rw [RoomState.joined_reservations]
        split
        · exact hpruned
        · rename_i hguest
          rw [AList.lookup_insert_eq]
          split
          · rename_i hp
            exact .joined msg admission resumeOnly _ _ hp.symm (hp ▸ hguest)
          · exact hpruned
  | beginLeave peerId c token version =>
      rcases RoomState.beginLeave_cases hrun with ⟨rfl, _⟩ | ⟨_, _, _, ⟨res, hres, _⟩, rfl, rfl⟩
      · exact hsame rfl
      · by_cases hp : p = peerId
        · subst hp
          simp only [RoomState.lookup_setReleasePending, if_true, hres,
            Option.map_some]
          exact .leaveBegun c token version res (congrArg Prod.snd hrun) hres
        · simp only [RoomState.lookup_setReleasePending, if_neg hp]
          exact hsame rfl
  | finishLeave peerId c persisted =>
      rcases RoomState.finishLeave_cases hrun with
        ⟨_, rfl, _⟩ | ⟨howns, rfl, rfl, _⟩ | ⟨howns, rfl, rfl, _⟩
      · exact hsame rfl
      · by_cases hp : p = peerId
        · subst hp
          obtain ⟨_, res, hres, _⟩ := RoomState.ownsPendingLeave_iff.mp howns
          simp only [RoomState.lookup_setReleasePending, if_true, hres,
            Option.map_some]
          exact .leaveUndone c res howns hres
        · simp only [RoomState.lookup_setReleasePending, if_neg hp]
          exact hsame rfl
      · simp only [RoomState.released, AList.lookup_erase_eq]
        split
        · rename_i hp
          subst hp
          exact .released c howns
        · exact hsame rfl
  | beginEndSession peerId c token version =>
      rcases RoomState.beginEndSession_cases hrun with ⟨rfl, _⟩ | ⟨_, _, _, _, rfl, _⟩
      · exact hsame rfl
      · exact hsame rfl
  | finishEndSession guests persisted =>
      obtain ⟨rfl, _⟩ := RoomState.finishEndSession_cases hrun
      exact .cleared guests persisted
  | transferHost peerId c version target =>
      rcases RoomState.transferHost_cases hrun with
        ⟨rfl, _⟩ | ⟨_, rfl, hhost, hne, _, res, hres, _, rfl, _⟩
      · exact hsame rfl
      · simp only [RoomState.transferred, AList.lookup_insert_eq, AList.lookup_erase_eq]
        split
        · rename_i hp
          subst hp
          exact .demoted c version target res rfl hne hhost
        · rename_i hp
          split
          · rename_i htarget
            subst htarget
            exact .promoted _ c version res hp
          · exact hsame rfl
  | broadcast senderId c payload =>
      obtain ⟨rfl | rfl, _⟩ := RoomState.broadcast_cases hrun
      · exact hsame rfl
      · exact hsame rfl
  | sendTo senderId c targetId payload =>
      obtain ⟨rfl | rfl, _⟩ := RoomState.sendTo_cases hrun
      · exact hsame rfl
      · exact hsame rfl
  | handleDisconnect peerId c =>
      rcases RoomState.handleDisconnect_cases hrun with ⟨_, rfl, _⟩ | ⟨hopen, hconn, rfl, _⟩
      · exact hsame rfl
      · rw [RoomState.disconnected_reservations]
        split
        · exact hsame rfl
        · rename_i hguest
          rw [AList.lookup_modify]
          split
          · rename_i hp
            subst hp
            cases hres : st.reservations.lookup p with
            | none =>
                rw [Option.map_none, ← hres]
                exact hsame rfl
            | some res => exact .disconnected c res hopen hconn hguest hres
          · exact hsame rfl
  | pruneExpiredReservations =>
      cases hrun
      exact hpruned
  | sweep now =>
      rcases RoomState.sweepRoom_cases hrun with ⟨rfl, _⟩ | ⟨rfl, _⟩ | ⟨rfl, _⟩
      · exact hpruned
      · exact hpruned
      · exact hpruned

end PlezyRelay
