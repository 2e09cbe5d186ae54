/-
  PlezyRelay/HostHandover.lean
  ============================
  **Host authority changes hands as published, and back again.**

  `transfer_host` asks six questions of its own before it asks `is_valid_target`;
  `compute_eligibility` asks only that one, of everyone connected.  They agree because of
  what a room knows about its peers: ids have been checked before they reach it, so the
  test of the target's id never fails for a connected peer (`transfersTo_iff`).

  A transfer dissolves the reservation of the new host and makes one for the old host.  The
  rule of eligibility is symmetric in the two, and a connected guest's reservation has no
  absence time, so the transfer back rebuilds exactly what was dissolved.

  Both are independent of the order of the peer map: the rule only looks peers up by their
  id and asks something of all of them.
-/
import PlezyRelay.IdentityBinding
import PlezyRelay.TransferEligibility

namespace PlezyRelay

variable [TokenCodec]

/-! ### Accepted and published targets -/

namespace RoomState

/-- The host, on connection `connId`, makes `target` the host. -/
def TransfersTo (st : RoomState) (connId : Nat) (target : String) : Prop :=
  (st.transferHost st.hostPeerId connId RELAY_PROTOCOL_VERSION target).2.reply = none ∧
    (st.transferHost st.hostPeerId connId RELAY_PROTOCOL_VERSION target).1.hostPeerId = target

instance (st : RoomState) (connId : Nat) (target : String) :
    Decidable (st.TransfersTo connId target) :=
  inferInstanceAs (Decidable (_ ∧ _))

/-- The targets `compute_eligibility` returns for the room. -/
def computedTargets (st : RoomState) : List String :=
  match HostTransfer.computeEligibility st.hostPeerId st.peerInfos st.isReserved with
  | none => []
  | some (_, targets) => targets

variable {st : RoomState} {connId : Nat} {target : String}

omit [TokenCodec]

/-- What a transfer that succeeds has checked and done. -/
theorem TransfersTo.spec (h : st.TransfersTo connId target) :
    st.closing = false ∧ target ∈ st.peers ∧
      ∃ res, st.reservations.lookup target = some res ∧ res.releasePending = false ∧
        (st.transferHost st.hostPeerId connId RELAY_PROTOCOL_VERSION target).1 =
          st.transferred target res := by
  rcases transferHost_cases (Prod.mk.eta).symm with
    ⟨_, err, text, herr⟩ | ⟨hopen, _, _, _, htarget, res, hres, hidle, hmoved, _⟩
  · have hreply := h.1
    rw [herr] at hreply
    cases hreply
  · exact ⟨hopen, htarget, res, hres, hidle, hmoved⟩

theorem transfersTo_iff (hopen : st.closing = false)
    (hconn : st.connIdOf st.hostPeerId = some connId) :
    st.TransfersTo connId target ↔
      validId target MAX_PEER_ID_LENGTH = true ∧ st.canTransferHostTo target = true := by
  rw [← transferSucceeds_iff hopen]
  unfold TransfersTo transferSucceeds
  simp only [hconn, Option.isNone_iff_eq_none]
  constructor
  · exact And.left
  · intro hreply
    refine ⟨hreply, ?_⟩
    rcases transferHost_cases (Prod.mk.eta).symm with
      ⟨_, err, text, herr⟩ | ⟨_, _, _, _, _, res, _, _, hst, _⟩
    · rw [herr] at hreply
      cases hreply
    · rw [hst]
      rfl

theorem mem_computedTargets : target ∈ st.computedTargets ↔ st.canTransferHostTo target = true := by
  unfold computedTargets
  constructor
  · intro hmem
    unfold HostTransfer.computeEligibility at hmem
    dsimp only at hmem
    split at hmem
    · cases hmem
    · rename_i heq
      split at heq
      · cases heq
      · cases heq
        exact HostTransfer.mem_targets.mp hmem
  · intro hcan
    obtain ⟨_, _, host, peer, _, hpeer, _, hcapable, _⟩ := HostTransfer.isValidTarget_eq_true.mp hcan
    rw [HostTransfer.computeEligibility_isSome (HostTransfer.mem_of_findPeer hpeer).1 hcapable]
    exact HostTransfer.mem_targets.mpr hcan

/-! ### The order of the peer map -/

theorem findPeer_peerInfos (p : String) :
    HostTransfer.findPeer st.peerInfos p = (st.peers.lookup p).map fun peer =>
      { peerId := p
        syncProtocolVersion := peer.syncProtocolVersion
        hostTransferCapable := peer.hostTransferCapable } := by
  unfold HostTransfer.findPeer peerInfos AList.lookup
  induction st.peers.entries with
  | nil => rfl
  | cons e rest ih =>
      obtain ⟨q, peer⟩ := e
      by_cases hq : q = p
      · subst hq
        simp
      · rw [List.map_cons, List.find?_cons_of_neg (by simpa using hq), ih,
          List.dlookup_cons_ne _ _ (Ne.symm hq)]

variable {peers : AssocMap String ConnectedPeer}

theorem canTransferHostTo_perm (hperm : peers.entries.Perm st.peers.entries) :
    ({ st with peers := peers } : RoomState).canTransferHostTo target =
      st.canTransferHostTo target := by
  refine HostTransfer.isValidTarget_congr (fun p => ?_) fun p => ?_
  · exact (hperm.map _).mem_iff
  · rw [findPeer_peerInfos, findPeer_peerInfos]
    simp only [AList.perm_lookup hperm]

end RoomState

theorem Origin.validIds {st : RoomState} (h : Origin st)
    (hhost : validId st.hostPeerId MAX_PEER_ID_LENGTH = true) : ValidIds st := by
  cases h with
  | created => exact ValidIds.newRoom hhost _ _ _ _ _ _ _
  | restored file now clock room hloaded => exact (validIds_of_loaded hloaded).2

/-- **A transfer is accepted exactly to the published targets.**  In every open room reached
    from `new_room` or from a restored snapshot by sections whose ids have been checked, with
    the host connected, `transfer_host` makes `target` the host if and only if
    `compute_eligibility` lists it; and neither depends on the order of the peer map. -/
theorem transfer_accepts_computed_targets {st₀ st : RoomState} (horigin : Origin st₀)
    (hhost : validId st₀.hostPeerId MAX_PEER_ID_LENGTH = true) {ops : List (RoomOp × Readings)}
    (hchecked : ∀ op ∈ ops, op.1.idsChecked) (hst : st₀.runOps ops = st)
    (hopen : st.closing = false) {connId : Nat}
    (hconn : st.connIdOf st.hostPeerId = some connId) (target : String) :
    (st.TransfersTo connId target ↔ target ∈ st.computedTargets) ∧
    ∀ peers : AssocMap String ConnectedPeer, peers.entries.Perm st.peers.entries →
      let reordered := { st with peers := peers }
      (reordered.TransfersTo connId target ↔ st.TransfersTo connId target) ∧
      (target ∈ reordered.computedTargets ↔ target ∈ st.computedTargets) := by
  have hids : ValidIds st := by
    rw [← hst]
    exact (horigin.validIds hhost).runOps hchecked
  constructor
  · rw [RoomState.transfersTo_iff hopen hconn, RoomState.mem_computedTargets]
    constructor
    · exact And.right
    · intro hcan
      -- a legal target is connected, so its id has been checked
      have hpeer := (RoomState.mem_peers_of_canTransferHostTo hcan).2.1
      exact ⟨hids target (Or.inr (Or.inl hpeer)), hcan⟩
  · intro peers hperm reordered
    have hsame : reordered.canTransferHostTo target = st.canTransferHostTo target :=
      RoomState.canTransferHostTo_perm hperm
    have hconn' : reordered.connIdOf reordered.hostPeerId = some connId := by
      rw [← hconn]
      exact congrArg (Option.map (·.connId)) (AList.perm_lookup hperm)
    have hopen' : reordered.closing = false := hopen
    constructor
    · rw [RoomState.transfersTo_iff hopen' hconn', RoomState.transfersTo_iff hopen hconn, hsame]
    · rw [RoomState.mem_computedTargets, RoomState.mem_computedTargets, hsame]

omit [TokenCodec] in
/-- A room it speaks about: "b" can take over; "d", at another version, cannot. -/
theorem transfer_accepts_computed_targets_of_guest : letI : TokenCodec := sampleCodec
    let host : Admission :=
      { peerId := "a", tx := 0, syncProtocolVersion := 4, hostTransferCapable := true }
    let rd : Readings := { now := 0, instants := fun _ => 0, token := ⟨1⟩ }
    let join (admission : Admission) : RoomOp × Readings :=
      (.joinOrResume { msgType := .join, reconnectToken := tokenTwos } admission false, rd)
    let ops := [join { host with peerId := "b", tx := 1 },
      join { peerId := "d", tx := 2, syncProtocolVersion := 3, hostTransferCapable := false }]
    let st := (RoomState.newRoom "s" "a" ⟨digestOnes⟩ tokenOnes "ip" host 0 ⟨0⟩).1.runOps ops
    st.computedTargets = ["b"] ∧ ∀ target, st.TransfersTo 1 target ↔ target ∈ st.computedTargets := by
  let _ : TokenCodec := sampleCodec
  intro host rd join ops st
  refine ⟨by decide +kernel, fun target => ?_⟩
  have hchecked : ∀ op ∈ ops, op.1.idsChecked := by decide +kernel
  exact (transfer_accepts_computed_targets (.created "s" "a" ⟨digestOnes⟩ tokenOnes "ip" host 0 ⟨0⟩)
    (by decide +kernel) hchecked rfl (by decide +kernel) (by decide +kernel) target).1

/-! ### There and back -/

/-- The two rooms are the same, with their reservations compared as maps. -/
def RoomState.SameAs (st st' : RoomState) : Prop :=
  st' = { st with reservations := st'.reservations } ∧
    ∀ p, st'.reservations.lookup p = st.reservations.lookup p

section Handover

variable {st : RoomState} {target : String} {res : PeerReservation}

omit [TokenCodec]

theorem lookup_transferred (p : String) :
    (st.transferred target res).reservations.lookup p =
      if p = st.hostPeerId then
        some { verifier := st.hostVerifier, absentSince := none, releasePending := false }
      else if p = target then none
      else st.reservations.lookup p := by
  rw [RoomState.transferred, AList.lookup_insert_eq, AList.lookup_erase_eq]

/-- The transfer back restores the reservation that the transfer dissolved. -/
theorem sameAs_transferred_back (hm : Membership st)
    (hres : st.reservations.lookup target = some res) (habsent : res.absentSince = none)
    (hidle : res.releasePending = false) :
    st.SameAs ((st.transferred target res).transferred st.hostPeerId
      { verifier := st.hostVerifier, absentSince := none, releasePending := false }) := by
  refine ⟨rfl, fun p => ?_⟩
  have hhost : (st.transferred target res).hostPeerId = target := rfl
  have hverifier : (st.transferred target res).hostVerifier = res.verifier := rfl
  rw [lookup_transferred, lookup_transferred, hhost, hverifier]
  by_cases htarget : p = target
  · obtain ⟨verifier, absentSince, releasePending⟩ := res
    cases habsent
    cases hidle
    rw [if_pos htarget, htarget, hres]
  · rw [if_neg htarget]
    by_cases hp : p = st.hostPeerId
    · rw [if_pos hp, hp]
      exact (AList.lookup_eq_none.mpr hm.host_unreserved).symm
    · rw [if_neg hp, if_neg hp, if_neg htarget]

end Handover

/-- **A host transfer is reversible.**  In every room reached from `new_room` by sections whose
    ids have been checked: a transfer from the host to `target` leaves everything as it is but
    the host, the host's verifier and the reservations of the two, and an immediate transfer
    back succeeds and leads to the same room. -/
theorem transfer_reversible (sessionId hostPeerId : String) (hostVerifier : Verifier)
    (token ownerIpKey : String) (host : Admission) (now : SystemTime) (cancel : CancellationToken)
    (hhost : validId hostPeerId MAX_PEER_ID_LENGTH = true) {ops : List (RoomOp × Readings)}
    (hchecked : ∀ op ∈ ops, op.1.idsChecked) {st : RoomState}
    (hst : (RoomState.newRoom sessionId hostPeerId hostVerifier token ownerIpKey host now
      cancel).1.runOps ops = st)
    {connId targetConnId : Nat} {target : String}
    (hconn : st.connIdOf st.hostPeerId = some connId)
    (htargetConn : st.connIdOf target = some targetConnId)
    (htransfer : st.TransfersTo connId target) :
    let moved := (st.transferHost st.hostPeerId connId RELAY_PROTOCOL_VERSION target).1
    let back := moved.transferHost target targetConnId RELAY_PROTOCOL_VERSION st.hostPeerId
    moved = { st with
      hostPeerId := target
      hostVerifier := moved.hostVerifier
      reservations := moved.reservations } ∧
    (∀ p, p ≠ st.hostPeerId → p ≠ target →
      moved.reservations.lookup p = st.reservations.lookup p) ∧
    back.2.reply = none ∧ st.SameAs back.1 := by
  have hinv : RoomInv st := by
    rw [← hst]
    exact RoomState.runOps_induction ops (RoomInv.newRoom ..) fun _ _ h hstep => h.change hstep
  have hids : ValidIds st := by
    rw [← hst]
    exact (ValidIds.newRoom hhost _ _ _ _ _ _ _).runOps hchecked
  intro moved back
  obtain ⟨hopen, htarget, res, hres, hidle, hmoved⟩ := htransfer.spec
  change moved = st.transferred target res at hmoved
  have habsent : res.absentSince = none := (hinv.presence hopen target res hres).mpr htarget
  have hlookup : ∀ p, moved.reservations.lookup p = if p = st.hostPeerId then
        some { verifier := st.hostVerifier, absentSince := none, releasePending := false }
      else if p = target then none else st.reservations.lookup p := by
    intro p
    rw [hmoved]
    exact lookup_transferred p
  have hnewHost : moved.hostPeerId = target := htransfer.2
  -- the rule lets the authority back
  have hback : moved.TransfersTo targetConnId st.hostPeerId := by
    have hmovedOpen : moved.closing = false := by
      rw [hmoved]
      exact hopen
    have hmovedConn : moved.connIdOf moved.hostPeerId = some targetConnId := by
      rw [hmoved]
      exact htargetConn
    rw [RoomState.transfersTo_iff hmovedOpen hmovedConn]
    refine ⟨hids _ (Or.inl rfl), ?_⟩
    have hreserved : moved.isReserved st.hostPeerId = true := by
      rw [RoomState.isReserved_iff]
      exact ⟨_, by rw [hlookup, if_pos rfl], rfl⟩
    have hcan := ((RoomState.transfersTo_iff hopen hconn).mp htransfer).2
    have hsymm := HostTransfer.isValidTarget_symm hcan hreserved
    rw [RoomState.canTransferHostTo, hmoved]
    rw [hmoved] at hsymm
    exact hsymm
  obtain ⟨_, _, res', hres', _, hmovedBack⟩ := hback.spec
  rw [hlookup, if_pos rfl] at hres'
  obtain rfl := Option.some.inj hres'
  rw [hnewHost] at hmovedBack
  refine ⟨?_, ?_, ?_, ?_⟩
  · rw [hmoved]
    rfl
  · intro p hhost htarget
    rw [hlookup, if_neg hhost, if_neg htarget]
  · have hreply := hback.1
    rwa [hnewHost] at hreply
  · change st.SameAs (moved.transferHost target targetConnId RELAY_PROTOCOL_VERSION st.hostPeerId).1
    rw [hmovedBack, hmoved]
    exact sameAs_transferred_back hinv.toMembership hres habsent hidle

omit [TokenCodec] in
/-- A room it speaks about: "a" hands over to "b", who gives the authority back. -/
theorem transfer_reversible_between_two : letI : TokenCodec := sampleCodec
    let host : Admission :=
      { peerId := "a", tx := 0, syncProtocolVersion := 4, hostTransferCapable := true }
    let rd : Readings := { now := 0, instants := fun _ => 0, token := ⟨1⟩ }
    let ops : List (RoomOp × Readings) :=
      [(.joinOrResume { msgType := .join, reconnectToken := tokenTwos }
        { host with peerId := "b", tx := 1 } false, rd)]
    let st := (RoomState.newRoom "s" "a" ⟨digestOnes⟩ tokenOnes "ip" host 0 ⟨0⟩).1.runOps ops
    let moved := (st.transferHost "a" 1 RELAY_PROTOCOL_VERSION "b").1
    moved.hostPeerId = "b" ∧
      st.SameAs (moved.transferHost "b" 2 RELAY_PROTOCOL_VERSION "a").1 := by
  let _ : TokenCodec := sampleCodec
  intro host rd ops st moved
  refine ⟨by decide +kernel, ?_⟩
  have hchecked : ∀ op ∈ ops, op.1.idsChecked := by decide +kernel
  exact (transfer_reversible "s" "a" ⟨digestOnes⟩ tokenOnes "ip" host 0 ⟨0⟩ (by decide +kernel)
    hchecked rfl (by decide +kernel) (by decide +kernel) (by decide +kernel)).2.2.2

end PlezyRelay
