/-
  PlezyRelay/FailedLeave.lean
  ===========================
  **A leave that fails leaves no trace.**

  Between the two phases of a leave the room lock is free, and other connections prune,
  join, leave, transfer and disconnect while one reservation carries the release-pending
  mark.  Compare the run in which the leave is begun, others act and the leave is rolled
  back, with the run in which the others act alone.  The two states always differ by the
  mark and nothing else, which is `setReleasePending` of the second being the first: each
  section gets one equation saying that it commutes with the mark (the `_marked` lemmas).

  The equations need that the peer whose mark it is stays connected on the same
  connection and keeps its reservation (`Unaffected`), since it is being connected that
  makes pruning keep the reservation in either run.
-/
import PlezyRelay.Connections

namespace PlezyRelay

variable [TokenCodec]

/-! ### The sections of others -/

/-- A section another connection than `(p, c)` runs, and which is no join or resume as `p`,
    no transfer to `p` and no part of an end of session.  The cleanup sweep is no
    connection's. -/
def RoomOp.byOthers (p : String) (c : Nat) : RoomOp → Bool
  | .joinOrResume _ admission _ => admission.peerId != p
  | .transferHost q d _ target => (q, d) != (p, c) && target != p
  | .beginEndSession .. | .finishEndSession .. | .sweep _ => false
  | op => op.caller != some (p, c)

/-- The peer `p` is connected on `c` and reserved, with no leave pending. -/
structure Unaffected (p : String) (c : Nat) (st : RoomState) : Prop where
  member : Membership st
  conn : st.connIdOf p = some c
  reserved : ∃ res, st.reservations.lookup p = some res ∧ res.releasePending = false

namespace Unaffected

omit [TokenCodec]

variable {st : RoomState} {p : String} {c : Nat}

theorem guest (h : Unaffected p c st) : p ≠ st.hostPeerId := by
  obtain ⟨res, hres, _⟩ := h.reserved
  exact h.member.guest_of_reserved (AList.mem_of_lookup hres)

theorem mem_peers (h : Unaffected p c st) : p ∈ st.peers :=
  RoomState.mem_peers_of_connIdOf h.conn

/-- Whoever else is the current connection of its peer id is another peer. -/
theorem ne_of_conn (h : Unaffected p c st) {q : String} {d : Nat} (hq : st.connIdOf q = some d)
    (hne : (q, d) ≠ (p, c)) : q ≠ p := by
  rintro rfl
  apply hne
  rw [Option.some.inj (hq.symm.trans h.conn)]

end Unaffected

/-! ### Sections that commute with the mark -/

section Marked

variable {st : RoomState} {p : String} {c : Nat}

omit [TokenCodec] in
theorem lookup_marked_ne {q : String} (hq : q ≠ p) (b : Bool) :
    (st.setReleasePending p b).reservations.lookup q = st.reservations.lookup q := by
  simp [RoomState.lookup_setReleasePending, hq]

omit [TokenCodec] in
theorem isReserved_marked {q : String} (hq : q ≠ p) (b : Bool) :
    (st.setReleasePending p b).isReserved q = st.isReserved q := by
  simp only [RoomState.isReserved, lookup_marked_ne hq]

omit [TokenCodec] in
/-- Whether a transfer is possible depends on no other peer's reservation. -/
theorem canTransferHostTo_marked {q : String} (hq : q ≠ p) (b : Bool) :
    (st.setReleasePending p b).canTransferHostTo q = st.canTransferHostTo q := by
  have hinfos : (st.setReleasePending p b).peerInfos = st.peerInfos := rfl
  have hhost : (st.setReleasePending p b).hostPeerId = st.hostPeerId := rfl
  simp only [RoomState.canTransferHostTo, HostTransfer.isValidTarget, isReserved_marked hq, hinfos,
    hhost]

omit [TokenCodec] in
theorem pruned_marked (hp : p ∈ st.peers) (b : Bool) (i : String → Instant) :
    (st.setReleasePending p b).pruned i = (st.pruned i).setReleasePending p b := by
  have hcontains : st.peers.contains p = true := AList.contains_iff.mpr hp
  have hretain : (st.setReleasePending p b).reservations.retain (st.keepsReservation i) =
      (st.reservations.retain (st.keepsReservation i)).modify p
        fun res => { res with releasePending := b } := by
    apply AList.retain_modify
    intro res _
    simp [RoomState.keepsReservation, hcontains]
  have hkeeps : (st.setReleasePending p b).keepsReservation i = st.keepsReservation i := rfl
  simp only [RoomState.pruned, hkeeps, hretain]
  rfl

omit [TokenCodec] in
theorem joined_marked {admission : Admission} (hne : admission.peerId ≠ p) (b : Bool)
    (presented : Option Verifier) (now : SystemTime) (cancel : CancellationToken) :
    (st.setReleasePending p b).joined admission presented now cancel =
      (st.joined admission presented now cancel).setReleasePending p b := by
  have hverifier : (st.setReleasePending p b).joinVerifier admission.peerId presented =
      st.joinVerifier admission.peerId presented := by
    simp only [RoomState.joinVerifier, lookup_marked_ne hne]
    rfl
  by_cases hhost : admission.peerId = st.hostPeerId
  · simp [RoomState.joined, RoomState.admitPeer, RoomState.setReleasePending, hhost]
  · simp only [RoomState.joined, hverifier]
    simp [RoomState.admitPeer, RoomState.setReleasePending, hhost, AList.insert_modify hne]

theorem joinOrResume_marked {msg : ClientMessage} {admission : Admission} {resumeOnly : Bool}
    {now : SystemTime} {i : String → Instant} {cancel : CancellationToken} (hp : p ∈ st.peers)
    (hne : admission.peerId ≠ p) :
    ((st.setReleasePending p true).joinOrResume msg admission resumeOnly now i cancel).1 =
      (st.joinOrResume msg admission resumeOnly now i cancel).1.setReleasePending p true := by
  have hauth : ∀ presented, ((st.pruned i).setReleasePending p true).joinAuthorized
      admission.peerId presented resumeOnly =
      (st.pruned i).joinAuthorized admission.peerId presented resumeOnly := by
    intro presented
    simp only [RoomState.joinAuthorized, lookup_marked_ne hne]
    rfl
  have hfull : ((st.pruned i).setReleasePending p true).joinRoomFull admission.peerId =
      (st.pruned i).joinRoomFull admission.peerId := by
    have hsize : ((st.pruned i).setReleasePending p true).reservations.size =
        (st.pruned i).reservations.size := AList.size_modify _ _ _
    simp only [RoomState.joinRoomFull, lookup_marked_ne hne, hsize]
    rfl
  have hclosing : (st.setReleasePending p true).closing = st.closing := rfl
  by_cases hc : st.closing = true
  · simp [RoomState.joinOrResume, hclosing, hc]
  · by_cases ha : (st.pruned i).joinAuthorized admission.peerId
        (Verifier.fromToken msg.reconnectToken) resumeOnly = true
    · by_cases hf : (st.pruned i).joinRoomFull admission.peerId = true
      · simp [RoomState.joinOrResume, hclosing, hc, pruned_marked hp, hauth, ha, hfull, hf]
      · simp [RoomState.joinOrResume, hclosing, hc, pruned_marked hp, hauth, ha, hfull, hf,
          joined_marked hne]
    · simp [RoomState.joinOrResume, hclosing, hc, pruned_marked hp, hauth, ha]

/-- A leave of another peer sees its own reservation only. -/
theorem beginLeave_marked {q token : String} {d version : Nat}
    (hne : st.connIdOf q = some d → q ≠ p) :
    ((st.setReleasePending p true).beginLeave q d token version).1 =
      (st.beginLeave q d token version).1.setReleasePending p true := by
  by_cases hconn : st.connIdOf q = some d
  · have hmarks : (st.setReleasePending p true).setReleasePending q true =
        (st.setReleasePending q true).setReleasePending p true := by
      simp only [RoomState.setReleasePending]
      rw [AList.modify_modify_comm (hne hconn)]
    have hsame : (st.setReleasePending p true).connIdOf q = st.connIdOf q := rfl
    have hclosing : (st.setReleasePending p true).closing = st.closing := rfl
    have hhost : (st.setReleasePending p true).hostPeerId = st.hostPeerId := rfl
    simp only [RoomState.beginLeave, hsame, hclosing, hhost, lookup_marked_ne (hne hconn), hmarks]
    split_ifs <;> rfl
  · have hstale : (st.setReleasePending p true).connIdOf q ≠ some d := hconn
    simp [RoomState.beginLeave, hconn, hstale]

omit [TokenCodec] in
theorem finishLeave_marked {q : String} {d : Nat} {persisted : Bool} {now : SystemTime}
    (hne : st.connIdOf q = some d → q ≠ p) :
    ((st.setReleasePending p true).finishLeave q d persisted now).1 =
      (st.finishLeave q d persisted now).1.setReleasePending p true := by
  by_cases hconn : st.connIdOf q = some d
  · have howns : (st.setReleasePending p true).ownsPendingLeave q d =
        st.ownsPendingLeave q d := by
      simp only [RoomState.ownsPendingLeave, lookup_marked_ne (hne hconn)]
      rfl
    have hmarks : (st.setReleasePending p true).setReleasePending q false =
        (st.setReleasePending q false).setReleasePending p true := by
      simp only [RoomState.setReleasePending]
      rw [AList.modify_modify_comm (hne hconn)]
    have hreleased : (st.setReleasePending p true).released q now =
        (st.released q now).setReleasePending p true := by
      simp only [RoomState.released, RoomState.setReleasePending, AList.erase_modify]
    simp only [RoomState.finishLeave, howns, hmarks, hreleased]
    split_ifs <;> rfl
  · have hstale : (st.setReleasePending p true).connIdOf q ≠ some d := hconn
    simp [RoomState.finishLeave, RoomState.ownsPendingLeave, hconn, hstale]

omit [TokenCodec] in
theorem transferHost_marked {q target : String} {d version : Nat} (hguest : p ≠ st.hostPeerId)
    (hne : target ≠ p) :
    ((st.setReleasePending p true).transferHost q d version target).1 =
      (st.transferHost q d version target).1.setReleasePending p true := by
  have htransferred : ∀ res, (st.setReleasePending p true).transferred target res =
      (st.transferred target res).setReleasePending p true := by
    intro res
    simp only [RoomState.transferred, RoomState.setReleasePending, AList.erase_modify,
      AList.insert_modify hguest.symm]
  have hsame : (st.setReleasePending p true).connIdOf q = st.connIdOf q := rfl
  have hclosing : (st.setReleasePending p true).closing = st.closing := rfl
  have hhost : (st.setReleasePending p true).hostPeerId = st.hostPeerId := rfl
  have hpeers : (st.setReleasePending p true).peers = st.peers := rfl
  simp only [RoomState.transferHost, hsame, hclosing, hhost, hpeers, isReserved_marked hne,
    canTransferHostTo_marked hne, lookup_marked_ne hne, htransferred]
  split_ifs
  · rfl
  · rfl
  · rfl
  · rfl
  · rfl
  · split <;> rfl

omit [TokenCodec] in
theorem handleDisconnect_marked {q : String} {d : Nat} {now : SystemTime} {i : Instant}
    (hne : st.connIdOf q = some d → q ≠ p) :
    ((st.setReleasePending p true).handleDisconnect q d now i).1 =
      (st.handleDisconnect q d now i).1.setReleasePending p true := by
  by_cases hconn : st.connIdOf q = some d
  · have hdisconnected : (st.setReleasePending p true).disconnected q now i =
        (st.disconnected q now i).setReleasePending p true := by
      by_cases hhost : q = st.hostPeerId
      · simp [RoomState.disconnected, RoomState.setReleasePending, hhost]
      · simp [RoomState.disconnected, RoomState.setReleasePending, hhost,
          AList.modify_modify_comm (hne hconn)]
    have hsame : (st.setReleasePending p true).connIdOf q = st.connIdOf q := rfl
    have hclosing : (st.setReleasePending p true).closing = st.closing := rfl
    simp only [RoomState.handleDisconnect, hsame, hclosing, hdisconnected]
    split_ifs <;> rfl
  · have hstale : (st.setReleasePending p true).connIdOf q ≠ some d := hconn
    simp [RoomState.handleDisconnect, hconn, hstale]

omit [TokenCodec] in
theorem broadcast_marked {q : String} {d : Nat} {payload : Option Payload} {now : SystemTime} :
    ((st.setReleasePending p true).broadcast q d payload now).1 =
      (st.broadcast q d payload now).1.setReleasePending p true := by
  have hsame : (st.setReleasePending p true).connIdOf q = st.connIdOf q := rfl
  have hclosing : (st.setReleasePending p true).closing = st.closing := rfl
  simp only [RoomState.broadcast, hsame, hclosing]
  split_ifs <;> rfl

omit [TokenCodec] in
theorem sendTo_marked {q target : String} {d : Nat} {payload : Option Payload}
    {now : SystemTime} :
    ((st.setReleasePending p true).sendTo q d target payload now).1 =
      (st.sendTo q d target payload now).1.setReleasePending p true := by
  have hsame : (st.setReleasePending p true).connIdOf q = st.connIdOf q := rfl
  have hclosing : (st.setReleasePending p true).closing = st.closing := rfl
  have hpeers : (st.setReleasePending p true).peers = st.peers := rfl
  simp only [RoomState.sendTo, hsame, hclosing, hpeers]
  split_ifs
  · rfl
  · rfl
  · split <;> rfl

end Marked

/-! ### One section -/

/-- The sections of others commute with the mark. -/
theorem RoomOp.run_marked {st : RoomState} {p : String} {c : Nat} (h : Unaffected p c st)
    (rd : Readings) {op : RoomOp} (hop : op.byOthers p c = true) :
    (op.run rd (st.setReleasePending p true)).1 =
      (op.run rd st).1.setReleasePending p true := by
  have hne : ∀ {q d}, some (q, d) ≠ some (p, c) → st.connIdOf q = some d → q ≠ p :=
    fun hqd hq => h.ne_of_conn hq fun heq => hqd (congrArg some heq)
  cases op with
  | isIdempotent | isReclaimable | ownerIpKey | markClosing => rfl
  | reconnectHost => rfl
  | joinOrResume msg admission resumeOnly =>
      exact joinOrResume_marked h.mem_peers (by simpa [RoomOp.byOthers] using hop)
  | beginLeave q d token version =>
      exact beginLeave_marked (hne (by simpa [RoomOp.byOthers, RoomOp.caller] using hop))
  | finishLeave q d persisted =>
      exact finishLeave_marked (hne (by simpa [RoomOp.byOthers, RoomOp.caller] using hop))
  | beginEndSession | finishEndSession | sweep => cases hop
  | transferHost q d version target =>
      simp only [RoomOp.byOthers, Bool.and_eq_true, bne_iff_ne] at hop
      exact transferHost_marked h.guest hop.2
  | broadcast => exact broadcast_marked
  | sendTo => exact sendTo_marked
  | handleDisconnect q d =>
      exact handleDisconnect_marked (hne (by simpa [RoomOp.byOthers, RoomOp.caller] using hop))
  | pruneExpiredReservations => exact pruned_marked h.mem_peers true rd.instants

/-- They leave the peer on its connection, with its reservation as it was. -/
theorem Unaffected.run {st : RoomState} {p : String} {c : Nat} (h : Unaffected p c st)
    (rd : Readings) {op : RoomOp} (hop : op.byOthers p c = true) :
    Unaffected p c (op.run rd st).1 := by
  have hne : ∀ {q d}, some (q, d) ≠ some (p, c) → st.connIdOf q = some d → p ≠ q :=
    fun hqd hq => (h.ne_of_conn hq fun heq => hqd (congrArg some heq)).symm
  have hpruned : (st.pruned rd.instants).reservations.lookup p = st.reservations.lookup p :=
    st.lookup_pruned_of_mem_peers h.mem_peers
  suffices hsame : (op.run rd st).1.connIdOf p = st.connIdOf p ∧
      (op.run rd st).1.reservations.lookup p = st.reservations.lookup p by
    refine ⟨h.member.change (op.run_change rd st), ?_, ?_⟩
    · rw [hsame.1, h.conn]
    · rw [hsame.2]
      exact h.reserved
  rcases hrun : op.run rd st with ⟨st', r⟩
  dsimp only
  cases op with
  | isIdempotent | isReclaimable | ownerIpKey | markClosing => cases hrun; exact ⟨rfl, rfl⟩
  | reconnectHost host token =>
      obtain ⟨rfl, _⟩ := RoomState.reconnectHost_cases hrun
      simp [RoomState.connIdOf, RoomState.admitPeer, h.guest]
  | joinOrResume msg admission resumeOnly =>
      have hp : p ≠ admission.peerId := by
        simp only [RoomOp.byOthers, bne_iff_ne] at hop
        exact hop.symm
      rcases RoomState.joinOrResume_cases hrun with
        ⟨_, rfl, _⟩ | ⟨_, rfl, _⟩ | ⟨_, _, _, rfl, _⟩
      · exact ⟨rfl, rfl⟩
      · exact ⟨rfl, hpruned⟩
      · constructor
        · simp [RoomState.connIdOf, hp]
        · rw [RoomState.joined_reservations]
          split
          · exact hpruned
          · rw [AList.lookup_insert_eq, if_neg hp, hpruned]
  | beginLeave q d token version =>
      rcases RoomState.beginLeave_cases hrun with ⟨rfl, _⟩ | ⟨_, hc, _, _, rfl, _⟩
      · exact ⟨rfl, rfl⟩
      · have hp := hne (by simpa [RoomOp.byOthers, RoomOp.caller] using hop) hc
        exact ⟨rfl, lookup_marked_ne hp true⟩
  | finishLeave q d persisted =>
      have hp : st.ownsPendingLeave q d = true → p ≠ q := fun howns =>
        hne (by simpa [RoomOp.byOthers, RoomOp.caller] using hop)
          (RoomState.ownsPendingLeave_iff.mp howns).1
      rcases RoomState.finishLeave_cases hrun with
        ⟨_, rfl, _⟩ | ⟨howns, _, rfl, _⟩ | ⟨howns, _, rfl, _⟩
      · exact ⟨rfl, rfl⟩
      · exact ⟨rfl, lookup_marked_ne (hp howns) false⟩
      · simp [RoomState.connIdOf, RoomState.released, hp howns]
  | beginEndSession | finishEndSession | sweep => cases hop
  | transferHost q d version target =>
      simp only [RoomOp.byOthers, Bool.and_eq_true, bne_iff_ne] at hop
      rcases RoomState.transferHost_cases hrun with
        ⟨rfl, _⟩ | ⟨_, _, _, _, _, _, _, _, rfl, _⟩
      · exact ⟨rfl, rfl⟩
      · refine ⟨rfl, ?_⟩
        simp [RoomState.transferred, h.guest, hop.2.symm]
  | broadcast q d payload =>
      obtain ⟨rfl | rfl, _⟩ := RoomState.broadcast_cases hrun <;> exact ⟨rfl, rfl⟩
  | sendTo q d target payload =>
      obtain ⟨rfl | rfl, _⟩ := RoomState.sendTo_cases hrun <;> exact ⟨rfl, rfl⟩
  | handleDisconnect q d =>
      rcases RoomState.handleDisconnect_cases hrun with ⟨_, rfl, _⟩ | ⟨_, hc, rfl, _⟩
      · exact ⟨rfl, rfl⟩
      · have hp := hne (by simpa [RoomOp.byOthers, RoomOp.caller] using hop) hc
        constructor
        · simp [RoomState.connIdOf, hp]
        · rw [RoomState.disconnected_reservations]
          split
          · rfl
          · rw [AList.lookup_modify, if_neg hp]
  | pruneExpiredReservations =>
      cases hrun
      exact ⟨rfl, hpruned⟩

/-! ### A whole run -/

/-- Whatever the others do, the run with the mark stays one mark apart. -/
theorem Unaffected.runOps {p : String} {c : Nat} (ops : List (RoomOp × Readings))
    (hops : ∀ step ∈ ops, step.1.byOthers p c = true) {st : RoomState} (h : Unaffected p c st) :
    (st.setReleasePending p true).runOps ops = (st.runOps ops).setReleasePending p true ∧
      Unaffected p c (st.runOps ops) := by
  induction ops generalizing st with
  | nil => exact ⟨rfl, h⟩
  | cons step ops ih =>
      obtain ⟨op, rd⟩ := step
      have hop : op.byOthers p c = true := hops (op, rd) List.mem_cons_self
      have hrest := ih (fun s hs => hops s (List.mem_cons_of_mem _ hs)) (h.run rd hop)
      have hmarked : (st.setReleasePending p true).runOps ((op, rd) :: ops) =
          ((op.run rd st).1.setReleasePending p true).runOps ops :=
        congrArg (fun s => RoomState.runOps s ops) (RoomOp.run_marked h rd hop)
      rw [hmarked]
      exact hrest

/-- **A failed leave is invisible to the room.**  From any state a room made by `new_room`
    can reach: begin a leave, let the other connections do anything but join or resume as
    the leaver, transfer the host to them or end the session, and roll the leave back.  The
    room is then exactly what it would be had the others acted alone, at the same readings. -/
theorem failed_leave_invisible (sessionId hostPeerId : String) (hostVerifier : Verifier)
    (hostToken ownerIpKey : String) (host : Admission) (created : SystemTime)
    (cancel : CancellationToken) (before : List (RoomOp × Readings)) (p : String) (c : Nat)
    (token : String) (version : Nat) (ops : List (RoomOp × Readings)) (rd rd' : Readings) :
    let s := (RoomState.newRoom sessionId hostPeerId hostVerifier hostToken ownerIpKey host created
      cancel).1.runOps before
    (s.beginLeave p c token version).2 = .ok () →
    (∀ step ∈ ops, step.1.byOthers p c = true) →
    s.runOps ((.beginLeave p c token version, rd) :: ops ++ [(.finishLeave p c false, rd')]) =
      s.runOps ops := by
  intro s hbegun hops
  have hmember : Membership s := (RoomInv.newRoom ..).toMembership.runOps before
  rcases hrun : s.beginLeave p c token version with ⟨s₁, r⟩
  rw [hrun] at hbegun
  rcases RoomState.beginLeave_cases hrun with
    ⟨_, hr⟩ | ⟨_, hconn, _, ⟨res, hres, hidle, _⟩, hs₁, _⟩
  · cases hr.symm.trans hbegun
  · obtain ⟨hmarked, hafter⟩ := Unaffected.runOps ops hops ⟨hmember, hconn, res, hres, hidle⟩
    obtain ⟨res', hres', hidle'⟩ := hafter.reserved
    have hsteps : s.runOps ((.beginLeave p c token version, rd) :: ops) =
        (s.runOps ops).setReleasePending p true := by
      rw [← hmarked, ← hs₁]
      exact congrArg (fun x => RoomState.runOps x.1 ops) hrun
    rw [RoomState.runOps_append, hsteps]
    generalize s.runOps ops = t at hafter hres'
    -- the leave still owns its mark, and taking the mark off restores the reservation
    have howns : (t.setReleasePending p true).ownsPendingLeave p c = true := by
      rw [RoomState.ownsPendingLeave_iff]
      refine ⟨hafter.conn, { res' with releasePending := true }, ?_, rfl⟩
      simp [RoomState.lookup_setReleasePending, hres']
    have hundone : (t.setReleasePending p true).setReleasePending p false = t := by
      have hreservations := AList.modify_modify_self (m := t.reservations) (a := p)
        (f := fun res => { res with releasePending := true })
        (g := fun res => { res with releasePending := false }) fun v hv => by
          obtain rfl := Option.some.inj (hres'.symm.trans hv)
          rw [← hidle']
      simp only [RoomState.setReleasePending, hreservations]
    simp [RoomOp.run, RoomState.finishLeave, howns, hundone]

omit [TokenCodec] in
/-- A guest's leave is rolled back after another guest has joined. -/
theorem failed_leave_invisible_around_join : letI : TokenCodec := sampleCodec
    let host : Admission :=
      { peerId := "a", tx := 0, syncProtocolVersion := 0, hostTransferCapable := false }
    let rd : Readings := { now := 0, instants := fun _ => 0, token := ⟨1⟩ }
    let join (p : String) : RoomOp × Readings :=
      (.joinOrResume { msgType := .join, reconnectToken := tokenTwos } { host with peerId := p }
        false, rd)
    let s := (RoomState.newRoom "s" "a" ⟨digestOnes⟩ tokenOnes "ip" host 0 ⟨0⟩).1.runOps [join "b"]
    (s.beginLeave "b" 2 tokenTwos 2).2 = .ok () ∧
      s.runOps [(.beginLeave "b" 2 tokenTwos 2, rd), join "d", (.finishLeave "b" 2 false, rd)] =
        s.runOps [join "d"] := by
  let _ : TokenCodec := sampleCodec
  intro host rd join s
  have hbegun : (s.beginLeave "b" 2 tokenTwos 2).2 = .ok () := by decide +kernel
  refine ⟨hbegun, ?_⟩
  exact failed_leave_invisible "s" "a" ⟨digestOnes⟩ tokenOnes "ip" host 0 ⟨0⟩ [join "b"] "b" 2
    tokenTwos 2 [join "d"] rd rd hbegun (by decide +kernel)

end PlezyRelay
