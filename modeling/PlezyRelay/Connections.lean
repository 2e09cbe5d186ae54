/-
  PlezyRelay/Connections.lean
  ===========================
  **The connections of a room: who is current, who is superseded, who is evicted.**

  Every admission takes the next connection id, so the ids handed out in a run are
  exactly the numbers below `next_conn_id`, in order and without repetition
  (`assignedIds_eq`).  An id that has lost its place in the peer map is therefore never
  seen again, and the seven sections that a connection runs in its own name all look it
  up first: run for a superseded connection they do nothing (`RoomOp.run_stale`).

  The other half is about the sockets themselves.  A connection disappears from the
  peer map because its own task took it out, or its cancellation token is among those
  the section hands back; and a token that is handed back is nobody else's.  The source
  makes a new `CancellationToken` for every admission, which is `TokensFresh` here.
-/
import PlezyRelay.RoomInvariant
import PlezyRelay.Snapshot

namespace PlezyRelay

variable [TokenCodec]

/-! ### What a section hands back -/

/-- The connection in whose name a section is run: the peer id and the connection id it
    presents. -/
def RoomOp.caller : RoomOp → Option (String × Nat)
  | .beginLeave p c _ _ | .finishLeave p c _ | .beginEndSession p c _ _ | .transferHost p c _ _
  | .broadcast p c _ | .sendTo p c _ _ | .handleDisconnect p c => some (p, c)
  | _ => none

def RoomOp.admits (st : RoomState) : RoomOp → Option (String × Sender)
  | .reconnectHost host _ => some (st.hostPeerId, host.tx)
  | .joinOrResume _ admission _ => some (admission.peerId, admission.tx)
  | _ => none

/-- The effects a section asks for, in whatever form it returns them. -/
def RoomOp.outcome : (op : RoomOp) → op.Result → Effects
  | .reconnectHost .., effects | .joinOrResume .., effects | .finishLeave .., effects
  | .finishEndSession .., effects | .transferHost .., effects | .broadcast .., effects
  | .sendTo .., effects | .handleDisconnect .., effects => effects
  | .beginLeave .., .error effects | .beginEndSession .., .error effects => effects
  | .sweep _, verdict => { evict := verdict.2.2, dirty := verdict.2.1 }
  | _, _ => {}

def RoomOp.evicts (op : RoomOp) (r : op.Result) : List CancellationToken := (op.outcome r).evict

/-- The section ends the membership for which it is run: the peer has left, ended the
    session or disconnected. -/
def RoomOp.vacates : (op : RoomOp) → op.Result → Bool
  | .finishLeave .., effects => effects.reply.any fun reply => reply.msgType == .left
  | .beginEndSession .., .ok _ => true
  | .handleDisconnect .., _ => true
  | _, _ => false

/-- The sections by which a connection takes itself out of the peer map. -/
def RoomOp.departs : RoomOp → Bool
  | .finishLeave .. | .handleDisconnect .. => true
  | _ => false

omit [TokenCodec] in
theorem RoomOp.connId_of_caller {op : RoomOp} {p : String} {c : Nat}
    (h : op.caller = some (p, c)) : op.connId = some c := by
  cases op <;> cases h <;> rfl

/-! ### Superseded connections -/

/-- A section run in the name of a connection that is not the current one of its peer id
    does nothing. -/
theorem RoomOp.run_stale {st : RoomState} {p : String} {c : Nat}
    (hstale : st.connIdOf p ≠ some c) {op : RoomOp} (hop : op.caller = some (p, c))
    (rd : Readings) :
    (op.run rd st).1 = st ∧ (op.outcome (op.run rd st).2).broadcast = [] ∧
      (op.outcome (op.run rd st).2).evict = [] ∧
      (op.outcome (op.run rd st).2).dirty = false := by
  have howns : st.ownsPendingLeave p c = false := by simp [RoomState.ownsPendingLeave, hstale]
  cases op with
  | beginLeave =>
      cases hop
      simp [RoomOp.run, RoomState.beginLeave, hstale, RoomOp.outcome, RoomState.leaveRefused,
        Effects.error]
  | finishLeave =>
      cases hop
      simp [RoomOp.run, RoomState.finishLeave, howns, RoomOp.outcome]
  | beginEndSession =>
      cases hop
      simp [RoomOp.run, RoomState.beginEndSession, hstale, RoomOp.outcome, RoomState.endRefused,
        Effects.error]
  | transferHost =>
      cases hop
      simp [RoomOp.run, RoomState.transferHost, hstale, RoomOp.outcome, Effects.error]
  | broadcast =>
      cases hop
      simp [RoomOp.run, RoomState.broadcast, hstale, RoomOp.outcome]
  | sendTo =>
      cases hop
      simp [RoomOp.run, RoomState.sendTo, hstale, RoomOp.outcome]
  | handleDisconnect =>
      cases hop
      simp [RoomOp.run, RoomState.handleDisconnect, hstale, RoomOp.outcome]
  | _ => cases hop

/-- The id `c` has been handed out, and nobody but `p` can still have it. -/
structure AtMost (p : String) (c : Nat) (st : RoomState) : Prop where
  assigned : c < st.nextConnId
  only : ∀ q, st.connIdOf q = some c → q = p

structure Retired (c : Nat) (st : RoomState) : Prop where
  assigned : c < st.nextConnId
  gone : ∀ q, st.connIdOf q ≠ some c

section Change

omit [TokenCodec]

variable {st st' : RoomState} {p : String} {c : Nat}

theorem Change.connIdOf_of_lt (h : Change st st') {q : String} (hq : st'.connIdOf q = some c)
    (hlt : c < st.nextConnId) : st.connIdOf q = some c := by
  rcases h.connIdOf hq with hold | ⟨hfresh, _⟩
  · exact hold
  · omega

theorem AtMost.change (h : AtMost p c st) (hstep : Change st st') : AtMost p c st' where
  assigned := lt_of_lt_of_le h.assigned hstep.nextConnId_le
  only q hq := h.only q (hstep.connIdOf_of_lt hq h.assigned)

theorem Retired.change (h : Retired c st) (hstep : Change st st') : Retired c st' where
  assigned := lt_of_lt_of_le h.assigned hstep.nextConnId_le
  gone q hq := h.gone q (hstep.connIdOf_of_lt hq h.assigned)

structure ConnsWf (st : RoomState) : Prop extends Numbered st where
  conn_inj : ∀ p q c, st.connIdOf p = some c → st.connIdOf q = some c → p = q

theorem Change.fresh_inj (h : Change st st') (hwf : ConnsWf st) {q : String}
    (hp : st'.connIdOf p = some st.nextConnId) (hq : st'.connIdOf q = some st.nextConnId) :
    p = q := by
  have hold : ∀ r, st.connIdOf r ≠ some st.nextConnId := fun r hr =>
    absurd (hwf.conn_lt r _ hr) (by omega)
  cases h with
  | hostAdmitted host cancel =>
      simp only [RoomState.connIdOf, RoomState.admitPeer, AList.lookup_insert_eq] at hp hq
      split at hp
      · split at hq
        · rename_i hp' hq'
          exact hp'.trans hq'.symm
        · exact absurd hq (hold q)
      · exact absurd hp (hold p)
  | joined i admission presented _ now cancel =>
      simp only [RoomState.connIdOf, RoomState.joined_peers, AList.lookup_insert_eq] at hp hq
      split at hp
      · split at hq
        · rename_i hp' hq'
          exact hp'.trans hq'.symm
        · exact absurd hq (hold q)
      · exact absurd hp (hold p)
  | released r =>
      simp only [RoomState.connIdOf, RoomState.released, AList.lookup_erase_eq] at hp
      split at hp
      · cases hp
      · exact absurd hp (hold p)
  | disconnected r =>
      simp only [RoomState.connIdOf, RoomState.disconnected_peers, AList.lookup_erase_eq] at hp
      split at hp
      · cases hp
      · exact absurd hp (hold p)
  | cleared | sweptOut => cases hp
  | _ => exact absurd hp (hold p)

theorem ConnsWf.change (h : ConnsWf st) (hstep : Change st st') : ConnsWf st' where
  toNumbered := h.toNumbered.change hstep
  conn_inj p q c hp hq := by
    by_cases hc : c < st.nextConnId
    · apply h.conn_inj p q c
      · exact hstep.connIdOf_of_lt hp hc
      · exact hstep.connIdOf_of_lt hq hc
    · -- both hold an id that was not there before, so it is the fresh one
      have hfresh : c = st.nextConnId := by
        rcases hstep.connIdOf hp with hold | ⟨heq, _⟩
        · exact absurd (h.conn_lt p c hold) hc
        · exact heq
      subst hfresh
      exact hstep.fresh_inj h hp hq

end Change

/-! ### Where runs begin -/

/-- A room as `new_room` or `restore` makes it, with any arguments. -/
inductive Made : RoomState → Prop where
  | created (sessionId hostPeerId : String) (hostVerifier : Verifier) (token ownerIpKey : String)
      (host : Admission) (now : SystemTime) (cancel : CancellationToken) :
      Made (RoomState.newRoom sessionId hostPeerId hostVerifier token ownerIpKey host now cancel).1
  | restored (sessionId hostPeerId : String) (hostVerifier : Verifier) (ownerIpKey : String)
      (reservations : AssocMap String RestoredReservation)
      (createdAt lastActivityAt : SystemTime) :
      Made (RoomState.restore sessionId hostPeerId hostVerifier ownerIpKey reservations createdAt
        lastActivityAt)

namespace Made

omit [TokenCodec]

variable {st : RoomState}

theorem peer_unique (h : Made st) {p q : String} (hp : p ∈ st.peers) (hq : q ∈ st.peers) :
    p = q := by
  cases h with
  | created sid host v token key admission now cancel =>
      have hhost : ∀ r, r ∈ (RoomState.newRoom sid host v token key admission now
          cancel).1.peers → r = host := by
        intro r hr
        rcases (AList.mem_insert _).mp hr with heq | hmem
        · exact heq
        · exact absurd hmem (AList.notMem_empty r)
      exact (hhost p hp).trans (hhost q hq).symm
  | restored => exact absurd hp (AList.notMem_empty p)

theorem connsWf (h : Made st) : ConnsWf st where
  conn_lt := by
    cases h with
    | created => exact (RoomWf.newRoom ..).conn_lt
    | restored =>
        intro p c hc
        cases hc
  conn_inj p q c hp hq := by
    apply h.peer_unique
    · exact RoomState.mem_peers_of_connIdOf hp
    · exact RoomState.mem_peers_of_connIdOf hq

end Made

/-! ### The connection ids of a run -/

def RoomState.connIds (st : RoomState) : List Nat := st.peers.values.map (·.connId)

/-- The connection ids a run hands out, in order. -/
def RoomState.assignedIds : RoomState → List (RoomOp × Readings) → List Nat
  | _, [] => []
  | st, (op, rd) :: ops =>
      (op.outcome (op.run rd st).2).assignedConnId.toList ++ assignedIds (op.run rd st).1 ops

/-- A section hands out the next id and moves the counter past it, or does neither. -/
theorem RoomOp.assigns_next (rd : Readings) (st : RoomState) (op : RoomOp) :
    ((op.outcome (op.run rd st).2).assignedConnId = some st.nextConnId ∧
      (op.run rd st).1.nextConnId = st.nextConnId + 1) ∨
    ((op.outcome (op.run rd st).2).assignedConnId = none ∧
      (op.run rd st).1.nextConnId = st.nextConnId) := by
  rcases hrun : op.run rd st with ⟨st', r⟩
  dsimp only
  cases op with
  | isIdempotent | isReclaimable | ownerIpKey | markClosing | pruneExpiredReservations =>
      cases hrun; exact Or.inr ⟨rfl, rfl⟩
  | reconnectHost host token =>
      obtain ⟨rfl, _, hid, _⟩ := RoomState.reconnectHost_cases hrun
      exact Or.inl ⟨hid, rfl⟩
  | joinOrResume msg admission resumeOnly =>
      rcases RoomState.joinOrResume_cases hrun with
        ⟨_, rfl, rfl⟩ | ⟨_, rfl, _, _, rfl⟩ | ⟨_, _, _, rfl, _, hid, _⟩
      · exact Or.inr ⟨rfl, rfl⟩
      · exact Or.inr ⟨rfl, rfl⟩
      · exact Or.inl ⟨hid, by simp⟩
  | beginLeave peerId c token version =>
      rcases RoomState.beginLeave_cases hrun with ⟨rfl, rfl⟩ | ⟨_, _, _, _, rfl, rfl⟩ <;>
        exact Or.inr ⟨rfl, rfl⟩
  | finishLeave peerId c persisted =>
      rcases RoomState.finishLeave_cases hrun with
        ⟨_, rfl, rfl⟩ | ⟨_, _, rfl, rfl⟩ | ⟨_, _, rfl, _, _, hid, _⟩
      · exact Or.inr ⟨rfl, rfl⟩
      · exact Or.inr ⟨rfl, rfl⟩
      · exact Or.inr ⟨hid, rfl⟩
  | beginEndSession peerId c token version =>
      rcases RoomState.beginEndSession_cases hrun with
        ⟨rfl, rfl⟩ | ⟨_, _, _, _, rfl, _, rfl⟩ <;> exact Or.inr ⟨rfl, rfl⟩
  | finishEndSession guests persisted =>
      obtain ⟨rfl, _, hid, _⟩ := RoomState.finishEndSession_cases hrun
      exact Or.inr ⟨hid, rfl⟩
  | transferHost peerId c version target =>
      rcases RoomState.transferHost_cases hrun with
        ⟨rfl, _, _, rfl⟩ | ⟨_, _, _, _, _, _, _, _, rfl, _, _, hid, _⟩
      · exact Or.inr ⟨rfl, rfl⟩
      · exact Or.inr ⟨hid, rfl⟩
  | broadcast senderId c payload =>
      obtain ⟨rfl | rfl, _, _, hid⟩ := RoomState.broadcast_cases hrun <;> exact Or.inr ⟨hid, rfl⟩
  | sendTo senderId c targetId payload =>
      obtain ⟨rfl | rfl, _, _, hid⟩ := RoomState.sendTo_cases hrun <;> exact Or.inr ⟨hid, rfl⟩
  | handleDisconnect peerId c =>
      rcases RoomState.handleDisconnect_cases hrun with
        ⟨_, rfl, rfl⟩ | ⟨_, _, rfl, _, _, hid⟩
      · exact Or.inr ⟨rfl, rfl⟩
      · exact Or.inr ⟨hid, by simp⟩
  | sweep now =>
      rcases RoomState.sweepRoom_cases hrun with ⟨rfl, _⟩ | ⟨rfl, _⟩ | ⟨rfl, _⟩ <;>
        exact Or.inr ⟨rfl, rfl⟩

/-- The ids of a run are consecutive, from the counter before it to the counter after. -/
theorem RoomState.assignedIds_eq (ops : List (RoomOp × Readings)) (st : RoomState) :
    ∃ n, st.assignedIds ops = List.range' st.nextConnId n ∧
      (st.runOps ops).nextConnId = st.nextConnId + n := by
  induction ops generalizing st with
  | nil => exact ⟨0, rfl, rfl⟩
  | cons step ops ih =>
      obtain ⟨op, rd⟩ := step
      obtain ⟨n, hids, hnext⟩ := ih (op.run rd st).1
      have hrun : st.runOps ((op, rd) :: ops) = (op.run rd st).1.runOps ops := rfl
      rw [RoomState.assignedIds, hrun, hids, hnext]
      rcases RoomOp.assigns_next rd st op with ⟨hid, hstep⟩ | ⟨hid, hstep⟩
      · refine ⟨n + 1, ?_, by rw [hstep]; omega⟩
        rw [hid, hstep, List.range'_succ]
        rfl
      · refine ⟨n, ?_, by rw [hstep]⟩
        rw [hid, hstep]
        rfl

/-- All ids handed out so far, those of the room's first connections included. -/
theorem Made.assignedIds_eq {st : RoomState} (h : Made st) (ops : List (RoomOp × Readings)) :
    ∃ n, st.connIds ++ st.assignedIds ops = List.range' 1 n ∧
      (st.runOps ops).nextConnId = n + 1 := by
  obtain ⟨n, hids, hnext⟩ := RoomState.assignedIds_eq ops st
  rw [hids, hnext]
  cases h with
  | created sid host v token key admission now cancel =>
      refine ⟨n + 1, ?_, ?_⟩
      · rw [List.range'_succ]
        rfl
      · simp only [RoomState.newRoom]
        omega
  | restored =>
      refine ⟨n, rfl, ?_⟩
      simp only [RoomState.restore]
      omega

/-! ### Superseded connections are inert -/

theorem ConnsWf.runOps {st : RoomState} (h : ConnsWf st) (ops : List (RoomOp × Readings)) :
    ConnsWf (st.runOps ops) :=
  RoomState.runOps_induction ops h fun _ _ h hstep => h.change hstep

/-- **A superseded connection is inert for ever.**  In a run with fewer than 2^64 - 1
    admissions the counter stays within its 64 bits, it is above every id handed out, and
    no id is handed out twice.  Once `(p, c)` has been replaced or removed, nobody has `c`
    again, and whatever is still run in the name of `(p, c)` leaves the room as it is and
    asks for no broadcast, no eviction and no snapshot. -/
theorem superseded_connection_inert {st₀ : RoomState} (hmade : Made st₀)
    (ops : List (RoomOp × Readings))
    (hadmissions : (st₀.connIds ++ st₀.assignedIds ops).length < 2 ^ 64 - 1) :
    let st := st₀.runOps ops
    st.nextConnId < 2 ^ 64 ∧
    (∀ c ∈ st₀.connIds ++ st₀.assignedIds ops, c < st.nextConnId) ∧
    (st₀.connIds ++ st₀.assignedIds ops).Nodup ∧
    ∀ earlier since later p c, ops = earlier ++ since ++ later →
      (st₀.runOps earlier).connIdOf p = some c →
      (st₀.runOps (earlier ++ since)).connIdOf p ≠ some c →
      (∀ q, st.connIdOf q ≠ some c) ∧
      ∀ (op : RoomOp) (rd : Readings), op.caller = some (p, c) →
        (op.run rd st).1 = st ∧ (op.outcome (op.run rd st).2).broadcast = [] ∧
          (op.outcome (op.run rd st).2).evict = [] ∧
          (op.outcome (op.run rd st).2).dirty = false := by
  intro st
  obtain ⟨n, hids, hnext⟩ := hmade.assignedIds_eq ops
  rw [hids] at hadmissions ⊢
  rw [List.length_range'] at hadmissions
  refine ⟨?_, ?_, List.nodup_range', ?_⟩
  · show (st₀.runOps ops).nextConnId < 2 ^ 64
    omega
  · intro c hc
    rw [List.mem_range'_1] at hc
    show c < (st₀.runOps ops).nextConnId
    omega
  · intro earlier since later p c hops hcurrent hgone
    have hwf := hmade.connsWf.runOps earlier
    have hearlier : AtMost p c (st₀.runOps earlier) :=
      ⟨hwf.conn_lt p c hcurrent, fun q hq => hwf.conn_inj q p c hq hcurrent⟩
    -- nobody else gets the id, so once `p` has lost it nobody has it
    have hsince : AtMost p c (st₀.runOps (earlier ++ since)) := by
      rw [← RoomState.runOps_runOps]
      exact RoomState.runOps_induction since hearlier fun _ _ h hstep => h.change hstep
    have hretired : Retired c (st₀.runOps (earlier ++ since)) :=
      ⟨hsince.assigned, fun q hq => hgone (hsince.only q hq ▸ hq)⟩
    have hlater : Retired c st := by
      show Retired c (st₀.runOps ops)
      rw [hops, ← RoomState.runOps_runOps]
      exact RoomState.runOps_induction later hretired fun _ _ h hstep => h.change hstep
    refine ⟨hlater.gone, ?_⟩
    intro op rd hop
    exact RoomOp.run_stale (hlater.gone p) hop rd

omit [TokenCodec] in
/-- The first socket of a host that has come back, and its late disconnect. -/
theorem superseded_connection_inert_after_recreate : letI : TokenCodec := sampleCodec
    let host : Admission :=
      { peerId := "a", tx := 0, syncProtocolVersion := 0, hostTransferCapable := false }
    let st := (RoomState.newRoom "s" "a" ⟨digestOnes⟩ tokenOnes "ip" host 0 ⟨0⟩).1
    let rd : Readings := { now := 0, instants := fun _ => 0, token := ⟨1⟩ }
    let st' := st.runOps [(.reconnectHost { host with tx := 1 } tokenOnes, rd)]
    st.connIdOf "a" = some 1 ∧ st'.connIdOf "a" = some 2 ∧
      ((RoomOp.handleDisconnect "a" 1).run rd st').1 = st' := by
  let _ : TokenCodec := sampleCodec
  intro host st rd st'
  have hinert := superseded_connection_inert
    (.created "s" "a" ⟨digestOnes⟩ tokenOnes "ip" host 0 ⟨0⟩)
    [(.reconnectHost { host with tx := 1 } tokenOnes, rd)] (by decide +kernel)
  obtain ⟨-, hnoop⟩ := hinert.2.2.2 [] [(.reconnectHost { host with tx := 1 } tokenOnes, rd)] []
    "a" 1 rfl (by decide +kernel) (by decide +kernel)
  exact ⟨by decide +kernel, by decide +kernel, (hnoop (.handleDisconnect "a" 1) rd rfl).1⟩

/-! ### Evictions -/

/-- What a section does to the peer map, and which tokens it hands out with that: the map
    stays, a connection is admitted, the caller's own connection leaves, or everyone is
    turned out. -/
theorem RoomOp.peers_cases (rd : Readings) (st : RoomState) (op : RoomOp) :
    ((op.run rd st).1.peers = st.peers ∧ op.evicts (op.run rd st).2 = []) ∨
    (∃ p admission, op.admits st = some (p, Admission.tx admission) ∧ (op.run rd st).1.peers =
        st.peers.insert p (admission.connect st.nextConnId rd.token) ∧
      op.evicts (op.run rd st).2 = (st.peers.lookup p).toList.map (·.cancel)) ∨
    (∃ p c, op.caller = some (p, c) ∧ op.departs = true ∧
      op.vacates (op.run rd st).2 = true ∧ st.connIdOf p = some c ∧
      (op.run rd st).1.peers = st.peers.erase p ∧ op.evicts (op.run rd st).2 = []) ∨
    ((op.run rd st).1.peers = ∅ ∧
      op.evicts (op.run rd st).2 = st.peers.values.map (·.cancel)) := by
  rcases hrun : op.run rd st with ⟨st', r⟩
  dsimp only
  cases op with
  | isIdempotent | isReclaimable | ownerIpKey | markClosing | pruneExpiredReservations =>
      cases hrun; exact Or.inl ⟨rfl, rfl⟩
  | reconnectHost host token =>
      obtain ⟨rfl, _, _, _, hevict⟩ := RoomState.reconnectHost_cases hrun
      exact Or.inr (Or.inl ⟨st.hostPeerId, host, rfl, rfl, hevict⟩)
  | joinOrResume msg admission resumeOnly =>
      rcases RoomState.joinOrResume_cases hrun with
        ⟨_, rfl, rfl⟩ | ⟨_, rfl, _, _, rfl⟩ | ⟨_, _, _, rfl, _, _, _, hevict⟩
      · exact Or.inl ⟨rfl, rfl⟩
      · exact Or.inl ⟨rfl, rfl⟩
      · exact Or.inr (Or.inl ⟨admission.peerId, admission, rfl, by simp, hevict⟩)
  | beginLeave peerId c token version =>
      rcases RoomState.beginLeave_cases hrun with ⟨rfl, rfl⟩ | ⟨_, _, _, _, rfl, rfl⟩ <;>
        exact Or.inl ⟨rfl, rfl⟩
  | finishLeave peerId c persisted =>
      rcases RoomState.finishLeave_cases hrun with
        ⟨_, rfl, rfl⟩ | ⟨_, _, rfl, rfl⟩ | ⟨howns, _, rfl, _, hevict, _, reply, hreply, htype, _⟩
      · exact Or.inl ⟨rfl, rfl⟩
      · exact Or.inl ⟨rfl, rfl⟩
      · refine Or.inr (Or.inr (Or.inl ⟨peerId, c, rfl, rfl, ?_, ?_, rfl, hevict⟩))
        · simp [RoomOp.vacates, hreply, htype]
        · exact (RoomState.ownsPendingLeave_iff.mp howns).1
  | beginEndSession peerId c token version =>
      rcases RoomState.beginEndSession_cases hrun with
        ⟨rfl, rfl⟩ | ⟨_, _, _, _, rfl, _, rfl⟩ <;> exact Or.inl ⟨rfl, rfl⟩
  | finishEndSession guests persisted =>
      obtain ⟨rfl, _, _, hevict, _⟩ := RoomState.finishEndSession_cases hrun
      exact Or.inr (Or.inr (Or.inr ⟨rfl, hevict⟩))
  | transferHost peerId c version target =>
      rcases RoomState.transferHost_cases hrun with
        ⟨rfl, _, _, rfl⟩ | ⟨_, _, _, _, _, _, _, _, rfl, _, hevict, _⟩
      · exact Or.inl ⟨rfl, rfl⟩
      · exact Or.inl ⟨rfl, hevict⟩
  | broadcast senderId c payload =>
      obtain ⟨rfl | rfl, _, hevict, _⟩ := RoomState.broadcast_cases hrun <;>
        exact Or.inl ⟨rfl, hevict⟩
  | sendTo senderId c targetId payload =>
      obtain ⟨rfl | rfl, _, hevict, _⟩ := RoomState.sendTo_cases hrun <;>
        exact Or.inl ⟨rfl, hevict⟩
  | handleDisconnect peerId c =>
      rcases RoomState.handleDisconnect_cases hrun with
        ⟨_, rfl, rfl⟩ | ⟨_, hc, rfl, _, hevict, _⟩
      · exact Or.inl ⟨rfl, rfl⟩
      · exact Or.inr (Or.inr (Or.inl ⟨peerId, c, rfl, rfl, rfl, hc, by simp, hevict⟩))
  | sweep now =>
      rcases RoomState.sweepRoom_cases hrun with ⟨rfl, rfl⟩ | ⟨rfl, rfl, _⟩ | ⟨rfl, rfl⟩
      · exact Or.inl ⟨rfl, rfl⟩
      · exact Or.inl ⟨rfl, rfl⟩
      · exact Or.inr (Or.inr (Or.inr ⟨rfl, rfl⟩))

/-- A member stays, or its token is handed out for eviction, or the section was run for
    this very member and ends its membership. -/
theorem RoomOp.peer_kept (rd : Readings) (st : RoomState) (op : RoomOp) {p : String}
    {peer : ConnectedPeer} (h : st.peers.lookup p = some peer) :
    (op.run rd st).1.peers.lookup p = some peer ∨ peer.cancel ∈ op.evicts (op.run rd st).2 ∨
      (op.caller = some (p, peer.connId) ∧ op.departs = true ∧
        op.vacates (op.run rd st).2 = true) := by
  rcases op.peers_cases rd st with
    ⟨hpeers, _⟩ | ⟨q, admission, _, hpeers, hevict⟩ | ⟨q, c, hcaller, hdeparts, hvacates, hc, hpeers, _⟩ |
    ⟨_, hevict⟩
  · exact Or.inl (by rw [hpeers, h])
  · rw [hpeers, hevict, AList.lookup_insert_eq]
    by_cases hp : p = q
    · -- a newcomer under the same name replaces the member and evicts it
      subst hp
      exact Or.inr (Or.inl (by simp [h]))
    · exact Or.inl (by rw [if_neg hp, h])
  · rw [hpeers, AList.lookup_erase_eq]
    by_cases hp : p = q
    · subst hp
      rw [RoomState.connIdOf, h] at hc
      obtain rfl : peer.connId = c := Option.some.inj hc
      exact Or.inr (Or.inr ⟨hcaller, hdeparts, hvacates⟩)
    · exact Or.inl (by rw [if_neg hp, h])
  · rw [hevict]
    exact Or.inr (Or.inl (List.mem_map_of_mem (AList.mem_values.mpr ⟨p, h⟩)))

theorem RoomOp.peer_origin (rd : Readings) (st : RoomState) (op : RoomOp) {p : String}
    {peer : ConnectedPeer} (h : (op.run rd st).1.peers.lookup p = some peer) :
    st.peers.lookup p = some peer ∨ (peer.connId = st.nextConnId ∧ peer.cancel = rd.token) := by
  rcases op.peers_cases rd st with
    ⟨hpeers, _⟩ | ⟨q, admission, _, hpeers, _⟩ | ⟨q, c, _, _, _, _, hpeers, _⟩ | ⟨hpeers, _⟩
  · exact Or.inl (hpeers ▸ h)
  · rw [hpeers, AList.lookup_insert_eq] at h
    split at h
    · obtain rfl := Option.some.inj h
      exact Or.inr ⟨rfl, rfl⟩
    · exact Or.inl h
  · rw [hpeers, AList.lookup_erase_eq] at h
    split at h
    · cases h
    · exact Or.inl h
  · rw [hpeers] at h
    cases h

/-- The identities a room knows: its host's, the connected ones and the reserved ones. -/
def RoomState.Knows (st : RoomState) (x : String) : Prop :=
  x = st.hostPeerId ∨ x ∈ st.peers ∨ x ∈ st.reservations

omit [TokenCodec] in
theorem Change.knows {st st' : RoomState} (h : Change st st') {x : String} (hx : st'.Knows x) :
    st.Knows x ∨ x ∈ st'.peers := by
  rcases hx with hhost | hpeer | hres
  · cases h with
    | transferred c target res _ _ _ hpeer => exact Or.inl (Or.inr (Or.inl (hhost ▸ hpeer)))
    | joined => exact Or.inl (Or.inl (by simpa using hhost))
    | disconnected => exact Or.inl (Or.inl (by simpa using hhost))
    | _ => exact Or.inl (Or.inl hhost)
  · exact Or.inr hpeer
  · have hknown : x ∈ st.reservations → st.Knows x ∨ x ∈ st'.peers := fun h =>
      Or.inl (Or.inr (Or.inr h))
    cases h with
    | pruned | swept | sweptOut => exact hknown (st.mem_of_mem_pruned hres)
    | joined i admission =>
        rw [RoomState.joined_reservations] at hres
        split at hres
        · exact hknown (st.mem_of_mem_pruned hres)
        · rcases (AList.mem_insert _).mp hres with rfl | hold
          · exact Or.inr (by simp)
          · exact hknown (st.mem_of_mem_pruned hold)
    | leaveBegun | leaveUndone =>
        exact hknown (by simpa [RoomState.setReleasePending] using hres)
    | released => exact hknown (AList.mem_erase.mp hres).2
    | cleared => cases hres
    | transferred =>
        rcases (AList.mem_insert _).mp hres with rfl | hold
        · exact Or.inl (Or.inl rfl)
        · exact hknown (AList.mem_erase.mp hold).2
    | disconnected p =>
        rw [RoomState.disconnected_reservations] at hres
        split at hres
        · exact hknown hres
        · exact hknown (AList.mem_modify.mp hres)
    | _ => exact hknown hres

theorem RoomOp.knows (rd : Readings) (st : RoomState) (op : RoomOp) {x : String}
    (hx : (op.run rd st).1.Knows x) : st.Knows x ∨ ∃ tx, op.admits st = some (x, tx) := by
  rcases (op.run_change rd st).knows hx with hold | hpeer
  · exact Or.inl hold
  · rcases op.peers_cases rd st with
      ⟨hpeers, _⟩ | ⟨q, admission, hadmits, hpeers, _⟩ | ⟨q, c, _, _, _, _, hpeers, _⟩ | ⟨hpeers, _⟩
    · exact Or.inl (Or.inr (Or.inl (hpeers ▸ hpeer)))
    · rw [hpeers, AList.mem_insert] at hpeer
      rcases hpeer with rfl | hold
      · exact Or.inr ⟨_, hadmits⟩
      · exact Or.inl (Or.inr (Or.inl hold))
    · rw [hpeers, AList.mem_erase] at hpeer
      exact Or.inl (Or.inr (Or.inl hpeer.2))
    · rw [hpeers] at hpeer
      cases hpeer

def ValidIds (st : RoomState) : Prop := ∀ x, st.Knows x → validId x MAX_PEER_ID_LENGTH = true

/-- The peer id a join passes on has passed the check of `connection.rs`. -/
def RoomOp.idsChecked : RoomOp → Prop
  | .joinOrResume _ admission _ => validId admission.peerId MAX_PEER_ID_LENGTH = true
  | _ => True

instance (op : RoomOp) : Decidable op.idsChecked := by
  unfold RoomOp.idsChecked
  split <;> infer_instance

theorem ValidIds.op {st : RoomState} (h : ValidIds st) {op : RoomOp} (hchecked : op.idsChecked)
    (rd : Readings) : ValidIds (op.run rd st).1 := by
  intro x hx
  rcases op.knows rd st hx with hold | ⟨tx, hadmits⟩
  · exact h x hold
  · cases op with
    | reconnectHost host token =>
        cases hadmits
        exact h _ (Or.inl rfl)
    | joinOrResume msg admission resumeOnly =>
        cases hadmits
        exact hchecked
    | _ => cases hadmits

theorem ValidIds.runOps {st : RoomState} (h : ValidIds st) {ops : List (RoomOp × Readings)}
    (hchecked : ∀ op ∈ ops, op.1.idsChecked) : ValidIds (st.runOps ops) :=
  List.foldlRecOn ops _ h fun _ h op hop => h.op (hchecked op hop) op.2

theorem validIds_of_loaded {file : Option StateSnapshotDto} {now : SystemTime}
    {clock : String → String → Instant × Instant} {room : RestoredRoom}
    (h : room ∈ loadSnapshot file now clock) :
    validId room.sessionId MAX_SESSION_ID_LENGTH = true ∧ ValidIds room.state := by
  obtain ⟨_, _, saved, _, hload⟩ := load_of_mem_loadSnapshot h
  obtain ⟨hloadable, _, hloads⟩ := RoomDto.load_spec hload
  obtain ⟨hsession, hpeer⟩ := (Bool.and_eq_true _ _).mp hloadable.ids
  constructor
  · rw [hloads.sessionId]
    exact hsession
  · rintro x (rfl | hpeers | hres)
    · rw [← hloads.hostPeerId] at hpeer
      exact hpeer
    · cases hpeers
    · obtain ⟨r, hr⟩ := hloads.saved (AList.mem_mapValues.mp hres)
      exact ((Bool.and_eq_true _ _).mp (hloadable.reservations hr).ids).2

omit [TokenCodec] in
theorem ValidIds.newRoom {hostPeerId : String} (h : validId hostPeerId MAX_PEER_ID_LENGTH = true)
    (sessionId : String) (v : Verifier) (token key : String) (admission : Admission)
    (now : SystemTime) (cancel : CancellationToken) :
    ValidIds (RoomState.newRoom sessionId hostPeerId v token key admission now cancel).1 := by
  rintro x (rfl | hpeer | hres)
  · exact h
  · have hhost : x = hostPeerId ∨ x ∈ (∅ : AssocMap String ConnectedPeer) :=
      (AList.mem_insert _).mp hpeer
    rcases hhost with rfl | hnone
    · exact h
    · cases hnone
  · cases hres

/-- An evicted token was somebody's, whose place is now empty or taken by the newcomer. -/
theorem RoomOp.evicts_origin (rd : Readings) (st : RoomState) (op : RoomOp)
    {k : CancellationToken} (h : k ∈ op.evicts (op.run rd st).2) :
    ∃ p peer, st.peers.lookup p = some peer ∧ peer.cancel = k ∧
      ∀ new, (op.run rd st).1.peers.lookup p = some new → new.cancel = rd.token := by
  rcases op.peers_cases rd st with
    ⟨_, hevict⟩ | ⟨q, admission, _, hpeers, hevict⟩ | ⟨_, _, _, _, _, _, _, hevict⟩ | ⟨hpeers, hevict⟩
  · simp [hevict] at h
  · rw [hevict, List.mem_map] at h
    obtain ⟨peer, hpeer, rfl⟩ := h
    refine ⟨q, peer, by simpa using hpeer, rfl, ?_⟩
    intro new hnew
    rw [hpeers, AList.lookup_insert_eq, if_pos rfl] at hnew
    rw [← Option.some.inj hnew]
    rfl
  · simp [hevict] at h
  · rw [hevict, List.mem_map] at h
    obtain ⟨peer, hpeer, rfl⟩ := h
    obtain ⟨p, hp⟩ := AList.mem_values.mp hpeer
    refine ⟨p, peer, hp, rfl, ?_⟩
    intro new hnew
    rw [hpeers] at hnew
    cases hnew

/-- `CancellationToken::new()` makes a token that no connected peer has. -/
def FreshToken (st : RoomState) (rd : Readings) : Prop :=
  ∀ p peer, st.peers.lookup p = some peer → peer.cancel ≠ rd.token

/-- Every section of a run got a new token. -/
def TokensFresh : RoomState → List (RoomOp × Readings) → Prop
  | _, [] => True
  | st, (op, rd) :: ops => FreshToken st rd ∧ TokensFresh (op.run rd st).1 ops

def TokensDistinct (st : RoomState) : Prop :=
  ∀ p q a b, st.peers.lookup p = some a → st.peers.lookup q = some b → a.cancel = b.cancel → p = q

theorem TokensDistinct.run {st : RoomState} (h : TokensDistinct st) (hwf : ConnsWf st)
    {rd : Readings} (hfresh : FreshToken st rd) (op : RoomOp) :
    TokensDistinct (op.run rd st).1 := by
  intro p q a b ha hb heq
  have hwf' := hwf.change (op.run_change rd st)
  rcases op.peer_origin rd st ha with hpa | ⟨hida, hta⟩
  · rcases op.peer_origin rd st hb with hqb | ⟨_, htb⟩
    · exact h p q a b hpa hqb heq
    · exact absurd (heq.trans htb) (hfresh p a hpa)
  · rcases op.peer_origin rd st hb with hqb | ⟨hidb, _⟩
    · exact absurd (heq.symm.trans hta) (hfresh q b hqb)
    · -- both are the newcomer
      apply hwf'.conn_inj p q st.nextConnId
      · rw [RoomState.connIdOf, ha, Option.map_some, hida]
      · rw [RoomState.connIdOf, hb, Option.map_some, hidb]

omit [TokenCodec] in
theorem Made.tokensDistinct {st : RoomState} (h : Made st) : TokensDistinct st := by
  intro p q a b ha hb _
  apply h.peer_unique
  · exact AList.mem_of_lookup ha
  · exact AList.mem_of_lookup hb

theorem TokensDistinct.runOps {st : RoomState} (h : TokensDistinct st) (hwf : ConnsWf st)
    (ops : List (RoomOp × Readings)) (hfresh : TokensFresh st ops) :
    TokensDistinct (st.runOps ops) := by
  induction ops generalizing st with
  | nil => exact h
  | cons step ops ih =>
      obtain ⟨op, rd⟩ := step
      apply ih
      · exact h.run hwf hfresh.1 op
      · exact hwf.change (op.run_change rd st)
      · exact hfresh.2

/-- **No connection vanishes silently and no current one is evicted.**  Whatever section is
    run in a state a room can reach: a connection that is gone afterwards was its own
    caller's, leaving or disconnecting, or its token is among the evictions; an evicted
    token was exactly one connection's; and nobody who is still there has it. -/
theorem evictions_exact {st₀ : RoomState} (hmade : Made st₀) (ops : List (RoomOp × Readings))
    (htokens : TokensFresh st₀ ops) (op : RoomOp) (rd : Readings)
    (hfresh : FreshToken (st₀.runOps ops) rd) :
    let st := st₀.runOps ops
    let st' := (op.run rd st).1
    let evict := op.evicts (op.run rd st).2
    (∀ p peer, st.peers.lookup p = some peer → st'.connIdOf p ≠ some peer.connId →
      (op.caller = some (p, peer.connId) ∧ op.departs = true) ∨ peer.cancel ∈ evict) ∧
    (∀ k ∈ evict, ∃! p, ∃ peer, st.peers.lookup p = some peer ∧ peer.cancel = k) ∧
    (∀ k ∈ evict, ∀ p peer, st'.peers.lookup p = some peer → peer.cancel ≠ k) := by
  intro st st' evict
  have hdistinct : TokensDistinct st := hmade.tokensDistinct.runOps hmade.connsWf ops htokens
  refine ⟨?_, ?_, ?_⟩
  · intro p peer hpeer hgone
    rcases op.peer_kept rd st hpeer with hkept | hevicted | ⟨hcaller, hdeparts, _⟩
    · exact absurd (by rw [RoomState.connIdOf, hkept]; rfl) hgone
    · exact Or.inr hevicted
    · exact Or.inl ⟨hcaller, hdeparts⟩
  · intro k hk
    obtain ⟨p, peer, hpeer, rfl, _⟩ := op.evicts_origin rd st hk
    refine ⟨p, ⟨peer, hpeer, rfl⟩, ?_⟩
    rintro q ⟨other, hother, heq⟩
    exact hdistinct q p other peer hother hpeer heq
  · rintro k hk q still hstill rfl
    obtain ⟨p, peer, hpeer, htoken, hplace⟩ := op.evicts_origin rd st hk
    -- an old token is not the newcomer's, and the place of its owner is lost
    have hold : still.cancel ≠ rd.token := htoken ▸ hfresh p peer hpeer
    rcases op.peer_origin rd st hstill with hq | ⟨_, hnew⟩
    · obtain rfl := hdistinct q p still peer hq hpeer htoken.symm
      exact hold (hplace still hstill)
    · exact hold hnew

omit [TokenCodec] in
/-- The socket a returning host replaces. -/
theorem evictions_exact_on_recreate : letI : TokenCodec := sampleCodec
    let host : Admission :=
      { peerId := "a", tx := 0, syncProtocolVersion := 0, hostTransferCapable := false }
    let st := (RoomState.newRoom "s" "a" ⟨digestOnes⟩ tokenOnes "ip" host 0 ⟨0⟩).1
    let rd : Readings := { now := 0, instants := fun _ => 0, token := ⟨1⟩ }
    let op : RoomOp := .reconnectHost { host with tx := 1 } tokenOnes
    (op.run rd st).1.connIdOf "a" = some 2 ∧ op.evicts (op.run rd st).2 = [⟨0⟩] ∧
      ∃! p, ∃ peer, st.peers.lookup p = some peer ∧ peer.cancel = ⟨0⟩ := by
  let _ : TokenCodec := sampleCodec
  intro host st rd op
  have hfresh : FreshToken st rd := by
    intro p peer hpeer
    simp only [st, RoomState.newRoom, AList.lookup_insert_eq] at hpeer
    split at hpeer
    · obtain rfl := Option.some.inj hpeer
      simp [Admission.connect, rd]
    · cases hpeer
  have hexact := evictions_exact (.created "s" "a" ⟨digestOnes⟩ tokenOnes "ip" host 0 ⟨0⟩) []
    trivial op rd hfresh
  have hevict : op.evicts (op.run rd st).2 = [⟨0⟩] := by decide +kernel
  have hmem : (⟨0⟩ : CancellationToken) ∈ op.evicts (op.run rd st).2 := by simp [hevict]
  exact ⟨by decide +kernel, hevict, hexact.2.1 ⟨0⟩ hmem⟩

end PlezyRelay
