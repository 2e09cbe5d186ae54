/-
  PlezyRelay/RestoredAbsences.lean
  ================================
  **Who is away after a restart.**

  In a room that was created, a reservation has no absence time exactly while its peer is
  connected (`Presence`).  The snapshot keeps that: a guest who is connected when the room is
  saved is saved without an absence time.  After a restart nobody is connected, and such a
  guest is away without an absence time until it comes back; its reservation never expires.

  So the grace clock runs for everybody who is away, in every run of a restored room,
  exactly if every saved reservation had an absence time.  The absence times of a run are
  the loader's readings and those of later disconnects; `lastSeen` follows them, and
  `Timed` is the invariant that ties them to the reservations.
-/
import PlezyRelay.SnapshotRoundTrip
import PlezyRelay.TerminalDurability

namespace PlezyRelay

variable [TokenCodec]

/-! ### When a peer was last seen -/

/-- The section takes `p`'s connection out of the room. -/
def RoomOp.disconnects (st : RoomState) (p : String) : RoomOp → Bool
  | .handleDisconnect q connId =>
      decide (q = p) && !st.closing && decide (st.connIdOf q = some connId)
  | _ => false

/-- The monotonic time of each peer's last disconnect in a run, or else of the restart. -/
def lastSeen (restart : String → Instant) :
    RoomState → List (RoomOp × Readings) → String → Instant
  | _, [] => restart
  | st, (op, rd) :: ops =>
      lastSeen (fun p => if op.disconnects st p then rd.instants p else restart p)
        (op.run rd st).1 ops

/-- In every run from `st₀` and while the room is not closing, a guest who is away has an
    absence time, and pruning drops the reservation from `PEER_RESERVATION_GRACE` after it
    was last seen on. -/
def GraceRuns (restart : String → Instant) (st₀ : RoomState) : Prop :=
  ∀ ops, (st₀.runOps ops).closing = false → ∀ p res, (st₀.runOps ops).Saves p res →
    p ∉ (st₀.runOps ops).peers →
    (∃ since, res.absentSince = some since) ∧
    ∀ instants : String → Instant, lastSeen restart st₀ ops p + PEER_RESERVATION_GRACE ≤ instants p →
      p ∉ ((st₀.runOps ops).pruneExpiredReservations instants).1.reservations ∧
      ((st₀.runOps ops).pruneExpiredReservations instants).1.reservations.size <
        (st₀.runOps ops).reservations.size

/-! ### The invariant -/

/-- Absence times are kept for exactly those who are away, and none is later than the time
    its peer was last seen. -/
structure Timed (seen : String → Instant) (st : RoomState) : Prop extends Membership st where
  presence : Presence st
  bounded : st.closing = false → ∀ {p : String} {res : PeerReservation} {since : Instant},
    st.reservations.lookup p = some res → res.absentSince = some since → since ≤ seen p

section Timed

variable {seen : String → Instant} {st : RoomState}

omit [TokenCodec] in
theorem Timed.not_absent (h : Timed seen st) {p : String} {res : PeerReservation} {since : Instant}
    (hres : st.reservations.lookup p = some res) (hsince : res.absentSince = some since)
    {op : RoomOp} : op.disconnects st p = false := by
  cases op with
  | handleDisconnect q c =>
      by_contra hdisconnects
      simp only [RoomOp.disconnects, Bool.not_eq_false, Bool.and_eq_true, decide_eq_true_eq,
        Bool.not_eq_true'] at hdisconnects
      obtain ⟨⟨rfl, hopen⟩, hconn⟩ := hdisconnects
      have hnone := (h.presence hopen q res hres).mpr (RoomState.mem_peers_of_connIdOf hconn)
      cases hnone.symm.trans hsince
  | _ => rfl

theorem Timed.step (h : Timed seen st) (op : RoomOp) (rd : Readings) :
    Timed (fun p => if op.disconnects st p then rd.instants p else seen p) (op.run rd st).1 := by
  have hchange := op.run_change rd st
  refine ⟨h.toMembership.change hchange, h.presence.change h.toMembership hchange, ?_⟩
  intro hopen p res since hres hsince
  have hopen₀ : st.closing = false := by
    by_contra hclosing
    rw [hchange.closing (by simpa using hclosing)] at hopen
    cases hopen
  have hmove := op.reservation_move rd st p
  rw [hres] at hmove
  generalize hnew : some res = new, (op.run rd st).1 = st' at hmove
  cases hmove with
  | kept =>
      rw [h.not_absent hnew.symm hsince]
      exact h.bounded hopen₀ hnew.symm hsince
  | leaveBegun c token version res₀ _ hres₀ | leaveUndone c res₀ _ hres₀ =>
      cases hnew
      exact h.bounded hopen₀ hres₀ hsince
  | disconnected c res₀ _ hconn =>
      cases hnew
      cases hsince
      simp [RoomOp.disconnects, hopen₀, hconn]
  | joined | demoted =>
      cases hnew
      cases hsince
  | expired | released | cleared | promoted => cases hnew

theorem Timed.run (h : Timed seen st) (ops : List (RoomOp × Readings)) :
    Timed (lastSeen seen st ops) (st.runOps ops) := by
  induction ops generalizing seen st with
  | nil => exact h
  | cons step ops ih => exact ih (h.step step.1 step.2)

omit [TokenCodec] in
theorem pruned_of_expired {p : String} {res : PeerReservation} {since : Instant}
    {instants : String → Instant} (hres : st.Saves p res) (haway : p ∉ st.peers)
    (hsince : res.absentSince = some since) (hlate : since + PEER_RESERVATION_GRACE ≤ instants p) :
    p ∉ (st.pruned instants).reservations ∧
      (st.pruned instants).reservations.size < st.reservations.size := by
  obtain ⟨hlookup, hidle⟩ := hres
  have hexpired : st.keepsReservation instants p res = false := by
    have hnot : ¬(instants p).saturatingDurationSince since < PEER_RESERVATION_GRACE := by
      unfold Instant.saturatingDurationSince
      exact Nat.not_lt.mpr (Nat.le_sub_of_add_le' hlate)
    simp [RoomState.keepsReservation, hidle, AList.contains_eq_false.mpr haway, hsince, hnot]
  have hgone : p ∉ (st.pruned instants).reservations := by
    intro hmem
    obtain ⟨res', hres'⟩ := AList.mem_iff_lookup.mp hmem
    rw [RoomState.lookup_pruned, hlookup, Option.filter_some_neg (by simp [hexpired])] at hres'
    cases hres'
  refine ⟨hgone, lt_of_le_of_ne (AList.size_retain_le _ _) fun hsize => ?_⟩
  -- were the sizes the same, nothing would have been dropped
  have hsame := AList.retain_eq_self_of_size hsize
  rw [RoomState.pruned, hsame] at hgone
  exact hgone (AList.mem_of_lookup hlookup)

theorem Timed.graceRuns (h : Timed seen st) : GraceRuns seen st := by
  intro ops hopen p res hres haway
  have htimed := h.run ops
  cases hsince : res.absentSince with
  | none => exact absurd ((htimed.presence hopen p res hres.1).mp hsince) haway
  | some since =>
      refine ⟨⟨since, rfl⟩, fun instants hlate => ?_⟩
      have hbound := htimed.bounded hopen hres.1 hsince
      exact pruned_of_expired hres haway hsince (le_trans (Nat.add_le_add_right hbound _) hlate)

end Timed

/-! ### Restored rooms -/

/-- The latest reading the loader may have taken for a peer of the room. -/
def restartOf (clock : String → String → Instant × Instant) (room : RestoredRoom) (p : String) :
    Instant :=
  max (clock room.sessionId p).1 (clock room.sessionId p).2

/-- Every saved reservation has an absence time. -/
def RoomDto.AllAbsent (dto : RoomDto) : Prop :=
  ∀ p r, dto.reservations.lookup p = some r → r.absentSinceMillis ≠ none

omit [TokenCodec] in
theorem restoredAbsence_le (readings : Instant × Instant) (elapsed : Duration) :
    restoredAbsence readings elapsed ≤ max readings.1 readings.2 := by
  unfold restoredAbsence
  split
  · exact le_trans (Nat.sub_le _ _) (le_max_left _ _)
  · exact le_max_right _ _

section Restored

variable {now : SystemTime} {clock : String → String → Instant × Instant} {dto : RoomDto}
  {room : RestoredRoom}

theorem RoomDto.LoadsAs.lookup_state (h : dto.LoadsAs now clock room) {p : String}
    {res : PeerReservation} (hres : room.state.reservations.lookup p = some res) :
    ∃ r, dto.reservations.lookup p = some r ∧
      res.absentSince = r.absentSinceMillis.map fun ms =>
        restoredAbsence (clock dto.sessionId p) (now.durationSince (fromMillis ms)) := by
  simp only [RestoredRoom.state, RoomState.restore, AList.lookup_mapValues, h.reservations p,
    Option.map_eq_some_iff] at hres
  obtain ⟨restored, hrestored, rfl⟩ := hres
  obtain ⟨r, hr, hload⟩ := Option.bind_eq_some_iff.mp hrestored
  obtain ⟨v, _, rfl⟩ := Option.map_eq_some_iff.mp hload
  exact ⟨r, hr, rfl⟩

theorem RoomDto.Loadable.lookup_state (hloadable : dto.Loadable) (h : dto.LoadsAs now clock room)
    {p : String} {r : ReservationDto} (hr : dto.reservations.lookup p = some r) :
    ∃ res, room.state.Saves p res ∧ res.absentSince = r.absentSinceMillis.map fun ms =>
      restoredAbsence (clock dto.sessionId p) (now.durationSince (fromMillis ms)) := by
  obtain ⟨v, hv⟩ := (hloadable.reservations hr).verifier
  have hrestored := h.reservations p
  rw [hr, Option.bind_some, ReservationDto.load, hv, Option.map_some] at hrestored
  have hlookup : room.state.reservations.lookup p = some
      { verifier := v
        absentSince := r.absentSinceMillis.map fun ms =>
          restoredAbsence (clock dto.sessionId p) (now.durationSince (fromMillis ms))
        releasePending := false } := by
    simp [RestoredRoom.state, RoomState.restore, AList.lookup_mapValues, hrestored]
  exact ⟨_, ⟨hlookup, rfl⟩, rfl⟩

/-- With all absence times in the file, a restored room starts out timed. -/
theorem timed_restored (hloadable : dto.Loadable) (h : dto.LoadsAs now clock room)
    (habsent : dto.AllAbsent) : Timed (restartOf clock room) room.state := by
  have hsaved : ∀ {p : String} {res : PeerReservation},
      room.state.reservations.lookup p = some res →
      ∃ since, res.absentSince = some since ∧ since ≤ restartOf clock room p := by
    intro p res hres
    obtain ⟨r, hr, hsince⟩ := h.lookup_state hres
    cases hms : r.absentSinceMillis with
    | none => exact absurd hms (habsent p r hr)
    | some ms =>
        rw [hms, Option.map_some, ← h.sessionId] at hsince
        exact ⟨_, hsince, restoredAbsence_le _ _⟩
  refine ⟨⟨?_, ?_⟩, ?_, ?_⟩
  · intro hmem
    obtain ⟨res, hres⟩ := AList.mem_iff_lookup.mp hmem
    obtain ⟨r, hr, _⟩ := h.lookup_state hres
    exact (hloadable.reservations hr).ne_host h.hostPeerId
  · exact fun p hp => (AList.notMem_empty p hp).elim
  · intro _ p res hres
    obtain ⟨since, hsince, _⟩ := hsaved hres
    constructor
    · intro hnone
      cases hnone.symm.trans hsince
    · exact fun hp => (AList.notMem_empty p hp).elim
  · intro _ p res since hres hsince
    obtain ⟨since', hsince', hle⟩ := hsaved hres
    rwa [Option.some.inj (hsince.symm.trans hsince')]

end Restored

/-- **The grace clock after a restart.**  Each room `load_snapshot` gives back comes from an
    entry of the file; the clock runs for everybody who is away from it, in every run of the
    restored room, if and only if every reservation of the entry has an absence time. -/
theorem grace_clock_runs_iff {file : StateSnapshotDto} {now : SystemTime}
    {clock : String → String → Instant × Instant} {room : RestoredRoom}
    (hroom : room ∈ loadSnapshot (some file) now clock) :
    ∃ dto ∈ file.rooms, dto.LoadsAs now clock room ∧
      (GraceRuns (restartOf clock room) room.state ↔ dto.AllAbsent) := by
  obtain ⟨_, ⟨⟩, dto, hdto, hload⟩ := load_of_mem_loadSnapshot hroom
  obtain ⟨hloadable, _, hloads⟩ := RoomDto.load_spec hload
  refine ⟨dto, hdto, hloads, fun hruns p r hr hnone => ?_, fun habsent => ?_⟩
  · -- right after the restart nobody is connected
    obtain ⟨res, hres, hsince⟩ := hloadable.lookup_state hloads hr
    obtain ⟨⟨since, hsome⟩, _⟩ := hruns [] rfl p res hres (AList.notMem_empty p)
    rw [hsince, hnone] at hsome
    cases hsome
  · exact (timed_restored hloadable hloads habsent).graceRuns

omit [TokenCodec] in
/-- A file it speaks about, written by the relay: guest `b` was away when the room was
    saved. -/
theorem grace_clock_runs_for_absent_guest : letI : TokenCodec := sampleCodec
    ∃ (sys : RelaySys) (file : StateSnapshotDto) (room : RestoredRoom), Reaches Always sys ∧
      sys.shared.server.file.map (fun f => f.map (·.2)) = some file.rooms ∧
      room ∈ loadSnapshot (some file) 0 (fun _ _ => (7, 7)) ∧ "b" ∈ room.reservations ∧
      GraceRuns (restartOf (fun _ _ => (7, 7)) room) room.state := by
  let _ : TokenCodec := sampleCodec
  obtain ⟨sys, hreach, f, hfile, ⟨room, hroom, hguest⟩, habsent⟩ := reaches_of_run (C := Always)
    (P := fun sys => ∃ f ∈ sys.shared.server.file,
      (∃ room ∈ loadSnapshot (some ⟨SNAPSHOT_FORMAT_VERSION, f.map (·.2)⟩) 0 (fun _ _ => (7, 7)),
        "b" ∈ room.reservations.keys) ∧
      ∀ entry ∈ f, ∀ saved ∈ entry.2.reservations.entries, saved.2.absentSinceMillis ≠ none)
    ((List.range 2).map (fun k => .start (.conn k) (.connect "ip")) ++
      handles 0 (message .create "s" "a" tokenOnes) 8 ++
      handles 1 (message .join "s" "b" tokenTwos) 5 ++
      .start (.conn 1) .hangup :: acts (.conn 1) 3 ++ saves 4 1)
    (by decide +kernel)
  obtain ⟨dto, hdto, _, hruns⟩ := grace_clock_runs_iff hroom
  refine ⟨sys, ⟨SNAPSHOT_FORMAT_VERSION, f.map (·.2)⟩, room, hreach, by rw [hfile]; rfl, hroom,
    hguest, hruns.mpr fun p r hr => ?_⟩
  obtain ⟨entry, hentry, rfl⟩ := List.mem_map.mp hdto
  exact habsent entry hentry ⟨p, r⟩ (AList.mem_entries_iff.mpr hr)

omit [TokenCodec] in
/-- Guest `b` is connected when the room is saved.  The restored room has its reservation
    with nobody connected and no absence time, and no later pruning drops it. -/
theorem restored_guest_never_expires : letI : TokenCodec := sampleCodec
    ∃ (sys : RelaySys) (room : RestoredRoom) (res : PeerReservation), Reaches Always sys ∧
      room ∈ sys.shared.server.restarted 0 (fun _ _ => (7, 7)) ∧
      room.state.closing = false ∧ room.state.Saves "b" res ∧ "b" ∉ room.state.peers ∧
      res.absentSince = none ∧
      ∀ instants, "b" ∈ (room.state.pruneExpiredReservations instants).1.reservations := by
  let _ : TokenCodec := sampleCodec
  obtain ⟨sys, hreach, room, hroom, res, hres, hidle, hnone⟩ := reaches_of_run (C := Always)
    (P := fun sys => ∃ room ∈ sys.shared.server.restarted 0 (fun _ _ => (7, 7)),
      ∃ res ∈ room.state.reservations.lookup "b",
        res.releasePending = false ∧ res.absentSince = none)
    ((List.range 2).map (fun k => .start (.conn k) (.connect "ip")) ++
      handles 0 (message .create "s" "a" tokenOnes) 8 ++
      handles 1 (message .join "s" "b" tokenTwos) 5 ++ saves 3 1)
    (by decide +kernel)
  refine ⟨sys, room, res, hreach, hroom, rfl, ⟨hres, hidle⟩, AList.notMem_empty "b", hnone,
    fun instants => ?_⟩
  have hkeep : room.state.keepsReservation instants "b" res = true := by
    simp [RoomState.keepsReservation, hnone]
  have hkept : (room.state.pruned instants).reservations.lookup "b" = some res := by
    rw [RoomState.lookup_pruned, hres, Option.filter_some_pos hkeep]
  exact AList.mem_of_lookup hkept

end PlezyRelay
