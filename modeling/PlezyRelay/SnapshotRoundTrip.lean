/-
  PlezyRelay/SnapshotRoundTrip.lean
  =================================
  **What a snapshot gives back is what was saved.**

  The loader drops a room on the first thing it does not like: an id that does not pass
  `valid_id`, a verifier that does not decode, a host among its own reservations, a
  session id it has seen before.  None of this happens to a snapshot of the relay's own
  rooms.  Ids are checked before they reach a room (`relay_ids`), so rooms only ever know
  valid ones (`relay_checked`); hosts have no reservation and session ids are distinct by
  `Base`.  What is left are the two expiry rules, and they see the times as the file keeps
  them, in whole milliseconds.

  An absence goes from the monotonic clock to the wall clock, to milliseconds and back.
  With the clocks standing still it comes out less than a millisecond too early.
-/
import PlezyRelay.RelaySafe
import PlezyRelay.SnapshotWriter

namespace PlezyRelay

open Machine

/-! ### Times -/

/-- A time as the file keeps it: whole milliseconds since the epoch, in a `u64`. -/
def SystemTime.truncated (t : SystemTime) : SystemTime := fromMillis (toMillis t)

/-- The end of what the milliseconds of the file can count. -/
def MILLIS_END : Int := 2 ^ 64 * 1000000

theorem truncated_bounds {t : Int} (hepoch : 0 ≤ t) (hend : t < MILLIS_END) :
    SystemTime.truncated t ≤ t ∧ t < SystemTime.truncated t + 1000000 := by
  obtain ⟨n, rfl⟩ := Int.eq_ofNat_of_zero_le hepoch
  have hsmall : n / 1000000 < 2 ^ 64 := by
    unfold MILLIS_END at hend
    omega
  have hmillis : toMillis (n : Int) = n / 1000000 := by
    rw [toMillis, SystemTime.durationSince, Int.sub_zero, Int.toNat_natCast, Nat.mod_eq_of_lt hsmall]
  have hbounds : ((n / 1000000 : Nat) : Int) * 1000000 ≤ n ∧
      (n : Int) < ((n / 1000000 : Nat) : Int) * 1000000 + 1000000 := by
    omega
  rw [SystemTime.truncated, hmillis, fromMillis]
  exact hbounds

/-- An absence that is saved and loaded at the same readings of the clocks. -/
theorem absence_round_trip {now : Int} {instant since : Nat} (hend : now < MILLIS_END)
    (hpast : since ≤ instant) (hepoch : ((instant - since : Nat) : Int) ≤ now)
    (hsub : SystemTime.durationSince now
      (SystemTime.truncated (now - (instant - since : Nat))) ≤ instant) :
    let restored := restoredAbsence (instant, instant)
      (SystemTime.durationSince now (SystemTime.truncated (now - (instant - since : Nat))))
    restored ≤ since ∧ since < restored + 1000000 := by
  obtain ⟨absentAt, habsent⟩ : ∃ absentAt : Int,
      absentAt = SystemTime.truncated (now - (instant - since : Nat)) := ⟨_, rfl⟩
  obtain ⟨hle, hlt⟩ : absentAt ≤ now - (instant - since : Nat) ∧
      now - (instant - since : Nat) < absentAt + 1000000 := by
    rw [habsent]
    exact truncated_bounds (by omega) (by omega)
  rw [← habsent] at hsub ⊢
  simp only [restoredAbsence, hsub, if_true]
  have helapsed : (now - absentAt).toNat ≤ instant := hsub
  have hbounds : instant - (now - absentAt).toNat ≤ since ∧
      since < instant - (now - absentAt).toNat + 1000000 := by
    omega
  exact hbounds

variable [TokenCodec]

/-! ### One room -/

/-- The reservations of a room that go into a snapshot. -/
def RoomState.Saves (st : RoomState) (p : String) (res : PeerReservation) : Prop :=
  st.reservations.lookup p = some res ∧ res.releasePending = false

/-- A room that the expiry rules of the loader let pass. -/
def RoomState.Fresh (now : SystemTime) (st : RoomState) : Prop :=
  now.durationSince (SystemTime.truncated st.createdAt) ≤ ROOM_MAX_AGE ∧
    now.durationSince (SystemTime.truncated st.lastActivityAt) ≤ EMPTY_ROOM_MAX_AGE

instance (now : SystemTime) (st : RoomState) : Decidable (st.Fresh now) :=
  inferInstanceAs (Decidable (_ ∧ _))

/-- A reservation taken back: the verifier is the same, and an absence at most a millisecond
    longer. -/
structure SameReservation (res : PeerReservation) (restored : RestoredReservation) : Prop where
  verifier : restored.verifier = res.verifier
  absentSince : Option.Rel (fun since restored : Instant =>
    restored ≤ since ∧ since < restored + 1000000) res.absentSince restored.absentSince

/-- A room taken back with everything that was saved of it, and nothing else. -/
structure Restores (st : RoomState) (room : RestoredRoom) : Prop where
  sessionId : room.sessionId = st.sessionId
  hostPeerId : room.hostPeerId = st.hostPeerId
  hostVerifier : room.hostVerifier = st.hostVerifier
  createdAt : room.createdAt = SystemTime.truncated st.createdAt
  lastActivityAt : room.lastActivityAt = SystemTime.truncated st.lastActivityAt
  reservations : ∀ p, Option.Rel SameReservation
    ((st.reservations.lookup p).filter fun res => !res.releasePending) (room.reservations.lookup p)

/-- Base64 decoding undoes the encoding of the room's verifiers. -/
structure Decodes (st : RoomState) : Prop where
  host : Verifier.fromEncoded st.hostVerifier.encode = some st.hostVerifier
  reserved : ∀ {p : String} {res : PeerReservation}, st.Saves p res →
    Verifier.fromEncoded res.verifier.encode = some res.verifier

instance (st : RoomState) : Decidable (Decodes st) :=
  decidable_of_iff
    (Verifier.fromEncoded st.hostVerifier.encode = some st.hostVerifier ∧
      ∀ entry ∈ st.reservations.entries, entry.2.releasePending = false →
        Verifier.fromEncoded entry.2.verifier.encode = some entry.2.verifier)
    ⟨fun h => ⟨h.1, fun hres => h.2 _ (AList.mem_entries_iff.mpr hres.1) hres.2⟩,
      fun h => ⟨h.host, fun _ hentry hidle => h.reserved ⟨AList.mem_entries_iff.mp hentry, hidle⟩⟩⟩

/-- The clocks at one reading of both: no absence begins in the future, the wall time of
    each is not before the epoch, and the instant it is restored to exists. -/
structure ClocksFit (now : SystemTime) (instant : Instant) (st : RoomState) : Prop where
  past : ∀ {p : String} {res : PeerReservation} {since : Instant}, st.Saves p res →
    res.absentSince = some since → since ≤ instant
  epoch : ∀ {p : String} {res : PeerReservation} {since : Instant}, st.Saves p res →
    res.absentSince = some since → ((instant - since : Nat) : Int) ≤ now
  subtracts : ∀ {p : String} {res : PeerReservation} {since : Instant}, st.Saves p res →
    res.absentSince = some since →
    now.durationSince (SystemTime.truncated (now - (instant - since : Nat))) ≤ instant

section Room

variable {st : RoomState} {clock : String → Instant × SystemTime}

theorem lookup_buildRoomDto (p : String) :
    (buildRoomDto clock st).reservations.lookup p =
      ((st.reservations.lookup p).filter fun res => !res.releasePending).map
        (reservationDto (clock p)) := by
  simp only [buildRoomDto, AList.lookup_mapValues, AList.lookup_retain]

theorem saved_reservations {c : RoomCore} (h : st.saved = some c) {p encoded : String} :
    c.reservations p = some encoded ↔ ∃ res, st.Saves p res ∧ res.verifier.encode = encoded := by
  obtain ⟨_, rfl⟩ := (saved_eq_some fun _ => (0, 0)).mp h
  simp only [RoomDto.core, lookup_buildRoomDto, Option.map_map, Option.map_eq_some_iff,
    Option.filter_eq_some_iff, Bool.not_eq_true', RoomState.Saves, Function.comp, reservationDto]

/-- The saved form of a room with valid ids can be loaded. -/
theorem loadable_of_saved {dto : RoomDto} (hsaved : st.saved = some dto.core)
    (hversion : supportedProtocolVersion dto.protocolVersion = true)
    (hsession : validId st.sessionId MAX_SESSION_ID_LENGTH = true)
    (hids : ValidIds st) (hhost : st.hostPeerId ∉ st.reservations) (hdecodes : Decodes st) :
    dto.Loadable := by
  obtain ⟨_, hcore⟩ := (saved_eq_some fun _ => (0, 0)).mp hsaved
  have hsid : dto.sessionId = st.sessionId := (congrArg RoomCore.sessionId hcore).symm
  have hpeer : dto.hostPeerId = st.hostPeerId := (congrArg RoomCore.hostPeerId hcore).symm
  have hverifier : dto.hostVerifier = st.hostVerifier.encode :=
    (congrArg RoomCore.hostVerifier hcore).symm
  refine ⟨?_, hversion, ?_, ?_⟩
  · rw [hsid, hpeer]
    exact (Bool.and_eq_true _ _).mpr ⟨hsession, hids _ (Or.inl rfl)⟩
  · rw [hverifier]
    exact ⟨_, hdecodes.host⟩
  · intro p r hr
    rw [hsid, hpeer]
    obtain ⟨res, hres, hencode⟩ := (saved_reservations hsaved).mp
      (Option.map_eq_some_iff.mpr ⟨r, hr, rfl⟩)
    have hmem := AList.mem_of_lookup hres.1
    refine ⟨(Bool.and_eq_true _ _).mpr ⟨hsession, hids _ (Or.inr (Or.inr hmem))⟩, ?_, ?_⟩
    · rintro rfl
      exact hhost hmem
    · rw [← hencode]
      exact ⟨_, hdecodes.reserved hres⟩

/-- A reservation that is saved and loaded at the same readings of the clocks. -/
theorem reservation_round_trip {now : SystemTime} {instant : Instant} (hend : now < MILLIS_END)
    (hdecodes : Decodes st) (hclocks : ClocksFit now instant st) {p : String}
    {res : PeerReservation} (hres : st.Saves p res) :
    ∃ restored, (reservationDto (instant, now) res).load now (instant, instant) = some restored ∧
      SameReservation res restored := by
  simp only [ReservationDto.load, reservationDto, hdecodes.reserved hres, Option.map_some]
  refine ⟨_, rfl, rfl, ?_⟩
  cases hsince : res.absentSince with
  | none => exact .none
  | some since =>
      exact .some (absence_round_trip hend (hclocks.past hres hsince) (hclocks.epoch hres hsince)
        (hclocks.subtracts hres hsince))

theorem restores_of_load {now : SystemTime} {instant : Instant} {room : RestoredRoom}
    (hend : now < MILLIS_END) (hdecodes : Decodes st) (hclocks : ClocksFit now instant st)
    (hload : (buildRoomDto (fun _ => (instant, now)) st).load now (fun _ _ => (instant, instant)) =
      some room) :
    st.Fresh now ∧ Restores st room := by
  obtain ⟨_, hfresh, hloads⟩ := RoomDto.load_spec hload
  refine ⟨hfresh, hloads.sessionId, hloads.hostPeerId, ?_, hloads.createdAt,
    hloads.lastActivityAt, fun p => ?_⟩
  · exact Option.some.inj (hloads.hostVerifier.symm.trans hdecodes.host)
  · rw [hloads.reservations p, lookup_buildRoomDto]
    cases hres : (st.reservations.lookup p).filter fun res => !res.releasePending with
    | none => exact .none
    | some res =>
        obtain ⟨hlookup, hidle⟩ := Option.filter_eq_some_iff.mp hres
        obtain ⟨restored, hrestored, hsame⟩ :=
          reservation_round_trip hend hdecodes hclocks (p := p) ⟨hlookup, by simpa using hidle⟩
        rw [Option.map_some, Option.bind_some, hrestored]
        exact .some hsame

end Room

/-! ### Ids are checked -/

/-- Every room has a valid session id and knows only valid peer ids. -/
def Checked (w : World) : Prop :=
  ∀ (r : RoomId) (st : RoomState), w.server.heap[r]? = some st →
    validId st.sessionId MAX_SESSION_ID_LENGTH = true ∧ ValidIds st

/-- The ids an action passes on have passed the checks of `connection.rs`. -/
def Act.idsChecked : Act → Prop
  | .newRoom sessionId hostPeerId .. => validSessionAndPeerId sessionId hostPeerId = true
  | .room _ op => op.idsChecked
  | _ => True

theorem Checked.startup {sys : RelaySys} (h : Startup sys) : Checked sys.shared := by
  obtain ⟨file, now, clock, rfl⟩ := h
  intro r st hst
  simp only [initially, Server.restore_heap, List.nil_append] at hst
  obtain ⟨room, hroom, rfl⟩ := List.mem_map.mp (List.mem_of_getElem? hst)
  exact validIds_of_loaded hroom

theorem Checked.did {t : Tid} {a : Act} {e : Env} {w w' : World} {x : a.Resp} (h : Checked w)
    (hids : a.idsChecked) (hx : Did t a e w x w') : Checked w' := by
  intro r st' hst'
  rcases (World.did_moves hx).heap_of_some hst' with
    ⟨st, hst, rfl | ⟨op, rfl, rfl⟩⟩ | ⟨_, _, sid, host, v, token, key, admission, rfl, rfl, _⟩
  · exact h r st' hst
  · obtain ⟨hsession, hpeers⟩ := h r st hst
    refine ⟨?_, hpeers.op hids _⟩
    rwa [(op.run_change _ st).sessionId]
  · obtain ⟨hsession, hpeer⟩ := (Bool.and_eq_true _ _).mp hids
    exact ⟨hsession, ValidIds.newRoom hpeer _ _ _ _ _ _ _⟩

def checking : relay.Logic where
  inv := Checked
  pre _ a _ := a.idsChecked

section Checking

variable {t : Tid} {w : World}

theorem checking_of_all {α : Type} {p : Task α} (hp : p.All Act.idsChecked) :
    checking.Safe t (fun _ _ => True) p w :=
  Logic.Safe.of_all hp trivial (Logic.Stable.const True) (fun _ _ h _ _ _ => h)
    fun _ _ _ _ _ _ _ _ _ _ _ => trivial

theorem create_idsChecked {sid host : String} (hids : validSessionAndPeerId sid host = true)
    (token key : String) (admission : Admission) :
    (Registry.create sid host token key admission).All Act.idsChecked := by
  refine create_all_of (fun a ha hnew => ?_) fun _ => hids
  cases a with
  | newRoom => cases hnew
  | room r op => cases op <;> trivial
  | _ => trivial

omit [TokenCodec] in
theorem idsChecked_of_passes_none {a : Act} (h : a.isOutput = true ∨ a.isSnapshot = true ∨
    a.isLeave = true ∨ a.isEnd = true ∨ a.isSweep = true) : a.idsChecked := by
  cases a with
  | newRoom => simp [Act.isOutput, Act.isSnapshot, Act.isLeave, Act.isEnd, Act.isSweep] at h
  | room r op =>
      cases op with
      | joinOrResume => simp [Act.isOutput, Act.isSnapshot, Act.isLeave, Act.isEnd, Act.isSweep] at h
      | _ => trivial
  | _ => trivial

theorem checking_programs : Programs checking t fun _ _ => True := by
  refine Programs.of_delivery (A := fun _ _ => True) ?_ ?_ ?_ ?_ ?_ ?_ ?_ ?_ ?_
  · exact fun _ _ _ _ => checking_of_all ⟨trivial, fun _ => trivial⟩
  · exact fun _ _ _ => checking_of_all ⟨trivial, fun _ => trivial⟩
  · exact fun _ _ _ _ hids _ => checking_of_all ⟨hids, fun _ => trivial⟩
  · exact fun _ _ _ _ => checking_of_all
      ((applyEffects_all ..).mono fun _ h => idsChecked_of_passes_none (Or.inl h))
  · exact fun _ _ _ _ _ hids _ => checking_of_all (create_idsChecked hids ..)
  · exact fun _ _ _ _ _ _ _ => checking_of_all
      ((leave_all ..).mono fun _ h => idsChecked_of_passes_none (Or.inr (Or.inr (Or.inl h))))
  · exact fun _ _ _ _ _ _ _ => checking_of_all ((endSession_all ..).mono fun _ h =>
      idsChecked_of_passes_none (Or.inr (Or.inr (Or.inr (Or.inl h)))))
  · exact fun _ _ _ => checking_of_all ((sweep_all _).mono fun _ h =>
      idsChecked_of_passes_none (Or.inr (Or.inr (Or.inr (Or.inr h)))))
  · exact fun _ _ => checking_of_all
      (flushAndStop_all.mono fun _ h => idsChecked_of_passes_none (Or.inr (Or.inl h)))

end Checking

/-- In every reachable state all ids are valid. -/
theorem relay_checked {C : RelaySys → RelayLabel → Prop} {sys : RelaySys} (h : Reaches C sys) :
    Checked sys.shared := by
  have hsafe : Checked sys.shared ∧ ∀ t, checking.Safe t (fun _ _ => True) (sys.threads t)
      sys.shared := by
    refine Logic.Safe.adequate (L := checking) ?_ ?_ ?_ ?_ ?_ ?_ h
    · intro sys hsys
      refine ⟨Checked.startup hsys, fun t => ?_⟩
      obtain ⟨file, now, clock, rfl⟩ := hsys
      cases t <;> trivial
    · exact fun t q l p w _ h hp => checking_programs.start h hp
    · exact fun _ _ _ _ _ _ _ _ => trivial
    · exact fun t a e w x w' hchecked _ hids hx => hchecked.did hids hx
    · intro m w w' hchecked hm r st hst
      rw [(Server.writerStep_frame (World.writerStep_iff.mp hm).1).1] at hst
      exact hchecked r st hst
    · exact fun _ _ => Logic.Stable.const True
  exact hsafe.1

/-! ### All rooms -/

section Rooms

variable {w : World} {clock : String → Instant × SystemTime}

theorem buildSnapshot_sessionIds (hb : Base w) :
    ((w.server.buildSnapshot clock).map (·.2.sessionId)).Sublist w.server.rooms.keys := by
  have hentries : ∀ entry ∈ w.server.rooms.entries, ∃ st, w.server.heap[entry.2]? = some st ∧
      st.sessionId = entry.1 :=
    fun entry hentry => hb.registered (AList.mem_entries_iff.mp hentry)
  unfold Server.buildSnapshot AList.values AList.keys
  generalize w.server.rooms.entries = entries at hentries ⊢
  induction entries with
  | nil => exact List.Sublist.slnil
  | cons entry rest ih =>
      obtain ⟨st, hst, hsid⟩ := hentries entry List.mem_cons_self
      have hrest := ih fun entry hentry => hentries entry (List.mem_cons_of_mem _ hentry)
      simp only [List.map_cons, List.flatMap_cons, hst, List.map_append, List.keys]
      unfold Server.captured
      split
      · exact hrest.cons _
      · simp only [List.map_cons, List.map_nil, List.singleton_append, buildRoomDto, hsid]
        exact hrest.cons_cons _

end Rooms

/-- A registered room that is not closing. -/
def Live (s : Server) (st : RoomState) : Prop :=
  ∃ sid r, s.rooms.lookup sid = some r ∧ s.heap[r]? = some st ∧ st.closing = false

/-- What `load_snapshot` makes of the result of `build_snapshot`, with both clocks standing
    still. -/
def Server.reloaded (s : Server) (now : SystemTime) (instant : Instant) : List RestoredRoom :=
  loadSnapshot (some
    { version := SNAPSHOT_FORMAT_VERSION
      rooms := (s.buildSnapshot fun _ => (instant, now)).map (·.2) })
    now fun _ _ => (instant, instant)

theorem mem_reloaded {w : World} (hb : Base w) {now : SystemTime} {instant : Instant}
    {room : RestoredRoom} :
    room ∈ w.server.reloaded now instant ↔ ∃ st, Live w.server st ∧
      (buildRoomDto (fun _ => (instant, now)) st).load now (fun _ _ => (instant, instant)) =
        some room := by
  have hnodup : (((w.server.buildSnapshot fun _ => (instant, now)).map (·.2)).map
      (·.sessionId)).Nodup := by
    rw [List.map_map]
    exact (buildSnapshot_sessionIds hb).nodup (AList.keys_nodup _)
  constructor
  · intro hroom
    obtain ⟨_, ⟨⟩, dto, hdto, hload⟩ := load_of_mem_loadSnapshot hroom
    obtain ⟨⟨r, dto⟩, hmem, rfl⟩ := List.mem_map.mp hdto
    obtain ⟨hr, st, hst, hopen, rfl⟩ := Server.mem_buildSnapshot.mp hmem
    obtain ⟨sid, hsid⟩ := AList.mem_values.mp hr
    exact ⟨st, ⟨sid, r, hsid, hst, hopen⟩, hload⟩
  · rintro ⟨st, ⟨sid, r, hsid, hst, hopen⟩, hload⟩
    have hr : r ∈ w.server.rooms.values := AList.mem_values.mpr ⟨sid, hsid⟩
    refine mem_loadRooms_of_nodup hnodup (List.mem_map.mpr ⟨(r, _), ?_, rfl⟩) hload
    exact Server.mem_buildSnapshot.mpr ⟨hr, st, hst, hopen, rfl⟩

/-- **Snapshot round trip.**  In every reachable state, if base64 decoding undoes the
    encoding of the verifiers and the clocks fit: what `load_snapshot` makes of the result of
    `build_snapshot` has one room for each registered room that is not closing and is fresh
    in whole milliseconds, with everything that was to be saved of it, and no other room. -/
theorem snapshot_round_trip {sys : RelaySys} (h : Reaches Always sys) {now : SystemTime}
    {instant : Instant} (hend : now < MILLIS_END)
    (hdecodes : ∀ st, Live sys.shared.server st → Decodes st)
    (hclocks : ∀ st, Live sys.shared.server st → ClocksFit now instant st) :
    ((sys.shared.server.reloaded now instant).map (·.sessionId)).Nodup ∧
    (∀ st, Live sys.shared.server st → st.Fresh now →
      ∃ room ∈ sys.shared.server.reloaded now instant, Restores st room) ∧
    ∀ room ∈ sys.shared.server.reloaded now instant,
      ∃ st, Live sys.shared.server st ∧ st.Fresh now ∧ Restores st room := by
  obtain ⟨hb, _⟩ := relay_base h
  have hchecked := relay_checked h
  refine ⟨loadSnapshot_nodup _ _ _, ?_, ?_⟩
  · intro st hlive hfresh
    have ⟨_, r, _, hst, hopen⟩ := hlive
    obtain ⟨hsession, hids⟩ := hchecked r st hst
    have hloadable : (buildRoomDto (fun _ => (instant, now)) st).Loadable :=
      loadable_of_saved (saved_eq _ hopen) rfl hsession hids (hb.wf hst).host_unreserved
        (hdecodes st hlive)
    obtain ⟨room, hroom⟩ : ∃ room, (buildRoomDto (fun _ => (instant, now)) st).load now
        (fun _ _ => (instant, instant)) = some room := hloadable.load_total hfresh
    have hrestores := restores_of_load hend (hdecodes st hlive) (hclocks st hlive) hroom
    exact ⟨room, (mem_reloaded hb).mpr ⟨st, hlive, hroom⟩, hrestores.2⟩
  · intro room hroom
    obtain ⟨st, hlive, hload⟩ := (mem_reloaded hb).mp hroom
    exact ⟨st, hlive, restores_of_load hend (hdecodes st hlive) (hclocks st hlive) hload⟩

omit [TokenCodec] in
/-- A state it speaks about: guest `b` has left its connection one and a half milliseconds
    after the origin of the monotonic clock. -/
theorem snapshot_round_trip_with_absent_guest : letI : TokenCodec := sampleCodec
    ∃ (sys : RelaySys) (st : RoomState), Reaches Always sys ∧ Live sys.shared.server st ∧
      (∃ res, st.Saves "b" res ∧ res.absentSince = some 1500000) ∧
      ∃ room ∈ sys.shared.server.reloaded 2000000 3000000, Restores st room := by
  let _ : TokenCodec := sampleCodec
  obtain ⟨sys, hreach, ⟨st, hst, hlookup, hopen, hfresh, res, hres, hidle, hsince⟩, hall⟩ :=
    reaches_of_run (C := Always)
      (P := fun sys =>
        (∃ st ∈ sys.shared.server.heap[0]?, sys.shared.server.rooms.lookup "s" = some 0 ∧
          st.closing = false ∧ st.Fresh 2000000 ∧ ∃ res ∈ st.reservations.lookup "b",
            res.releasePending = false ∧ res.absentSince = some 1500000) ∧
        ∀ st ∈ sys.shared.server.heap, Decodes st ∧
          ∀ entry ∈ st.reservations.entries, entry.2.absentSince = some 1500000)
      ((List.range 2).map (fun k => .start (.conn k) (.connect "ip")) ++
        handles 0 (message .create "s" "a" tokenOnes) 8 ++
        handles 1 (message .join "s" "b" tokenTwos) 5 ++
        .start (.conn 1) .hangup :: .act (.conn 1) { instants := fun _ => 1500000 } ::
        acts (.conn 1) 2)
      (by decide +kernel)
  have hmem : ∀ st, Live sys.shared.server st → st ∈ sys.shared.server.heap :=
    fun st ⟨_, _, _, hst, _⟩ => List.mem_of_getElem? hst
  have hdecodes : ∀ st, Live sys.shared.server st → Decodes st :=
    fun st hlive => (hall st (hmem st hlive)).1
  have hclocks : ∀ st, Live sys.shared.server st → ClocksFit 2000000 3000000 st := by
    intro st hlive
    have hsince : ∀ {p res since}, RoomState.Saves st p res → res.absentSince = some since →
        since = 1500000 := fun hres hsince => Option.some.inj (hsince.symm.trans
      ((hall st (hmem st hlive)).2 _ (AList.mem_entries_iff.mpr hres.1)))
    constructor
    · intro p res since hres heq
      rw [hsince hres heq]
      decide
    · intro p res since hres heq
      rw [hsince hres heq]
      decide
    · intro p res since hres heq
      rw [hsince hres heq]
      decide
  have hlive : Live sys.shared.server st := ⟨"s", 0, hlookup, hst, hopen⟩
  have htrip := snapshot_round_trip hreach (by decide) hdecodes hclocks
  exact ⟨sys, st, hreach, hlive, ⟨res, ⟨hres, hidle⟩, hsince⟩, htrip.2.1 st hlive hfresh⟩

end PlezyRelay
