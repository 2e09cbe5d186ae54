/-
  PlezyRelay/Snapshot.lean
  ========================
  **The snapshot format: what is saved of a room and what is taken back**
  (the data half of `snapshot.rs`, with `RoomState::restore`).

  Reading the file and parsing its JSON are the caller's: `loadSnapshot` starts
  from the parsed document, `none` when the file is missing or corrupt.  Its loop
  over the rooms keeps the source's order of checks, since a room only counts as
  seen once it has passed the checks before that point.

  The source reads the clocks anew for every reservation, so the readings are
  functions of the reservation's peer id.
-/
import Mathlib.Algebra.Group.Int.Defs
import Mathlib.Algebra.Group.Nat.Defs
import PlezyRelay.Room

namespace PlezyRelay

def SNAPSHOT_FORMAT_VERSION : Nat := 1

structure ReservationDto where
  verifier : String
  absentSinceMillis : Option Nat
deriving DecidableEq

structure RoomDto where
  sessionId : String
  hostPeerId : String
  hostVerifier : String
  protocolVersion : Nat
  reservations : AssocMap String ReservationDto
  createdAtMillis : Nat
  lastActivityAtMillis : Nat
deriving DecidableEq

structure StateSnapshotDto where
  version : Nat
  rooms : List RoomDto

structure RestoredReservation where
  verifier : Verifier
  absentSince : Option Instant

/-- A room read back from a snapshot file, validated. -/
structure RestoredRoom where
  sessionId : String
  hostPeerId : String
  hostVerifier : Verifier
  reservations : AssocMap String RestoredReservation
  createdAt : SystemTime
  lastActivityAt : SystemTime

/-! ### Times -/

/-- Milliseconds since the Unix epoch, as a `u64`; zero before the epoch. -/
def toMillis (t : SystemTime) : Nat := SystemTime.durationSince t 0 / 1000000 % 2 ^ 64

def fromMillis (ms : Nat) : SystemTime := (ms : Int) * 1000000

/-- `Instant::now().checked_sub(elapsed).unwrap_or_else(Instant::now)`, with the two
    readings it may take. -/
def restoredAbsence (readings : Instant × Instant) (elapsed : Duration) : Instant :=
  if elapsed ≤ readings.1 then readings.1 - elapsed else readings.2

section Codec

variable [TokenCodec]

/-! ### Loading -/

/-- The checks on a saved room that come before the duplicate test; on success the
    host's verifier. -/
def checkRoomDto (now : SystemTime) (room : RoomDto) : Option Verifier :=
  if !validSessionAndPeerId room.sessionId room.hostPeerId then none
  else if MAX_SESSION_ID_LENGTH < room.sessionId.utf8ByteSize ∨
      MAX_PEER_ID_LENGTH < room.hostPeerId.utf8ByteSize then none
  else if !supportedProtocolVersion room.protocolVersion then none
  else
    match Verifier.fromEncoded room.hostVerifier with
    | none => none
    | some hostVerifier =>
        let age := now.durationSince (fromMillis room.createdAtMillis)
        let idle := now.durationSince (fromMillis room.lastActivityAtMillis)
        if ROOM_MAX_AGE < age ∨ EMPTY_ROOM_MAX_AGE < idle then none else some hostVerifier

/-- The loop over one room's reservations; `none` as soon as one is invalid. -/
def loadReservations (now : SystemTime) (clock : String → Instant × Instant)
    (sessionId hostPeerId : String) :
    List (Sigma fun _ : String => ReservationDto) → AssocMap String RestoredReservation →
      Option (AssocMap String RestoredReservation)
  | [], reservations => some reservations
  | ⟨peerId, r⟩ :: rest, reservations =>
      if !validSessionAndPeerId sessionId peerId || decide (peerId = hostPeerId) then none
      else
        match Verifier.fromEncoded r.verifier with
        | none => none
        | some verifier =>
            let absentSince := r.absentSinceMillis.map fun ms =>
              restoredAbsence (clock peerId) (now.durationSince (fromMillis ms))
            loadReservations now clock sessionId hostPeerId rest
              (reservations.insert peerId { verifier := verifier, absentSince := absentSince })

/-- The loop over the saved rooms, with the session ids seen so far. -/
def loadRooms (now : SystemTime) (clock : String → String → Instant × Instant) :
    List String → List RoomDto → List RestoredRoom
  | _, [] => []
  | seen, room :: rest =>
      match checkRoomDto now room with
      | none => loadRooms now clock seen rest
      | some hostVerifier =>
          if room.sessionId ∈ seen then loadRooms now clock seen rest
          else
            match loadReservations now (clock room.sessionId) room.sessionId room.hostPeerId
                room.reservations.entries ∅ with
            | none => loadRooms now clock (room.sessionId :: seen) rest
            | some reservations =>
                { sessionId := room.sessionId
                  hostPeerId := room.hostPeerId
                  hostVerifier := hostVerifier
                  reservations := reservations
                  createdAt := fromMillis room.createdAtMillis
                  lastActivityAt := fromMillis room.lastActivityAtMillis } ::
                loadRooms now clock (room.sessionId :: seen) rest

def loadSnapshot (file : Option StateSnapshotDto) (now : SystemTime)
    (clock : String → String → Instant × Instant) : List RestoredRoom :=
  match file with
  | none => []
  | some dto =>
      if dto.version ≠ SNAPSHOT_FORMAT_VERSION then [] else loadRooms now clock [] dto.rooms

/-- A room taken back at startup: nobody is connected. -/
def RoomState.restore (sessionId hostPeerId : String) (hostVerifier : Verifier)
    (ownerIpKey : String) (reservations : AssocMap String RestoredReservation)
    (createdAt lastActivityAt : SystemTime) : RoomState :=
  { sessionId := sessionId
    hostPeerId := hostPeerId
    hostVerifier := hostVerifier
    peers := ∅
    reservations := reservations.mapValues fun _ r =>
      { verifier := r.verifier, absentSince := r.absentSince, releasePending := false }
    ownerIpKey := ownerIpKey
    createdAt := createdAt
    lastActivityAt := lastActivityAt
    closing := false
    nextConnId := 1 }

/-- `Registry::restore` gives a restored room the empty owner key. -/
def RestoredRoom.state (r : RestoredRoom) : RoomState :=
  RoomState.restore r.sessionId r.hostPeerId r.hostVerifier "" r.reservations r.createdAt
    r.lastActivityAt

/-! ### Saving -/

/-- What is saved of one reservation, at the two clock readings taken for it. -/
def reservationDto (readings : Instant × SystemTime) (r : PeerReservation) : ReservationDto :=
  { verifier := r.verifier.encode
    absentSinceMillis := r.absentSince.map fun instant =>
      toMillis (readings.2 - (readings.1.saturatingDurationSince instant : Nat)) }

/-- The saved form of a room; reservations pending release are left out. -/
def buildRoomDto (clock : String → Instant × SystemTime) (state : RoomState) : RoomDto :=
  { sessionId := state.sessionId
    hostPeerId := state.hostPeerId
    hostVerifier := state.hostVerifier.encode
    protocolVersion := RELAY_PROTOCOL_VERSION
    reservations := (state.reservations.retain fun _ r => !r.releasePending).mapValues
      fun peerId r => reservationDto (clock peerId) r
    createdAtMillis := toMillis state.createdAt
    lastActivityAtMillis := toMillis state.lastActivityAt }

/-! ### What an entry says about a room -/

/-- An entry without its timestamps. -/
structure RoomCore where
  sessionId : String
  hostPeerId : String
  hostVerifier : String
  /-- The verifier of each reserved peer id. -/
  reservations : String → Option String

def RoomDto.core (d : RoomDto) : RoomCore :=
  { sessionId := d.sessionId
    hostPeerId := d.hostPeerId
    hostVerifier := d.hostVerifier
    reservations := fun p => (d.reservations.lookup p).map (·.verifier) }

/-- What a snapshot taken now would say about the room; nothing once it is closing. -/
def RoomState.saved (st : RoomState) : Option RoomCore :=
  if st.closing then none
  else some
    { sessionId := st.sessionId
      hostPeerId := st.hostPeerId
      hostVerifier := st.hostVerifier.encode
      reservations := fun p => (st.reservations.lookup p).bind fun res =>
        if res.releasePending then none else some res.verifier.encode }

/-- Saving does not depend on the clocks, timestamps aside. -/
theorem saved_eq (clock : String → Instant × SystemTime) {st : RoomState}
    (hopen : st.closing = false) : st.saved = some (buildRoomDto clock st).core := by
  have hres : ∀ p, ((buildRoomDto clock st).reservations.lookup p).map (·.verifier) =
      (st.reservations.lookup p).bind fun res =>
        if res.releasePending then none else some res.verifier.encode := by
    intro p
    simp only [buildRoomDto, AList.lookup_mapValues, AList.lookup_retain]
    rcases st.reservations.lookup p with _ | res
    · rfl
    · cases hpending : res.releasePending <;> simp [Option.filter, hpending, reservationDto]
  simp only [RoomState.saved, hopen, RoomDto.core, hres]
  rfl

theorem saved_of_closing {st : RoomState} (h : st.closing = true) : st.saved = none := by
  simp [RoomState.saved, h]

theorem saved_eq_some (clock : String → Instant × SystemTime) {st : RoomState} {c : RoomCore} :
    st.saved = some c ↔ st.closing = false ∧ (buildRoomDto clock st).core = c := by
  cases hclosing : st.closing with
  | true => simp [saved_of_closing hclosing]
  | false => simp [saved_eq clock hclosing]

/-! ### What the loader accepts -/

/-- A saved reservation taken back, at the clock readings for its peer id. -/
def ReservationDto.load (now : SystemTime) (readings : Instant × Instant) (r : ReservationDto) :
    Option RestoredReservation :=
  (Verifier.fromEncoded r.verifier).map fun verifier =>
    { verifier := verifier
      absentSince := r.absentSinceMillis.map fun ms =>
        restoredAbsence readings (now.durationSince (fromMillis ms)) }

/-- A saved room taken back, if no room before it had its session id. -/
def RoomDto.load (now : SystemTime) (clock : String → String → Instant × Instant)
    (room : RoomDto) : Option RestoredRoom :=
  (checkRoomDto now room).bind fun hostVerifier =>
    (loadReservations now (clock room.sessionId) room.sessionId room.hostPeerId
        room.reservations.entries ∅).map fun reservations =>
      { sessionId := room.sessionId
        hostPeerId := room.hostPeerId
        hostVerifier := hostVerifier
        reservations := reservations
        createdAt := fromMillis room.createdAtMillis
        lastActivityAt := fromMillis room.lastActivityAtMillis }

/-- A reservation that does not make the loader drop its room. -/
structure Acceptable (sessionId hostPeerId peerId : String) (r : ReservationDto) : Prop where
  ids : validSessionAndPeerId sessionId peerId = true
  ne_host : peerId ≠ hostPeerId
  verifier : ∃ v, Verifier.fromEncoded r.verifier = some v

/-- A saved room that is neither too old nor idle for too long. -/
def RoomDto.Fresh (now : SystemTime) (room : RoomDto) : Prop :=
  now.durationSince (fromMillis room.createdAtMillis) ≤ ROOM_MAX_AGE ∧
    now.durationSince (fromMillis room.lastActivityAtMillis) ≤ EMPTY_ROOM_MAX_AGE

/-- A saved room the loader takes back as long as it is fresh. -/
structure RoomDto.Loadable (room : RoomDto) : Prop where
  ids : validSessionAndPeerId room.sessionId room.hostPeerId = true
  version : supportedProtocolVersion room.protocolVersion = true
  verifier : ∃ v, Verifier.fromEncoded room.hostVerifier = some v
  reservations : ∀ {p : String} {r : ReservationDto}, room.reservations.lookup p = some r →
    Acceptable room.sessionId room.hostPeerId p r

/-- What a room taken back has from its saved form. -/
structure RoomDto.LoadsAs (now : SystemTime) (clock : String → String → Instant × Instant)
    (dto : RoomDto) (room : RestoredRoom) : Prop where
  sessionId : room.sessionId = dto.sessionId
  hostPeerId : room.hostPeerId = dto.hostPeerId
  hostVerifier : Verifier.fromEncoded dto.hostVerifier = some room.hostVerifier
  createdAt : room.createdAt = fromMillis dto.createdAtMillis
  lastActivityAt : room.lastActivityAt = fromMillis dto.lastActivityAtMillis
  reservations : ∀ p, room.reservations.lookup p =
    (dto.reservations.lookup p).bind (ReservationDto.load now (clock dto.sessionId p))

section Loader

variable {now : SystemTime}

/-- The checks on a saved room, all at once. -/
theorem checkRoomDto_eq_some {dto : RoomDto} {v : Verifier} :
    checkRoomDto now dto = some v ↔
      validSessionAndPeerId dto.sessionId dto.hostPeerId = true ∧
      supportedProtocolVersion dto.protocolVersion = true ∧
      Verifier.fromEncoded dto.hostVerifier = some v ∧ dto.Fresh now := by
  have hsizes : validSessionAndPeerId dto.sessionId dto.hostPeerId = true →
      ¬(MAX_SESSION_ID_LENGTH < dto.sessionId.utf8ByteSize ∨
        MAX_PEER_ID_LENGTH < dto.hostPeerId.utf8ByteSize) := by
    intro hids
    obtain ⟨hsession, hpeer⟩ := (Bool.and_eq_true _ _).mp hids
    exact not_or.mpr ⟨(size_le_of_validId hsession).not_gt, (size_le_of_validId hpeer).not_gt⟩
  unfold checkRoomDto RoomDto.Fresh
  constructor
  · intro h
    split at h
    · cases h
    · rename_i hids
      split at h
      · cases h
      · split at h
        · cases h
        · rename_i hversion
          split at h
          · cases h
          · rename_i v' hv
            simp only at h
            split at h
            · cases h
            · rename_i hfresh
              cases h
              simp only [not_or, not_lt] at hfresh
              exact ⟨by simpa using hids, by simpa using hversion, hv, hfresh⟩
  · rintro ⟨hids, hversion, hv, hage, hidle⟩
    simp [hids, hsizes hids, hversion, hv, hage.not_gt, hidle.not_gt]

theorem loadReservations_cons {clock : String → Instant × Instant} {sessionId hostPeerId peerId : String}
    {r : ReservationDto} {rest : List (Sigma fun _ : String => ReservationDto)}
    {acc loaded : AssocMap String RestoredReservation}
    (h : loadReservations now clock sessionId hostPeerId (⟨peerId, r⟩ :: rest) acc = some loaded) :
    Acceptable sessionId hostPeerId peerId r ∧ ∃ restored, r.load now (clock peerId) = some restored ∧
      loadReservations now clock sessionId hostPeerId rest (acc.insert peerId restored) =
        some loaded := by
  simp only [loadReservations] at h
  split at h
  · cases h
  · rename_i hids
    simp only [Bool.or_eq_true, Bool.not_eq_true', decide_eq_true_eq, not_or,
      Bool.not_eq_false] at hids
    split at h
    · cases h
    · rename_i v hv
      refine ⟨⟨hids.1, hids.2, v, hv⟩, _, ?_, h⟩
      rw [ReservationDto.load, hv, Option.map_some]

/-- What the loader makes of the reservations of a room it does not drop. -/
theorem loadReservations_spec {clock : String → Instant × Instant} {sessionId hostPeerId : String}
    {entries : List (Sigma fun _ : String => ReservationDto)} (hkeys : entries.NodupKeys)
    {acc loaded : AssocMap String RestoredReservation}
    (h : loadReservations now clock sessionId hostPeerId entries acc = some loaded) :
    (∀ entry ∈ entries, Acceptable sessionId hostPeerId entry.1 entry.2) ∧
      ∀ p, loaded.lookup p =
        ((entries.dlookup p).bind (ReservationDto.load now (clock p))).or (acc.lookup p) := by
  induction entries generalizing acc with
  | nil =>
      cases h
      exact ⟨nofun, fun p => rfl⟩
  | cons entry rest ih =>
      obtain ⟨peerId, r⟩ := entry
      rw [List.nodupKeys_cons] at hkeys
      obtain ⟨hok, restored, hrestored, hrest⟩ := loadReservations_cons h
      obtain ⟨hall, hlookup⟩ := ih hkeys.2 hrest
      constructor
      · intro entry hentry
        rcases List.mem_cons.mp hentry with rfl | hentry
        · exact hok
        · exact hall entry hentry
      · intro p
        rw [hlookup p, AList.lookup_insert_eq]
        by_cases hp : p = peerId
        · subst hp
          simp [List.dlookup_eq_none.mpr hkeys.1, hrestored]
        · rw [List.dlookup_cons_ne _ _ hp, if_neg hp]

theorem loadReservations_total {clock : String → Instant × Instant} {sessionId hostPeerId : String}
    {entries : List (Sigma fun _ : String => ReservationDto)}
    (hok : ∀ entry ∈ entries, Acceptable sessionId hostPeerId entry.1 entry.2)
    (acc : AssocMap String RestoredReservation) :
    ∃ loaded, loadReservations now clock sessionId hostPeerId entries acc = some loaded := by
  induction entries generalizing acc with
  | nil => exact ⟨acc, rfl⟩
  | cons entry rest ih =>
      obtain ⟨hids, hhost, v, hv⟩ := hok entry List.mem_cons_self
      have hrest := ih fun entry hentry => hok entry (List.mem_cons_of_mem _ hentry)
      simp only [loadReservations, hids, hhost, hv, Bool.not_true, decide_false, Bool.or_self]
      exact hrest _

variable {clock : String → String → Instant × Instant}

theorem RoomDto.load_spec {dto : RoomDto} {room : RestoredRoom}
    (h : dto.load now clock = some room) :
    dto.Loadable ∧ dto.Fresh now ∧ dto.LoadsAs now clock room := by
  obtain ⟨v, hcheck, hload⟩ := Option.bind_eq_some_iff.mp h
  obtain ⟨loaded, hloaded, rfl⟩ := Option.map_eq_some_iff.mp hload
  obtain ⟨hids, hversion, hv, hfresh⟩ := checkRoomDto_eq_some.mp hcheck
  obtain ⟨hall, hlookup⟩ := loadReservations_spec dto.reservations.nodupKeys hloaded
  refine ⟨⟨hids, hversion, ⟨v, hv⟩, ?_⟩, hfresh, ⟨rfl, rfl, hv, rfl, rfl, ?_⟩⟩
  · intro p r hr
    exact hall ⟨p, r⟩ (AList.mem_entries_iff.mpr hr)
  · intro p
    rw [hlookup p, AList.lookup_empty, Option.or_none]
    rfl

/-- Only saved reservations are taken back. -/
theorem RoomDto.LoadsAs.saved {dto : RoomDto} {room : RestoredRoom}
    (h : dto.LoadsAs now clock room) {p : String} (hp : p ∈ room.reservations) :
    ∃ r, dto.reservations.lookup p = some r := by
  obtain ⟨restored, hrestored⟩ := AList.mem_iff_lookup.mp hp
  rw [h.reservations p] at hrestored
  obtain ⟨r, hr, _⟩ := Option.bind_eq_some_iff.mp hrestored
  exact ⟨r, hr⟩

/-- No saved reservation is lost on the way, so there are as many as in the file. -/
theorem RoomDto.LoadsAs.size_eq {dto : RoomDto} {room : RestoredRoom}
    (h : dto.LoadsAs now clock room) (hloadable : dto.Loadable) :
    room.reservations.size = dto.reservations.size := by
  apply AList.size_eq_of_mem_iff
  intro p
  constructor
  · intro hp
    exact AList.mem_iff_lookup.mpr (h.saved hp)
  · intro hp
    obtain ⟨r, hr⟩ := AList.mem_iff_lookup.mp hp
    obtain ⟨v, hv⟩ := (hloadable.reservations hr).verifier
    rw [AList.mem_iff_lookup, h.reservations p, hr, Option.bind_some, ReservationDto.load, hv]
    exact ⟨_, rfl⟩

/-- A room that can be loaded is taken back exactly when it is fresh. -/
theorem RoomDto.Loadable.load_total {dto : RoomDto} (h : dto.Loadable) (hfresh : dto.Fresh now) :
    ∃ room, dto.load now clock = some room := by
  obtain ⟨v, hv⟩ := h.verifier
  have hcheck := checkRoomDto_eq_some.mpr ⟨h.ids, h.version, hv, hfresh⟩
  have hok : ∀ entry ∈ dto.reservations.entries,
      Acceptable dto.sessionId dto.hostPeerId entry.1 entry.2 :=
    fun entry hentry => h.reservations (AList.mem_entries_iff.mp hentry)
  obtain ⟨loaded, hloaded⟩ := loadReservations_total hok ∅
  rw [RoomDto.load, hcheck, Option.bind_some, hloaded, Option.map_some]
  exact ⟨_, rfl⟩

/-- Only which ids have been seen matters. -/
theorem loadRooms_congr {seen seen' : List String} {dtos : List RoomDto}
    (h : ∀ sid, sid ∈ seen ↔ sid ∈ seen') :
    loadRooms now clock seen dtos = loadRooms now clock seen' dtos := by
  induction dtos generalizing seen seen' with
  | nil => rfl
  | cons dto rest ih =>
      have hcons : ∀ sid, sid ∈ dto.sessionId :: seen ↔ sid ∈ dto.sessionId :: seen' := by
        simp [h]
      simp only [loadRooms, h, ih h, ih hcons]

/-- One round of the loop: the next room is taken back if it passes all checks, and its
    session id counts as seen from the duplicate test on. -/
theorem mem_loadRooms_cons {seen : List String} {dto : RoomDto} {rest : List RoomDto}
    {room : RestoredRoom} :
    room ∈ loadRooms now clock seen (dto :: rest) ↔
      (dto.load now clock = some room ∧ dto.sessionId ∉ seen) ∨
      room ∈ loadRooms now clock
        (if (checkRoomDto now dto).isSome then dto.sessionId :: seen else seen) rest := by
  have hseen : dto.sessionId ∈ seen →
      loadRooms now clock (dto.sessionId :: seen) rest = loadRooms now clock seen rest :=
    fun hmem => loadRooms_congr fun sid => by
      simp only [List.mem_cons, or_iff_right_iff_imp]
      rintro rfl
      exact hmem
  cases hcheck : checkRoomDto now dto with
  | none => simp [loadRooms, RoomDto.load, hcheck]
  | some v =>
      by_cases hmem : dto.sessionId ∈ seen
      · simp [loadRooms, hcheck, hmem, hseen hmem]
      · cases hloaded : loadReservations now (clock dto.sessionId) dto.sessionId dto.hostPeerId
          dto.reservations.entries ∅ with
        | none => simp [loadRooms, RoomDto.load, hcheck, hmem, hloaded]
        | some loaded =>
            simp [loadRooms, RoomDto.load, hcheck, hmem, hloaded, eq_comm]

/-- A room is taken back if it is the first of its session to pass the checks. -/
theorem mem_loadRooms {seen : List String} {dtos : List RoomDto} {room : RestoredRoom} :
    room ∈ loadRooms now clock seen dtos ↔
      ∃ earlier dto later, dtos = earlier ++ dto :: later ∧ dto.load now clock = some room ∧
        dto.sessionId ∉ seen ∧
        ∀ d ∈ earlier, d.sessionId = dto.sessionId → checkRoomDto now d = none := by
  induction dtos generalizing seen with
  | nil => simp [loadRooms]
  | cons first rest ih =>
      rw [mem_loadRooms_cons, ih]
      constructor
      · rintro (⟨hload, hnew⟩ | ⟨earlier, dto, later, rfl, hload, hnew, hfailed⟩)
        · exact ⟨[], first, rest, rfl, hload, hnew, nofun⟩
        · refine ⟨first :: earlier, dto, later, rfl, hload, ?_, ?_⟩
          · intro hmem
            apply hnew
            split
            · exact List.mem_cons_of_mem _ hmem
            · exact hmem
          · intro d hd hsid
            rcases List.mem_cons.mp hd with rfl | hd
            · by_contra hsome
              rw [if_pos (Option.isSome_iff_ne_none.mpr hsome), ← hsid] at hnew
              exact hnew List.mem_cons_self
            · exact hfailed d hd hsid
      · rintro ⟨earlier, dto, later, hdtos, hload, hnew, hfailed⟩
        cases earlier with
        | nil =>
            cases hdtos
            exact Or.inl ⟨hload, hnew⟩
        | cons d earlier =>
            cases hdtos
            refine Or.inr ⟨earlier, dto, later, rfl, hload, ?_, fun d hd =>
              hfailed d (List.mem_cons_of_mem _ hd)⟩
            split
            · rename_i hsome
              intro hmem
              rcases List.mem_cons.mp hmem with hsid | hmem
              · rw [hfailed first List.mem_cons_self hsid.symm] at hsome
                cases hsome
              · exact hnew hmem
            · exact hnew

/-- A session whose entries can all be loaded is taken back from one of them. -/
theorem exists_mem_loadRooms {dtos : List RoomDto} {sid : String}
    (hsome : ∃ dto ∈ dtos, dto.sessionId = sid)
    (hall : ∀ dto ∈ dtos, dto.sessionId = sid → ∃ room, dto.load now clock = some room) :
    ∃ dto ∈ dtos, dto.sessionId = sid ∧
      ∃ room ∈ loadRooms now clock [] dtos, dto.load now clock = some room := by
  obtain ⟨first, hfirst⟩ : ∃ first, dtos.find? (fun dto => dto.sessionId = sid) = some first := by
    rw [← Option.isSome_iff_exists, List.find?_isSome]
    simpa using hsome
  obtain ⟨hsid, earlier, later, hdtos, hearlier⟩ := List.find?_eq_some_iff_append.mp hfirst
  have hsid : first.sessionId = sid := by simpa using hsid
  have hmem : first ∈ dtos := by simp [hdtos]
  obtain ⟨room, hroom⟩ := hall first hmem hsid
  refine ⟨first, hmem, hsid, room, mem_loadRooms.mpr ⟨earlier, first, later, hdtos, hroom,
    List.not_mem_nil, fun d hd heq => ?_⟩, hroom⟩
  have hne : d.sessionId ≠ sid := by simpa using hearlier d hd
  exact absurd (heq.trans hsid) hne

/-- Of rooms with distinct session ids each is judged by itself. -/
theorem mem_loadRooms_of_nodup {dtos : List RoomDto} {dto : RoomDto} {room : RestoredRoom}
    (hnodup : (dtos.map (·.sessionId)).Nodup) (hdto : dto ∈ dtos)
    (hload : dto.load now clock = some room) : room ∈ loadRooms now clock [] dtos := by
  have hunique : ∀ d ∈ dtos, d.sessionId = dto.sessionId → d = dto :=
    fun d hd hsid => List.inj_on_of_nodup_map hnodup hd hdto hsid
  obtain ⟨d, hd, hsid, room', hroom', hload'⟩ := exists_mem_loadRooms ⟨dto, hdto, rfl⟩
    fun d hd hsid => ⟨room, (hunique d hd hsid) ▸ hload⟩
  rw [hunique d hd hsid] at hload'
  rwa [Option.some.inj (hload.symm.trans hload')]

/-- A room is taken back from a file of this version if it is the first of its session to
    pass the checks. -/
theorem mem_loadSnapshot {file : Option StateSnapshotDto} {room : RestoredRoom} :
    room ∈ loadSnapshot file now clock ↔
      ∃ saved ∈ file, saved.version = SNAPSHOT_FORMAT_VERSION ∧
        ∃ earlier dto later, saved.rooms = earlier ++ dto :: later ∧ dto.load now clock = some room ∧
          ∀ d ∈ earlier, d.sessionId = dto.sessionId → checkRoomDto now d = none := by
  cases file with
  | none => simp [loadSnapshot]
  | some saved =>
      by_cases hversion : saved.version = SNAPSHOT_FORMAT_VERSION
      · simp [loadSnapshot, hversion, mem_loadRooms]
      · simp [loadSnapshot, hversion]

theorem load_of_mem_loadSnapshot {file : Option StateSnapshotDto} {room : RestoredRoom}
    (h : room ∈ loadSnapshot file now clock) :
    ∃ dto ∈ file, ∃ saved ∈ dto.rooms, saved.load now clock = some room := by
  obtain ⟨dto, hfile, _, earlier, saved, later, hrooms, hload, _⟩ := mem_loadSnapshot.mp h
  exact ⟨dto, hfile, saved, by simp [hrooms], hload⟩

end Loader

end Codec

end PlezyRelay
