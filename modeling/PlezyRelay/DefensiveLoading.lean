/-
  PlezyRelay/DefensiveLoading.lean
  ================================
  **What the loader's checks guarantee of a restored room, and for how long.**

  The state file is arbitrary input.  The loader's checks carry over to the room they
  let through: its ids are valid and the host is not among the reservations.  What it
  does not check is how many reservations there are.  The capacity test of
  `join_or_resume` only applies to new identities, so a room restored with more than
  `MAX_ROOM_SIZE - 1` of them can be overfilled by resumes alone;
  `loadSnapshot_keeps_limits_iff` says that this is the only way past the limits.

  The second half is about the age limit.  A sweep visits every registered room, and
  one that is past its age when the sweep looks at it has left the table when the
  sweep is done, whatever the other tasks do meanwhile (`relay_evicted`).  The age is
  a saturating difference, so this is of no help against a creation time that lies in
  the future: such a room stays as long as the file says.
-/
import PlezyRelay.RelaySafe

namespace PlezyRelay

open Machine

variable [TokenCodec]

/-! ### The limits of a restored room -/

/-- The limits of a room as it is taken back. -/
structure RestoredRoom.WithinLimits (room : RestoredRoom) : Prop where
  sessionId : validId room.sessionId MAX_SESSION_ID_LENGTH = true
  hostPeerId : validId room.hostPeerId MAX_PEER_ID_LENGTH = true
  reservations : ∀ p ∈ room.reservations, validId p MAX_PEER_ID_LENGTH = true
  host_unreserved : room.hostPeerId ∉ room.reservations
  capacity : room.reservations.size ≤ MAX_ROOM_SIZE - 1

/-- A saved room that passes the checks made before its reservations are looked at. -/
structure RoomDto.Passes (now : SystemTime) (dto : RoomDto) : Prop where
  ids : validSessionAndPeerId dto.sessionId dto.hostPeerId = true
  version : supportedProtocolVersion dto.protocolVersion = true
  verifier : ∃ v, Verifier.fromEncoded dto.hostVerifier = some v
  fresh : dto.Fresh now

/-- A start at `now` takes back the saved room: it is the first one of its session that
    passes the checks, and its reservations pass theirs. -/
def StateSnapshotDto.Takes (now : SystemTime) (file : StateSnapshotDto) (dto : RoomDto) : Prop :=
  file.version = SNAPSHOT_FORMAT_VERSION ∧
    ∃ earlier later, file.rooms = earlier ++ dto :: later ∧ dto.Loadable ∧ dto.Fresh now ∧
      ∀ d ∈ earlier, d.sessionId = dto.sessionId → ¬d.Passes now

/-- No saved room that a start at `now` takes back has more reservations than there are
    places for guests. -/
def StateSnapshotDto.ReservationsFit (now : SystemTime) (file : StateSnapshotDto) : Prop :=
  ∀ dto, file.Takes now dto → dto.reservations.size ≤ MAX_ROOM_SIZE - 1

section Limits

variable {now : SystemTime} {clock : String → String → Instant × Instant}
  {file : Option StateSnapshotDto} {room : RestoredRoom}

theorem RoomDto.not_passes_iff {dto : RoomDto} : ¬dto.Passes now ↔ checkRoomDto now dto = none := by
  rw [← not_iff_not, not_not, ← ne_eq, Option.ne_none_iff_exists']
  constructor
  · rintro ⟨hids, hversion, ⟨v, hv⟩, hfresh⟩
    exact ⟨v, checkRoomDto_eq_some.mpr ⟨hids, hversion, hv, hfresh⟩⟩
  · rintro ⟨v, hcheck⟩
    obtain ⟨hids, hversion, hv, hfresh⟩ := checkRoomDto_eq_some.mp hcheck
    exact ⟨hids, hversion, ⟨v, hv⟩, hfresh⟩

theorem StateSnapshotDto.Takes.loaded {saved : StateSnapshotDto} {dto : RoomDto}
    (h : saved.Takes now dto) (clock : String → String → Instant × Instant) :
    ∃ room ∈ loadSnapshot (some saved) now clock, dto.load now clock = some room := by
  obtain ⟨hversion, earlier, later, hrooms, hloadable, hfresh, hfailed⟩ := h
  obtain ⟨room, hload⟩ : ∃ room, dto.load now clock = some room := hloadable.load_total hfresh
  exact ⟨room, mem_loadSnapshot.mpr ⟨saved, rfl, hversion, earlier, dto, later, hrooms, hload,
    fun d hd hsid => RoomDto.not_passes_iff.mp (hfailed d hd hsid)⟩, hload⟩

theorem takes_of_loaded (h : room ∈ loadSnapshot file now clock) :
    ∃ saved ∈ file, ∃ dto, saved.Takes now dto ∧ dto.load now clock = some room := by
  obtain ⟨saved, hsaved, hversion, earlier, dto, later, hrooms, hload, hfailed⟩ :=
    mem_loadSnapshot.mp h
  obtain ⟨hloadable, hfresh, _⟩ := RoomDto.load_spec hload
  exact ⟨saved, hsaved, dto, ⟨hversion, earlier, later, hrooms, hloadable, hfresh,
    fun d hd hsid => RoomDto.not_passes_iff.mpr (hfailed d hd hsid)⟩, hload⟩

theorem restored_peers_size_le (h : room ∈ loadSnapshot file now clock)
    (hfits : room.reservations.size ≤ MAX_ROOM_SIZE - 1) (ops : List (RoomOp × Readings)) :
    (room.state.runOps ops).peers.size ≤ MAX_ROOM_SIZE := by
  have hstart : Membership room.state ∧ room.state.reservations.size ≤ MAX_ROOM_SIZE - 1 := by
    refine ⟨(Origin.restored file now clock room h).membership, ?_⟩
    simp only [RestoredRoom.state, RoomState.restore, AList.size_mapValues]
    exact hfits
  obtain ⟨hmember, hcapacity⟩ :
      Membership (room.state.runOps ops) ∧
        (room.state.runOps ops).reservations.size ≤ MAX_ROOM_SIZE - 1 := by
    apply RoomState.runOps_induction
      (P := fun st => Membership st ∧ st.reservations.size ≤ MAX_ROOM_SIZE - 1) ops hstart
    rintro st st' ⟨hm, hcap⟩ hstep
    exact ⟨hm.change hstep, capacity_change hm hcap hstep⟩
  have hpeers := hmember.peers_size_le
  simp only [MAX_ROOM_SIZE] at hcapacity ⊢
  omega

theorem withinLimits_iff (h : room ∈ loadSnapshot file now clock) :
    room.WithinLimits ↔ room.reservations.size ≤ MAX_ROOM_SIZE - 1 := by
  obtain ⟨hsession, hids⟩ := validIds_of_loaded h
  constructor
  · intro hlimits
    exact hlimits.capacity
  · intro hcapacity
    refine ⟨hsession, hids _ (Or.inl rfl), ?_, host_notMem_loadSnapshot h, hcapacity⟩
    intro p hp
    exact hids p (Or.inr (Or.inr (AList.mem_mapValues.mpr hp)))

end Limits

/-- **The room limits after a start.**  The loader gives back pairwise distinct session
    ids and only rooms within the limits, which no later sequence of operations fills
    beyond `MAX_ROOM_SIZE` connected peers, exactly if no saved room that it takes back has
    too many reservations. -/
theorem loadSnapshot_keeps_limits_iff (file : Option StateSnapshotDto) (now : SystemTime)
    (clock : String → String → Instant × Instant) :
    (((loadSnapshot file now clock).map (·.sessionId)).Nodup ∧
      ∀ room ∈ loadSnapshot file now clock, room.WithinLimits ∧
        ∀ ops, (room.state.runOps ops).peers.size ≤ MAX_ROOM_SIZE) ↔
    ∀ saved ∈ file, saved.ReservationsFit now := by
  constructor
  · rintro ⟨_, hlimits⟩ saved hsaved dto htakes
    obtain rfl := Option.mem_def.mp hsaved
    obtain ⟨room, hroom, hload⟩ := htakes.loaded clock
    obtain ⟨hloadable, _, hloads⟩ := RoomDto.load_spec hload
    rw [← hloads.size_eq hloadable]
    exact (hlimits room hroom).1.capacity
  · intro hfits
    refine ⟨loadSnapshot_nodup file now clock, fun room hroom => ?_⟩
    have hcapacity : room.reservations.size ≤ MAX_ROOM_SIZE - 1 := by
      obtain ⟨saved, hsaved, dto, htakes, hload⟩ := takes_of_loaded hroom
      obtain ⟨hloadable, _, hloads⟩ := RoomDto.load_spec hload
      rw [hloads.size_eq hloadable]
      exact hfits saved hsaved dto htakes
    exact ⟨(withinLimits_iff hroom).mpr hcapacity, restored_peers_size_le hroom hcapacity⟩

/-- A saved room of host `a` with these reservations, all under the second token, created and
    last active at the given time. -/
def savedRoom (guests : List String) (millis : Nat) : RoomDto :=
  { sessionId := "s"
    hostPeerId := "a"
    hostVerifier := Verifier.encode ⟨digestOnes⟩
    protocolVersion := RELAY_PROTOCOL_VERSION
    reservations := guests.foldl
      (fun reservations p => reservations.insert p
        { verifier := Verifier.encode ⟨digestTwos⟩, absentSinceMillis := none }) ∅
    createdAtMillis := millis
    lastActivityAtMillis := millis }

omit [TokenCodec] in
/-- A file with eight guests in one room, all of whom then resume, and so does the host. -/
theorem restored_room_overfull : letI : TokenCodec := sampleCodec
    let guests := ["b", "c", "d", "e", "f", "g", "h", "i"]
    let rd : Readings := { now := 0, instants := fun _ => 0, token := ⟨0⟩ }
    let resume (token p : String) : RoomOp × Readings :=
      (.joinOrResume (message .resume "s" p token)
        { peerId := p, tx := 0, syncProtocolVersion := 0, hostTransferCapable := false } true, rd)
    ∃ room ∈ loadSnapshot (some ⟨SNAPSHOT_FORMAT_VERSION, [savedRoom guests 0]⟩) 0
        fun _ _ => (0, 0),
      room.reservations.size = 8 ∧
      (room.state.runOps (resume tokenOnes "a" :: guests.map (resume tokenTwos))).peers.size =
        9 := by
  decide +kernel

/-! ### A sweep in progress -/

/-- A sweep at `limit` finds the room past its age. -/
def Aged (r : RoomId) (limit : SystemTime) (w : World) : Prop :=
  ∃ st, w.server.heap[r]? = some st ∧ ROOM_MAX_AGE < st.age limit

/-- If the room is still registered, a sweep that has these rooms left comes to it. -/
def Unvisited (r : RoomId) (todo : List RoomId) (w : World) : Prop :=
  ∀ sid, w.server.rooms.lookup sid = some r → r ∈ todo

/-- The logic that proves that a sweep at `limit` removes `r`. -/
def eviction (r : RoomId) (limit : SystemTime) : relay.Logic where
  inv w := Base w ∧ Aged r limit w
  assume := Legal

section Sweep

variable {r : RoomId} {limit : SystemTime} {todo : List RoomId} {w w' : World} {t : Tid}

theorem Aged.next (h : Aged r limit w) (hnext : World.Next w w') : Aged r limit w' := by
  obtain ⟨st, hst, hage⟩ := h
  obtain ⟨st', hst', hcreated⟩ := hnext.createdAt hst
  refine ⟨st', hst', ?_⟩
  rw [RoomState.age, hcreated]
  exact hage

theorem Unvisited.next (h : Unvisited r todo w) (hr : Present w r) (hnext : World.Next w w') :
    Unvisited r todo w' := by
  intro sid hsid
  cases hnext with
  | act hx =>
      rcases registered_of_did hx hsid with hold | rfl
      · exact h sid hold
      · obtain ⟨st, hst⟩ := hr
        rw [List.getElem?_eq_none le_rfl] at hst
        cases hst
  | writer hm =>
      obtain ⟨_, hrooms, _⟩ := Server.writerStep_frame (World.writerStep_iff.mp hm).1
      rw [hrooms] at hsid
      exact h sid hsid

theorem stable_unvisited : (eviction r limit).Stable t (Unvisited r todo) := by
  intro w w' hinv _ hint h
  obtain ⟨_, st, hst, _⟩ := hinv
  exact h.next ⟨st, hst⟩ (next_of_interferes hint)

theorem unvisited_of_any {α : Type} (p : Task α) (h : Unvisited r todo w) :
    (eviction r limit).Safe t (fun _ => Unvisited r todo) p w := by
  refine Logic.Safe.of_all p.all_true h stable_unvisited (fun _ _ _ _ _ _ => trivial) ?_
  intro a e w x w' _ hinv _ _ h hx
  obtain ⟨_, st, hst, _⟩ := hinv
  exact h.next ⟨st, hst⟩ (.act hx)

theorem unvisited_removeIfCurrent (h : Unvisited r (r :: todo) w) :
    (eviction r limit).Safe t (fun _ => Unvisited r todo) (Registry.removeIfCurrent r) w := by
  refine safe_act (Unvisited r (r :: todo)) h stable_unvisited fun w hinv _ _ => ⟨trivial, ?_⟩
  intro e removed w' hx _
  obtain ⟨hb, _⟩ := hinv
  apply unvisited_of_any
  intro sid hsid
  exfalso
  obtain ⟨s', hs, rfl⟩ := World.did_iff.mp hx
  obtain ⟨_, st, hst, ⟨_, hr, rfl⟩ | ⟨_, hr, rfl⟩⟩ := Server.removeIfCurrent_cases hs
  · exact hb.gone_of_erase hr rfl sid hsid
  · -- the table has another room, or none, under the id this room has
    obtain ⟨st', hst', rfl⟩ := hb.registered hsid
    rw [Option.some.inj (hst.symm.trans hst')] at hr
    exact hr hsid

theorem unvisited_sweepOne {x : RoomId} (h : Unvisited r (x :: todo) w) :
    (eviction r limit).Safe t (fun _ => Unvisited r todo) (sweepOne limit x) w := by
  have hother : ∀ {w : World}, Unvisited r (x :: todo) w → x ≠ r → Unvisited r todo w :=
    fun h hne sid hsid => (List.mem_cons.mp (h sid hsid)).resolve_left hne.symm
  apply safe_sweepOne
    (V := fun verdict w => Unvisited r (x :: todo) w ∧ (x = r → verdict.1 = true))
    (R := fun _ _ => Unvisited r todo) (E := fun _ => Unvisited r todo)
  · refine safe_act (Unvisited r (x :: todo)) h stable_unvisited fun w hinv h _ => ⟨trivial, ?_⟩
    intro e verdict w' hx _
    obtain ⟨_, st, hst, hage⟩ := hinv
    refine ⟨h.next ⟨st, hst⟩ (.act hx), ?_⟩
    -- the verdict on the room is that it goes
    rintro rfl
    obtain ⟨st', hst', hrun, _⟩ := World.did_room hx
    rw [Option.some.inj (hst'.symm.trans hst)] at hrun
    by_contra hkeep
    have hverdict : (st.sweepRoom limit (e.readings ⟨w.server.nextToken⟩).instants).2 = verdict :=
      congrArg Prod.snd hrun
    have hkept : st.KeptBySweep limit := by
      rw [keptBySweep_iff, hverdict]
      exact Bool.eq_false_iff.mpr hkeep
    exact absurd hkept.2 (Nat.not_le_of_lt hage)
  · exact fun _ _ _ h => hother h.1 fun hrx => by cases h.2 hrx
  · intro _ _ w h
    by_cases hrx : x = r
    · subst hrx
      exact unvisited_removeIfCurrent h.1
    · exact unvisited_of_any _ (hother h.1 hrx)
  · exact fun _ _ h => h
  · exact fun _ _ h => unvisited_of_any _ h
  · exact fun _ _ h => unvisited_of_any _ h

theorem unvisited_forEach (h : Unvisited r todo w) :
    (eviction r limit).Safe t (fun _ => Unvisited r []) (Proc.forEach (sweepOne limit) todo) w := by
  induction todo generalizing w with
  | nil => exact h
  | cons x todo ih => exact (unvisited_sweepOne h).bind fun _ w hw => ih hw

theorem unvisited_sweep :
    (eviction r limit).Safe t (fun _ => Unvisited r []) (sweep limit) w := by
  refine safe_act (fun _ => True) trivial (Logic.Stable.const True) fun w _ _ _ => ⟨trivial, ?_⟩
  intro e rooms w' hx _
  obtain ⟨rfl, hs⟩ := World.did_allRooms hx
  apply unvisited_forEach
  intro sid hsid
  rw [hs] at hsid
  exact AList.mem_values.mpr ⟨sid, hsid⟩

end Sweep

/-! ### A sweep runs to its end -/

def Act.sweeps (rooms : List RoomId) : Act → Prop
  | .room r _ | .removeIfCurrent r => r ∈ rooms
  | .releaseRoomQuota .. | .recordMutation | .cancel _ => True
  | _ => False

/-- Nobody holds the registry, and the listed rooms exist. -/
def Clear (rooms : List RoomId) (w : World) : Prop :=
  w.server.writeLock = none ∧ ∀ r ∈ rooms, Present w r

theorem Clear.enabled {rooms : List RoomId} {a : Act} {w : World} (h : Clear rooms w)
    (ha : a.sweeps rooms) (t : Tid) : ∃ e x w', Did t a e w x w' ∧ Clear rooms w' := by
  obtain ⟨hlock, hrooms⟩ := h
  have hclear : ∀ x s', w.server.exec t a {} = some (x, s') → s'.writeLock = none →
      ∃ e x w', Did t a e w x w' ∧ Clear rooms w' := by
    intro x s' hs hlock'
    have hx : Did t a {} w x ⟨s', ⟨t, a, x⟩ :: w.history⟩ := World.did_iff.mpr ⟨s', hs, rfl⟩
    exact ⟨{}, x, _, hx, hlock', fun r hr => (World.Next.act hx).present (hrooms r hr)⟩
  cases a with
  | room r op =>
      obtain ⟨st, hst⟩ := hrooms r ha
      let x := op.run (Env.readings {} ⟨w.server.nextToken⟩) st
      apply hclear x.2
        { w.server with heap := w.server.heap.set r x.1, nextToken := w.server.nextToken + 1 }
      · simp only [Server.exec, Server.room, hst]
        rfl
      · exact hlock
  | removeIfCurrent r =>
      obtain ⟨st, hst⟩ := hrooms r ha
      by_cases hcurrent : w.server.rooms.lookup st.sessionId = some r
      · apply hclear true { w.server with rooms := w.server.rooms.erase st.sessionId }
        · simp [Server.exec, Server.removeIfCurrent, hlock, hst, hcurrent]
        · exact hlock
      · apply hclear false w.server
        · simp [Server.exec, Server.removeIfCurrent, hlock, hst, hcurrent]
        · exact hlock
  | releaseRoomQuota key r =>
      apply hclear () _ rfl
      rw [Server.releaseRoomQuota_eq]
      exact hlock
  | recordMutation =>
      apply hclear () _ rfl
      simp only [Server.sendCommand]
      split <;> exact hlock
  | cancel k => exact hclear () _ rfl hlock
  | _ => cases ha

/-- A sweep that finds the registry free can run to its end. -/
theorem sweep_runs {w : World} (hb : Base w) (hlock : w.server.writeLock = none) (t : Tid)
    (limit : SystemTime) :
    ∃ l w', relay.Runs t ((sweep limit).bind fun _ => .ret Local.idle) w l w' := by
  have hrooms : Did t .allRooms {} w w.server.rooms.values
      ⟨w.server, ⟨t, .allRooms, w.server.rooms.values⟩ :: w.history⟩ :=
    World.did_iff.mpr ⟨w.server, by simp [Server.exec, hlock], rfl⟩
  have hall : ((Proc.forEach (sweepOne limit) w.server.rooms.values).bind
      fun _ => .ret Local.idle : Task Local).All (Act.sweeps w.server.rooms.values) := by
    refine Proc.All.bind (.forEach fun r hr => ?_) fun _ => trivial
    exact sweepOne_all hr hr hr (fun _ => trivial) trivial fun _ => trivial
  have hclear : Clear w.server.rooms.values
      ⟨w.server, ⟨t, .allRooms, w.server.rooms.values⟩ :: w.history⟩ := by
    refine ⟨hlock, fun r hr => ?_⟩
    obtain ⟨sid, hsid⟩ := AList.mem_values.mp hr
    obtain ⟨st, hst, _⟩ := hb.registered hsid
    exact ⟨st, hst⟩
  obtain ⟨x, w', hruns⟩ := Machine.runs_of_all (M := relay) hall hclear
    fun a w ha h => h.enabled ha t
  exact ⟨x, w', .act hrooms hruns⟩

/-! ### The age limit -/

/-- The saved room that a start at `now` takes back for the session is not dated after it. -/
def CreatedBy (now : SystemTime) (file : Option StateSnapshotDto) (sid : String) : Prop :=
  ∀ saved ∈ file, ∀ dto, saved.Takes now dto → dto.sessionId = sid →
    fromMillis dto.createdAtMillis ≤ now

omit [TokenCodec] in
theorem lt_durationSince {created now limit : Int} {d : Nat} (hpast : created ≤ now)
    (hlimit : now + d < limit) : d < SystemTime.durationSince limit created := by
  rw [SystemTime.durationSince, Int.lt_toNat]
  omega

section Eviction

variable {k : Nat} {r : RoomId} {limit : SystemTime} {sys₁ sys₂ : RelaySys}

/-- Once the sweep that is about to begin is over, the room is gone for good. -/
theorem relay_evicted (h₁ : Reaches Always sys₁) (haged : Aged r limit sys₁.shared)
    (hsweep : sys₁.threads (.sweeper k) = (sweep limit).bind fun _ => .ret .idle)
    (h₂ : relay.Reachable (· = sys₁) Always sys₂) {l : Local}
    (hend : sys₂.threads (.sweeper k) = .ret l) (sid : String) :
    sys₂.shared.server.rooms.lookup sid ≠ some r := by
  have hgone : ∀ t, (eviction r limit).Stable t fun w => t = .sweeper k → Unvisited r [] w :=
    fun t => Logic.Stable.imp fun _ => stable_unvisited
  have hany : ∀ t p w, (t = .sweeper k → Unvisited r [] w) →
      (eviction r limit).Safe t (fun (_ : Local) w => t = .sweeper k → Unvisited r [] w) p w := by
    intro t p w hw
    by_cases ht : t = .sweeper k
    · exact (unvisited_of_any p (hw ht)).mono fun _ _ h _ => h
    · exact (Logic.Safe.of_all (A := fun _ => True) p.all_true trivial (Logic.Stable.const True)
        (fun _ _ _ _ _ _ => trivial) fun _ _ _ _ _ _ _ _ _ _ _ => trivial).mono
        fun _ _ _ heq => absurd heq ht
  have hsafe := Logic.Safe.adequate (L := eviction r limit)
    (Q := fun t _ w => t = .sweeper k → Unvisited r [] w) ?_ ?_ ?_ ?_ ?_ ?_ h₂
  · have hfinal := hsafe.2 (.sweeper k)
    rw [hend] at hfinal
    intro hsid
    cases hfinal rfl sid hsid
  · rintro sys rfl
    refine ⟨⟨(relay_base h₁).1, haged⟩, fun t => ?_⟩
    by_cases ht : t = .sweeper k
    · subst ht
      rw [hsweep]
      exact unvisited_sweep.bind fun _ _ hw _ => hw
    · exact hany t _ _ fun heq => absurd heq ht
  · exact fun t q l p w _ hw _ => hany t p w hw
  · exact fun sys t e a p hreach _ ht => relay_legal (h₁.trans hreach) ht
  · exact fun t a e w x w' hinv hlegal _ hx => ⟨hinv.1.did hlegal hx, hinv.2.next (.act hx)⟩
  · exact fun m w w' hinv hm => ⟨hinv.1.writer hm, hinv.2.next (.writer hm)⟩
  · exact fun t _ => hgone t

/-- **No restored room outlives the age limit,** as far as the file does not date it after
    the startup.  Whatever has happened since: a sweep that begins at a time later than
    `now + ROOM_MAX_AGE` has taken the room out of the registry when it ends, and nothing puts
    it back.  The sweep does end if it finds the registry free and runs on. -/
theorem restored_room_evicted_by_sweep {file : Option StateSnapshotDto} {now : SystemTime}
    {clock : String → String → Instant × Instant} {room : RestoredRoom} {sys₀ : RelaySys}
    (hroom : (loadSnapshot file now clock)[r]? = some room)
    (hdated : CreatedBy now file room.sessionId)
    (h₀ : relay.Reachable (· = initially (loadSnapshot file now clock)) Always sys₀)
    (hlimit : now + (ROOM_MAX_AGE : Nat) < limit)
    (hstart : relay.step sys₀ (.start (.sweeper k) (.tick limit)) = some sys₁) :
    (∀ sys₂ l, relay.Reachable (· = sys₁) Always sys₂ → sys₂.threads (.sweeper k) = .ret l →
      ∀ sid, sys₂.shared.server.rooms.lookup sid ≠ some r) ∧
    (sys₁.shared.server.writeLock = none →
      ∃ sys₂ l, relay.Reachable (· = sys₁) Always sys₂ ∧ sys₂.threads (.sweeper k) = .ret l) := by
  have hreach₀ : Reaches Always sys₀ := h₀.of_init ⟨file, now, clock, rfl⟩
  have hreach₁ : Reaches Always sys₁ := .step hreach₀ trivial hstart
  have haged : Aged r limit sys₀.shared := by
    have hheap : (initially (loadSnapshot file now clock)).shared.server.heap[r]? =
        some room.state := by
      simp [initially, Server.restore_heap, hroom]
    obtain ⟨st, hst, hcreated⟩ := relay_createdAt h₀ hheap
    obtain ⟨saved, hsaved, dto, htakes, hload⟩ := takes_of_loaded (List.mem_of_getElem? hroom)
    obtain ⟨_, _, hloads⟩ := RoomDto.load_spec hload
    have hpast : room.createdAt ≤ now := by
      rw [hloads.createdAt]
      exact hdated saved hsaved dto htakes hloads.sessionId.symm
    refine ⟨st, hst, ?_⟩
    rw [RoomState.age, hcreated]
    exact lt_durationSince hpast hlimit
  obtain rfl : sys₁ = ⟨sys₀.shared, Function.update sys₀.threads (.sweeper k)
      ((sweep limit).bind fun _ => .ret .idle)⟩ := by
    obtain ⟨loc, _, _, hp, rfl⟩ := relay.step_start hstart
    cases loc <;> cases hp
    rfl
  have hsweep := Function.update_self (Tid.sweeper k)
    ((sweep limit).bind fun _ => .ret .idle) sys₀.threads
  constructor
  · intro sys₂ l h₂ hend
    exact relay_evicted hreach₁ haged hsweep h₂ hend
  · intro hlock
    obtain ⟨l, w', hruns⟩ := sweep_runs (relay_base hreach₀).1 hlock (.sweeper k) limit
    obtain ⟨threads, h₂, hend⟩ := hruns.reachable (C := Always) (fun _ _ => trivial)
      (fun _ _ => trivial) hsweep
    exact ⟨_, l, h₂, hend⟩

end Eviction

def startedFrom (millis : Nat) : RelaySys :=
  initially (loadSnapshot (some ⟨SNAPSHOT_FORMAT_VERSION, [savedRoom [] millis]⟩) 0
    fun _ _ => (0, 0))

omit [TokenCodec] in
/-- A room saved at time zero, swept a day and a nanosecond later. -/
theorem restored_room_evicted_after_a_day : letI : TokenCodec := sampleCodec
    let limit : SystemTime := (ROOM_MAX_AGE + 1 : Nat)
    (startedFrom 0).shared.server.rooms.lookup "s" = some 0 ∧
    ∃ sys₁ sys₂, relay.step (startedFrom 0) (.start (.sweeper 0) (.tick limit)) = some sys₁ ∧
      relay.Reachable (· = sys₁) Always sys₂ ∧ (∃ l, sys₂.threads (.sweeper 0) = .ret l) ∧
      ∀ sid, sys₂.shared.server.rooms.lookup sid ≠ some 0 := by
  let _ : TokenCodec := sampleCodec
  obtain ⟨sys₁, hstart, hlock⟩ : ∃ sys₁, relay.step (startedFrom 0)
      (.start (.sweeper 0) (.tick (ROOM_MAX_AGE + 1 : Nat))) = some sys₁ ∧
      sys₁.shared.server.writeLock = none := ⟨_, rfl, by decide +kernel⟩
  have hloaded : (loadSnapshot (some ⟨SNAPSHOT_FORMAT_VERSION, [savedRoom [] 0]⟩) 0
      fun _ _ => (0, 0))[0]?.isSome = true := by decide +kernel
  obtain ⟨room, hroom⟩ := Option.isSome_iff_exists.mp hloaded
  have hdated : CreatedBy 0 (some ⟨SNAPSHOT_FORMAT_VERSION, [savedRoom [] 0]⟩) room.sessionId := by
    rintro saved ⟨⟩ dto ⟨_, earlier, later, hrooms, _⟩ _
    have hmem : dto ∈ earlier ++ dto :: later := by simp
    rw [← hrooms] at hmem
    obtain rfl := List.mem_singleton.mp hmem
    decide
  obtain ⟨hgone, hends⟩ := restored_room_evicted_by_sweep hroom hdated (.init rfl) (by decide) hstart
  obtain ⟨sys₂, l, h₂, hend⟩ := hends hlock
  exact ⟨by decide +kernel, sys₁, sys₂, hstart, h₂, ⟨l, hend⟩, hgone sys₂ l h₂ hend⟩

omit [TokenCodec] in
/-- A room that the file dates two days ahead is still there. -/
theorem future_room_outlives_limit : letI : TokenCodec := sampleCodec
    let limit : SystemTime := (ROOM_MAX_AGE + 1 : Nat)
    ∃ sys₁ sys₂,
      relay.step (startedFrom 172800000) (.start (.sweeper 0) (.tick limit)) = some sys₁ ∧
      relay.Reachable (· = sys₁) Always sys₂ ∧ (∃ l, sys₂.threads (.sweeper 0) = .ret l) ∧
      sys₂.shared.server.rooms.lookup "s" = some 0 := by
  let _ : TokenCodec := sampleCodec
  obtain ⟨sys₁, hstart, hrun⟩ : ∃ sys₁, relay.step (startedFrom 172800000)
      (.start (.sweeper 0) (.tick (ROOM_MAX_AGE + 1 : Nat))) = some sys₁ ∧
      ((relay.run Always sys₁ (acts (.sweeper 0) 2)).any fun sys =>
        decide ((sys.threads (.sweeper 0)).result.isSome = true ∧
          sys.shared.server.rooms.lookup "s" = some 0)) = true := ⟨_, rfl, by decide +kernel⟩
  have hinit : relay.Reachable (· = sys₁) Always sys₁ := .init rfl
  obtain ⟨sys₂, h₂, hend, hlookup⟩ := hinit.exists_of_run hrun
  obtain ⟨l, hl⟩ := Option.isSome_iff_exists.mp hend
  exact ⟨sys₁, sys₂, hstart, h₂, ⟨l, Proc.eq_ret_of_result hl⟩, hlookup⟩

end PlezyRelay
