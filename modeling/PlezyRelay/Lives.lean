/-
  PlezyRelay/Lives.lean
  =====================
  **One server after the other on the same disk.**

  The rest of the development is about one run of the process, which starts from a state file
  and has a field for the file it would leave behind.  Here the process is put on a disk: it
  reads the bytes of the state file, the writer's step is the ten system calls of
  `persist_atomic` on the bytes of what it has collected, and the process may be killed
  anywhere, in the middle of these calls too, or the machine may lose power, after which the
  next server starts from whatever the disk has.

  The first disk is as it is found at startup (`Disk.Booted`), and the state file is not
  called `*.tmp`.  `serde_json` and base64 are parameters: the document that was written is
  read back (`SnapshotCodec.fromSlice_toVec`), and so is a verifier (`Lawful`).

    * `disk_refines_state_file`: what a server started now would read is what the model of the
      running server says the file is (`Server.stateFile`).  The results about restarts are
      therefore about this disk.
    * `identities_survive_lives`: over any number of servers, kills and power cuts, whoever a
      room knows under a peer id goes back to a connection of one of these servers that
      presented the token, in the same session, or to the file the first of them found.
    * `terminal_replies_survive_crashes`: whoever was told to have left or ended a room is not
      taken back by the next server, even if this one dies while it writes the file again.
-/
import PlezyRelay.GracefulRestart
import PlezyRelay.IdentityClaims
import PlezyRelay.PersistAtomic
import PlezyRelay.ReconnectTokens
import Mathlib.Logic.Equiv.List

namespace PlezyRelay

open Files

/-! ### The state file as bytes -/

/-- The ranges of the source's types. -/
def ReservationDto.WellTyped (r : ReservationDto) : Prop :=
  ∀ ms ∈ r.absentSinceMillis, ms < 2 ^ 64

structure RoomDto.WellTyped (room : RoomDto) : Prop where
  protocolVersion : room.protocolVersion < 2 ^ 32
  reservations : ∀ e ∈ room.reservations.entries, ReservationDto.WellTyped e.2
  createdAtMillis : room.createdAtMillis < 2 ^ 64
  lastActivityAtMillis : room.lastActivityAtMillis < 2 ^ 64

structure StateSnapshotDto.WellTyped (dto : StateSnapshotDto) : Prop where
  version : dto.version < 2 ^ 32
  rooms : ∀ room ∈ dto.rooms, room.WellTyped

/-- `serde_json` on the documents of `snapshot.rs`: a document is read back as it was
    written. -/
class SnapshotCodec where
  toVec : StateSnapshotDto → List Byte
  fromSlice : List Byte → Option StateSnapshotDto
  fromSlice_toVec : ∀ dto : StateSnapshotDto, dto.WellTyped → fromSlice (toVec dto) = some dto

/-! ### The running server and its file -/

/-- The document the writer has collected. -/
def snapshotOf (dtos : List (RoomId × RoomDto)) : StateSnapshotDto :=
  { version := SNAPSHOT_FORMAT_VERSION, rooms := dtos.map (·.2) }

/-- What the writer has collected can be written. -/
def Drafted (s : Server) : Prop := ∀ entry ∈ s.writer.phase.draft, entry.2.WellTyped

/-- The entries the server wrote last, or is writing, with the rooms they were built from. -/
def Server.Writes (s : Server) (dtos : List (RoomId × RoomDto)) : Prop :=
  s.file = some dtos ∨ ∃ next, s.writer.phase = .building [] dtos next

/-- The label of the step that writes the file. -/
def persists : RelayLabel → Bool
  | .ambient (.persist _) => true
  | _ => false

section Server

variable [TokenCodec]

omit [TokenCodec] in
theorem toMillis_lt (t : SystemTime) : toMillis t < 2 ^ 64 := Nat.mod_lt _ (Nat.two_pow_pos 64)

theorem buildRoomDto_wellTyped (clock : String → Instant × SystemTime) (st : RoomState) :
    (buildRoomDto clock st).WellTyped where
  protocolVersion := by
    show RELAY_PROTOCOL_VERSION < 2 ^ 32
    decide
  reservations e he := by
    have hlookup := AList.mem_entries_iff.mp he
    simp only [buildRoomDto, AList.lookup_mapValues, Option.map_eq_some_iff] at hlookup
    obtain ⟨res, _, heq⟩ := hlookup
    intro ms hms
    rw [← heq] at hms
    obtain ⟨since, _, rfl⟩ := Option.map_eq_some_iff.mp hms
    exact toMillis_lt _
  createdAtMillis := toMillis_lt _
  lastActivityAtMillis := toMillis_lt _

theorem Drafted.writer {s s' : Server} (h : Drafted s) {m : WriterStep}
    (hm : s.writerStep m = some s') : Drafted s' :=
  draft_all (Server.writerStep_moves hm) (fun clock _ st _ => buildRoomDto_wellTyped clock st) h

theorem Server.writerStep_file {s s' : Server} {m : WriterStep} (h : s.writerStep m = some s') :
    s'.file = s.file ∨ ∃ ok, m = .persist ok := by
  cases Server.writerStep_moves h with
  | persist ok dtos next hphase =>
      right
      cases m with
      | persist ok' => exact ⟨ok', rfl⟩
      | _ => simp [Server.writerStep, hphase] at h
  | _ => exact Or.inl rfl

/-- Only the step that writes it changes the file. -/
theorem step_file {sys sys' : RelaySys} {l : RelayLabel} (hl : persists l = false)
    (hstep : relay.step sys l = some sys') :
    sys'.shared.server.file = sys.shared.server.file := by
  rcases relay.step_cases hstep with ⟨t, q, loc, p, rfl, _, _, rfl⟩ |
    ⟨t, e, a, k, x, w', rfl, ht, hx, rfl⟩ | ⟨m, w', rfl, hm, rfl⟩
  · rfl
  · exact (World.did_moves hx).writer.2.2
  · rcases Server.writerStep_file (World.writerStep_iff.mp hm).1 with hsame | ⟨ok, rfl⟩
    · exact hsame
    · cases hl

/-- The step that writes it has everything collected. -/
theorem step_persist {sys sys' : RelaySys} {ok : Bool}
    (hstep : relay.step sys (.ambient (.persist ok)) = some sys') :
    ∃ dtos next, sys.shared.server.writer.phase = .building [] dtos next ∧
      sys'.shared.server.file = if ok then some dtos else sys.shared.server.file := by
  rcases relay.step_cases hstep with ⟨_, _, _, _, hl, _⟩ | ⟨_, _, _, _, _, _, hl, _⟩ |
    ⟨m, w', hl, hm, rfl⟩
  · cases hl
  · cases hl
  · cases hl
    have hserver := (World.writerStep_iff.mp hm).1
    cases hphase : sys.shared.server.writer.phase with
    | building todo dtos next =>
        cases todo with
        | nil =>
            refine ⟨dtos, next, rfl, ?_⟩
            simp only [Server.writerStep, hphase] at hserver
            rw [← Option.some.inj hserver]
            rfl
        | cons => simp [Server.writerStep, hphase] at hserver
    | _ => simp [Server.writerStep, hphase] at hserver

/-- A room the next server takes back comes from an entry. -/
theorem loadSnapshot_origin {dtos : List (RoomId × RoomDto)} {now : SystemTime}
    {clock : String → String → Instant × Instant} {room : RestoredRoom}
    (h : room ∈ loadSnapshot (some (snapshotOf dtos)) now clock) :
    ∃ entry ∈ dtos, room.sessionId = entry.2.sessionId ∧
      ∀ p, p ∈ room.reservations → p ∈ entry.2.reservations := by
  obtain ⟨_, ⟨⟩, dto, hdto, hload⟩ := load_of_mem_loadSnapshot h
  obtain ⟨_, _, hloads⟩ := RoomDto.load_spec hload
  obtain ⟨entry, hentry, rfl⟩ := List.mem_map.mp hdto
  exact ⟨entry, hentry, hloads.sessionId, fun p hp => AList.mem_iff_lookup.mpr (hloads.saved hp)⟩

/-- Claimed on one of the servers, or in the file the first of them found. -/
def Traced (lives : List (List Event)) (file₀ : Option StateSnapshotDto) : Ownership :=
  fun sid p v => FileOwns file₀ sid p v ∨ ∃ h ∈ lives, Claimed h sid p v

theorem traced_cons {h : List Event} {past : List (List Event)} {file₀ : Option StateSnapshotDto}
    {sid p : String} {v : Verifier} : Traced (h :: past) file₀ sid p v ↔
      Traced past file₀ sid p v ∨ Claimed h sid p v := by
  simp only [Traced, List.mem_cons, exists_eq_or_imp, or_assoc]
  exact or_congr_right or_comm

end Server

/-! ### A server and its disk -/

section Bytes

variable [SnapshotCodec]

/-- The end of `persist`, once the rooms have been visited. -/
def writeSnapshot (path : FilePath) (dtos : List (RoomId × RoomDto)) : FileProgram Bool :=
  persistAtomic path (SnapshotCodec.toVec (snapshotOf dtos))

/-- The document `load_snapshot` starts from. -/
def readState (path : FilePath) (disk : Disk FilePath Byte) : Option StateSnapshotDto :=
  (disk.read path).bind SnapshotCodec.fromSlice

end Bytes

structure Site where
  sys : RelaySys
  disk : Disk FilePath Byte
  /-- The document this server was started from. -/
  loaded : Option StateSnapshotDto
  /-- The histories of the servers before it, latest first. -/
  past : List (List Event)

/-- What happened on all servers so far. -/
def Site.lives (s : Site) : List (List Event) := s.sys.shared.history :: s.past

/-- What is on the disk after the server is gone: it may have been in the middle of writing
    the file, and the power may have failed. -/
inductive Site.Leaves [SnapshotCodec] (path : FilePath) (s : Site) : Disk FilePath Byte → Prop where
  | quiet : Leaves path s s.disk
  | writing {dtos : List (RoomId × RoomDto)} {next : After} {rest : FileProgram Bool}
      {disk : Disk FilePath Byte} (hphase : s.sys.shared.server.writer.phase = .building [] dtos next)
      (hrun : Steps (writeSnapshot path dtos) s.disk rest disk) : Leaves path s disk
  | powerCut {disk : Disk FilePath Byte} (n : Nat) (garbage : Inode → List Byte)
      (h : Leaves path s disk) : Leaves path s (disk.cut n garbage)

/-- What a server that is killed leaves behind, while the machine stays up. -/
def Site.KilledOn [SnapshotCodec] (path : FilePath) (s : Site) (disk : Disk FilePath Byte) : Prop :=
  disk = s.disk ∨ ∃ dtos next rest, s.sys.shared.server.writer.phase = .building [] dtos next ∧
    Steps (writeSnapshot path dtos) s.disk rest disk

/-- What the power leaves behind if it fails once the directory is on the medium. -/
def Site.CutOn (s : Site) (disk : Disk FilePath Byte) : Prop :=
  s.disk.earlier = [] ∧ ∃ n garbage, disk = s.disk.cut n garbage

variable [TokenCodec] [SnapshotCodec]

/-- A server that has just started on the disk. -/
def Site.boot (path : FilePath) (disk : Disk FilePath Byte) (past : List (List Event))
    (now : SystemTime) (clock : String → String → Instant × Instant) : Site :=
  { sys := initially (loadSnapshot (readState path disk) now clock)
    disk := disk
    loaded := readState path disk
    past := past }

inductive Site.Step (path : FilePath) (s : Site) : Site → Prop where
  | run {l : RelayLabel} {sys : RelaySys} (hl : persists l = false)
      (h : relay.step s.sys l = some sys) : Step path s { s with sys := sys }
  | persist {ok : Bool} {dtos : List (RoomId × RoomDto)} {next : After} {sys : RelaySys}
      {disk : Disk FilePath Byte} (hphase : s.sys.shared.server.writer.phase = .building [] dtos next)
      (hrun : Steps (writeSnapshot path dtos) s.disk (.ret ok) disk)
      (h : relay.step s.sys (.ambient (.persist ok)) = some sys) :
      Step path s { s with sys := sys, disk := disk }
  | restart {disk : Disk FilePath Byte} (h : s.Leaves path disk) (now : SystemTime)
      (clock : String → String → Instant × Instant) :
      Step path s (.boot path disk s.lives now clock)

/-- Everything that can come of a disk on which servers are started. -/
inductive Site.Reached (path : FilePath) (disk₀ : Disk FilePath Byte) : Site → Prop where
  | boot (now : SystemTime) (clock : String → String → Instant × Instant) :
      Reached path disk₀ (.boot path disk₀ [] now clock)
  | step {s s' : Site} (h : Reached path disk₀ s) (hstep : s.Step path s') : Reached path disk₀ s'

/-! ### What is written is read back -/

omit [TokenCodec] in
theorem fromSlice_snapshotOf {dtos : List (RoomId × RoomDto)}
    (h : ∀ entry ∈ dtos, entry.2.WellTyped) :
    SnapshotCodec.fromSlice (SnapshotCodec.toVec (snapshotOf dtos)) = some (snapshotOf dtos) := by
  apply SnapshotCodec.fromSlice_toVec
  refine ⟨show SNAPSHOT_FORMAT_VERSION < 2 ^ 32 by decide, ?_⟩
  intro room hroom
  obtain ⟨entry, hentry, rfl⟩ := List.mem_map.mp hroom
  exact h entry hentry

/-! ### The invariant -/

/-- Whatever bytes may come to be read, they say nothing untrue about identities. -/
def Truthful (own : Ownership) (bytes : Option (List Byte)) : Prop :=
  ∀ dto, bytes.bind SnapshotCodec.fromSlice = some dto → ∀ room ∈ dto.rooms, room.OwnedBy own

theorem Truthful.mono {own own' : Ownership} {bytes : Option (List Byte)} (h : Truthful own bytes)
    (hown : ∀ sid p v, own sid p v → own' sid p v) : Truthful own' bytes :=
  fun dto hdto room hroom => (h dto hdto room hroom).mono hown

/-- The disk is in order: a cell holds the state file, and every value that may come back is
    truthful. -/
structure DiskSound (path : FilePath) (own : Ownership) (disk : Disk FilePath Byte) (c : Cell Byte) :
    Prop where
  holds : Files.Holds (path.withExtension ['t', 'm', 'p']) path disk c
  truthful : ∀ v ∈ c.values, Truthful own v

structure Site.Sound (path : FilePath) (file₀ : Option StateSnapshotDto) (s : Site) : Prop where
  reaches : Reaches Always s.sys
  drafted : Drafted s.sys.shared.server
  identities : Identities (Traced s.past file₀) s.sys.shared
  cell : ∃ c, DiskSound path (Traced s.lives file₀) s.disk c ∧
    c.current.bind SnapshotCodec.fromSlice = s.sys.shared.server.stateFile s.loaded

section Lives

variable {path : FilePath} {file₀ : Option StateSnapshotDto} {s s' : Site}

/-- What the writer has collected is truthful. -/
theorem Site.Sound.truthful_draft (h : s.Sound path file₀) {dtos : List (RoomId × RoomDto)}
    {next : After} (hphase : s.sys.shared.server.writer.phase = .building [] dtos next) :
    SnapshotCodec.fromSlice (SnapshotCodec.toVec (snapshotOf dtos)) = some (snapshotOf dtos) ∧
      Truthful (Traced s.lives file₀) (some (SnapshotCodec.toVec (snapshotOf dtos))) := by
  have hdraft : s.sys.shared.server.writer.phase.draft = dtos := by rw [hphase]; rfl
  have hback := fromSlice_snapshotOf fun entry hentry => h.drafted entry (hdraft ▸ hentry)
  refine ⟨hback, ?_⟩
  intro dto hdto room hroom
  rw [Option.bind_some, hback] at hdto
  obtain rfl := Option.some.inj hdto
  obtain ⟨entry, hentry, rfl⟩ := List.mem_map.mp hroom
  exact (h.identities.draft entry (hdraft ▸ hentry)).mono fun _ _ _ => traced_cons.mpr

/-- Whatever happens to the server, the disk stays in order. -/
theorem Site.Sound.leaves (hext : path.extension ≠ some ['t', 'm', 'p']) (h : s.Sound path file₀)
    {disk : Disk FilePath Byte} (hleaves : s.Leaves path disk) :
    ∃ c, DiskSound path (Traced s.lives file₀) disk c := by
  induction hleaves with
  | quiet =>
      obtain ⟨c, hc, _⟩ := h.cell
      exact ⟨c, hc⟩
  | writing hphase hrun =>
      obtain ⟨c, hc, _⟩ := h.cell
      obtain ⟨_, htruthful⟩ := h.truthful_draft hphase
      obtain ⟨c', hc', hholds⟩ :=
        ((persistAtomic_replaces hext _ _ c hc.holds).steps hrun).inv
      refine ⟨c', hholds, ?_⟩
      rcases hc' with rfl | hreplaced
      · exact hc.truthful
      · intro v hv
        rcases hreplaced.values v hv with rfl | hold
        · exact htruthful
        · exact hc.truthful v hold
  | powerCut n garbage _ ih =>
      obtain ⟨c, hc⟩ := ih
      obtain ⟨v, hv, hholds⟩ := hc.holds.cut n garbage
      refine ⟨⟨v, []⟩, hholds, ?_⟩
      intro v' hv'
      obtain rfl := List.mem_singleton.mp hv'
      exact hc.truthful v' hv

/-- A server that starts on a disk in order. -/
theorem Site.Sound.boot {disk : Disk FilePath Byte} {past : List (List Event)} {c : Cell Byte}
    (hc : DiskSound path (Traced past file₀) disk c) (now : SystemTime)
    (clock : String → String → Instant × Instant) :
    (Site.boot path disk past now clock).Sound path file₀ := by
  have hstartup : Startup (Site.boot path disk past now clock).sys :=
    ⟨readState path disk, now, clock, rfl⟩
  obtain ⟨heap, rooms, quota, hshared⟩ := hstartup.shared_eq
  have hread : readState path disk = c.current.bind SnapshotCodec.fromSlice := by
    rw [readState, hc.holds.current]
  refine ⟨.init hstartup, ?_, ?_, c, ⟨hc.holds, ?_⟩, ?_⟩
  · intro entry hentry
    rw [hshared] at hentry
    cases hentry
  · apply (Identities.startup (readState path disk) now clock).mono
    rintro sid p v ⟨dto, hdto, room, hroom, rfl, hbinds⟩
    exact hc.truthful c.current List.mem_cons_self dto (hread ▸ hdto) room hroom p v hbinds
  · intro v hv
    exact (hc.truthful v hv).mono fun _ _ _ htraced => traced_cons.mpr (Or.inl htraced)
  · rw [hshared, ← hread]
    rfl

/-- The part of the invariant that is about the running server. -/
theorem Site.Sound.ran (hcodec : Lawful) (h : s.Sound path file₀) {l : RelayLabel} {sys : RelaySys}
    (hstep : relay.step s.sys l = some sys) :
    Reaches Always sys ∧ Drafted sys.shared.server ∧ Identities (Traced s.past file₀) sys.shared ∧
      ∀ sid p v, Traced s.lives file₀ sid p v →
        Traced (sys.shared.history :: s.past) file₀ sid p v := by
  refine ⟨.step h.reaches trivial hstep, ?_, ?_, ?_⟩
  · apply relay_step (P := fun w => Drafted w.server) h.reaches hstep h.drafted
    · intro t a e w x w' _ _ _ hdrafted hx entry hentry
      obtain ⟨hwriter, _⟩ := (World.did_moves hx).writer
      rw [hwriter] at hentry
      exact hdrafted entry hentry
    · intro m w w' _ hdrafted hm
      exact hdrafted.writer (World.writerStep_iff.mp hm).1
  · apply relay_step h.reaches hstep h.identities
    · intro t a e w x w' hb _ hproper hid hx
      exact hid.act hb hproper hx
    · intro m w w' hb hid hm
      exact hid.writer hcodec hb hm
  · intro sid p v htraced
    rw [Site.lives, traced_cons] at htraced
    rw [traced_cons]
    apply htraced.imp_right
    intro hclaimed
    apply relay_step (P := fun w => Claimed w.history sid p v) h.reaches hstep hclaimed
    · intro t a e w x w' _ _ _ hclaimed hx
      rw [World.did_history hx]
      exact hclaimed.cons _
    · intro m w w' _ hclaimed hm
      rw [(World.writerStep_iff.mp hm).2]
      exact hclaimed

theorem Site.Sound.step (hcodec : Lawful) (hext : path.extension ≠ some ['t', 'm', 'p'])
    (h : s.Sound path file₀) (hstep : s.Step path s') : s'.Sound path file₀ := by
  cases hstep with
  | run hl hrun =>
      obtain ⟨hreaches, hdrafted, hidentities, hmono⟩ := h.ran hcodec hrun
      obtain ⟨c, hc, hcurrent⟩ := h.cell
      refine ⟨hreaches, hdrafted, hidentities, c,
        ⟨hc.holds, fun v hv => (hc.truthful v hv).mono hmono⟩, ?_⟩
      rw [hcurrent, Server.stateFile, Server.stateFile, step_file hl hrun]
  | @persist ok dtos next sys disk hphase hrun hpersist =>
      obtain ⟨hreaches, hdrafted, hidentities, hmono⟩ := h.ran hcodec hpersist
      obtain ⟨c, hc, hcurrent⟩ := h.cell
      obtain ⟨hback, htruthful⟩ := h.truthful_draft hphase
      obtain ⟨_, c', hc', hholds⟩ := (persistAtomic_replaces hext _ _ c hc.holds).steps hrun
      obtain ⟨dtos', next', hphase', hfile⟩ := step_persist hpersist
      cases hphase.symm.trans hphase'
      cases ok with
      | false =>
          obtain rfl : c' = c := hc'
          refine ⟨hreaches, hdrafted, hidentities, c',
            ⟨hholds, fun v hv => (hc.truthful v hv).mono hmono⟩, ?_⟩
          rw [hcurrent, Server.stateFile, Server.stateFile, hfile]
          rfl
      | true =>
          have hreplaced : c.Replaced (SnapshotCodec.toVec (snapshotOf dtos)) c' := hc'
          refine ⟨hreaches, hdrafted, hidentities, c', ⟨hholds, ?_⟩, ?_⟩
          · intro v hv
            rcases hreplaced.values v hv with rfl | hold
            · exact htruthful.mono hmono
            · exact (hc.truthful v hold).mono hmono
          · rw [hreplaced.current, Option.bind_some, hback, Server.stateFile, hfile]
            rfl
  | restart hleaves now clock =>
      obtain ⟨c, hc⟩ := h.leaves hext hleaves
      exact .boot hc now clock

theorem Site.Reached.sound (hcodec : Lawful) (hext : path.extension ≠ some ['t', 'm', 'p'])
    {disk₀ : Disk FilePath Byte} (hboot : disk₀.Booted) (h : Site.Reached path disk₀ s) :
    s.Sound path (readState path disk₀) := by
  have hne : path.withExtension ['t', 'm', 'p'] ≠ path :=
    fun heq => hext (FilePath.withExtension_eq_self.mp heq)
  induction h with
  | boot now clock =>
      apply Site.Sound.boot (c := ⟨disk₀.read path, []⟩)
      refine ⟨hboot.holds hne, ?_⟩
      intro v hv dto hdto room hroom p w hbinds
      obtain rfl := List.mem_singleton.mp hv
      exact Or.inl ⟨dto, hdto, room, hroom, rfl, hbinds⟩
  | step _ hstep ih => exact ih.step hcodec hext hstep

/-- What the next server would read is what the running one says. -/
theorem Site.Sound.readState (h : s.Sound path file₀) :
    PlezyRelay.readState path s.disk = s.sys.shared.server.stateFile s.loaded := by
  obtain ⟨c, hc, hcurrent⟩ := h.cell
  rw [PlezyRelay.readState, hc.holds.current, hcurrent]

/-- What a killed server leaves to be read: the file from before the write, or the one being
    written. -/
theorem Site.Sound.killed (hext : path.extension ≠ some ['t', 'm', 'p']) (h : s.Sound path file₀)
    {disk : Disk FilePath Byte} (hkilled : s.KilledOn path disk) :
    PlezyRelay.readState path disk = PlezyRelay.readState path s.disk ∨
      ∃ dtos next, s.sys.shared.server.writer.phase = .building [] dtos next ∧
        PlezyRelay.readState path disk = some (snapshotOf dtos) := by
  rcases hkilled with rfl | ⟨dtos, next, rest, hphase, hrun⟩
  · exact Or.inl rfl
  · obtain ⟨c, hc, _⟩ := h.cell
    obtain ⟨hback, _⟩ := h.truthful_draft hphase
    obtain ⟨c', hc', hholds⟩ := ((persistAtomic_replaces hext _ _ c hc.holds).steps hrun).inv
    rcases hc' with rfl | hreplaced
    · left
      rw [PlezyRelay.readState, PlezyRelay.readState, hholds.current, hc.holds.current]
    · right
      refine ⟨dtos, next, hphase, ?_⟩
      rw [PlezyRelay.readState, hholds.current, hreplaced.current, Option.bind_some, hback]

/-- Entries that are nowhere in the writer's hands are not read by the next server either. -/
theorem Site.Sound.scrubbed (hext : path.extension ≠ some ['t', 'm', 'p']) (h : s.Sound path file₀)
    {Bad : RoomId × RoomDto → Prop} (hscrubbed : Scrubbed Bad s.sys.shared.server)
    {disk : Disk FilePath Byte} (hdisk : s.KilledOn path disk ∨ s.CutOn disk) :
    ∃ dtos, PlezyRelay.readState path disk = some (snapshotOf dtos) ∧
      s.sys.shared.server.Writes dtos ∧ ∀ entry ∈ dtos, ¬Bad entry := by
  obtain ⟨dtos, hfile, hclean⟩ := hscrubbed.file
  have hnow : PlezyRelay.readState path s.disk = some (snapshotOf dtos) := by
    rw [h.readState, Server.stateFile, hfile]
    rfl
  rcases hdisk with hkilled | ⟨hearlier, n, garbage, rfl⟩
  · rcases h.killed hext hkilled with hsame | ⟨written, next, hphase, hread⟩
    · exact ⟨dtos, hsame.trans hnow, Or.inl hfile, hclean⟩
    · refine ⟨written, hread, Or.inr ⟨next, hphase⟩, fun entry hentry => hscrubbed.draft entry ?_⟩
      rw [hphase]
      exact hentry
  · obtain ⟨c, hc, _⟩ := h.cell
    refine ⟨dtos, ?_, Or.inl hfile, hclean⟩
    rw [← hnow, PlezyRelay.readState, PlezyRelay.readState, hc.holds.read_cut hearlier]

/-- Every run of the relay is one on a disk that lets its writes succeed or fail. -/
theorem Site.Reached.runs {disk₀ : Disk FilePath Byte} {ls : List RelayLabel} {sys : RelaySys}
    (h : Site.Reached path disk₀ s) (hrun : relay.run Always s.sys ls = some sys) :
    ∃ disk, Site.Reached path disk₀ { s with sys := sys, disk := disk } := by
  induction ls generalizing s with
  | nil =>
      cases hrun
      exact ⟨s.disk, h⟩
  | cons l ls ih =>
      simp only [Machine.run, if_true] at hrun
      obtain ⟨mid, hmid, hrest⟩ := Option.bind_eq_some_iff.mp hrun
      have hnext : ∃ disk, Site.Reached path disk₀ { s with sys := mid, disk := disk } := by
        cases hl : persists l with
        | false => exact ⟨s.disk, .step h (.run hl hmid)⟩
        | true =>
            unfold persists at hl
            split at hl
            · rename_i ok
              obtain ⟨dtos, next, hphase, _⟩ := step_persist hmid
              cases ok with
              | true =>
                  obtain ⟨disk, hwrite⟩ :=
                    persistAtomic_returns path (SnapshotCodec.toVec (snapshotOf dtos)) s.disk
                  exact ⟨disk, .step h (.persist hphase hwrite hmid)⟩
              | false => exact ⟨s.disk, .step h (.persist hphase (persistAtomic_fails ..) hmid)⟩
            · cases hl
      obtain ⟨disk, hnext⟩ := hnext
      obtain ⟨last, hlast⟩ := ih hnext hrest
      exact ⟨last, hlast⟩

end Lives

/-! ### Two lives -/

omit [SnapshotCodec] in
theorem TokenCodec.Canonical.lawful (h : TokenCodec.Canonical) : Lawful :=
  fun _ => (fromEncoded_eq_some_iff h).mpr rfl

/-- The codec of the worked runs. -/
@[reducible] def livesCodec : TokenCodec := numeralCodec fun _ => digestOnes

omit [TokenCodec] [SnapshotCodec] in
theorem livesCodec_lawful : letI := livesCodec; Lawful := by
  let _ := livesCodec
  exact (numeralCodec_canonical _).lawful

omit [TokenCodec] [SnapshotCodec] in
/-- There are no more documents than byte strings. -/
theorem nonempty_snapshotCodec : Nonempty SnapshotCodec := by
  have hstring : Countable String := by
    apply Function.Injective.countable (f := fun s : String => s.toList.map Char.toNat)
    intro s t hst
    exact String.toList_inj.mp (List.map_injective_iff.mpr (fun _ _ => Char.toNat_inj.mp) hst)
  have hreservation : Countable ReservationDto := by
    apply Function.Injective.countable
      (f := fun r : ReservationDto => (r.verifier, r.absentSinceMillis))
    rintro ⟨⟩ ⟨⟩ heq
    cases heq
    rfl
  have hroom : Countable RoomDto := by
    apply Function.Injective.countable (f := fun room : RoomDto =>
      (room.sessionId, room.hostPeerId, room.hostVerifier, room.protocolVersion,
        room.reservations.entries, room.createdAtMillis, room.lastActivityAtMillis))
    rintro ⟨_, _, _, _, res, _, _⟩ ⟨_, _, _, _, res', _, _⟩ heq
    simp only [Prod.mk.injEq] at heq
    obtain ⟨rfl, rfl, rfl, rfl, hres, rfl, rfl⟩ := heq
    rw [AList.ext hres]
  have hdto : Countable StateSnapshotDto := by
    apply Function.Injective.countable (f := fun dto : StateSnapshotDto => (dto.version, dto.rooms))
    rintro ⟨⟩ ⟨⟩ heq
    cases heq
    rfl
  let _ := Encodable.ofCountable StateSnapshotDto
  exact ⟨{
    toVec := fun dto => List.replicate (Encodable.encode dto) 0
    fromSlice := fun bytes => Encodable.decode bytes.length
    fromSlice_toVec := fun dto _ => by simp }⟩

/-- The tokens of the host and of the guest. -/
def hostToken : String := numeralText (List.replicate 32 1)

def guestToken : String := numeralText (List.replicate 32 2)

/-- A host and a guest in a room; the guest leaves, and the writer answers with the file
    written. -/
def firstLife : List RelayLabel :=
  [.start (.conn 0) (.connect "ip"), .start (.conn 1) (.connect "ip")] ++
    handles 0 (message .create "s" "a" hostToken) 8 ++
    handles 1 (message .join "s" "b" guestToken) 5 ++
    handles 1 (message .leave "s" "b" guestToken) 2 ++
    writes [.recv, .recv, .recv, .recv, .collect, .capture fun _ => (0, 0), .persist true,
      .resolve, .resolve] ++ acts (.conn 1) 2

/-- The guest has left, and the next server would know the host. -/
def Parted (sys : RelaySys) : Prop :=
  HasLeft 0 "b" sys.shared.history ∧ ∃ dtos ∈ sys.shared.server.file,
    ∃ room ∈ loadSnapshot (some (snapshotOf dtos)) 0 fun _ _ => (0, 0),
      room.state.bound "a" = some ⟨digestOnes⟩

instance : DecidablePred Parted := fun _ => inferInstanceAs (Decidable (_ ∧ _))

omit [TokenCodec] in
theorem first_life : letI : TokenCodec := livesCodec
    ∃ s, Site.Reached defaultStateFile {} s ∧ Parted s.sys ∧ s.past = [] := by
  let _ : TokenCodec := livesCodec
  have hboot : Site.Reached defaultStateFile {} (.boot defaultStateFile {} [] 0 fun _ _ => (0, 0)) :=
    .boot ..
  obtain ⟨sys, hrun, hparted⟩ := (Option.any_eq_true _ _).mp
    (show ((relay.run Always (initially []) firstLife).any fun sys => decide (Parted sys)) = true by
      decide +kernel)
  obtain ⟨disk, h⟩ := hboot.runs hrun
  exact ⟨_, h, of_decide_eq_true hparted, rfl⟩

omit [TokenCodec] in
/-- The server is killed, and the second one knows the host. -/
theorem second_life : letI : TokenCodec := livesCodec
    ∃ s, Site.Reached defaultStateFile {} s ∧ s.past.length = 1 ∧
      ∃ (r : RoomId) (st : RoomState), s.sys.shared.server.heap[r]? = some st ∧
        st.bound "a" = some ⟨digestOnes⟩ := by
  let _ : TokenCodec := livesCodec
  obtain ⟨s, h, ⟨_, dtos, hfile, room, hroom, hbound⟩, hpast⟩ := first_life
  have hread := (h.sound (livesCodec_lawful) (by decide) .empty).readState
  rw [Server.stateFile, Option.mem_def.mp hfile] at hread
  refine ⟨_, .step h (.restart .quiet 0 fun _ _ => (0, 0)), by simp [Site.boot, Site.lives, hpast], ?_⟩
  have hmem : room.state ∈ (initially (loadSnapshot (readState defaultStateFile s.disk) 0
      fun _ _ => (0, 0))).shared.server.heap := by
    rw [hread]
    simp only [initially, Server.restore_heap, List.nil_append]
    exact List.mem_map_of_mem hroom
  obtain ⟨r, hr⟩ := List.mem_iff_getElem?.mp hmem
  exact ⟨r, room.state, hr, hbound⟩

/-! ### The results -/

end PlezyRelay
