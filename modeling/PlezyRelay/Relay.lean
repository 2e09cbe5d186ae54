/-
  PlezyRelay/Relay.lean
  =====================
  **The running relay: connections, sweeps and the snapshot writer interleaved.**

  `relay` is the machine: a connection task is spawned, handles one frame after the
  other and ends; sweeps run at any time; the main task may shut the writer down.
  A run starts from the rooms a snapshot file gave back.

  What has happened to a connection is read off the history: `Assigned` says that a
  room has given a task one of its connection ids, and `assigns_spec` that this id was
  the next one the room had to give.
-/
import PlezyRelay.ServerFrame
import PlezyRelay.RoomInvariant
import PlezyRelay.IdentityBinding
import PlezyRelay.Tasks
import PlezyRelay.Foundation.RelyGuarantee

namespace PlezyRelay

/-! ### The machine -/

/-- Where a task is between two requests. -/
inductive Local where
  | fresh
  | reading (connection : Connection)
  | finished
  | idle
deriving DecidableEq

inductive Request where
  | connect (ip : String)
  | frame (frame : Frame)
  /-- The read loop ends. -/
  | hangup
  /-- The cleanup interval fires, at the wall-clock time `now`. -/
  | tick (now : SystemTime)
  | shutdown

variable [TokenCodec]

def Request.start : Tid → Request → Local → Option (Task Local)
  | .conn k, .connect ip, .fresh => some (pure (.reading { tx := k, ip := ip }))
  | .conn _, .frame f, .reading connection => some do
      let connection ← connection.handleFrame f
      pure (.reading connection)
  | .conn _, .hangup, .reading connection => some do
      connection.exit
      pure .finished
  | .sweeper _, .tick now, .idle => some do
      sweep now
      pure .idle
  | .main, .shutdown, .idle => some do
      let _ ← flushAndStop
      pure .finished
  | _, _, _ => none

/-- The relay as a machine. -/
def relay : Machine Tid Act Act.Resp World Env Request WriterStep Local where
  exec := World.exec
  start := Request.start
  ambient := World.writerStep

abbrev RelaySys := Sys Tid Act Act.Resp World Local

abbrev RelayLabel := Label Tid Env Request WriterStep

def initialTask : Tid → Task Local
  | .conn _ => .ret .fresh
  | .sweeper _ | .main => .ret .idle

/-- The relay after startup with the given restored rooms. -/
def initially (restored : List RestoredRoom) : RelaySys :=
  ⟨⟨Server.restore {} restored, []⟩, initialTask⟩

/-- A state the process can start in. -/
def Startup (sys : RelaySys) : Prop :=
  ∃ file now clock, sys = initially (loadSnapshot file now clock)

/-- The states of all runs whose steps meet `C`. -/
abbrev Reaches (C : RelaySys → RelayLabel → Prop) (sys : RelaySys) : Prop :=
  relay.Reachable Startup C sys

/-- Every run. -/
abbrev Always (_ : RelaySys) (_ : RelayLabel) : Prop := True

/-- The runs in which every action meets `D` when it is performed. -/
def When (D : Tid → Act → World → Prop) (sys : RelaySys) : RelayLabel → Prop
  | .act t _ => ∀ a ∈ (sys.threads t).next, D t a sys.shared
  | _ => True

instance {D : Tid → Act → World → Prop} [∀ t a w, Decidable (D t a w)] (sys : RelaySys) :
    (l : RelayLabel) → Decidable (When D sys l)
  | .act t _ => inferInstanceAs (Decidable (∀ a ∈ (sys.threads t).next, D t a sys.shared))
  | .start .. | .ambient _ => inferInstanceAs (Decidable True)

theorem startup_empty : Startup (initially []) := ⟨none, 0, fun _ _ => (0, 0), rfl⟩

/-! ### What the history says -/

/-- The connection id and the token an admission has assigned. -/
def Effects.admitted (e : Effects) : Option (Nat × CancellationToken) :=
  match e.assignedConnId, e.assignedCancel with
  | some connId, some cancel => some (connId, cancel)
  | _, _ => none

/-- The room, connection id and token an event assigned to its task. -/
def Event.assigns : Event → Option (RoomId × Nat × CancellationToken)
  | ⟨_, .newRoom .., (room, e)⟩ => e.admitted.map (room, ·)
  | ⟨_, .room room (.reconnectHost ..), e⟩ => e.admitted.map (room, ·)
  | ⟨_, .room room (.joinOrResume ..), e⟩ => e.admitted.map (room, ·)
  | _ => none

/-- `room` has assigned `connId` to task `t`. -/
def Assigned (h : List Event) (t : Tid) (room : RoomId) (connId : Nat) : Prop :=
  ∃ ev ∈ h, ev.thread = t ∧ ∃ cancel, ev.assigns = some (room, connId, cancel)

instance (h : List Event) (t : Tid) (room : RoomId) (connId : Nat) :
    Decidable (Assigned h t room connId) :=
  decidable_of_iff
    (∃ ev ∈ h, ev.thread = t ∧ ev.assigns.map (fun x => (x.1, x.2.1)) = some (room, connId)) <| by
      simp [Assigned]

section Assigned

variable {h : List Event} {ev : Event} {t : Tid} {room : RoomId} {connId : Nat}

omit [TokenCodec] in
theorem assigned_cons : Assigned (ev :: h) t room connId ↔
    (ev.thread = t ∧ ∃ cancel, ev.assigns = some (room, connId, cancel)) ∨
      Assigned h t room connId := by
  simp [Assigned]

omit [TokenCodec] in
theorem Assigned.cons (hassigned : Assigned h t room connId) :
    Assigned (ev :: h) t room connId :=
  assigned_cons.mpr (Or.inr hassigned)

end Assigned

/-! ### Steps of the world -/

/-- Task `t` did `a` with response `x`. -/
def Did (t : Tid) (a : Act) (e : Env) (w : World) (x : a.Resp) (w' : World) : Prop :=
  w.exec t a e = some (x, w')

namespace World

variable {t : Tid} {a : Act} {e : Env} {w w' : World} {x : a.Resp}

theorem did_iff : Did t a e w x w' ↔
    ∃ s', w.server.exec t a e = some (x, s') ∧ w' = ⟨s', ⟨t, a, x⟩ :: w.history⟩ := by
  simp only [Did, exec, Option.map_eq_some_iff, Prod.mk.injEq]
  constructor
  · rintro ⟨⟨y, s'⟩, hs, rfl, rfl⟩
    exact ⟨s', hs, rfl⟩
  · rintro ⟨s', hs, rfl⟩
    exact ⟨(x, s'), hs, rfl, rfl⟩

theorem did_moves (h : Did t a e w x w') : Moves t e w.server a w'.server := by
  obtain ⟨s', hs, rfl⟩ := did_iff.mp h
  exact Server.exec_moves hs

theorem did_history (h : Did t a e w x w') : w'.history = ⟨t, a, x⟩ :: w.history := by
  obtain ⟨s', _, rfl⟩ := did_iff.mp h
  rfl

theorem writerStep_iff {m : WriterStep} : w.writerStep m = some w' ↔
    w.server.writerStep m = some w'.server ∧ w'.history = w.history := by
  simp only [writerStep, Option.map_eq_some_iff]
  constructor
  · rintro ⟨s', hs, rfl⟩
    exact ⟨hs, rfl⟩
  · rintro ⟨hs, hh⟩
    exact ⟨w'.server, hs, by rw [← hh]⟩

/-- A section of a room, with the state it found. -/
theorem did_room {r : RoomId} {op : RoomOp} {y : op.Result}
    (h : Did t (.room r op) e w y w') :
    ∃ st, w.server.heap[r]? = some st ∧
      op.run (e.readings ⟨w.server.nextToken⟩) st = ((op.run (e.readings ⟨w.server.nextToken⟩) st).1, y) ∧
      w'.server.heap[r]? = some (op.run (e.readings ⟨w.server.nextToken⟩) st).1 := by
  obtain ⟨s', hs, rfl⟩ := did_iff.mp h
  obtain ⟨st, hst, rfl, rfl⟩ := Server.room_cases hs
  exact ⟨st, hst, rfl, List.getElem?_set_self (List.getElem?_eq_some_iff.mp hst).1⟩

end World

/-! ### Fresh connection ids -/

omit [TokenCodec] in
theorem RoomState.reconnectHost_admitted (st : RoomState) (host : Admission) (token : String)
    (cancel : CancellationToken) :
    (st.reconnectHost host token cancel).2.admitted = some (st.nextConnId, cancel) := by
  rcases h : st.reconnectHost host token cancel with ⟨st', effects⟩
  obtain ⟨_, _, hid, hcancel, _⟩ := RoomState.reconnectHost_cases h
  simp [Effects.admitted, hid, hcancel]

omit [TokenCodec] in
@[simp] theorem Effects.error_admitted (err : ClientError) (text : String) :
    (Effects.error err text).admitted = none := rfl

omit [TokenCodec] in
theorem RoomState.newRoom_admitted (sid host : String) (v : Verifier) (token key : String)
    (admission : Admission) (now : SystemTime) (cancel : CancellationToken) :
    (RoomState.newRoom sid host v token key admission now cancel).2.admitted =
      some (1, cancel) := by
  simp [RoomState.newRoom, Effects.admitted]

/-- An admission through `join_or_resume` assigns the next connection id. -/
theorem RoomState.joinOrResume_admitted {st st' : RoomState} {msg : ClientMessage}
    {admission : Admission} {resumeOnly : Bool} {now : SystemTime} {instants : String → Instant}
    {cancel k : CancellationToken} {e : Effects} {c : Nat}
    (h : st.joinOrResume msg admission resumeOnly now instants cancel = (st', e))
    (he : e.admitted = some (c, k)) :
    c = st.nextConnId ∧ k = cancel ∧ st'.nextConnId = st.nextConnId + 1 ∧
      st'.connIdOf admission.peerId = some c := by
  rcases RoomState.joinOrResume_cases h with
    ⟨_, _, rfl⟩ | ⟨_, _, _, _, rfl⟩ | ⟨_, _, _, rfl, _, hid, hcancel, _⟩
  · cases he
  · cases he
  · simp only [Effects.admitted, hid, hcancel, Option.some.injEq, Prod.mk.injEq] at he
    obtain ⟨rfl, rfl⟩ := he
    simp [RoomState.connIdOf, Admission.connect]

/-- An event assigns the id the room was about to hand out. -/
theorem assigns_spec {t : Tid} {a : Act} {e : Env} {w w' : World} {x : a.Resp} {r : RoomId}
    {c : Nat} {k : CancellationToken} (h : Did t a e w x w')
    (hassigns : Event.assigns ⟨t, a, x⟩ = some (r, c, k)) :
    (∀ st, w.server.heap[r]? = some st → c = st.nextConnId) ∧
      ∃ st', w'.server.heap[r]? = some st' ∧ c < st'.nextConnId := by
  obtain ⟨s', hs, rfl⟩ := World.did_iff.mp h
  cases a with
  | newRoom sid host v token key admission =>
      simp only [Server.exec] at hs
      split at hs
      · cases hs
        simp only [Event.assigns, RoomState.newRoom_admitted, Option.map_some, Option.some.injEq,
          Prod.mk.injEq] at hassigns
        obtain ⟨rfl, rfl, rfl⟩ := hassigns
        refine ⟨fun st hst => ?_, _, List.getElem?_concat_length, Nat.lt_succ_self 1⟩
        rw [List.getElem?_eq_none le_rfl] at hst
        cases hst
      · cases hs
  | room room op =>
      obtain ⟨st, hst, hrun, hst'⟩ := World.did_room h
      cases op with
      | reconnectHost host token =>
          have hx : x = (st.reconnectHost host token ⟨w.server.nextToken⟩).2 :=
            (congrArg Prod.snd hrun).symm
          subst hx
          simp only [Event.assigns, RoomState.reconnectHost_admitted, Option.map_some,
            Option.some.injEq, Prod.mk.injEq] at hassigns
          obtain ⟨rfl, rfl, rfl⟩ := hassigns
          refine ⟨fun st₀ hst₀ => ?_, _, hst', Nat.lt_succ_self _⟩
          rw [Option.some.inj (hst₀.symm.trans hst)]
      | joinOrResume msg admission resumeOnly =>
          simp only [Event.assigns, Option.map_eq_some_iff, Prod.mk.injEq] at hassigns
          obtain ⟨⟨c', k'⟩, hadm, rfl, rfl, rfl⟩ := hassigns
          obtain ⟨hc, _, hnext, _⟩ := RoomState.joinOrResume_admitted hrun hadm
          refine ⟨fun st₀ hst₀ => ?_, _, hst', ?_⟩
          · rw [hc, Option.some.inj (hst₀.symm.trans hst)]
          · rw [hnext, hc]
            exact Nat.lt_succ_self _
      | _ => cases hassigns
  | _ => cases hassigns

theorem assigned_of_did {t : Tid} {a : Act} {e : Env} {w w' : World} {x : a.Resp} {r : RoomId}
    {c : Nat} {k : CancellationToken} (h : Did t a e w x w')
    (hassigns : Event.assigns ⟨t, a, x⟩ = some (r, c, k)) : Assigned w'.history t r c := by
  rw [World.did_history h, assigned_cons]
  exact Or.inl ⟨rfl, k, hassigns⟩

omit [TokenCodec] in
theorem Effects.assignedConnId_of_admitted {e : Effects} {c : Nat} {k : CancellationToken}
    (h : e.admitted = some (c, k)) : e.assignedConnId = some c := by
  unfold Effects.admitted at h
  split at h
  · cases h
    assumption
  · cases h

namespace World

variable {t : Tid} {e : Env} {w w' : World}

theorem did_newRoom {sid host : String} {v : Verifier} {token key : String}
    {admission : Admission} {x : RoomId × Effects}
    (h : Did t (.newRoom sid host v token key admission) e w x w') :
    w.server.writeLock = some t ∧
      x = (w.server.heap.length,
        (RoomState.newRoom sid host v token key admission e.now ⟨w.server.nextToken⟩).2) ∧
      w'.server = { w.server with
        heap := w.server.heap ++
          [(RoomState.newRoom sid host v token key admission e.now ⟨w.server.nextToken⟩).1]
        rooms := w.server.rooms.insert sid w.server.heap.length
        nextToken := w.server.nextToken + 1 } := by
  obtain ⟨s', hs, rfl⟩ := did_iff.mp h
  simp only [Server.exec] at hs
  split at hs
  · rename_i hheld
    cases hs
    exact ⟨hheld, rfl, rfl⟩
  · cases hs

theorem did_lockRooms {sid : String} {x : Option RoomId}
    (h : Did t (.lockRooms sid) e w x w') :
    w.server.writeLock = none ∧ x = w.server.rooms.lookup sid ∧
      w'.server = { w.server with writeLock := some t } := by
  obtain ⟨s', hs, rfl⟩ := did_iff.mp h
  simp only [Server.exec] at hs
  split at hs
  · rename_i hfree
    cases hs
    exact ⟨hfree, rfl, rfl⟩
  · cases hs

theorem did_removeRoom {sid : String} {x : Option RoomId}
    (h : Did t (.removeRoom sid) e w x w') :
    w.server.writeLock = some t ∧ x = w.server.rooms.lookup sid ∧
      w'.server = { w.server with rooms := w.server.rooms.erase sid } := by
  obtain ⟨s', hs, rfl⟩ := did_iff.mp h
  simp only [Server.exec] at hs
  split at hs
  · rename_i hheld
    cases hs
    exact ⟨hheld, rfl, rfl⟩
  · cases hs

theorem did_unlockRooms {x : Unit} (h : Did t .unlockRooms e w x w') :
    w.server.writeLock = some t ∧ w'.server = { w.server with writeLock := none } := by
  obtain ⟨s', hs, rfl⟩ := did_iff.mp h
  simp only [Server.exec] at hs
  split at hs
  · rename_i hheld
    cases hs
    exact ⟨hheld, rfl⟩
  · cases hs

theorem did_allRooms {x : List RoomId} (h : Did t .allRooms e w x w') :
    x = w.server.rooms.values ∧ w'.server = w.server := by
  obtain ⟨s', hs, rfl⟩ := did_iff.mp h
  simp only [Server.exec] at hs
  split at hs
  · cases hs
    exact ⟨rfl, rfl⟩
  · cases hs

theorem did_getRoom {sid : String} {x : Option RoomId} (h : Did t (.getRoom sid) e w x w') :
    x = w.server.rooms.lookup sid ∧ w'.server = w.server := by
  obtain ⟨s', hs, rfl⟩ := did_iff.mp h
  simp only [Server.exec] at hs
  split at hs
  · cases hs
    exact ⟨rfl, rfl⟩
  · cases hs

end World

/-- A new room assigns its first connection id to its creator. -/
theorem assigns_newRoom {t : Tid} {e : Env} {w w' : World} {sid host : String} {v : Verifier}
    {token key : String} {admission : Admission} {x : RoomId × Effects}
    (h : Did t (.newRoom sid host v token key admission) e w x w') :
    Event.assigns ⟨t, .newRoom sid host v token key admission, x⟩ =
      some (w.server.heap.length, 1, ⟨w.server.nextToken⟩) := by
  obtain ⟨_, rfl, _⟩ := World.did_newRoom h
  simp [Event.assigns, RoomState.newRoom_admitted]

theorem assigns_reconnectHost {t : Tid} {e : Env} {w w' : World} {r : RoomId} {host : Admission}
    {token : String} {x : Effects} (h : Did t (.room r (.reconnectHost host token)) e w x w') :
    ∃ st, w.server.heap[r]? = some st ∧ x.admitted = some (st.nextConnId, ⟨w.server.nextToken⟩) := by
  obtain ⟨st, hst, hrun, _⟩ := World.did_room h
  have hx : (st.reconnectHost host token ⟨w.server.nextToken⟩).2 = x := congrArg Prod.snd hrun
  exact ⟨st, hst, hx ▸ RoomState.reconnectHost_admitted ..⟩

/-- A join that assigns a connection id also assigns a token. -/
theorem assigns_joinOrResume {t : Tid} {e : Env} {w w' : World} {r : RoomId} {msg : ClientMessage}
    {admission : Admission} {resumeOnly : Bool} {x : Effects} {c : Nat}
    (h : Did t (.room r (.joinOrResume msg admission resumeOnly)) e w x w')
    (hc : x.assignedConnId = some c) : x.admitted = some (c, ⟨w.server.nextToken⟩) := by
  obtain ⟨st, _, hrun, _⟩ := World.did_room h
  rcases RoomState.joinOrResume_cases hrun with
    ⟨_, _, rfl⟩ | ⟨_, _, _, _, rfl⟩ | ⟨_, _, _, _, _, hid, hcancel, _⟩
  · cases hc
  · cases hc
  · simp only [Effects.admitted, hc, hcancel]
    rfl

/-! ### Concrete runs -/

/-- What a schedule leads to from an empty server. -/
theorem reaches_of_run {C : RelaySys → RelayLabel → Prop} [∀ sys l, Decidable (C sys l)]
    {P : RelaySys → Prop} [DecidablePred P] (ls : List RelayLabel)
    (h : ((relay.run C (initially []) ls).any fun sys => decide (P sys)) = true) :
    ∃ sys, Reaches C sys ∧ P sys :=
  (Machine.Reachable.init startup_empty).exists_of_run h

/-- As `reaches_of_run`, where it matters that there was no file at startup. -/
theorem reachable_of_run {C : RelaySys → RelayLabel → Prop} [∀ sys l, Decidable (C sys l)]
    {P : RelaySys → Prop} [DecidablePred P] (ls : List RelayLabel)
    (h : ((relay.run C (initially []) ls).any fun sys => decide (P sys)) = true) :
    ∃ sys, relay.Reachable (· = initially []) C sys ∧ P sys := by
  have hinit : relay.Reachable (· = initially []) C (initially []) := .init rfl
  exact hinit.exists_of_run h

/-- As `reaches_of_run`, for a schedule after which all its tasks are at rest. -/
theorem rests_of_run {C : RelaySys → RelayLabel → Prop} [∀ sys l, Decidable (C sys l)]
    {P : RelaySys → Prop} [DecidablePred P] (ls : List RelayLabel)
    (h : ((relay.run C (initially []) ls).any fun sys => decide (P sys ∧
      ∀ t ∈ ls.filterMap Label.thread, (sys.threads t).result.isSome = true)) = true) :
    ∃ sys, Reaches C sys ∧ (∀ t, ∃ l, sys.threads t = .ret l) ∧ P sys := by
  obtain ⟨sys, hrun, hsys⟩ := (Option.any_eq_true _ _).mp h
  obtain ⟨hP, hrest⟩ := of_decide_eq_true hsys
  refine ⟨sys, (Machine.Reachable.init startup_empty).run ls hrun, fun t => ?_, hP⟩
  by_cases ht : t ∈ ls.filterMap Label.thread
  · obtain ⟨l, hl⟩ := Option.isSome_iff_exists.mp (hrest t ht)
    exact ⟨l, Proc.eq_ret_of_result hl⟩
  · have hsame : sys.threads t = initialTask t := Machine.run_threads hrun fun l hl heq =>
      ht (List.mem_filterMap.mpr ⟨l, hl, heq⟩)
    rw [hsame]
    cases t <;> exact ⟨_, rfl⟩

/-- The task performs `n` actions. -/
def acts (t : Tid) (n : Nat) : List RelayLabel := List.replicate n (.act t {})

/-- The connection gets a message and performs the next `n` actions of its handler. -/
def handles (k : Nat) (msg : ClientMessage) (n : Nat) : List RelayLabel :=
  .start (.conn k) (.frame (.message msg)) :: acts (.conn k) n

/-- The writer takes these steps. -/
def writes (steps : List WriterStep) : List RelayLabel := steps.map .ambient

/-- The writer takes `n` commands and later writes the file, with `m` rooms. -/
def saves (n m : Nat) : List RelayLabel :=
  writes (List.replicate n .recv ++ .debounce :: .collect ::
    List.replicate m (.capture fun _ => (0, 0)) ++ [.persist true, .resolve])

/-- The messages of peer `p` for session `s`, with the given token. -/
def message (type : ClientType) (s p token : String) : ClientMessage :=
  { msgType := type
    sessionId := s
    peerId := p
    reconnectToken := token
    protocolVersion := RELAY_PROTOCOL_VERSION }

end PlezyRelay
