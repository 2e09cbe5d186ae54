/-
  PlezyRelay/RelayBase.lean
  =========================
  **The invariant all results about the running relay rest on.**

  `Base` ties the table of rooms to the rooms: what is registered exists under its
  own session id, and a room that is not closing is registered.  `Legal` is what the
  tasks keep to so that this stays true: a room leaves the table only once it is
  closing, a room is only inserted where there is none, the last section of an end of
  session runs on a closing room, what only `create` does is done under the registry's
  write lock, and a task speaks for a connection id only if that id was assigned to it.
  `relay_base` proves both for every reachable state, by showing every program safe.
-/
import PlezyRelay.Relay

namespace PlezyRelay

variable [TokenCodec]

/-! ### Legality -/

/-- The room exists. -/
def Present (w : World) (r : RoomId) : Prop := ∃ st, w.server.heap[r]? = some st

/-- The room exists and is closing. -/
def IsClosing (w : World) (r : RoomId) : Prop :=
  ∃ st, w.server.heap[r]? = some st ∧ st.closing = true

/-- What a task has made sure of when it performs an action. -/
def Legal (t : Tid) (a : Act) (w : World) : Prop :=
  match a with
  | .room r op =>
      Present w r ∧ (∀ c, op.connId = some c → Assigned w.history t r c) ∧
        (op.isTeardown = true → IsClosing w r) ∧
        (op.inCreate = true → w.server.writeLock = some t)
  | .removeRoom sid => ∀ r, w.server.rooms.lookup sid = some r → IsClosing w r
  | .removeIfCurrent r => IsClosing w r
  | .removeEnded r => IsClosing w r
  | .newRoom sid .. => w.server.rooms.lookup sid = none
  | .tryClaimRoomQuota _ => w.server.writeLock = some t
  | _ => True

/-! ### The invariant -/

structure Base (w : World) : Prop where
  registered : ∀ {sid : String} {r : RoomId}, w.server.rooms.lookup sid = some r →
    ∃ st, w.server.heap[r]? = some st ∧ st.sessionId = sid
  open_registered : ∀ {r : RoomId} {st : RoomState}, w.server.heap[r]? = some st → st.closing = false →
    w.server.rooms.lookup st.sessionId = some r
  wf : ∀ {r : RoomId} {st : RoomState}, w.server.heap[r]? = some st → RoomWf st
  assigned_lt : ∀ {t : Tid} {r : RoomId} {c : Nat}, Assigned w.history t r c →
    ∃ st, w.server.heap[r]? = some st ∧ c < st.nextConnId
  assigned_unique : ∀ {t u : Tid} {r : RoomId} {c : Nat}, Assigned w.history t r c →
    Assigned w.history u r c → t = u

/-- A step of the world: an action of a task or a step of the writer. -/
inductive World.Next (w w' : World) : Prop where
  | act {t : Tid} {a : Act} {e : Env} {x : a.Resp} (h : Did t a e w x w') : Next w w'
  | writer {m : WriterStep} (h : w.writerStep m = some w') : Next w w'

namespace World.Next

variable {w w' : World}

/-- A room goes on existing, and changes only as sections change it. -/
theorem heap_some (h : World.Next w w') {r : RoomId} {st : RoomState}
    (hst : w.server.heap[r]? = some st) :
    ∃ st', w'.server.heap[r]? = some st' ∧ (st' = st ∨ Change st st') := by
  cases h with
  | act h =>
      obtain ⟨st', hst', hcase⟩ := (World.did_moves h).heap_some hst
      refine ⟨st', hst', hcase.imp id ?_⟩
      rintro ⟨op, _, rfl⟩
      exact RoomOp.run_change _ st op
  | writer h =>
      rw [(Server.writerStep_frame (World.writerStep_iff.mp h).1).1]
      exact ⟨st, hst, Or.inl rfl⟩

/-- A room keeps the time it was created. -/
theorem createdAt (h : World.Next w w') {r : RoomId} {st : RoomState}
    (hst : w.server.heap[r]? = some st) :
    ∃ st', w'.server.heap[r]? = some st' ∧ st'.createdAt = st.createdAt := by
  obtain ⟨st', hst', rfl | hchange⟩ := h.heap_some hst
  · exact ⟨st', hst', rfl⟩
  · exact ⟨st', hst', hchange.createdAt⟩

theorem present (h : World.Next w w') {r : RoomId} (hr : Present w r) : Present w' r := by
  obtain ⟨st, hst⟩ := hr
  obtain ⟨st', hst', _⟩ := h.heap_some hst
  exact ⟨st', hst'⟩

theorem isClosing (h : World.Next w w') {r : RoomId} (hr : IsClosing w r) : IsClosing w' r := by
  obtain ⟨st, hst, hclosing⟩ := hr
  obtain ⟨st', hst', rfl | hchange⟩ := h.heap_some hst
  · exact ⟨st', hst', hclosing⟩
  · exact ⟨st', hst', hchange.closing hclosing⟩

theorem assigned (h : World.Next w w') {t : Tid} {r : RoomId} {c : Nat}
    (ha : Assigned w.history t r c) : Assigned w'.history t r c := by
  cases h with
  | act h => rw [World.did_history h]; exact ha.cons
  | writer h => rw [(World.writerStep_iff.mp h).2]; exact ha

end World.Next

/-- What an action finds registered afterwards was so before, or is new. -/
theorem registered_of_did {t : Tid} {a : Act} {e : Env} {w w' : World} {x : a.Resp}
    (hx : Did t a e w x w') {sid : String} {r : RoomId}
    (hr : w'.server.rooms.lookup sid = some r) :
    w.server.rooms.lookup sid = some r ∨ r = w.server.heap.length := by
  have hmoves := World.did_moves hx
  generalize w'.server = s' at hmoves hr
  cases hmoves with
  | newRoom =>
      rw [AList.lookup_insert_eq] at hr
      split at hr
      · exact Or.inr (Option.some.inj hr).symm
      · exact Or.inl hr
  | remove | removeCurrent =>
      rw [AList.lookup_erase_eq] at hr
      split at hr
      · cases hr
      · exact Or.inl hr
  | _ => exact Or.inl hr

namespace Base

variable {w w' : World} {t : Tid} {a : Act} {e : Env} {x : a.Resp}

omit [TokenCodec] in
/-- A room is registered under one id only. -/
theorem lookup_inj (hb : Base w) {r : RoomId} {sid sid' : String}
    (h : w.server.rooms.lookup sid = some r) (h' : w.server.rooms.lookup sid' = some r) :
    sid = sid' := by
  obtain ⟨st, hst, rfl⟩ := hb.registered h
  obtain ⟨st', hst', rfl⟩ := hb.registered h'
  rw [Option.some.inj (hst.symm.trans hst')]

omit [TokenCodec] in
/-- Taking the id of a room out of the table takes the room out. -/
theorem gone_of_erase (hb : Base w) {r : RoomId} {sid : String}
    (hr : w.server.rooms.lookup sid = some r)
    (hs : w'.server.rooms = w.server.rooms.erase sid) (sid' : String) :
    w'.server.rooms.lookup sid' ≠ some r := by
  rw [hs, AList.lookup_erase_eq]
  split
  · exact nofun
  · rename_i hne
    exact fun h => hne (hb.lookup_inj h hr)

/-- The table after a legal action still only lists existing rooms under their ids. -/
theorem did_registered (hb : Base w) (h : Did t a e w x w') {sid : String}
    {r : RoomId} (hr : w'.server.rooms.lookup sid = some r) :
    ∃ st, w'.server.heap[r]? = some st ∧ st.sessionId = sid := by
  have hkeep : w.server.rooms.lookup sid = some r →
      ∃ st, w'.server.heap[r]? = some st ∧ st.sessionId = sid := by
    intro hold
    obtain ⟨st, hst, hsid⟩ := hb.registered hold
    obtain ⟨st', hst', rfl | hchange⟩ := (World.Next.act h).heap_some hst
    · exact ⟨st', hst', hsid⟩
    · exact ⟨st', hst', hchange.sessionId.trans hsid⟩
  have hmoves := World.did_moves h
  generalize hs' : w'.server = s' at hmoves hr hkeep ⊢
  cases hmoves with
  | newRoom sid' =>
      rw [AList.lookup_insert_eq] at hr
      split at hr
      · rename_i hsid
        obtain rfl := Option.some.inj hr
        exact ⟨_, List.getElem?_concat_length, hsid.symm⟩
      · exact hkeep hr
  | remove | removeCurrent =>
      rw [AList.lookup_erase_eq] at hr
      split at hr
      · cases hr
      · exact hkeep hr
  | _ => exact hkeep hr

/-- An open room stays registered: legal actions remove only closing rooms. -/
theorem did_open_registered (hb : Base w) (hlegal : Legal t a w)
    (h : Did t a e w x w') {r : RoomId} {st' : RoomState}
    (hst' : w'.server.heap[r]? = some st') (hopen : st'.closing = false) :
    w'.server.rooms.lookup st'.sessionId = some r := by
  have hmoves := World.did_moves h
  rcases hmoves.heap_of_some hst' with ⟨st, hst, hcase⟩ | ⟨_, _, sid, _, _, _, _, _, _, rfl, hrooms⟩
  · have hchange : st' = st ∨ Change st st' := by
      refine hcase.imp id ?_
      rintro ⟨op, _, rfl⟩
      exact RoomOp.run_change _ st op
    have hsid : st'.sessionId = st.sessionId := by
      rcases hchange with rfl | hchange
      · rfl
      · exact hchange.sessionId
    have hopen₀ : st.closing = false := by
      rcases hchange with rfl | hchange
      · exact hopen
      · cases hc : st.closing with
        | false => rfl
        | true => exact absurd (hchange.closing hc) (by simp [hopen])
    have hreg := hb.open_registered hst hopen₀
    have hclosed : ¬IsClosing w r := by
      rintro ⟨st₀, hst₀, hc⟩
      rw [Option.some.inj (hst₀.symm.trans hst), hopen₀] at hc
      cases hc
    rw [hsid]
    generalize hs' : w'.server = s' at hmoves ⊢
    cases hmoves with
    | newRoom sid' =>
        rw [AList.lookup_insert_eq, if_neg]
        · exact hreg
        · intro heq
          rw [heq, show w.server.rooms.lookup sid' = none from hlegal] at hreg
          cases hreg
    | remove sid' =>
        rw [AList.lookup_erase_eq, if_neg]
        · exact hreg
        · intro heq
          exact hclosed (hlegal r (heq ▸ hreg))
    | removeCurrent _ r' state ha _ hstate hcur =>
        rw [AList.lookup_erase_eq, if_neg]
        · exact hreg
        · intro heq
          rw [heq, hcur] at hreg
          obtain rfl := Option.some.inj hreg
          rcases ha with rfl | rfl <;> exact hclosed hlegal
    | _ => exact hreg
  · rw [hrooms]
    exact AList.lookup_insert _

theorem did_wf (hb : Base w) (h : Did t a e w x w') {r : RoomId} {st' : RoomState}
    (hst' : w'.server.heap[r]? = some st') : RoomWf st' := by
  rcases (World.did_moves h).heap_of_some hst' with
    ⟨st, hst, rfl | ⟨op, _, rfl⟩⟩ | ⟨_, _, _, _, _, _, _, _, _, rfl, _⟩
  · exact hb.wf hst
  · exact (hb.wf hst).change (RoomOp.run_change _ st op)
  · exact RoomWf.newRoom ..

theorem did_assigned_lt (hb : Base w) (h : Did t a e w x w') {u : Tid} {r : RoomId}
    {c : Nat} (ha : Assigned w'.history u r c) :
    ∃ st, w'.server.heap[r]? = some st ∧ c < st.nextConnId := by
  rw [World.did_history h, assigned_cons] at ha
  rcases ha with ⟨_, k, hassigns⟩ | hold
  · exact (assigns_spec h hassigns).2
  · obtain ⟨st, hst, hlt⟩ := hb.assigned_lt hold
    obtain ⟨st', hst', rfl | hchange⟩ := (World.Next.act h).heap_some hst
    · exact ⟨st', hst', hlt⟩
    · exact ⟨st', hst', lt_of_lt_of_le hlt hchange.nextConnId_le⟩

/-- An id that an event assigns was not assigned before. -/
theorem fresh_assigned (hb : Base w) (h : Did t a e w x w') {u : Tid} {r : RoomId}
    {c : Nat} {k : CancellationToken} (hassigns : Event.assigns ⟨t, a, x⟩ = some (r, c, k)) :
    ¬Assigned w.history u r c := by
  intro hold
  obtain ⟨st, hst, hlt⟩ := hb.assigned_lt hold
  rw [(assigns_spec h hassigns).1 st hst] at hlt
  exact lt_irrefl _ hlt

theorem did_assigned_unique (hb : Base w) (h : Did t a e w x w') {u v : Tid}
    {r : RoomId} {c : Nat} (hu : Assigned w'.history u r c) (hv : Assigned w'.history v r c) :
    u = v := by
  rw [World.did_history h, assigned_cons] at hu hv
  rcases hu with ⟨rfl, k, hk⟩ | hu
  · rcases hv with ⟨rfl, _⟩ | hv
    · rfl
    · exact (hb.fresh_assigned h hk hv).elim
  · rcases hv with ⟨rfl, k, hk⟩ | hv
    · exact (hb.fresh_assigned h hk hu).elim
    · exact hb.assigned_unique hu hv

/-- Legal actions keep the invariant. -/
theorem did (hb : Base w) (hlegal : Legal t a w) (h : Did t a e w x w') : Base w' where
  registered := hb.did_registered h
  open_registered := hb.did_open_registered hlegal h
  wf := hb.did_wf h
  assigned_lt := hb.did_assigned_lt h
  assigned_unique := hb.did_assigned_unique h

/-- So does the writer. -/
theorem writer (hb : Base w) {m : WriterStep} (h : w.writerStep m = some w') : Base w' := by
  obtain ⟨hs, hh⟩ := World.writerStep_iff.mp h
  obtain ⟨hheap, hrooms, _⟩ := Server.writerStep_frame hs
  constructor <;> intros <;> simp only [hheap, hrooms, hh] at *
  · exact hb.registered ‹_›
  · exact hb.open_registered ‹_› ‹_›
  · exact hb.wf ‹_›
  · exact hb.assigned_lt ‹_›
  · exact hb.assigned_unique ‹_› ‹_›

end Base

/-- The invariant rule: what holds at the start and is kept by every step of the world
    holds in every state of every run. -/
theorem relay_invariant {Init : RelaySys → Prop} {C : RelaySys → RelayLabel → Prop}
    {P : World → Prop} {sys : RelaySys} (h : relay.Reachable Init C sys)
    (hinit : ∀ sys, Init sys → P sys.shared)
    (hnext : ∀ sys w', relay.Reachable Init C sys → P sys.shared → World.Next sys.shared w' → P w') :
    P sys.shared := by
  induction h with
  | init h => exact hinit _ h
  | step hreach _ hstep ih =>
      rcases relay.step_cases hstep with ⟨t, q, loc, p, rfl, _, _, rfl⟩ |
        ⟨t, e, a, k, x, w', rfl, _, hx, rfl⟩ | ⟨m, w', rfl, hm, rfl⟩
      · exact ih
      · exact hnext _ w' hreach ih (.act hx)
      · exact hnext _ w' hreach ih (.writer hm)

/-- A room keeps the time it was created for the rest of the run. -/
theorem relay_createdAt {sys₀ sys : RelaySys} {C : RelaySys → RelayLabel → Prop}
    (h : relay.Reachable (· = sys₀) C sys) {r : RoomId} {st₀ : RoomState}
    (hst₀ : sys₀.shared.server.heap[r]? = some st₀) :
    ∃ st, sys.shared.server.heap[r]? = some st ∧ st.createdAt = st₀.createdAt := by
  apply relay_invariant (P := fun w => ∃ st, w.server.heap[r]? = some st ∧
    st.createdAt = st₀.createdAt) h
  · intro sys hsys
    exact ⟨st₀, by rw [hsys]; exact hst₀, rfl⟩
  · rintro sys w' - ⟨st, hst, hcreated⟩ hnext
    obtain ⟨st', hst', hsame⟩ := hnext.createdAt hst
    exact ⟨st', hst', hsame.trans hcreated⟩

/-! ### A leave under way -/

/-- The release of `p`'s identity by connection `c` is under way, unless the room has
    been closed. -/
def Leaving (r : RoomId) (p : String) (c : Nat) (w : World) : Prop :=
  IsClosing w r ∨ ∃ st res, w.server.heap[r]? = some st ∧ PendingAt st p c res

/-- Phase 1 of a leave is refused, or the release is under way. -/
theorem leaving_of_beginLeave {t : Tid} {e : Env} {w w' : World} {r : RoomId} {p token : String}
    {c version : Nat} {y : Except Effects Unit}
    (hx : Did t (.room r (.beginLeave p c token version)) e w y w') :
    y = .error RoomState.leaveRefused ∨ (y = .ok () ∧ Leaving r p c w') := by
  obtain ⟨st, _, hrun, hst'⟩ := World.did_room hx
  rcases RoomState.beginLeave_cases hrun with
    ⟨_, hy⟩ | ⟨_, hconn, _, ⟨res, hres, _, _⟩, hmarked, hy⟩
  · exact Or.inl hy
  · refine Or.inr ⟨hy, Or.inr ⟨_, { res with releasePending := true }, hst', ?_⟩⟩
    rw [hmarked]
    exact ⟨hconn, by simp [RoomState.lookup_setReleasePending, hres], rfl⟩

/-- Only the task itself settles its leave. -/
theorem Leaving.did {u : Tid} {a : Act} {e : Env} {x : a.Resp} {w w' : World} {r : RoomId}
    {p : String} {c : Nat} (hb : Base w) (hlegal : Legal u a w) (hx : Did u a e w x w')
    (hother : ∀ op, a = .room r op → op.connId ≠ some c) (h : Leaving r p c w) :
    Leaving r p c w' := by
  rcases h with hclosing | ⟨st, res, hst, hpending⟩
  · exact Or.inl ((World.Next.act hx).isClosing hclosing)
  · obtain ⟨st', hst', rfl | ⟨op, rfl, rfl⟩⟩ := (World.did_moves hx).heap_some hst
    · exact Or.inr ⟨st', res, hst', hpending⟩
    · by_cases hteardown : op.isTeardown = true
      · exact Or.inl ((World.Next.act hx).isClosing (hlegal.2.2.1 hteardown))
      · rcases RoomOp.pendingAt_forward (Base.wf hb hst).toMembership _ op hpending
          (hother op rfl) (by simpa using hteardown) with hclosing | hpending
        · exact Or.inl ⟨_, hst', hclosing⟩
        · exact Or.inr ⟨_, res, hst', hpending⟩

/-- Phase 1 of an end of session is refused, or has closed the room. -/
theorem closing_of_beginEndSession {t : Tid} {e : Env} {w w' : World} {r : RoomId}
    {p token : String} {c version : Nat} {y : Except Effects (String × List Sender)}
    (hx : Did t (.room r (.beginEndSession p c token version)) e w y w') :
    y = .error RoomState.endRefused ∨ ∃ key guests, y = .ok (key, guests) ∧ IsClosing w' r := by
  obtain ⟨st, _, hrun, hst'⟩ := World.did_room hx
  rcases RoomState.beginEndSession_cases hrun with ⟨_, hy⟩ | ⟨_, _, _, _, hst, guests, hy⟩
  · exact Or.inl hy
  · exact Or.inr ⟨_, guests, hy, _, hst', by rw [hst]⟩

/-! ### Startup -/

/-- The loader never gives back two rooms under one session id. -/
theorem loadRooms_nodup {now : SystemTime} {clock : String → String → Instant × Instant}
    (seen : List String) (dtos : List RoomDto) :
    ((loadRooms now clock seen dtos).map (·.sessionId)).Nodup ∧
      ∀ r ∈ loadRooms now clock seen dtos, r.sessionId ∉ seen := by
  induction dtos generalizing seen with
  | nil => simp [loadRooms]
  | cons room rest ih =>
      simp only [loadRooms]
      split
      · exact ih seen
      · split
        · exact ih seen
        · rename_i hseen
          obtain ⟨hnodup, hnew⟩ := ih (room.sessionId :: seen)
          have hrest : ∀ r ∈ loadRooms now clock (room.sessionId :: seen) rest,
              r.sessionId ≠ room.sessionId ∧ r.sessionId ∉ seen := by
            intro r hr
            simpa using hnew r hr
          split
          · exact ⟨hnodup, fun r hr => (hrest r hr).2⟩
          · constructor
            · rw [List.map_cons, List.nodup_cons]
              refine ⟨fun hmem => ?_, hnodup⟩
              obtain ⟨r, hr, heq⟩ := List.mem_map.mp hmem
              exact (hrest r hr).1 heq
            · intro r hr
              rcases List.mem_cons.mp hr with rfl | hr
              · exact hseen
              · exact (hrest r hr).2

theorem loadSnapshot_nodup (file : Option StateSnapshotDto) (now : SystemTime)
    (clock : String → String → Instant × Instant) :
    ((loadSnapshot file now clock).map (·.sessionId)).Nodup := by
  unfold loadSnapshot
  split
  · exact List.nodup_nil
  · split
    · exact List.nodup_nil
    · exact (loadRooms_nodup [] _).1

omit [TokenCodec] in
theorem RoomWf.restored {r : RestoredRoom} (h : r.hostPeerId ∉ r.reservations) :
    RoomWf r.state where
  host_unreserved hmem := h (AList.mem_mapValues.mp hmem)
  known p hp := (AList.notMem_empty p hp).elim
  conn_lt p c hc := by cases hc

omit [TokenCodec] in
/-- Restoring touches the rooms, the table and the quotas. -/
theorem Server.restore_frame (s : Server) (restored : List RestoredRoom) :
    ∃ heap rooms quota,
      s.restore restored = { s with heap := heap, rooms := rooms, roomsPerIp := quota } := by
  induction restored generalizing s with
  | nil => exact ⟨s.heap, s.rooms, s.roomsPerIp, rfl⟩
  | cons r rest ih =>
      obtain ⟨heap, rooms, quota, h⟩ := ih
        { s with
          heap := s.heap ++ [r.state]
          rooms := s.rooms.insert r.sessionId s.heap.length
          roomsPerIp := s.roomsPerIp.insert "" ((s.roomsPerIp.lookup "").getD 0 + 1) }
      exact ⟨heap, rooms, quota, h⟩

/-- At the start there are rooms and quotas, and nothing else has happened. -/
theorem Startup.shared_eq {sys : RelaySys} (h : Startup sys) :
    ∃ heap rooms quota,
      sys.shared = ⟨{ heap := heap, rooms := rooms, roomsPerIp := quota }, []⟩ := by
  obtain ⟨file, now, clock, rfl⟩ := h
  obtain ⟨heap, rooms, quota, hrestore⟩ := Server.restore_frame {} (loadSnapshot file now clock)
  refine ⟨heap, rooms, quota, ?_⟩
  simp only [initially, hrestore]

omit [TokenCodec] in
theorem Server.restore_heap (s : Server) (restored : List RestoredRoom) :
    (s.restore restored).heap = s.heap ++ restored.map (·.state) := by
  induction restored generalizing s with
  | nil => simp [Server.restore]
  | cons r rest ih =>
      have h := ih
        { s with
          heap := s.heap ++ [r.state]
          rooms := s.rooms.insert r.sessionId s.heap.length
          roomsPerIp := s.roomsPerIp.insert "" ((s.roomsPerIp.lookup "").getD 0 + 1) }
      simpa [Server.restore] using h

/-- The rooms there are at startup come from the snapshot file. -/
theorem heap_startup {sys : RelaySys} (h : Startup sys) {r : RoomId} {st : RoomState}
    (hst : sys.shared.server.heap[r]? = some st) : ∃ room : RestoredRoom, st = room.state := by
  obtain ⟨file, now, clock, rfl⟩ := h
  simp only [initially, Server.restore_heap, List.nil_append] at hst
  obtain ⟨room, _, rfl⟩ := List.mem_map.mp (List.mem_of_getElem? hst)
  exact ⟨room, rfl⟩

omit [TokenCodec] in
/-- Restoring rooms with distinct ids into a consistent registry. -/
theorem Base.restore {s : Server} (restored : List RestoredRoom)
    (hb : Base ⟨s, []⟩) (hnodup : (restored.map (·.sessionId)).Nodup)
    (hnew : ∀ r ∈ restored, s.rooms.lookup r.sessionId = none)
    (hhost : ∀ r ∈ restored, r.hostPeerId ∉ r.reservations) :
    Base ⟨s.restore restored, []⟩ := by
  induction restored generalizing s with
  | nil => exact hb
  | cons r rest ih =>
      rw [List.map_cons, List.nodup_cons] at hnodup
      refine ih ?_ hnodup.2 ?_ fun r' hr' => hhost r' (List.mem_cons_of_mem r hr')
      · have hlookup : s.rooms.lookup r.sessionId = none := hnew r List.mem_cons_self
        refine ⟨?_, ?_, ?_, ?_, ?_⟩
        · intro sid i hi
          simp only [AList.lookup_insert_eq] at hi
          split at hi
          · rename_i hsid
            obtain rfl := Option.some.inj hi
            exact ⟨_, List.getElem?_concat_length, hsid.symm⟩
          · obtain ⟨st, hst, hsid⟩ := hb.registered hi
            have hlt := (List.getElem?_eq_some_iff.mp hst).1
            exact ⟨st, by rw [List.getElem?_append_left hlt]; exact hst, hsid⟩
        · intro i st hst hopen
          simp only [AList.lookup_insert_eq]
          rcases getElem?_concat_cases hst with hst | ⟨rfl, rfl⟩
          · have hreg := hb.open_registered hst hopen
            rw [if_neg]
            · exact hreg
            · intro heq
              rw [heq, hlookup] at hreg
              cases hreg
          · exact if_pos rfl
        · intro i st hst
          rcases getElem?_concat_cases hst with hst | ⟨rfl, rfl⟩
          · exact hb.wf hst
          · exact RoomWf.restored (hhost r List.mem_cons_self)
        · rintro _ _ _ ⟨_, hev, _⟩
          cases hev
        · rintro _ _ _ _ ⟨_, hev, _⟩
          cases hev
      · intro r' hr'
        simp only [AList.lookup_insert_eq]
        rw [if_neg]
        · exact hnew r' (List.mem_cons_of_mem r hr')
        · intro heq
          exact hnodup.1 (heq ▸ List.mem_map_of_mem hr')

omit [TokenCodec] in
theorem Base.empty : Base ⟨{}, []⟩ where
  registered h := by cases h
  open_registered h := by cases h
  wf h := by cases h
  assigned_lt := by
    rintro _ _ _ ⟨_, hev, _⟩
    cases hev
  assigned_unique := by
    rintro _ _ _ _ ⟨_, hev, _⟩
    cases hev

theorem Base.startup {sys : RelaySys} (h : Startup sys) : Base sys.shared := by
  obtain ⟨file, now, clock, rfl⟩ := h
  refine Base.restore _ Base.empty (loadSnapshot_nodup file now clock) (fun _ _ => rfl) ?_
  exact fun r hr => host_notMem_loadSnapshot hr

end PlezyRelay
