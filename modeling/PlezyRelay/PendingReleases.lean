/-
  PlezyRelay/PendingReleases.lean
  ===============================
  **Every release-pending mark has an owner at work.**

  `begin_leave` marks its caller's reservation and the room's lock is given up until
  `finish_leave`.  A mark that nobody is going to settle would stay for ever: pruning
  skips it and joins are refused.  The leaves in flight are read off the history as the
  begun ones that have not been finished, and the invariant is that a mark in an open
  room belongs to the connection its peer is connected under, of which exactly one leave
  is in flight.

  What carries it is that a connection handles its messages one after the other.  While
  its leave is in flight it runs no other section, so that nobody can speak for its
  connection id, and what the others do leaves both the mark and the connection alone.
-/
import PlezyRelay.RelaySafe

namespace PlezyRelay

open Machine

/-! ### The leaves in flight -/

/-- A leave of connection `connId` of `peerId` from a room, run by `thread`. -/
structure Leave where
  thread : Tid
  room : RoomId
  peerId : String
  connId : Nat
deriving DecidableEq

/-- The leave whose first phase an event has accepted. -/
def Event.beginsLeave : Event → Option Leave
  | ⟨t, .room room (.beginLeave peerId connId _ _), .ok ()⟩ => some ⟨t, room, peerId, connId⟩
  | _ => none

/-- The leave whose second phase an event is. -/
def Event.finishesLeave : Event → Option Leave
  | ⟨t, .room room (.finishLeave peerId connId _), _⟩ => some ⟨t, room, peerId, connId⟩
  | _ => none

/-- The leaves between `begin_leave` and `finish_leave`. -/
def inFlight : List Event → List Leave
  | [] => []
  | ev :: h => ev.beginsLeave.toList ++
      match ev.finishesLeave with
      | some leave => (inFlight h).erase leave
      | none => inFlight h

def Leave.isOf (room : RoomId) (connId : Nat) (leave : Leave) : Bool :=
  decide (leave.room = room) && decide (leave.connId = connId)

def leavesOf (t : Tid) (h : List Event) : List Leave :=
  (inFlight h).filter fun leave => decide (leave.thread = t)

section InFlight

variable {ev : Event} {h : List Event} {f : Leave → Bool} {leave : Leave}

/-- What an event does to the leaves of one kind. -/
theorem filter_inFlight_cons : (inFlight (ev :: h)).filter f =
    ev.beginsLeave.toList.filter f ++
      match ev.finishesLeave with
      | some leave => ((inFlight h).filter f).erase leave
      | none => (inFlight h).filter f := by
  rw [inFlight, List.filter_append]
  congr 1
  rcases ev.finishesLeave with _ | leave
  · rfl
  · exact List.erase_filter.symm

theorem filter_inFlight_other (hbegins : ∀ leave ∈ ev.beginsLeave, f leave = false)
    (hfinishes : ∀ leave ∈ ev.finishesLeave, f leave = false) :
    (inFlight (ev :: h)).filter f = (inFlight h).filter f := by
  have hnone : ev.beginsLeave.toList.filter f = [] := by
    rw [List.filter_eq_nil_iff]
    intro leave hleave
    simp [hbegins leave (by simpa using hleave)]
  rw [filter_inFlight_cons, hnone, List.nil_append]
  split
  · rename_i leave hleave
    apply List.erase_of_not_mem
    simp [hfinishes leave hleave]
  · rfl

theorem mem_inFlight_cons (hleave : leave ∈ inFlight (ev :: h)) :
    ev.beginsLeave = some leave ∨ leave ∈ inFlight h := by
  rw [inFlight, List.mem_append] at hleave
  rcases hleave with hbegins | hrest
  · exact Or.inl (by simpa using hbegins)
  · right
    split at hrest
    · exact List.mem_of_mem_erase hrest
    · exact hrest

theorem Event.thread_of_begins (hbegins : ev.beginsLeave = some leave) : leave.thread = ev.thread := by
  unfold Event.beginsLeave at hbegins
  split at hbegins
  · cases hbegins
    rfl
  · cases hbegins

theorem Event.thread_of_finishes (hfinishes : ev.finishesLeave = some leave) :
    leave.thread = ev.thread := by
  unfold Event.finishesLeave at hfinishes
  split at hfinishes
  · cases hfinishes
    rfl
  · cases hfinishes

theorem leavesOf_cons_other {t : Tid} (hne : ev.thread ≠ t) :
    leavesOf t (ev :: h) = leavesOf t h := by
  apply filter_inFlight_other
  · intro leave hbegins
    simp [Event.thread_of_begins hbegins, hne]
  · intro leave hfinishes
    simp [Event.thread_of_finishes hfinishes, hne]

end InFlight

variable [TokenCodec]

/-! ### Where marks come from -/

/-- Only `begin_leave` marks a reservation. -/
theorem RoomOp.pending_cases (rd : Readings) (st : RoomState) (op : RoomOp) {p : String}
    {res : PeerReservation} (h : (op.run rd st).1.reservations.lookup p = some res)
    (hpending : res.releasePending = true) :
    (∃ res₀, st.reservations.lookup p = some res₀ ∧ res₀.releasePending = true) ∨
    ∃ c token version, op = .beginLeave p c token version ∧
      (st.beginLeave p c token version).2 = .ok () := by
  have hmove := op.reservation_move rd st p
  rw [h] at hmove
  generalize hnew : some res = new, (op.run rd st).1 = st' at hmove
  cases hmove with
  | kept => exact Or.inl ⟨res, hnew.symm, hpending⟩
  | leaveBegun c token version _ hbegun => exact Or.inr ⟨c, token, version, rfl, hbegun⟩
  | disconnected c res₀ _ _ _ hres =>
      cases hnew
      exact Or.inl ⟨res₀, hres, hpending⟩
  | joined | leaveUndone | demoted =>
      cases hnew
      cases hpending
  | expired | released | cleared | promoted => cases hnew

/-! ### The invariant -/

/-- The mark of `p` in room `r` belongs to `leave`. -/
structure OwnedBy (w : World) (r : RoomId) (st : RoomState) (p : String) (leave : Leave) :
    Prop where
  room : leave.room = r
  peerId : leave.peerId = p
  conn : st.connIdOf p = some leave.connId
  only : (inFlight w.history).filter (Leave.isOf r leave.connId) = [leave]

/-- Every mark in an open room is owned, and leaves are run for connections of one's own. -/
structure MarksOwned (w : World) : Prop where
  owned : ∀ {r : RoomId} {st : RoomState} {p : String} {res : PeerReservation},
    w.server.heap[r]? = some st → st.closing = false → st.reservations.lookup p = some res →
    res.releasePending = true → ∃ leave, OwnedBy w r st p leave
  assigned : ∀ leave ∈ inFlight w.history,
    Assigned w.history leave.thread leave.room leave.connId

def NoLeave (t : Tid) (w : World) : Prop := leavesOf t w.history = []

def Busy (t : Tid) (leave : Leave) (w : World) : Prop := leavesOf t w.history = [leave]

/-- What a task has made sure of: it finishes the leave it has in flight, whose mark is still
    there; and while it has one it runs no other section for its connection. -/
def Attends (t : Tid) (a : Act) (w : World) : Prop :=
  match a with
  | .room r (.finishLeave p c _) => Busy t ⟨t, r, p, c⟩ w ∧ Leaving r p c w
  | .room _ op => op.connId.isSome = true → NoLeave t w
  | _ => True

section Step

variable {t : Tid} {a : Act} {e : Env} {w w' : World} {x : a.Resp}

omit [TokenCodec] in
theorem OwnedBy.mem {r : RoomId} {st : RoomState} {p : String} {leave : Leave}
    (h : OwnedBy w r st p leave) : leave ∈ inFlight w.history := by
  have hmem : leave ∈ (inFlight w.history).filter (Leave.isOf r leave.connId) := by
    rw [h.only]
    exact List.mem_singleton_self leave
  exact (List.mem_filter.mp hmem).1

omit [TokenCodec] in
theorem NoLeave.notMem (h : NoLeave t w) {leave : Leave} (hmem : leave ∈ inFlight w.history) :
    leave.thread ≠ t := by
  intro hthread
  have hin : leave ∈ leavesOf t w.history := List.mem_filter.mpr ⟨hmem, by simpa using hthread⟩
  rw [h] at hin
  cases hin

omit [TokenCodec] in
theorem Busy.eq {leave own : Leave} (h : Busy t own w) (hmem : leave ∈ inFlight w.history)
    (hthread : leave.thread = t) : leave = own := by
  have hin : leave ∈ leavesOf t w.history := List.mem_filter.mpr ⟨hmem, by simpa using hthread⟩
  rw [h] at hin
  exact List.mem_singleton.mp hin

omit [TokenCodec] in
/-- What an event begins or finishes is a leave of the connection its section speaks for. -/
theorem Event.leave_spec {leave : Leave}
    (h : Event.beginsLeave ⟨t, a, x⟩ = some leave ∨ Event.finishesLeave ⟨t, a, x⟩ = some leave) :
    leave.thread = t ∧ ∃ op, a = .room leave.room op ∧ op.connId = some leave.connId := by
  rcases h with h | h
  · unfold Event.beginsLeave at h
    split at h
    · rename_i heq
      cases heq
      cases h
      exact ⟨rfl, _, rfl, rfl⟩
    · cases h
  · unfold Event.finishesLeave at h
    split at h
    · rename_i heq
      cases heq
      cases h
      exact ⟨rfl, _, rfl, rfl⟩
    · cases h

/-- Sections for other connections leave the leaves of this one as they are. -/
theorem filter_isOf_did (hx : Did t a e w x w') {r : RoomId} {c : Nat}
    (hother : ∀ op, a = .room r op → op.connId ≠ some c) :
    (inFlight w'.history).filter (Leave.isOf r c) = (inFlight w.history).filter (Leave.isOf r c) := by
  have hnot : ∀ leave, Event.beginsLeave ⟨t, a, x⟩ = some leave ∨
      Event.finishesLeave ⟨t, a, x⟩ = some leave → Leave.isOf r c leave = false := by
    intro leave hleave
    obtain ⟨_, op, ha, hconn⟩ := Event.leave_spec hleave
    by_contra hof
    simp only [Leave.isOf, Bool.not_eq_false, Bool.and_eq_true, decide_eq_true_eq] at hof
    obtain ⟨rfl, rfl⟩ := hof
    exact hother op ha hconn
  rw [World.did_history hx]
  exact filter_inFlight_other (fun leave h => hnot leave (Or.inl h))
    fun leave h => hnot leave (Or.inr h)

theorem MarksOwned.assigned_did (h : MarksOwned w) (hlegal : Legal t a w) (hx : Did t a e w x w')
    {leave : Leave} (hleave : leave ∈ inFlight w'.history) :
    Assigned w'.history leave.thread leave.room leave.connId := by
  rw [World.did_history hx] at hleave
  apply (World.Next.act hx).assigned
  rcases mem_inFlight_cons hleave with hbegins | hold
  · obtain ⟨hthread, op, rfl, hconn⟩ := Event.leave_spec (Or.inl hbegins)
    rw [hthread]
    exact hlegal.2.1 _ hconn
  · exact h.assigned leave hold

/-- A section for another connection, or none, leaves a mark to its owner. -/
theorem OwnedBy.other {r : RoomId} {op : RoomOp} {st : RoomState} {p : String} {leave : Leave}
    {res : PeerReservation} {y : op.Result} (h : OwnedBy w r st p leave) (hb : Base w)
    (hlegal : Legal t (.room r op) w) (hx : Did t (.room r op) e w y w')
    (hst : w.server.heap[r]? = some st) (hres : st.reservations.lookup p = some res)
    (hpending : res.releasePending = true) (hconn : op.connId ≠ some leave.connId)
    {st' : RoomState} (hst' : w'.server.heap[r]? = some st') (hopen' : st'.closing = false) :
    OwnedBy w' r st' p leave := by
  have hleaving : Leaving r p leave.connId w := Or.inr ⟨st, res, hst, h.conn, hres, hpending⟩
  have hother : ∀ op', Act.room r op = .room r op' → op'.connId ≠ some leave.connId := by
    rintro op' ⟨⟩
    exact hconn
  rcases hleaving.did hb hlegal hx hother with ⟨st₁, hst₁, hclosing⟩ | ⟨st₁, _, hst₁, hpending'⟩
  · obtain rfl := Option.some.inj (hst₁.symm.trans hst')
    cases hopen'.symm.trans hclosing
  · obtain rfl := Option.some.inj (hst₁.symm.trans hst')
    refine ⟨h.room, h.peerId, hpending'.conn, ?_⟩
    rw [filter_isOf_did hx hother]
    exact h.only

/-- The owner's own section can only be the end of its leave, after which there is no mark. -/
theorem OwnedBy.own {r : RoomId} {op : RoomOp} {st : RoomState} {p : String} {leave : Leave}
    {y : op.Result} (h : OwnedBy w r st p leave) (hb : Base w) (hm : MarksOwned w)
    (hlegal : Legal t (.room r op) w) (hattends : Attends t (.room r op) w)
    (hx : Did t (.room r op) e w y w') (hst : w.server.heap[r]? = some st)
    (hopen : st.closing = false) (hconn : op.connId = some leave.connId) {st' : RoomState}
    (hst' : w'.server.heap[r]? = some st') {res : PeerReservation}
    (hres : st'.reservations.lookup p = some res) : res.releasePending = false := by
  have hthread : leave.thread = t := by
    have howner := hm.assigned leave h.mem
    rw [h.room] at howner
    exact hb.assigned_unique howner (hlegal.2.1 _ hconn)
  have hbusy : ¬NoLeave t w := fun hidle => hidle.notMem h.mem hthread
  cases op with
  | finishLeave peerId c persisted =>
      obtain ⟨hbusy, hleaving⟩ := hattends
      have hleave := hbusy.eq h.mem hthread
      have hp : peerId = p := by rw [← h.peerId, hleave]
      subst hp
      -- the mark is still there, so that the leave commits or is rolled back
      obtain ⟨st₀, hst₀, hrun, hst₀'⟩ := World.did_room hx
      obtain rfl := Option.some.inj (hst₀.symm.trans hst)
      obtain rfl := Option.some.inj (hst₀'.symm.trans hst')
      rcases hleaving with ⟨st₁, hst₁, hclosing⟩ | ⟨st₁, res₁, hst₁, hpending⟩
      · obtain rfl := Option.some.inj (hst₁.symm.trans hst)
        cases hopen.symm.trans hclosing
      · obtain rfl := Option.some.inj (hst₁.symm.trans hst)
        have howns : st₁.ownsPendingLeave peerId c = true :=
          RoomState.ownsPendingLeave_iff.mpr
            ⟨hpending.conn, res₁, hpending.lookup, hpending.pending⟩
        rcases RoomState.finishLeave_cases hrun with
          ⟨hnot, _⟩ | ⟨_, _, hundone, _⟩ | ⟨_, _, hreleased, _⟩
        · cases howns.symm.trans hnot
        · rw [hundone] at hres
          simp only [RoomState.lookup_setReleasePending, if_pos, hpending.lookup,
            Option.map_some, Option.some.injEq] at hres
          rw [← hres]
        · rw [hreleased] at hres
          simp [RoomState.released] at hres
  | beginLeave | beginEndSession | transferHost | broadcast | sendTo | handleDisconnect =>
      exact absurd (hattends rfl) hbusy
  | _ => cases hconn

/-- Legal and attentive tasks keep every mark owned. -/
theorem MarksOwned.did (h : MarksOwned w) (hb : Base w) (hlegal : Legal t a w)
    (hattends : Attends t a w) (hx : Did t a e w x w') : MarksOwned w' where
  assigned leave hleave := h.assigned_did hlegal hx hleave
  owned := by
    intro r st' p res hst' hopen' hres hpending
    by_cases hroom : ∃ op, a = .room r op
    · obtain ⟨op, rfl⟩ := hroom
      obtain ⟨st, hst, hrun, hafter⟩ := World.did_room hx
      obtain rfl := Option.some.inj (hafter.symm.trans hst')
      have hopen : st.closing = false := by
        by_contra hclosing
        rw [Bool.not_eq_false] at hclosing
        rw [(op.run_change _ st).closing hclosing] at hopen'
        cases hopen'
      rcases op.pending_cases _ st hres hpending with
        ⟨res₀, hres₀, hpending₀⟩ | ⟨c, token, version, rfl, hok⟩
      · obtain ⟨leave, howned⟩ := h.owned hst hopen hres₀ hpending₀
        by_cases hconn : op.connId = some leave.connId
        · have hidle := howned.own hb h hlegal hattends hx hst hopen hconn hst' hres
          rw [hpending] at hidle
          cases hidle
        · exact ⟨leave, howned.other hb hlegal hx hst hres₀ hpending₀ hconn hst' hopen'⟩
      · -- a new mark: its connection had no leave in flight
        obtain rfl : x = .ok () := (congrArg Prod.snd hrun).symm.trans hok
        refine ⟨⟨t, r, p, c⟩, rfl, rfl, ?_, ?_⟩
        · rcases leaving_of_beginLeave hx with hrefused | ⟨_, ⟨st₁, hst₁, hclosing⟩ | ⟨st₁, _, hst₁, hmark⟩⟩
          · cases hrefused
          · obtain rfl := Option.some.inj (hst₁.symm.trans hst')
            cases hopen'.symm.trans hclosing
          · obtain rfl := Option.some.inj (hst₁.symm.trans hst')
            exact hmark.conn
        · have hnone : (inFlight w.history).filter (Leave.isOf r c) = [] := by
            rw [List.filter_eq_nil_iff]
            intro leave hleave hof
            simp only [Leave.isOf, Bool.and_eq_true, decide_eq_true_eq] at hof
            obtain ⟨rfl, rfl⟩ := hof
            exact (hattends rfl).notMem hleave
              (hb.assigned_unique (h.assigned leave hleave) (hlegal.2.1 _ rfl))
          rw [World.did_history hx, filter_inFlight_cons]
          simp [Event.beginsLeave, Event.finishesLeave, Leave.isOf, hnone]
    · -- elsewhere nothing happens to the room and its leaves
      rcases (World.did_moves hx).heap_of_some hst' with
        ⟨st, hst, rfl | ⟨op, rfl, _⟩⟩ | ⟨_, _, _, _, _, _, _, _, _, rfl, _⟩
      · obtain ⟨leave, howned⟩ := h.owned hst hopen' hres hpending
        refine ⟨leave, howned.room, howned.peerId, howned.conn, ?_⟩
        rw [filter_isOf_did hx fun op ha => absurd ⟨op, ha⟩ hroom]
        exact howned.only
      · exact absurd ⟨op, rfl⟩ hroom
      · cases hres

theorem MarksOwned.writer {m : WriterStep} (h : MarksOwned w) (hm : w.writerStep m = some w') :
    MarksOwned w' := by
  obtain ⟨hs, hh⟩ := World.writerStep_iff.mp hm
  have hheap := (Server.writerStep_frame hs).1
  constructor
  · intro r st p res hst hopen hres hpending
    rw [hheap] at hst
    obtain ⟨leave, howned⟩ := h.owned hst hopen hres hpending
    exact ⟨leave, howned.room, howned.peerId, howned.conn, by rw [hh]; exact howned.only⟩
  · intro leave hleave
    rw [hh] at hleave ⊢
    exact h.assigned leave hleave

end Step

theorem MarksOwned.startup {sys : RelaySys} (h : Startup sys) : MarksOwned sys.shared := by
  have hrooms : ∀ {r : RoomId} {st : RoomState}, sys.shared.server.heap[r]? = some st →
      ∃ room : RestoredRoom, st = room.state := fun hst => heap_startup h hst
  obtain ⟨file, now, clock, rfl⟩ := h
  constructor
  · intro r st p res hst _ hres hpending
    obtain ⟨room, rfl⟩ := hrooms hst
    simp only [RestoredRoom.state, RoomState.restore, AList.lookup_mapValues,
      Option.map_eq_some_iff] at hres
    obtain ⟨saved, _, rfl⟩ := hres
    cases hpending
  · intro leave hleave
    cases hleave

/-! ### Every program attends to its leave -/

/-- What is known of every state and shown of every action. -/
def ownership : relay.Logic where
  inv w := Base w ∧ MarksOwned w
  assume := Legal
  pre := Attends

section Ownership

variable {t : Tid} {w : World} {r : RoomId}

theorem leavesOf_interferes {w' : World} (hint : ownership.Interferes t w w') :
    leavesOf t w'.history = leavesOf t w.history := by
  rcases interferes_cases hint with ⟨u, a, e, x, hne, _, _, hx⟩ | ⟨m, hm⟩
  · rw [World.did_history hx]
    exact leavesOf_cons_other hne
  · rw [(World.writerStep_iff.mp hm).2]

theorem stable_leavesOf (leaves : List Leave) :
    ownership.Stable t fun w => leavesOf t w.history = leaves := by
  intro w w' _ _ hint h
  rw [leavesOf_interferes hint]
  exact h

/-- The actions that are no phase of a leave. -/
def Act.isLeavePhase : Act → Bool
  | .room _ (.beginLeave ..) | .room _ (.finishLeave ..) => true
  | _ => false

theorem leavesOf_did {a : Act} {e : Env} {x : a.Resp} {w' : World} (hx : Did t a e w x w')
    (ha : a.isLeavePhase = false) : leavesOf t w'.history = leavesOf t w.history := by
  have hbegins : Event.beginsLeave ⟨t, a, x⟩ = none := by
    unfold Event.beginsLeave
    split
    · rename_i heq
      cases heq
      cases ha
    · rfl
  have hfinishes : Event.finishesLeave ⟨t, a, x⟩ = none := by
    unfold Event.finishesLeave
    split
    · rename_i heq
      cases heq
      cases ha
    · rfl
  rw [World.did_history hx]
  exact filter_inFlight_other (by simp [hbegins]) (by simp [hfinishes])

omit [TokenCodec] in
theorem attends_of_noLeave {a : Act} (ha : a.isLeavePhase = false) (h : NoLeave t w) :
    Attends t a w := by
  cases a with
  | room r op =>
      cases op with
      | finishLeave => cases ha
      | _ => exact fun _ => h
  | _ => trivial

/-- A program without leaves keeps its task settled. -/
theorem noLeave_of_all {α : Type} {P : Act → Prop} {p : Task α} (hp : p.All P)
    (hP : ∀ a, P a → a.isLeavePhase = false) (h : NoLeave t w) :
    ownership.Safe t (fun _ => NoLeave t) p w :=
  Logic.Safe.of_all hp h (stable_leavesOf []) (fun a _ ha _ hw _ => attends_of_noLeave (hP a ha) hw)
    fun a _ _ _ _ ha _ _ _ hw hx => (leavesOf_did hx (hP a ha)).trans hw

omit [TokenCodec] in
theorem not_leavePhase {a : Act}
    (h : a.isPlain = true ∨ a.isCreate = true ∨ a.isSweep = true ∨ a.isEnd = true) :
    a.isLeavePhase = false := by
  cases a with
  | room r op => cases op <;> simp_all [Act.isPlain, Act.isOutput, Act.isSnapshot, Act.isCreate,
      Act.isSweep, Act.isEnd, Act.isLeavePhase, RoomOp.inCreate]
  | _ => rfl

/-- A leave finishes what it has begun. -/
theorem attends_leave (peerId : String) (c : Nat) (token : String) (version : Nat)
    (h : NoLeave t w) :
    ownership.Safe t (fun _ => NoLeave t) (Room.leave r peerId c token version) w := by
  refine safe_act (NoLeave t) h (stable_leavesOf []) fun w hinv hidle hlegal =>
    ⟨fun _ => hidle, fun e y w' hx _ => ?_⟩
  have hassigned := (World.Next.act hx).assigned (hlegal.2.1 c rfl)
  rcases leaving_of_beginLeave hx with rfl | ⟨rfl, hleaving⟩
  · show leavesOf t w'.history = []
    rw [World.did_history hx, leavesOf, filter_inFlight_other (by simp [Event.beginsLeave])
      (by simp [Event.finishesLeave])]
    exact hidle
  · -- from here on exactly this leave is in flight
    have hbusy : Busy t ⟨t, r, peerId, c⟩ w' := by
      have hnone : (inFlight w.history).filter (fun leave => decide (leave.thread = t)) = [] :=
        hidle
      rw [Busy, leavesOf, World.did_history hx, filter_inFlight_cons]
      simp [Event.beginsLeave, Event.finishesLeave, hnone]
    have hstable : ownership.Stable t fun w =>
        Busy t ⟨t, r, peerId, c⟩ w ∧ Assigned w.history t r c ∧ Leaving r peerId c w :=
      (stable_leavesOf _).and (stable_leaving (L := ownership) (fun _ h => h.1) fun _ _ _ h => h)
    have hwait : ownership.Safe t (fun _ w => Busy t ⟨t, r, peerId, c⟩ w ∧
        Assigned w.history t r c ∧ Leaving r peerId c w) recordTerminalMutation w' := by
      refine Logic.Safe.of_all recordTerminalMutation_all ⟨hbusy, hassigned, hleaving⟩ hstable ?_ ?_
      · intro a w ha _ _ _
        cases a <;> trivial
      · rintro a e w x w' ha hinv _ hlegal ⟨hbusy, hassigned, hleaving⟩ hx
        refine ⟨?_, (World.Next.act hx).assigned hassigned, hleaving.did hinv.1 hlegal hx ?_⟩
        · exact (leavesOf_did hx (not_leavePhase (Or.inl (isPlain_of_isSnapshot ha)))).trans hbusy
        · rintro op rfl
          cases ha
    refine hwait.bind fun persisted w hw => ?_
    refine safe_act _ hw hstable fun w _ hw _ => ⟨⟨hw.1, hw.2.2⟩, fun e y w' hx _ => ?_⟩
    have hbusy : (inFlight w.history).filter (fun leave => decide (leave.thread = t)) =
        [⟨t, r, peerId, c⟩] := hw.1
    show leavesOf t w'.history = []
    rw [leavesOf, World.did_history hx, filter_inFlight_cons]
    simp [Event.beginsLeave, Event.finishesLeave, hbusy]

theorem attends_programs : Programs ownership t fun _ => NoLeave t :=
  .of_plain (stable_leavesOf [])
    (fun _ _ ha _ h _ => attends_of_noLeave (not_leavePhase (Or.inl ha)) h)
    (fun _ _ _ _ _ ha _ _ _ h hx => (leavesOf_did hx (not_leavePhase (Or.inl ha))).trans h)
    (fun _ _ _ _ _ => noLeave_of_all (create_all ..) fun _ h => not_leavePhase (Or.inr (Or.inl h)))
    (fun _ _ _ _ _ _ => attends_leave _ _ _ _)
    (fun _ _ _ _ _ _ => noLeave_of_all (endSession_all ..) fun _ h =>
      not_leavePhase (Or.inr (Or.inr (Or.inr h))))
    fun _ _ => noLeave_of_all (sweep_all _) fun _ h => not_leavePhase (Or.inr (Or.inr (Or.inl h)))

end Ownership

/-- All marks are owned in every reachable state, and every task attends to its leaves. -/
theorem relay_owned {sys : RelaySys} (h : Reaches Always sys) :
    (Base sys.shared ∧ MarksOwned sys.shared) ∧
      ∀ t, ownership.Safe t (fun _ => NoLeave t) (sys.threads t) sys.shared := by
  refine Logic.Safe.adequate (L := ownership) ?_ ?_ ?_ ?_ ?_ ?_ h
  · intro sys hsys
    refine ⟨⟨Base.startup hsys, MarksOwned.startup hsys⟩, fun t => ?_⟩
    obtain ⟨file, now, clock, rfl⟩ := hsys
    cases t <;> rfl
  · exact fun t q l p w _ h hp => attends_programs.start h hp
  · exact fun sys t e a k hreach _ ht => relay_legal hreach ht
  · exact fun t a e w x w' hinv hlegal hattends hx =>
      ⟨hinv.1.did hlegal hx, hinv.2.did hinv.1 hlegal hattends hx⟩
  · exact fun m w w' hinv hm => ⟨hinv.1.writer hm, hinv.2.writer hm⟩
  · exact fun _ _ => stable_leavesOf []

/-! ### The result -/

/-- **Every release-pending mark has a live owner.**  In an open room of any reachable state a
    marked peer is connected and not the host, exactly one leave of its connection is between
    `begin_leave` and `finish_leave`, and the task that runs it has not come to rest.  So
    nothing is marked when no leave is in flight; and a `finish_leave` that is about to run in
    an open room commits or rolls back. -/
theorem pending_release_owned {sys : RelaySys} (h : Reaches Always sys) :
    (∀ (r : RoomId) (st : RoomState) (p : String) (res : PeerReservation),
      sys.shared.server.heap[r]? = some st → st.closing = false →
      st.reservations.lookup p = some res → res.releasePending = true →
      p ≠ st.hostPeerId ∧ ∃ t c, st.connIdOf p = some c ∧
        (inFlight sys.shared.history).filter (Leave.isOf r c) = [⟨t, r, p, c⟩] ∧
        ∀ l, sys.threads t ≠ .ret l) ∧
    (inFlight sys.shared.history = [] →
      ∀ (r : RoomId) (st : RoomState) (p : String) (res : PeerReservation),
        sys.shared.server.heap[r]? = some st → st.closing = false →
        st.reservations.lookup p = some res → res.releasePending = false) ∧
    ∀ (t : Tid) (r : RoomId) (p : String) (c : Nat) (persisted : Bool) (k : Effects → Task Local)
      (st : RoomState) (now : SystemTime),
      sys.threads t = .act (.room r (.finishLeave p c persisted)) k →
      sys.shared.server.heap[r]? = some st → st.closing = false →
      (st.finishLeave p c persisted now).1 =
        if persisted then st.released p now else st.setReleasePending p false := by
  obtain ⟨⟨hb, howned⟩, hsafe⟩ := relay_owned h
  refine ⟨?_, ?_, ?_⟩
  · intro r st p res hst hopen hres hpending
    refine ⟨(hb.wf hst).guest_of_reserved (AList.mem_of_lookup hres), ?_⟩
    obtain ⟨⟨t, room, peerId, c⟩, hleave⟩ := howned.owned hst hopen hres hpending
    obtain rfl := hleave.room
    obtain rfl := hleave.peerId
    refine ⟨t, c, hleave.conn, hleave.only, ?_⟩
    intro l hl
    have hidle := hsafe t
    rw [hl] at hidle
    exact NoLeave.notMem (t := t) hidle hleave.mem rfl
  · intro hnone r st p res hst hopen hres
    by_contra hpending
    rw [Bool.not_eq_false] at hpending
    obtain ⟨leave, hleave⟩ := howned.owned hst hopen hres hpending
    have hmem := hleave.mem
    rw [hnone] at hmem
    cases hmem
  · intro t r p c persisted k st now ht hst hopen
    have hself := hsafe t
    rw [ht] at hself
    obtain ⟨A, hA, _, hstep⟩ := hself
    obtain ⟨⟨_, hleaving⟩, _⟩ := hstep _ ⟨hb, howned⟩ hA (relay_legal h ht)
    have howns : st.ownsPendingLeave p c = true := by
      rcases hleaving with ⟨st₁, hst₁, hclosing⟩ | ⟨st₁, res, hst₁, hpending⟩
      · obtain rfl := Option.some.inj (hst₁.symm.trans hst)
        cases hopen.symm.trans hclosing
      · obtain rfl := Option.some.inj (hst₁.symm.trans hst)
        exact RoomState.ownsPendingLeave_iff.mpr
          ⟨hpending.conn, res, hpending.lookup, hpending.pending⟩
    cases persisted with
    | true => simp [RoomState.finishLeave, howns]
    | false => simp [RoomState.finishLeave, howns]

omit [TokenCodec] in
/-- A run it speaks about: "b" has begun to leave and waits for the disk. -/
theorem pending_release_owned_during_leave : letI : TokenCodec := sampleCodec
    ∃ (sys : RelaySys) (st : RoomState) (t : Tid) (c : Nat), Reaches Always sys ∧
      sys.shared.server.heap[0]? = some st ∧ st.closing = false ∧ st.connIdOf "b" = some c ∧
      (inFlight sys.shared.history).filter (Leave.isOf 0 c) = [⟨t, 0, "b", c⟩] ∧
      ∀ l, sys.threads t ≠ .ret l := by
  let _ : TokenCodec := sampleCodec
  obtain ⟨sys, hreach, st, hst, hopen, res, hres, hpending⟩ := reaches_of_run (C := Always)
    (P := fun sys => ∃ st ∈ sys.shared.server.heap[0]?, st.closing = false ∧
      ∃ res ∈ st.reservations.lookup "b", res.releasePending = true)
    ([.start (.conn 0) (.connect "ip"), .start (.conn 1) (.connect "ip")] ++
      handles 0 (message .create "s" "a" tokenOnes) 8 ++
      handles 1 (message .join "s" "b" tokenTwos) 5 ++
      handles 1 (message .leave "s" "b" tokenTwos) 2)
    (by decide +kernel)
  obtain ⟨_, t, c, hconn, honly, hlive⟩ :=
    (pending_release_owned hreach).1 0 st "b" res hst hopen hres hpending
  exact ⟨sys, st, t, c, hreach, hst, hopen, hconn, honly, hlive⟩

end PlezyRelay
