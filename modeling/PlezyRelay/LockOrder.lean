/-
  PlezyRelay/LockOrder.lean
  =========================
  **No circle of waiting tasks.**

  The tasks of `Tasks.lean` wait for the registry's lock, for the mutex of a room, for the
  mutex of the quotas, and for the writer's reply; the writer waits for the registry's
  lock and for one room after the other.  `relaySections` says which of the locks each
  action takes; only `create` keeps one, the registry's write lock, while it asks for
  others.

  A task that holds the registry's lock asks for rooms and for the quotas only, a task
  that holds one of those asks for nothing, and a task that waits for the writer holds
  nothing at all.  So whoever is waited for can move or waits for a lock further up, and
  a ticket that has been handed out stays with the writer until it is answered.
-/
import PlezyRelay.Foundation.Sections
import PlezyRelay.TerminalDurability

namespace PlezyRelay

open Machine

/-! ### The locks -/

inductive LockId where
  /-- `Registry::rooms`. -/
  | registry
  /-- `Room::state`. -/
  | room (r : RoomId)
  /-- `Registry::rooms_per_ip`. -/
  | roomsPerIp
deriving DecidableEq

/-- The order in which they are taken. -/
def LockId.rank : LockId → Nat
  | .registry => 0
  | .room _ => 1
  | .roomsPerIp => 2

theorem LockId.rank_le (l : LockId) : l.rank ≤ 2 := by
  cases l <;> simp [LockId.rank]

/-- Where the code locks: every action that touches the table, a room or the quotas is one
    guarded block, except that `create` keeps the table from `lockRooms` to
    `unlockRooms`.  `build_snapshot` reads the table, then visits each room. -/
def relaySections : Sections Act World LockId where
  takes
    | .lockRooms _ | .removeIfCurrent _ | .removeEnded _ => some (.registry, .exclusive)
    | .getRoom _ | .allRooms => some (.registry, .shared)
    | .room r _ => some (.room r, .exclusive)
    | .tryClaimRoomQuota _ | .releaseRoomQuota .. => some (.roomsPerIp, .exclusive)
    | _ => none
  keeps
    | .lockRooms _ => true
    | _ => false
  gives
    | .unlockRooms => some .registry
    | _ => none
  ambient w :=
    match w.server.writer.phase with
    | .collecting _ => some (.registry, .shared)
    | .building (r :: _) _ _ => some (.room r, .exclusive)
    | _ => none

variable [TokenCodec]

/-- The relay with its locks. -/
abbrev LockedRelay := LockedSys Tid Act Act.Resp World Local LockId

abbrev LockedReaches (s : LockedRelay) : Prop := relaySections.Reachable relay Startup s

/-! ### The tickets -/

/-- The writer still has the ticket, or has answered it, or is gone. -/
def WithWriter (reply : Ticket) (s : Server) : Prop :=
  reply ∈ s.tickets ∨ s.writer.phase.isStopped = true

section Tickets

variable {s s' : Server} {reply : Ticket}

theorem WithWriter.writer (h : WithWriter reply s) (hm : WriterMoves s s') :
    WithWriter reply s' := by
  rcases h with hmem | hstopped
  · cases hlive : s'.writer.phase.isStopped with
    | true => exact Or.inr hlive
    | false => exact Or.inl ((hm.mem_tickets hlive).mpr hmem)
  · rw [hm.live] at hstopped
    cases hstopped

theorem WithWriter.act {t : Tid} {a : Act} {e : Env} (h : WithWriter reply s) (hm : Moves t e s a s') :
    WithWriter reply s' := by
  obtain ⟨hwriter, hreplies, -⟩ := hm.writer
  rcases h with hmem | hstopped
  · left
    simp only [Server.tickets, hwriter, hreplies, List.mem_append] at hmem ⊢
    have hqueue : reply ∈ s.queue.filterMap Command.reply →
        reply ∈ s'.queue.filterMap Command.reply := by
      intro hmem
      obtain ⟨command, hcommand, hreply⟩ := List.mem_filterMap.mp hmem
      exact List.mem_filterMap.mpr ⟨command, hm.queue command hcommand, hreply⟩
    tauto
  · right
    rw [hwriter]
    exact hstopped

theorem WithWriter.next {w w' : World} (h : WithWriter reply w.server) (hnext : World.Next w w') :
    WithWriter reply w'.server := by
  cases hnext with
  | act hx => exact h.act (World.did_moves hx)
  | writer hm => exact h.writer (Server.writerStep_moves (World.writerStep_iff.mp hm).1)

omit [TokenCodec] in
theorem withWriter_of_request {command : Ticket → Command}
    (hcommand : ∀ n, (command n).reply = some n) (h : s.sendRequest command = (some reply, s')) :
    WithWriter reply s' := by
  unfold Server.sendRequest at h
  split at h
  · cases h
  · cases h
    left
    simp [Server.tickets, hcommand]

end Tickets

/-! ### What a task holds when it acts -/

/-- The registry's lock is asked for by tasks without it, the table is changed by the task
    with it, and nobody waits for the writer with it. -/
def Disciplined (t : Tid) (a : Act) (w : World) : Prop :=
  match a with
  | .lockRooms _ | .getRoom _ | .allRooms | .removeIfCurrent _ | .removeEnded _ => Free t w
  | .unlockRooms | .removeRoom _ | .roomsLen | .newRoom .. => w.server.writeLock = some t
  | .awaitReply reply | .awaitFlush reply => Free t w ∧ WithWriter reply w.server
  | _ => True

/-- The logic that proves `Disciplined`. -/
def ordering : relay.Logic where
  inv _ := True
  pre := Disciplined

/-- The actions of a task that does not hold the registry's lock, apart from waits. -/
def Act.isUnlocked : Act → Bool
  | .lockRooms _ | .unlockRooms | .removeRoom _ | .roomsLen | .newRoom .. | .awaitReply _
  | .awaitFlush _ => false
  | _ => true

/-- The actions of a task that holds it. -/
def Act.isLocked : Act → Bool
  | .removeRoom _ | .roomsLen | .newRoom .. | .room .. | .tryClaimRoomQuota _
  | .releaseRoomQuota .. => true
  | _ => false

section Order

variable {t : Tid} {w : World} {α : Type}

theorem order_of_all {p : Task α} (hp : p.All fun a => a.isUnlocked = true) (hfree : Free t w) :
    ordering.Safe t (fun _ => Free t) p w := by
  refine Logic.Safe.of_all hp hfree stable_free ?_ ?_
  · intro a w ha _ hfree _
    cases a <;> trivial
  · intro a e w x w' ha _ _ _ hfree hx
    refine Free.own hfree hx ?_
    cases a <;> first | rfl | cases ha

/-- An action inside the part of `create` that holds the lock. -/
theorem order_locked {Q : α → World → Prop} {a : Act} {k : a.Resp → Task α}
    (ha : a.isLocked = true) (hheld : Holds t (fun _ => True) w)
    (hk : ∀ x w, Holds t (fun _ => True) w → ordering.Safe t Q (k x) w) :
    ordering.Safe t Q (.act a k) w := by
  refine safe_act _ hheld (stable_holds _) fun w _ hheld _ => ⟨?_, fun e x w' hx _ => ?_⟩
  · cases a <;> first | trivial | exact hheld.1
  · refine hk x w' ⟨?_, trivial⟩
    rw [(World.did_moves hx).lock_same]
    · exact hheld.1
    · cases a <;> first | rfl | cases ha

theorem order_unlock {k : Unit → Task α} (hheld : Holds t (fun _ => True) w)
    (hk : (k ()).All fun a => a.isUnlocked = true) :
    ordering.Safe t (fun _ => Free t) (.act .unlockRooms k) w :=
  safe_act _ hheld (stable_holds _) fun _ _ hheld _ =>
    ⟨hheld.1, fun _ _ _ hx _ => order_of_all hk (free_of_unlock hx)⟩

theorem order_createFresh (sid host : String) (v : Verifier) (token key : String)
    (admission : Admission) (hheld : Holds t (fun _ => True) w) :
    ordering.Safe t (fun _ => Free t) (Registry.createFresh sid host v token key admission) w := by
  refine order_locked rfl hheld fun n w hheld => ?_
  rw [Proc.ret_bind]
  split
  · exact order_unlock hheld trivial
  · refine order_locked rfl hheld fun b w hheld => ?_
    cases b with
    | false => exact order_unlock hheld trivial
    | true => exact order_locked rfl hheld fun _ w hheld => order_unlock hheld ⟨rfl, fun _ => trivial⟩

theorem order_create (sid host token key : String) (admission : Admission) (hfree : Free t w) :
    ordering.Safe t (fun _ => Free t) (Registry.create sid host token key admission) w := by
  unfold Registry.create
  split
  · exact hfree
  · refine safe_act _ hfree stable_free fun w _ hfree _ => ⟨hfree, fun e found w' hx _ => ?_⟩
    obtain ⟨_, _, hs⟩ := World.did_lockRooms hx
    have hheld : Holds t (fun _ => True) w' := ⟨by rw [hs], trivial⟩
    cases found with
    | none => exact order_createFresh _ _ _ _ _ _ hheld
    | some existing =>
        refine order_locked rfl hheld fun idempotent w hheld => ?_
        cases idempotent with
        | true =>
            refine order_locked rfl hheld fun _ w hheld => ?_
            exact order_unlock hheld ⟨rfl, fun _ => trivial⟩
        | false =>
            refine order_locked rfl hheld fun reclaimable w hheld => ?_
            cases reclaimable with
            | false => exact order_unlock hheld trivial
            | true =>
                refine order_locked rfl hheld fun _ w hheld => ?_
                refine order_locked rfl hheld fun _ w hheld => ?_
                refine order_locked rfl hheld fun _ w hheld => ?_
                refine order_locked rfl hheld fun _ w hheld => ?_
                exact order_createFresh _ _ _ _ _ _ hheld

/-- The wait for the reply to a request. -/
theorem order_await {wait : Act} {reply : Ticket} {k : wait.Resp → Task α}
    (hwait : ∀ w, Free t w ∧ WithWriter reply w.server → Disciplined t wait w)
    (hkeeps : wait.keepsLock = true) (hfree : Free t w) (hwith : WithWriter reply w.server)
    (hk : ∀ x w, Free t w → ordering.Safe t (fun _ => Free t) (k x) w) :
    ordering.Safe t (fun _ => Free t) (.act wait k) w :=
  safe_act (fun w => Free t w ∧ WithWriter reply w.server) ⟨hfree, hwith⟩
    (stable_free.and (stable_of_next fun _ _ hnext h => h.next hnext))
    fun w _ h _ => ⟨hwait w h, fun _ x w' hx _ => hk x w' (h.1.own hx hkeeps)⟩

theorem order_recordTerminalMutation (hfree : Free t w) :
    ordering.Safe t (fun _ => Free t) recordTerminalMutation w := by
  refine safe_act _ hfree stable_free fun w _ hfree _ => ⟨trivial, fun e y w' hx _ => ?_⟩
  have hfree' : Free t w' := hfree.own hx rfl
  cases y with
  | none => exact hfree'
  | some reply =>
      obtain ⟨s', hs, rfl⟩ := World.did_iff.mp hx
      have hwith := withWriter_of_request (fun _ => rfl) (Option.some.inj hs)
      exact order_await (fun _ h => h) rfl hfree' hwith fun _ _ hfree => hfree

theorem order_flushAndStop (hfree : Free t w) :
    ordering.Safe t (fun _ => Free t) flushAndStop w := by
  refine safe_act _ hfree stable_free fun w _ hfree _ => ⟨trivial, fun e y w' hx _ => ?_⟩
  have hfree' : Free t w' := hfree.own hx rfl
  cases y with
  | none => exact hfree'
  | some reply =>
      obtain ⟨s', hs, rfl⟩ := World.did_iff.mp hx
      have hwith := withWriter_of_request (fun _ => rfl) (Option.some.inj hs)
      exact order_await (fun _ h => h) rfl hfree' hwith fun _ _ hfree => hfree

/-- One unlocked action and what comes after it. -/
theorem order_act {Q : α → World → Prop} {a : Act} {k : a.Resp → Task α}
    (ha : a.isUnlocked = true) (hfree : Free t w)
    (hk : ∀ x w, Free t w → ordering.Safe t Q (k x) w) : ordering.Safe t Q (.act a k) w := by
  have hact : ordering.Safe t (fun _ => Free t) (perform a) w :=
    order_of_all ⟨ha, fun _ => trivial⟩ hfree
  exact hact.bind fun x w hfree => hk x w hfree

theorem order_leave (r : RoomId) (peerId : String) (c : Nat) (token : String) (version : Nat)
    (hfree : Free t w) :
    ordering.Safe t (fun _ => Free t) (Room.leave r peerId c token version) w := by
  refine order_act rfl hfree fun begun w hfree => ?_
  cases begun with
  | error effects => exact hfree
  | ok _ =>
      refine (order_recordTerminalMutation hfree).bind fun persisted w hfree => ?_
      exact order_of_all ⟨rfl, fun _ => trivial⟩ hfree

theorem order_endSession (r : RoomId) (peerId : String) (c : Nat) (token : String)
    (version : Nat) (hfree : Free t w) :
    ordering.Safe t (fun _ => Free t) (Registry.endSession r peerId c token version) w := by
  refine order_act rfl hfree fun begun w hfree => ?_
  cases begun with
  | error effects => exact hfree
  | ok x =>
      refine order_act rfl hfree fun _ w hfree => ?_
      refine order_act rfl hfree fun _ w hfree => ?_
      refine (order_recordTerminalMutation hfree).bind fun persisted w hfree => ?_
      exact order_of_all ⟨rfl, fun _ => trivial⟩ hfree

theorem order_programs : Programs ordering t fun _ => Free t := by
  refine Programs.of_delivery (A := fun _ => Free t)
    (fun _ _ _ => order_of_all ⟨rfl, fun _ => trivial⟩)
    (fun _ _ => order_of_all ⟨rfl, fun _ => trivial⟩)
    (fun _ _ _ _ _ => order_of_all ⟨rfl, fun _ => trivial⟩)
    (fun tx effects _ => order_of_all ((applyEffects_all tx effects).mono fun a ha => ?_))
    (fun _ _ _ _ _ _ => order_create _ _ _ _ _) (fun _ _ _ _ _ _ => order_leave _ _ _ _ _)
    (fun _ _ _ _ _ _ => order_endSession _ _ _ _ _)
    (fun now _ => order_of_all ((sweep_all now).mono fun a ha => ?_))
    (fun _ => order_flushAndStop)
  · cases a <;> first | rfl | cases ha
  · cases a <;> first | rfl | cases ha

end Order

/-- Every pending action is disciplined, and a task at rest holds no lock. -/
theorem relay_ordering {C : RelaySys → RelayLabel → Prop} {sys : RelaySys} (h : Reaches C sys)
    (t : Tid) : ordering.Safe t (fun _ => Free t) (sys.threads t) sys.shared := by
  refine (Logic.Safe.adequate (L := ordering) (Q := fun t _ => Free t) ?_ ?_ ?_ ?_ ?_ ?_ h).2 t
  · intro sys hsys
    refine ⟨trivial, fun t => ?_⟩
    have hfree := hsys.free t
    obtain ⟨file, now, clock, rfl⟩ := hsys
    cases t <;> exact hfree
  · exact fun t q l p w _ h hp => order_programs.start h hp
  · exact fun _ _ _ _ _ _ _ _ => trivial
  · exact fun _ _ _ _ _ _ _ _ _ _ => trivial
  · exact fun _ _ _ _ _ => trivial
  · exact fun t l => stable_free

theorem relay_disciplined {C : RelaySys → RelayLabel → Prop} {sys : RelaySys} (h : Reaches C sys)
    {t : Tid} {a : Act} {k : a.Resp → Task Local} (ht : sys.threads t = .act a k) :
    Disciplined t a sys.shared := by
  have hself := relay_ordering h t
  rw [ht] at hself
  obtain ⟨A, hA, _, hstep⟩ := hself
  exact (hstep _ trivial hA trivial).1

theorem relay_rest {C : RelaySys → RelayLabel → Prop} {sys : RelaySys} (h : Reaches C sys)
    {t : Tid} {l : Local} (ht : sys.threads t = .ret l) : Free t sys.shared := by
  have hself := relay_ordering h t
  rw [ht] at hself
  exact hself

end PlezyRelay
