/-
  PlezyRelay/ServerFrame.lean
  ===========================
  **What an action can do to the shared state, and what it leaves alone.**

  `Moves` says once what an action does, guards included; `exec_moves` that every
  action does one of these things.  From it come the frame facts: which actions
  change the rooms, the table of rooms, the lock, the quotas and the writer's channel.
  Everything a task does leaves the writer's own state, its replies and the file
  alone, and everything the writer does leaves the rooms, the table, the lock and the
  quotas alone.
-/
import PlezyRelay.Server
import Mathlib.Tactic.Common

namespace PlezyRelay

variable [TokenCodec]

omit [TokenCodec] in
/-- What a lookup in a heap with one more room can find. -/
theorem getElem?_concat_cases {α : Type} {xs : List α} {y z : α} {i : Nat}
    (h : (xs ++ [y])[i]? = some z) : xs[i]? = some z ∨ (i = xs.length ∧ z = y) := by
  rcases Nat.lt_trichotomy i xs.length with hlt | rfl | hgt
  · rw [List.getElem?_append_left hlt] at h
    exact Or.inl h
  · rw [List.getElem?_concat_length] at h
    exact Or.inr ⟨rfl, (Option.some.inj h).symm⟩
  · rw [List.getElem?_eq_none (by simpa using Nat.succ_le_of_lt hgt)] at h
    cases h

/-! ### The parts that have several outcomes -/

namespace Server

omit [TokenCodec]

variable (s : Server)

/-- Giving a slot back only touches the quotas. -/
theorem releaseRoomQuota_eq (key : String) : s.releaseRoomQuota key =
    { s with roomsPerIp := (s.releaseRoomQuota key).roomsPerIp } := by
  unfold releaseRoomQuota
  split <;> rfl

theorem tryClaimRoomQuota_eq (key : String) : (s.tryClaimRoomQuota key).2 =
    { s with roomsPerIp := (s.tryClaimRoomQuota key).2.roomsPerIp } := by
  unfold tryClaimRoomQuota
  dsimp only
  split <;> rfl

end Server

/-! ### What an action does -/

/-- The state after an action of task `t`. -/
inductive Moves (t : Tid) (e : Env) (s : Server) : Act → Server → Prop where
  | room (r : RoomId) (op : RoomOp) (state : RoomState) (hstate : s.heap[r]? = some state) :
      Moves t e s (.room r op)
        { s with
          heap := s.heap.set r (op.run (e.readings ⟨s.nextToken⟩) state).1
          nextToken := s.nextToken + 1 }
  | newRoom (sid host : String) (v : Verifier) (token key : String) (admission : Admission)
      (hheld : s.writeLock = some t) :
      Moves t e s (.newRoom sid host v token key admission)
        { s with
          heap := s.heap ++
            [(RoomState.newRoom sid host v token key admission e.now ⟨s.nextToken⟩).1]
          rooms := s.rooms.insert sid s.heap.length
          nextToken := s.nextToken + 1 }
  | lock (sid : String) (hfree : s.writeLock = none) :
      Moves t e s (.lockRooms sid) { s with writeLock := some t }
  | unlock (hheld : s.writeLock = some t) : Moves t e s .unlockRooms { s with writeLock := none }
  | remove (sid : String) (hheld : s.writeLock = some t) :
      Moves t e s (.removeRoom sid) { s with rooms := s.rooms.erase sid }
  | removeCurrent (a : Act) (r : RoomId) (state : RoomState)
      (ha : a = .removeIfCurrent r ∨ a = .removeEnded r) (hfree : s.writeLock = none)
      (hstate : s.heap[r]? = some state) (hcur : s.rooms.lookup state.sessionId = some r) :
      Moves t e s a { s with rooms := s.rooms.erase state.sessionId }
  | claim (key : String) :
      Moves t e s (.tryClaimRoomQuota key)
        { s with roomsPerIp := (s.tryClaimRoomQuota key).2.roomsPerIp }
  | release (key : String) (r : RoomId) :
      Moves t e s (.releaseRoomQuota key r)
        { s with roomsPerIp := (s.releaseRoomQuota key).roomsPerIp }
  | note (hlive : s.writer.phase.isStopped = false) :
      Moves t e s .recordMutation { s with queue := s.queue ++ [.mutate] }
  | request (a : Act) (command : Ticket → Command)
      (ha : (a = .sendTerminal ∧ command = .terminal) ∨ (a = .sendFlush ∧ command = .flushAndStop))
      (hlive : s.writer.phase.isStopped = false) :
      Moves t e s a
        { s with queue := s.queue ++ [command s.nextTicket], nextTicket := s.nextTicket + 1 }
  | send (tx : Sender) (msg : ServerMessage) :
      Moves t e s (.send tx msg) { s with sent := s.sent ++ [⟨tx, msg⟩] }
  | cancel (token : CancellationToken) :
      Moves t e s (.cancel token) { s with cancelled := token :: s.cancelled }
  | same (a : Act) : Moves t e s a s

namespace Server

variable {t : Tid} {a : Act} {e : Env} {s s' : Server} {x : a.Resp}

omit [TokenCodec] in
theorem removeIfCurrent_cases {room : RoomId} {b : Bool}
    (h : s.removeIfCurrent room = some (b, s')) :
    s.writeLock = none ∧ ∃ state, s.heap[room]? = some state ∧
      ((b = true ∧ s.rooms.lookup state.sessionId = some room ∧
          s' = { s with rooms := s.rooms.erase state.sessionId }) ∨
        (b = false ∧ s.rooms.lookup state.sessionId ≠ some room ∧ s' = s)) := by
  unfold removeIfCurrent at h
  split at h
  · rename_i hlock
    split at h
    · cases h
    · rename_i state hstate
      split at h
      · rename_i hcur
        cases h
        exact ⟨hlock, state, hstate, Or.inl ⟨rfl, hcur, rfl⟩⟩
      · rename_i hcur
        cases h
        exact ⟨hlock, state, hstate, Or.inr ⟨rfl, hcur, rfl⟩⟩
  · cases h

theorem room_cases {r : RoomId} {op : RoomOp} {y : op.Result} (h : s.room e r op = some (y, s')) :
    ∃ state, s.heap[r]? = some state ∧ y = (op.run (e.readings ⟨s.nextToken⟩) state).2 ∧
      s' = { s with
        heap := s.heap.set r (op.run (e.readings ⟨s.nextToken⟩) state).1
        nextToken := s.nextToken + 1 } := by
  unfold room at h
  split at h
  · cases h
  · rename_i state hstate
    cases h
    exact ⟨state, hstate, rfl, rfl⟩

theorem exec_moves (h : s.exec t a e = some (x, s')) : Moves t e s a s' := by
  cases a with
  | room r op =>
      obtain ⟨state, hstate, _, rfl⟩ := room_cases h
      exact .room r op state hstate
  | newRoom sid host v token key admission =>
      simp only [exec] at h
      split at h
      · rename_i hheld
        cases h
        exact .newRoom sid host v token key admission hheld
      · cases h
  | lockRooms sid =>
      simp only [exec] at h
      split at h
      · rename_i hfree
        cases h
        exact .lock sid hfree
      · cases h
  | unlockRooms =>
      simp only [exec] at h
      split at h
      · rename_i hheld
        cases h
        exact .unlock hheld
      · cases h
  | removeRoom sid =>
      simp only [exec] at h
      split at h
      · rename_i hheld
        cases h
        exact .remove sid hheld
      · cases h
  | removeIfCurrent r =>
      obtain ⟨hfree, state, hstate, ⟨_, hcur, rfl⟩ | ⟨_, _, rfl⟩⟩ := removeIfCurrent_cases h
      · exact .removeCurrent _ r state (Or.inl rfl) hfree hstate hcur
      · exact .same _
  | removeEnded r =>
      obtain ⟨hfree, state, hstate, ⟨_, hcur, rfl⟩ | ⟨_, _, rfl⟩⟩ := removeIfCurrent_cases h
      · exact .removeCurrent _ r state (Or.inr rfl) hfree hstate hcur
      · exact .same _
  | tryClaimRoomQuota key =>
      obtain rfl := congrArg Prod.snd (Option.some.inj h)
      rw [tryClaimRoomQuota_eq]
      exact .claim key
  | releaseRoomQuota key r =>
      obtain rfl := congrArg Prod.snd (Option.some.inj h)
      dsimp only
      rw [releaseRoomQuota_eq]
      exact .release key r
  | recordMutation =>
      obtain rfl := congrArg Prod.snd (Option.some.inj h)
      simp only [sendCommand]
      split
      · exact .same _
      · exact .note (Bool.eq_false_iff.mpr ‹_›)
  | sendTerminal =>
      obtain rfl := congrArg Prod.snd (Option.some.inj h)
      simp only [sendRequest]
      split
      · exact .same _
      · exact .request _ _ (Or.inl ⟨rfl, rfl⟩) (Bool.eq_false_iff.mpr ‹_›)
  | sendFlush =>
      obtain rfl := congrArg Prod.snd (Option.some.inj h)
      simp only [sendRequest]
      split
      · exact .same _
      · exact .request _ _ (Or.inr ⟨rfl, rfl⟩) (Bool.eq_false_iff.mpr ‹_›)
  | send tx msg => cases h; exact .send tx msg
  | cancel token => cases h; exact .cancel token
  | roomsLen | getRoom | allRooms | awaitReply | awaitFlush =>
      simp only [exec] at h
      (repeat' split at h) <;> cases h <;> exact .same _

end Server

/-! ### Frame facts -/

namespace Moves

variable {t u : Tid} {a : Act} {e : Env} {s s' : Server}

/-- A room that exists goes on existing; only a section of its own changes it. -/
theorem heap_some (h : Moves t e s a s') {r : RoomId} {st : RoomState}
    (hst : s.heap[r]? = some st) :
    ∃ st', s'.heap[r]? = some st' ∧
      (st' = st ∨ ∃ op, a = .room r op ∧ st' = (op.run (e.readings ⟨s.nextToken⟩) st).1) := by
  cases h with
  | room r' op state hstate =>
      by_cases hr : r' = r
      · subst hr
        obtain rfl := Option.some.inj (hst.symm.trans hstate)
        have hlt := (List.getElem?_eq_some_iff.mp hst).1
        exact ⟨_, List.getElem?_set_self hlt, Or.inr ⟨op, rfl, rfl⟩⟩
      · exact ⟨st, by rw [List.getElem?_set_ne hr]; exact hst, Or.inl rfl⟩
  | newRoom =>
      have hlt := (List.getElem?_eq_some_iff.mp hst).1
      exact ⟨st, by rw [List.getElem?_append_left hlt]; exact hst, Or.inl rfl⟩
  | _ => exact ⟨st, hst, Or.inl rfl⟩

/-- A room that exists after an action existed before, or the action made it. -/
theorem heap_of_some (h : Moves t e s a s') {r : RoomId} {st' : RoomState}
    (hst' : s'.heap[r]? = some st') :
    (∃ st, s.heap[r]? = some st ∧
      (st' = st ∨ ∃ op, a = .room r op ∧ st' = (op.run (e.readings ⟨s.nextToken⟩) st).1)) ∨
    (r = s.heap.length ∧ s.writeLock = some t ∧
      ∃ sid host v token key admission, a = .newRoom sid host v token key admission ∧
        st' = (RoomState.newRoom sid host v token key admission e.now ⟨s.nextToken⟩).1 ∧
        s'.rooms = s.rooms.insert sid r) := by
  cases h with
  | room r' op state hstate =>
      left
      by_cases hr : r' = r
      · subst hr
        have hlt := (List.getElem?_eq_some_iff.mp hstate).1
        dsimp only at hst'
        rw [List.getElem?_set_self hlt] at hst'
        obtain rfl := Option.some.inj hst'
        exact ⟨state, hstate, Or.inr ⟨op, rfl, rfl⟩⟩
      · dsimp only at hst'
        rw [List.getElem?_set_ne hr] at hst'
        exact ⟨st', hst', Or.inl rfl⟩
  | newRoom sid host v token key admission hheld =>
      rcases getElem?_concat_cases hst' with hst' | ⟨rfl, rfl⟩
      · exact Or.inl ⟨st', hst', Or.inl rfl⟩
      · exact Or.inr ⟨rfl, hheld, sid, host, v, token, key, admission, rfl, rfl, rfl⟩
  | _ => exact Or.inl ⟨st', hst', Or.inl rfl⟩

/-- Nobody else touches the table while a task holds its write lock. -/
theorem locked (h : Moves t e s a s') (hne : t ≠ u) (hlock : s.writeLock = some u) :
    s'.writeLock = some u ∧ s'.rooms = s.rooms := by
  have hnot : s.writeLock ≠ some t := fun h => hne (Option.some.inj (h.symm.trans hlock))
  cases h with
  | newRoom _ _ _ _ _ _ hheld | unlock hheld | remove _ hheld => exact (hnot hheld).elim
  | lock _ hfree | removeCurrent _ _ _ _ hfree => cases hfree.symm.trans hlock
  | _ => exact ⟨hlock, rfl⟩

/-- What a task does leaves the writer, its replies and the file alone. -/
theorem writer (h : Moves t e s a s') :
    s'.writer = s.writer ∧ s'.replies = s.replies ∧ s'.file = s.file := by
  cases h <;> exact ⟨rfl, rfl, rfl⟩

theorem queue (h : Moves t e s a s') : ∀ c ∈ s.queue, c ∈ s'.queue := by
  cases h with
  | note | request => exact fun _ hc => List.mem_append_left _ hc
  | _ => exact fun _ hc => hc

theorem cancelled (h : Moves t e s a s') : ∀ k ∈ s.cancelled, k ∈ s'.cancelled := by
  cases h with
  | cancel => exact fun _ hk => List.mem_cons_of_mem _ hk
  | _ => exact fun _ hk => hk

/-- A task that does not act on the lock keeps it as it was. -/
theorem lock_ne (h : Moves t e s a s') (hne : u ≠ t) (hlock : s.writeLock ≠ some u) :
    s'.writeLock ≠ some u := by
  cases h with
  | lock => exact fun heq => hne (Option.some.inj heq).symm
  | unlock => exact nofun
  | _ => exact hlock

end Moves

/-! ### What a task's own action keeps -/

/-- The actions on the registry lock. -/
def Act.keepsLock : Act → Bool
  | .lockRooms _ | .unlockRooms => false
  | _ => true

/-- The actions on the table of rooms. -/
def Act.keepsRooms : Act → Bool
  | .newRoom .. | .removeRoom _ | .removeIfCurrent _ | .removeEnded _ => false
  | _ => true

namespace Moves

variable {t : Tid} {a : Act} {e : Env} {s s' : Server}

theorem lock_same (h : Moves t e s a s') (ha : a.keepsLock = true) :
    s'.writeLock = s.writeLock := by
  cases h with
  | lock | unlock => cases ha
  | _ => rfl

theorem rooms_same (h : Moves t e s a s') (ha : a.keepsRooms = true) : s'.rooms = s.rooms := by
  cases h with
  | newRoom | remove => cases ha
  | removeCurrent _ _ _ hact => rcases hact with rfl | rfl <;> cases ha
  | _ => rfl

end Moves

/-! ### The writer -/

/-- The state after a step of the writer. -/
inductive WriterMoves (s : Server) : Server → Prop where
  | mutate (rest : List Command) (hphase : s.writer.phase = .idle)
      (hqueue : s.queue = .mutate :: rest) :
      WriterMoves s
        { s with queue := rest, writer := { s.writer with dirtySeq := s.writer.dirtySeq + 1 } }
  | terminal (reply : Ticket) (rest : List Command) (hphase : s.writer.phase = .idle)
      (hqueue : s.queue = .terminal reply :: rest) :
      WriterMoves s
        { s with
          queue := rest
          writer :=
            { s.writer with
              dirtySeq := s.writer.dirtySeq + 1
              waiters := s.writer.waiters ++ [(s.writer.dirtySeq + 1, reply)]
              phase := .collecting .loop } }
  | flushDirty (reply : Ticket) (rest : List Command) (hphase : s.writer.phase = .idle)
      (hqueue : s.queue = .flushAndStop reply :: rest)
      (hdirty : s.writer.durableSeq < s.writer.dirtySeq) :
      WriterMoves s
        { s with queue := rest, writer := { s.writer with phase := .collecting (.stop reply) } }
  | flushClean (reply : Ticket) (rest : List Command) (hphase : s.writer.phase = .idle)
      (hqueue : s.queue = .flushAndStop reply :: rest)
      (hclean : s.writer.dirtySeq ≤ s.writer.durableSeq) :
      WriterMoves s
        { s with
          queue := rest
          writer :=
            { s.writer with
              waiters := []
              phase := .resolving true s.writer.waiters (.stop reply) } }
  | debounce (hphase : s.writer.phase = .idle)
      (hdirty : s.writer.durableSeq < s.writer.dirtySeq) :
      WriterMoves s { s with writer := { s.writer with phase := .collecting .loop } }
  | collect (next : After) (hphase : s.writer.phase = .collecting next)
      (hfree : s.writeLock = none) :
      WriterMoves s { s with writer := { s.writer with phase := .building s.rooms.values [] next } }
  | capture (clock : String → Instant × SystemTime) (r : RoomId) (todo : List RoomId)
      (dtos : List (RoomId × RoomDto)) (next : After) (state : RoomState)
      (hphase : s.writer.phase = .building (r :: todo) dtos next)
      (hstate : s.heap[r]? = some state) :
      WriterMoves s
        { s with
          writer :=
            { s.writer with
              phase := .building todo (dtos ++ Server.captured clock r state) next } }
  | persist (ok : Bool) (dtos : List (RoomId × RoomDto)) (next : After)
      (hphase : s.writer.phase = .building [] dtos next) : WriterMoves s (s.persisted ok dtos next)
  | reply (ok : Bool) (waiter : Nat × Ticket) (todo : List (Nat × Ticket)) (next : After)
      (hphase : s.writer.phase = .resolving ok (waiter :: todo) next)
      (hdue : waiter.1 ≤ s.writer.durableSeq ∨ ok = false) :
      WriterMoves s
        { s with
          replies := s.replies.insert waiter.2 ok
          writer := { s.writer with phase := .resolving ok todo next } }
  | keep (ok : Bool) (waiter : Nat × Ticket) (todo : List (Nat × Ticket)) (next : After)
      (hphase : s.writer.phase = .resolving ok (waiter :: todo) next)
      (hdue : ¬(waiter.1 ≤ s.writer.durableSeq ∨ ok = false)) :
      WriterMoves s
        { s with
          writer :=
            { s.writer with
              waiters := s.writer.waiters ++ [waiter]
              phase := .resolving ok todo next } }
  | loop (ok : Bool) (hphase : s.writer.phase = .resolving ok [] .loop) :
      WriterMoves s { s with writer := { s.writer with phase := .idle } }
  | stop (ok : Bool) (reply : Ticket) (hphase : s.writer.phase = .resolving ok [] (.stop reply)) :
      WriterMoves s
        { s with
          queue := []
          replies := s.replies.insert reply ok
          writer := { s.writer with phase := .stopped } }

/-- A writer that moves is still there. -/
theorem WriterMoves.live {s s' : Server} (h : WriterMoves s s') :
    s.writer.phase.isStopped = false := by
  cases h with
  | mutate _ hphase | terminal _ _ hphase | flushDirty _ _ hphase | flushClean _ _ hphase
  | debounce hphase | collect _ hphase | capture _ _ _ _ _ _ hphase | persist _ _ _ hphase
  | reply _ _ _ _ hphase | keep _ _ _ _ hphase | loop _ hphase | stop _ _ hphase =>
      rw [hphase]
      rfl

namespace Server

theorem writerStep_moves {s s' : Server} {m : WriterStep} (h : s.writerStep m = some s') :
    WriterMoves s s' := by
  unfold writerStep at h
  split at h
  case h_1 hphase =>
    unfold recv at h
    split at h
    · cases h
    · cases h; exact .mutate _ hphase ‹_›
    · cases h; exact .terminal _ _ hphase ‹_›
    · split at h <;> cases h
      · exact .flushDirty _ _ hphase ‹_› ‹_›
      · exact .flushClean _ _ hphase ‹_› (Nat.le_of_not_lt ‹_›)
  case h_2 hphase =>
    split at h <;> cases h
    exact .debounce hphase ‹_›
  case h_3 hphase =>
    split at h <;> cases h
    exact .collect _ hphase ‹_›
  case h_4 hphase =>
    split at h <;> cases h
    exact .capture _ _ _ _ _ _ hphase ‹_›
  case h_5 hphase => cases h; exact .persist _ _ _ hphase
  case h_6 hphase =>
    cases h
    unfold resolveOne
    split
    · exact .reply _ _ _ _ hphase ‹_›
    · exact .keep _ _ _ _ hphase ‹_›
  case h_7 next hphase =>
    cases h
    cases next with
    | loop => exact .loop _ hphase
    | stop reply => exact .stop _ _ hphase
  case h_8 => cases h

/-- What the writer does leaves the rooms, the table, the lock and the quotas alone. -/
theorem writerStep_frame {s s' : Server} {m : WriterStep} (h : s.writerStep m = some s') :
    s'.heap = s.heap ∧ s'.rooms = s.rooms ∧ s'.roomsPerIp = s.roomsPerIp ∧
      s'.writeLock = s.writeLock ∧ s'.cancelled = s.cancelled ∧ s'.nextToken = s.nextToken ∧
      s'.nextTicket = s.nextTicket ∧ s'.sent = s.sent := by
  cases writerStep_moves h <;> exact ⟨rfl, rfl, rfl, rfl, rfl, rfl, rfl, rfl⟩

end Server

end PlezyRelay
