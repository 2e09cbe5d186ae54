/-
  PlezyRelay/WriterLog.lean
  =========================
  **A log of the writer's loop.**

  `snapshot::run` is a loop of iterations.  Beside the server we keep a log of what the
  loop has done: for each iteration the command it received, the write it started and
  how that ended, and the replies it sent; and, in order, every command that was put
  into the channel.  The rest of the server may change in any way between two steps of
  the writer, and any commands may arrive.
-/
import PlezyRelay.SnapshotWriter

namespace PlezyRelay

/-! ### The log -/

/-- The write of an iteration. -/
inductive Persist where
  | unneeded
  | running
  | ended (ok : Bool)
deriving DecidableEq

/-- One turn of the loop; no command is received when the debounce timer fires. -/
structure Iteration where
  received : Option Command := none
  persist : Persist := .unneeded
  replies : List (Ticket × Bool) := []

structure WriterLog where
  /-- What was put into the channel. -/
  sent : List Command := []
  /-- The iterations that are over, latest first. -/
  finished : List Iteration := []
  /-- The iteration under way. -/
  current : Iteration := {}

/-- The `Mutate` and `Terminal` commands received since the start of the last successful
    write, latest first. -/
def unsaved : List Iteration → List Command
  | [] => []
  | it :: earlier =>
      if it.persist = .ended true then []
      else it.received.toList.filter Command.dirties ++ unsaved earlier

namespace WriterLog

variable (log : WriterLog)

def iterations : List Iteration := log.current :: log.finished

/-- The commands received, in the order in which they came. -/
def received : List Command := (log.iterations.filterMap (·.received)).reverse

def replies : List (Ticket × Bool) := log.iterations.flatMap (·.replies)

/-- What was sent to one reply channel. -/
def repliesTo (reply : Ticket) : List Bool :=
  (log.replies.filter (·.1 = reply)).map (·.2)

def begin (received : Option Command) (persist : Persist) : WriterLog :=
  { log with current := { received := received, persist := persist } }

def finish (it : Iteration) : WriterLog :=
  { log with finished := it :: log.finished, current := {} }

def answer (reply : Ticket) (ok : Bool) : Iteration :=
  { log.current with replies := log.current.replies ++ [(reply, ok)] }

/-- The entry of one step of the writer. -/
def note (s : Server) (m : WriterStep) : WriterLog :=
  match m, s.writer.phase with
  | .recv, .idle =>
      match s.queue with
      | [] => log
      | .mutate :: _ => log.finish { received := some .mutate }
      | .terminal reply :: _ => log.begin (some (.terminal reply)) .running
      | .flushAndStop reply :: _ =>
          log.begin (some (.flushAndStop reply))
            (if s.writer.durableSeq < s.writer.dirtySeq then .running else .unneeded)
  | .debounce, .idle => log.begin none .running
  | .persist ok, .building [] _ _ => { log with current := { log.current with persist := .ended ok } }
  | .resolve, .resolving ok (waiter :: _) _ =>
      if waiter.1 ≤ s.writer.durableSeq ∨ ok = false then
        { log with current := log.answer waiter.2 ok }
      else log
  | .resolve, .resolving _ [] .loop => log.finish log.current
  | .resolve, .resolving ok [] (.stop reply) => log.finish (log.answer reply ok)
  | _, _ => log

end WriterLog

/-- The loop is between two iterations, or has returned. -/
def Phase.betweenIterations : Phase → Bool
  | .idle | .stopped => true
  | _ => false

section Runs

variable [TokenCodec]

/-- The runs of the writer, with their log: from a fresh channel, by its own steps and
    whatever the rest of the server does, which is to put commands with reply channels
    of their own into the channel while the writer is there. -/
inductive Logged : Server → WriterLog → Prop where
  | start (s : Server) (hqueue : s.queue = []) (hreplies : s.replies = ∅)
      (hwriter : s.writer = {}) : Logged s {}
  | act {s s' : Server} {log : WriterLog} (commands : List Command) (h : Logged s log)
      (hwriter : s'.writer = s.writer) (hreplies : s'.replies = s.replies)
      (hqueue : s'.queue = s.queue ++ commands)
      (hlive : s.writer.phase.isStopped = true → commands = [])
      (hfresh : ((log.sent ++ commands).filterMap Command.reply).Nodup) :
      Logged s' { log with sent := log.sent ++ commands }
  | write {s s' : Server} {log : WriterLog} (m : WriterStep) (h : Logged s log)
      (hstep : s.writerStep m = some s') : Logged s' (log.note s m)

/-- The state and the log after a step of the writer. -/
inductive Noted (s : Server) (log : WriterLog) : Server → WriterLog → Prop where
  | mutate (rest : List Command) (hphase : s.writer.phase = .idle)
      (hqueue : s.queue = .mutate :: rest) :
      Noted s log
        { s with queue := rest, writer := { s.writer with dirtySeq := s.writer.dirtySeq + 1 } }
        (log.finish { received := some .mutate })
  | terminal (reply : Ticket) (rest : List Command) (hphase : s.writer.phase = .idle)
      (hqueue : s.queue = .terminal reply :: rest) :
      Noted s log
        { s with
          queue := rest
          writer :=
            { s.writer with
              dirtySeq := s.writer.dirtySeq + 1
              waiters := s.writer.waiters ++ [(s.writer.dirtySeq + 1, reply)]
              phase := .collecting .loop } }
        (log.begin (some (.terminal reply)) .running)
  | flushDirty (reply : Ticket) (rest : List Command) (hphase : s.writer.phase = .idle)
      (hqueue : s.queue = .flushAndStop reply :: rest) :
      Noted s log
        { s with queue := rest, writer := { s.writer with phase := .collecting (.stop reply) } }
        (log.begin (some (.flushAndStop reply)) .running)
  | flushClean (reply : Ticket) (rest : List Command) (hphase : s.writer.phase = .idle)
      (hqueue : s.queue = .flushAndStop reply :: rest)
      (hclean : s.writer.dirtySeq ≤ s.writer.durableSeq) :
      Noted s log
        { s with
          queue := rest
          writer :=
            { s.writer with
              waiters := []
              phase := .resolving true s.writer.waiters (.stop reply) } }
        (log.begin (some (.flushAndStop reply)) .unneeded)
  | debounce (hphase : s.writer.phase = .idle) :
      Noted s log { s with writer := { s.writer with phase := .collecting .loop } }
        (log.begin none .running)
  | build (phase : Phase) (hbefore : s.writer.phase.writing = true) (hafter : phase.writing = true)
      (hnext : phase.after = s.writer.phase.after) :
      Noted s log { s with writer := { s.writer with phase := phase } } log
  | persist (ok : Bool) (dtos : List (RoomId × RoomDto)) (next : After)
      (hphase : s.writer.phase = .building [] dtos next) :
      Noted s log (s.persisted ok dtos next)
        { log with current := { log.current with persist := .ended ok } }
  | reply (ok : Bool) (waiter : Nat × Ticket) (todo : List (Nat × Ticket)) (next : After)
      (hphase : s.writer.phase = .resolving ok (waiter :: todo) next) :
      Noted s log
        { s with
          replies := s.replies.insert waiter.2 ok
          writer := { s.writer with phase := .resolving ok todo next } }
        { log with current := log.answer waiter.2 ok }
  | keep (ok : Bool) (waiter : Nat × Ticket) (todo : List (Nat × Ticket)) (next : After)
      (hphase : s.writer.phase = .resolving ok (waiter :: todo) next)
      (hdue : ¬(waiter.1 ≤ s.writer.durableSeq ∨ ok = false)) :
      Noted s log
        { s with
          writer :=
            { s.writer with
              waiters := s.writer.waiters ++ [waiter]
              phase := .resolving ok todo next } }
        log
  | loop (ok : Bool) (hphase : s.writer.phase = .resolving ok [] .loop) :
      Noted s log { s with writer := { s.writer with phase := .idle } } (log.finish log.current)
  | stop (ok : Bool) (reply : Ticket) (hphase : s.writer.phase = .resolving ok [] (.stop reply)) :
      Noted s log
        { s with
          queue := []
          replies := s.replies.insert reply ok
          writer := { s.writer with phase := .stopped } }
        (log.finish (log.answer reply ok))

theorem Server.writerStep_noted {s s' : Server} {m : WriterStep} (log : WriterLog)
    (h : s.writerStep m = some s') : Noted s log s' (log.note s m) := by
  unfold Server.writerStep at h
  split at h
  case h_1 hphase =>
    cases hqueue : s.queue with
    | nil => simp [Server.recv, hqueue] at h
    | cons command rest =>
        cases command with
        | mutate =>
            simp only [Server.recv, hqueue, Option.some.injEq] at h
            simp only [WriterLog.note, hphase, hqueue]
            subst h
            exact .mutate _ hphase hqueue
        | terminal reply =>
            simp only [Server.recv, hqueue, Option.some.injEq] at h
            simp only [WriterLog.note, hphase, hqueue]
            subst h
            exact .terminal _ _ hphase hqueue
        | flushAndStop reply =>
            by_cases hdirty : s.writer.durableSeq < s.writer.dirtySeq
            · simp only [Server.recv, hqueue, if_pos hdirty, Option.some.injEq] at h
              simp only [WriterLog.note, hphase, hqueue, if_pos hdirty]
              subst h
              exact .flushDirty _ _ hphase hqueue
            · simp only [Server.recv, hqueue, if_neg hdirty, Option.some.injEq] at h
              simp only [WriterLog.note, hphase, hqueue, if_neg hdirty]
              subst h
              exact .flushClean _ _ hphase hqueue (Nat.le_of_not_lt hdirty)
  case h_2 hphase =>
    split at h <;> cases h
    simp only [WriterLog.note, hphase]
    exact .debounce hphase
  case h_3 hphase =>
    split at h <;> cases h
    exact .build _ (by rw [hphase]; rfl) rfl (by rw [hphase]; rfl)
  case h_4 hphase =>
    split at h <;> cases h
    exact .build _ (by rw [hphase]; rfl) rfl (by rw [hphase]; rfl)
  case h_5 hphase =>
    cases h
    simp only [WriterLog.note, hphase]
    exact .persist _ _ _ hphase
  case h_6 hphase =>
    cases h
    simp only [WriterLog.note, Server.resolveOne, hphase]
    split
    · exact .reply _ _ _ _ hphase
    · rename_i hdue
      exact .keep _ _ _ _ hphase hdue
  case h_7 next hphase =>
    cases h
    cases next with
    | loop =>
        simp only [WriterLog.note, hphase]
        exact .loop _ hphase
    | stop reply =>
        simp only [WriterLog.note, hphase]
        exact .stop _ _ hphase
  case h_8 => cases h

end Runs

section Log

variable {log : WriterLog} {it : Iteration}

theorem unsaved_blank (its : List Iteration) : unsaved ({} :: its) = unsaved its := by
  simp [unsaved]

/-- The replies do not matter for what is unsaved. -/
theorem unsaved_replies (its : List Iteration) (replies : List (Ticket × Bool)) :
    unsaved ({ it with replies := replies } :: its) = unsaved (it :: its) := by
  simp [unsaved]

theorem WriterLog.received_eq :
    log.received = (log.finished.filterMap (·.received)).reverse ++ log.current.received.toList := by
  unfold WriterLog.received WriterLog.iterations
  cases h : log.current.received with
  | none => simp [h]
  | some command => simp [h]

theorem WriterLog.mem_replies {x : Ticket × Bool} :
    x ∈ log.replies ↔ x ∈ log.current.replies ∨ ∃ it ∈ log.finished, x ∈ it.replies := by
  simp [WriterLog.replies, WriterLog.iterations]

/-- Everything is saved when each command that matters was received before the start of
    a successful write. -/
theorem unsaved_eq_nil_iff {its : List Iteration} :
    unsaved its = [] ↔
      ∀ later it earlier, its = later ++ it :: earlier →
        ∀ command ∈ it.received, command.dirties = true →
          ∃ it' ∈ later ++ [it], it'.persist = .ended true := by
  induction its with
  | nil => simp [unsaved]
  | cons it its ih =>
      by_cases hsaved : it.persist = .ended true
      · simp only [unsaved, if_pos hsaved, true_iff]
        intro later it' earlier heq _ _ _
        cases later with
        | nil =>
            cases heq
            exact ⟨it, by simp, hsaved⟩
        | cons first later =>
            cases heq
            exact ⟨it, by simp, hsaved⟩
      · rw [unsaved, if_neg hsaved, List.append_eq_nil_iff, ih]
        constructor
        · rintro ⟨hhead, htail⟩ later it' earlier heq command hcommand hdirties
          cases later with
          | nil =>
              cases heq
              have hmem : command ∈ it.received.toList.filter Command.dirties := by
                simp only [List.mem_filter]
                exact ⟨Option.mem_toList.mpr hcommand, hdirties⟩
              rw [hhead] at hmem
              cases hmem
          | cons first later =>
              cases heq
              obtain ⟨it'', hmem, hended⟩ := htail later it' earlier rfl command hcommand hdirties
              exact ⟨it'', List.mem_cons_of_mem _ hmem, hended⟩
        · intro hall
          constructor
          · rw [List.filter_eq_nil_iff]
            intro command hcommand hdirties
            obtain ⟨it', hmem, hended⟩ :=
              hall [] it its rfl command (Option.mem_toList.mp hcommand) hdirties
            rw [List.mem_singleton.mp hmem] at hended
            exact hsaved hended
          · intro later it' earlier heq command hcommand hdirties
            obtain ⟨it'', hmem, hended⟩ :=
              hall (it :: later) it' earlier (by rw [heq]; rfl) command hcommand hdirties
            rcases List.mem_cons.mp hmem with rfl | hmem
            · exact (hsaved hended).elim
            · exact ⟨it'', hmem, hended⟩

end Log

end PlezyRelay
