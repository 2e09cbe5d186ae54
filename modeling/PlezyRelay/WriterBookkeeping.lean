/-
  PlezyRelay/WriterBookkeeping.lean
  =================================
  **The writer's counters and waiters, in every run.**

  `snapshot::run` keeps two counters and a list of waiters.  They are bookkeeping for its
  log: `durable_seq` is behind `dirty_seq` by exactly the commands received since the
  start of the last successful write.  Since a write is over before the next command is
  received, a waiter never outlives its iteration, and everything else is read off the
  finished iterations.
-/
import PlezyRelay.TerminalDurability
import PlezyRelay.WriterLog

namespace PlezyRelay

/-! ### What the loop keeps -/

namespace Iteration

variable (it : Iteration)

/-- The reply channel of the command received. -/
def ticket : Option Ticket := it.received.bind Command.reply

/-- Who waits for the write. -/
def waiters : List Ticket :=
  match it.received with
  | some (.terminal reply) => [reply]
  | _ => []

def next : After :=
  match it.received with
  | some (.flushAndStop reply) => .stop reply
  | _ => .loop

/-- An iteration that is over has sent one reply to the command it received, if that has
    a reply channel; the reply is how the write ended, and `Ok` if none was needed. -/
def Settled (ok : Bool) : Prop :=
  it.replies = it.ticket.toList.map (·, ok) ∧
    (it.persist = .ended ok ∨
      it.persist = .unneeded ∧ ok = true ∧ ∀ reply, it.received ≠ some (.terminal reply))

end Iteration

/-- What the writer's own state says about the iteration under way. -/
structure AtPhase (w : Writer) (it : Iteration) : Prop where
  between : w.phase.betweenIterations = true → w.waiters = [] ∧ it = {}
  writing : w.phase.writing = true →
    w.waiters = it.waiters.map (w.dirtySeq, ·) ∧ w.phase.after = it.next ∧
      it.persist = .running ∧ it.replies = []
  resolving : ∀ ok todo next, w.phase = .resolving ok todo next →
    w.waiters = [] ∧ next = it.next ∧
      it.replies ++ todo.map (fun x => (x.2, ok)) = it.waiters.map (·, ok) ∧
      (∀ x ∈ todo, x.1 ≤ w.durableSeq ∨ ok = false) ∧
      (it.persist = .ended ok ∨
        it.persist = .unneeded ∧ ok = true ∧ w.dirtySeq ≤ w.durableSeq ∧
          ∃ reply, it.received = some (.flushAndStop reply))

structure Bookkeeping (s : Server) (log : WriterLog) : Prop where
  atPhase : AtPhase s.writer log.current
  settled : ∀ it ∈ log.finished, ∃ ok, it.Settled ok
  seq : s.writer.dirtySeq = s.writer.durableSeq + (unsaved log.iterations).length
  channel : ∃ rest, log.sent = log.received ++ rest ∧
    (s.writer.phase.isStopped = false → rest = s.queue)
  fresh : (log.sent.filterMap Command.reply).Nodup
  replies : ∀ reply ok, s.replies.lookup reply = some ok ↔ (reply, ok) ∈ log.replies
  flushed : ∀ it ∈ log.finished, ∀ reply, it.received = some (.flushAndStop reply) →
    s.writer.phase = .stopped ∧ (∃ earlier, log.finished = it :: earlier) ∧
      ((reply, true) ∈ it.replies → unsaved log.finished = [])

section Log

variable {it : Iteration}

theorem Iteration.ticket_of_received {command : Command} {reply : Ticket}
    (h : it.received = some command) (hreply : command.reply = some reply) :
    it.ticket = some reply := by
  rw [Iteration.ticket, h, Option.bind_some, hreply]

/-- A settled iteration replies to nobody else. -/
theorem Iteration.Settled.ticket_eq {ok : Bool} (h : it.Settled ok) {x : Ticket × Bool}
    (hx : x ∈ it.replies) : it.ticket = some x.1 := by
  rw [h.1] at hx
  obtain ⟨reply, hreply, rfl⟩ := List.mem_map.mp hx
  exact Option.mem_toList.mp hreply

theorem Iteration.next_eq_stop {reply : Ticket} (h : .stop reply = it.next) :
    it.received = some (.flushAndStop reply) := by
  unfold Iteration.next at h
  split at h
  · rename_i hreceived
    cases h
    exact hreceived
  · cases h

theorem Iteration.received_ne_flush (h : .loop = it.next) (reply : Ticket) :
    it.received ≠ some (.flushAndStop reply) := by
  intro hreceived
  simp [Iteration.next, hreceived] at h

/-- Whoever is still to be answered is the one who asked in this iteration. -/
theorem Iteration.waiters_eq_cons {reply : Ticket} {ok : Bool} {rest : List (Ticket × Bool)}
    (h : it.replies ++ (reply, ok) :: rest = it.waiters.map (·, ok)) :
    it.received = some (.terminal reply) ∧ it.replies = [] ∧ rest = [] := by
  unfold Iteration.waiters at h
  split at h
  · rename_i other hreceived
    have hlength := congrArg List.length h
    simp only [List.length_append, List.length_cons, List.length_map, List.length_nil] at hlength
    have hreplies : it.replies = [] := List.length_eq_zero_iff.mp (by omega)
    have hrest : rest = [] := List.length_eq_zero_iff.mp (by omega)
    rw [hreplies, hrest] at h
    simp only [List.nil_append, List.map_cons, List.map_nil, List.cons.injEq, Prod.mk.injEq] at h
    rw [h.1.1]
    exact ⟨hreceived, hreplies, hrest⟩
  · simp at h

end Log

section Steps

variable {s s' : Server} {log log' : WriterLog}

theorem Noted.sent (h : Noted s log s' log') : log'.sent = log.sent := by
  cases h <;> rfl

-- A phase belongs to one of three groups, and only what is said of that one is to be shown.

theorem AtPhase.of_between {w : Writer} (hphase : w.phase.betweenIterations = true)
    (hwaiters : w.waiters = []) : AtPhase w {} := by
  constructor
  · intro _
    exact ⟨hwaiters, rfl⟩
  · intro hwriting
    cases hw : w.phase <;> simp_all [Phase.writing, Phase.betweenIterations]
  · intro ok todo next heq
    rw [heq] at hphase
    cases hphase

theorem AtPhase.of_writing {w : Writer} {it : Iteration} (hphase : w.phase.writing = true)
    (h : w.waiters = it.waiters.map (w.dirtySeq, ·) ∧ w.phase.after = it.next ∧
      it.persist = .running ∧ it.replies = []) : AtPhase w it := by
  constructor
  · intro hbetween
    cases hw : w.phase <;> simp_all [Phase.writing, Phase.betweenIterations]
  · intro _
    exact h
  · intro ok todo next heq
    rw [heq] at hphase
    cases hphase

theorem AtPhase.of_resolving {w : Writer} {it : Iteration} {ok : Bool}
    {todo : List (Nat × Ticket)} {next : After} (hphase : w.phase = .resolving ok todo next)
    (h : w.waiters = [] ∧ next = it.next ∧
      it.replies ++ todo.map (fun x => (x.2, ok)) = it.waiters.map (·, ok) ∧
      (∀ x ∈ todo, x.1 ≤ w.durableSeq ∨ ok = false) ∧
      (it.persist = .ended ok ∨
        it.persist = .unneeded ∧ ok = true ∧ w.dirtySeq ≤ w.durableSeq ∧
          ∃ reply, it.received = some (.flushAndStop reply))) : AtPhase w it := by
  constructor
  · intro hbetween
    rw [hphase] at hbetween
    cases hbetween
  · intro hwriting
    rw [hphase] at hwriting
    cases hwriting
  · intro ok' todo' next' heq
    cases hphase.symm.trans heq
    exact h

theorem AtPhase.write (h : AtPhase s.writer log.current) (hn : Noted s log s' log') :
    AtPhase s'.writer log'.current := by
  cases hn with
  | mutate rest hphase hqueue =>
      have hidle := h.between (by rw [hphase]; rfl)
      apply AtPhase.of_between
      · simp [hphase, Phase.betweenIterations]
      · exact hidle.1
  | terminal reply rest hphase hqueue =>
      have hidle := h.between (by rw [hphase]; rfl)
      refine .of_writing rfl ⟨?_, rfl, rfl, rfl⟩
      simp [hidle.1, WriterLog.begin, Iteration.waiters]
  | flushDirty _ _ hphase | debounce hphase =>
      have hidle := h.between (by rw [hphase]; rfl)
      exact .of_writing rfl ⟨hidle.1, rfl, rfl, rfl⟩
  | flushClean reply rest hphase hqueue hclean =>
      have hidle := h.between (by rw [hphase]; rfl)
      refine .of_resolving rfl ⟨rfl, rfl, ?_, ?_, Or.inr ⟨rfl, rfl, hclean, reply, rfl⟩⟩
      · rw [hidle.1]
        rfl
      · simp [hidle.1]
  | build phase hbefore hafter hnext =>
      obtain ⟨hwaiters, hloop, hrunning⟩ := h.writing hbefore
      exact .of_writing hafter ⟨hwaiters, hnext.trans hloop, hrunning⟩
  | persist ok dtos next hphase =>
      obtain ⟨hwaiters, hnext, -, hreplies⟩ := h.writing (by rw [hphase]; rfl)
      rw [hphase] at hnext
      refine .of_resolving rfl ⟨rfl, hnext, ?_, ?_, Or.inl rfl⟩
      · simp only [hreplies, hwaiters, List.nil_append, List.map_map]
        rfl
      · -- everyone waiting asked before the number that is now durable
        intro x hx
        rw [hwaiters] at hx
        obtain ⟨reply, -, rfl⟩ := List.mem_map.mp hx
        cases ok with
        | false => exact Or.inr rfl
        | true => exact Or.inl le_rfl
  | reply ok waiter todo next hphase =>
      obtain ⟨hwaiters, hnext, hreplies, hdue, houtcome⟩ := h.resolving _ _ _ hphase
      refine .of_resolving rfl ⟨hwaiters, hnext, ?_, ?_, houtcome⟩
      · simp only [WriterLog.answer, List.append_assoc, List.singleton_append]
        exact hreplies
      · intro x hx
        exact hdue x (List.mem_cons_of_mem _ hx)
  | keep ok waiter todo next hphase hkeep =>
      obtain ⟨-, -, -, hdue, -⟩ := h.resolving _ _ _ hphase
      exact absurd (hdue waiter List.mem_cons_self) hkeep
  | loop ok hphase | stop ok reply hphase =>
      exact .of_between rfl (h.resolving _ _ _ hphase).1

/-- The iteration that `resolve_waiters` ends. -/
theorem AtPhase.settled_loop {ok : Bool} (h : AtPhase s.writer log.current)
    (hphase : s.writer.phase = .resolving ok [] .loop) : log.current.Settled ok := by
  obtain ⟨-, hnext, hreplies, -, houtcome⟩ := h.resolving _ _ _ hphase
  have hflush := Iteration.received_ne_flush hnext
  refine ⟨?_, ?_⟩
  · rw [List.map_nil, List.append_nil] at hreplies
    rw [hreplies]
    unfold Iteration.waiters Iteration.ticket
    cases hreceived : log.current.received with
    | none => rfl
    | some command =>
        cases command with
        | mutate | terminal reply => rfl
        | flushAndStop reply => exact (hflush reply hreceived).elim
  · rcases houtcome with hended | ⟨-, -, -, reply, hreceived⟩
    · exact Or.inl hended
    · exact (hflush reply hreceived).elim

theorem AtPhase.settled_stop {ok : Bool} {reply : Ticket} (h : AtPhase s.writer log.current)
    (hphase : s.writer.phase = .resolving ok [] (.stop reply)) :
    log.current.received = some (.flushAndStop reply) ∧ log.current.replies = [] ∧
      (log.answer reply ok).Settled ok := by
  obtain ⟨-, hnext, hreplies, -, houtcome⟩ := h.resolving _ _ _ hphase
  have hreceived := Iteration.next_eq_stop hnext
  have hnone : log.current.replies = [] := by
    simpa [Iteration.waiters, hreceived] using hreplies
  refine ⟨hreceived, hnone, ?_, ?_⟩
  · simp [WriterLog.answer, Iteration.ticket, hnone, hreceived, Command.reply]
  · rcases houtcome with hended | ⟨hunneeded, hok, -⟩
    · exact Or.inl hended
    · refine Or.inr ⟨hunneeded, hok, fun other => ?_⟩
      simp [WriterLog.answer, hreceived]

namespace Bookkeeping

theorem settled_write (h : Bookkeeping s log) (hn : Noted s log s' log') :
    ∀ it ∈ log'.finished, ∃ ok, it.Settled ok := by
  cases hn with
  | mutate rest hphase hqueue =>
      intro it hit
      rcases List.mem_cons.mp hit with rfl | hit
      · exact ⟨true, rfl, Or.inr ⟨rfl, rfl, by simp⟩⟩
      · exact h.settled it hit
  | loop ok hphase =>
      intro it hit
      rcases List.mem_cons.mp hit with rfl | hit
      · exact ⟨ok, h.atPhase.settled_loop hphase⟩
      · exact h.settled it hit
  | stop ok reply hphase =>
      intro it hit
      rcases List.mem_cons.mp hit with rfl | hit
      · exact ⟨ok, (h.atPhase.settled_stop hphase).2.2⟩
      · exact h.settled it hit
  | _ => exact h.settled

/-- Between two iterations nothing is in the log of the current one. -/
theorem current_eq (h : Bookkeeping s log) (hphase : s.writer.phase = .idle) :
    log.current = {} :=
  (h.atPhase.between (by rw [hphase]; rfl)).2

theorem unsaved_idle (h : Bookkeeping s log) (hphase : s.writer.phase = .idle) :
    unsaved log.iterations = unsaved log.finished := by
  rw [WriterLog.iterations, h.current_eq hphase, unsaved_blank]

theorem seq_write (h : Bookkeeping s log) (hn : Noted s log s' log') :
    s'.writer.dirtySeq = s'.writer.durableSeq + (unsaved log'.iterations).length := by
  have hseq := h.seq
  cases hn with
  | mutate rest hphase hqueue =>
      rw [h.unsaved_idle hphase] at hseq
      simp [WriterLog.finish, WriterLog.iterations, unsaved, List.filter_cons, Command.dirties, hseq]
      omega
  | terminal reply rest hphase hqueue =>
      rw [h.unsaved_idle hphase] at hseq
      simp [WriterLog.begin, WriterLog.iterations, unsaved, List.filter_cons, Command.dirties, hseq]
      omega
  | flushDirty reply rest hphase hqueue | flushClean reply rest hphase hqueue =>
      rw [h.unsaved_idle hphase] at hseq
      simpa [WriterLog.begin, WriterLog.iterations, unsaved, Command.dirties] using hseq
  | debounce hphase =>
      rw [h.unsaved_idle hphase] at hseq
      simpa [WriterLog.begin, WriterLog.iterations, unsaved] using hseq
  | persist ok dtos next hphase =>
      obtain ⟨-, -, hrunning, -⟩ := h.atPhase.writing (by rw [hphase]; rfl)
      cases ok with
      | true => simp [Server.persisted, WriterLog.iterations, unsaved]
      | false => simpa [Server.persisted, WriterLog.iterations, unsaved, hrunning] using hseq
  | reply ok waiter todo next hphase =>
      simp only [WriterLog.iterations, WriterLog.answer, unsaved_replies]
      exact hseq
  | loop ok hphase =>
      simp only [WriterLog.finish, WriterLog.iterations, unsaved_blank]
      exact hseq
  | stop ok reply hphase =>
      simp only [WriterLog.finish, WriterLog.iterations, WriterLog.answer, unsaved_blank,
        unsaved_replies]
      exact hseq
  | build | keep => exact hseq

theorem channel_write (h : Bookkeeping s log) (hn : Noted s log s' log') :
    ∃ rest, log'.sent = log'.received ++ rest ∧
      (s'.writer.phase.isStopped = false → rest = s'.queue) := by
  obtain ⟨rest, hsent, hrest⟩ := h.channel
  -- a command moves from the front of the channel to the end of what was received
  have hrecv : ∀ command rest', s.writer.phase = .idle → s.queue = command :: rest' →
      log.sent = (log.finished.filterMap (·.received)).reverse ++ [command] ++ rest' := by
    intro command rest' hphase hqueue
    rw [hsent, hrest (by rw [hphase]; rfl), hqueue, WriterLog.received_eq, h.current_eq hphase]
    simp
  cases hn with
  | mutate rest' hphase hqueue =>
      refine ⟨rest', ?_, fun _ => rfl⟩
      rw [WriterLog.received_eq]
      simpa [WriterLog.finish] using hrecv _ _ hphase hqueue
  | terminal reply rest' hphase hqueue | flushDirty reply rest' hphase hqueue
  | flushClean reply rest' hphase hqueue =>
      refine ⟨rest', ?_, fun _ => rfl⟩
      rw [WriterLog.received_eq]
      simpa [WriterLog.begin] using hrecv _ _ hphase hqueue
  | debounce hphase =>
      refine ⟨rest, ?_, fun _ => hrest (by rw [hphase]; rfl)⟩
      rw [WriterLog.received_eq, h.current_eq hphase] at hsent
      rw [WriterLog.received_eq]
      exact hsent
  | build phase hbefore hafter hnext =>
      refine ⟨rest, hsent, fun _ => hrest ?_⟩
      cases hphase : s.writer.phase <;> simp_all [Phase.writing, Phase.isStopped]
  | persist ok dtos next hphase | reply ok waiter todo next hphase =>
      refine ⟨rest, ?_, fun _ => hrest (by rw [hphase]; rfl)⟩
      rw [WriterLog.received_eq] at hsent ⊢
      exact hsent
  | keep ok waiter todo next hphase hkeep =>
      exact ⟨rest, hsent, fun _ => hrest (by rw [hphase]; rfl)⟩
  | loop ok hphase =>
      refine ⟨rest, ?_, fun _ => hrest (by rw [hphase]; rfl)⟩
      rw [WriterLog.received_eq] at hsent ⊢
      cases hreceived : log.current.received with
      | none => simpa [WriterLog.finish, hreceived] using hsent
      | some command => simpa [WriterLog.finish, hreceived] using hsent
  | stop ok reply hphase =>
      refine ⟨rest, ?_, by simp [Phase.isStopped]⟩
      rw [WriterLog.received_eq] at hsent ⊢
      cases hreceived : log.current.received with
      | none => simpa [WriterLog.finish, WriterLog.answer, hreceived] using hsent
      | some command => simpa [WriterLog.finish, WriterLog.answer, hreceived] using hsent

/-- No two iterations received the same reply channel. -/
theorem tickets_nodup (h : Bookkeeping s log) :
    (log.iterations.filterMap Iteration.ticket).Nodup := by
  obtain ⟨rest, hsent, -⟩ := h.channel
  have hfresh := h.fresh
  rw [hsent, List.filterMap_append] at hfresh
  have hreceived := (List.nodup_append.mp hfresh).1
  rw [WriterLog.received, List.filterMap_reverse, List.nodup_reverse,
    List.filterMap_filterMap] at hreceived
  exact hreceived

theorem ticket_unique (h : Bookkeeping s log) {reply : Ticket}
    (hcurrent : log.current.ticket = some reply) {it : Iteration} (hit : it ∈ log.finished) :
    it.ticket ≠ some reply := by
  intro hticket
  have hnodup := h.tickets_nodup
  rw [WriterLog.iterations, List.filterMap_cons_some hcurrent, List.nodup_cons] at hnodup
  exact hnodup.1 (List.mem_filterMap.mpr ⟨it, hit, hticket⟩)

/-- The command of the iteration under way has had no reply from an earlier one. -/
theorem unanswered (h : Bookkeeping s log) {reply : Ticket}
    (hcurrent : log.current.ticket = some reply) (hnone : log.current.replies = []) (ok : Bool) :
    (reply, ok) ∉ log.replies := by
  intro hmem
  rcases WriterLog.mem_replies.mp hmem with hmem | ⟨it, hit, hmem⟩
  · rw [hnone] at hmem
    cases hmem
  · obtain ⟨_, hsettled⟩ := h.settled it hit
    exact h.ticket_unique hcurrent hit (hsettled.ticket_eq hmem)

/-- A reply to a channel that has had none. -/
theorem replies_insert (h : Bookkeeping s log) {reply : Ticket} {ok : Bool}
    (hnew : ∀ ok, (reply, ok) ∉ log.replies)
    (hmem : ∀ x, x ∈ log'.replies ↔ x ∈ log.replies ∨ x = (reply, ok)) (reply' : Ticket)
    (ok' : Bool) :
    (s.replies.insert reply ok).lookup reply' = some ok' ↔ (reply', ok') ∈ log'.replies := by
  rw [hmem, Prod.mk.injEq]
  by_cases heq : reply' = reply
  · subst heq
    rw [AList.lookup_insert, Option.some_inj]
    constructor
    · intro hok
      exact Or.inr ⟨rfl, hok.symm⟩
    · rintro (hold | ⟨-, rfl⟩)
      · exact (hnew ok' hold).elim
      · rfl
  · rw [AList.lookup_insert_ne heq, h.replies]
    simp [heq]

theorem replies_write (h : Bookkeeping s log) (hn : Noted s log s' log') (reply : Ticket)
    (ok : Bool) : s'.replies.lookup reply = some ok ↔ (reply, ok) ∈ log'.replies := by
  cases hn with
  | mutate rest hphase hqueue =>
      have hcurrent := h.current_eq hphase
      simpa [WriterLog.mem_replies, WriterLog.finish, hcurrent] using h.replies reply ok
  | terminal _ _ hphase | flushDirty _ _ hphase | flushClean _ _ hphase | debounce hphase =>
      have hcurrent := h.current_eq hphase
      simpa [WriterLog.mem_replies, WriterLog.begin, hcurrent] using h.replies reply ok
  | persist ok' dtos next hphase => exact h.replies reply ok
  | reply ok' waiter todo next hphase =>
      obtain ⟨-, -, hreplies, -, -⟩ := h.atPhase.resolving _ _ _ hphase
      obtain ⟨hreceived, hnone, -⟩ := Iteration.waiters_eq_cons hreplies
      have hticket := Iteration.ticket_of_received hreceived rfl
      apply h.replies_insert (h.unanswered hticket hnone)
      intro x
      simp only [WriterLog.mem_replies, WriterLog.answer, List.mem_append, List.mem_singleton]
      exact or_right_comm
  | loop ok' hphase => simpa [WriterLog.mem_replies, WriterLog.finish] using h.replies reply ok
  | stop ok' other hphase =>
      obtain ⟨hreceived, hnone, -⟩ := h.atPhase.settled_stop hphase
      have hticket := Iteration.ticket_of_received hreceived rfl
      apply h.replies_insert (h.unanswered hticket hnone)
      intro x
      simp only [WriterLog.mem_replies, WriterLog.finish, WriterLog.answer, List.mem_append,
        List.mem_cons, exists_eq_or_imp, List.not_mem_nil, false_or, or_false]
      exact or_right_comm
  | build | keep => exact h.replies reply ok

/-- As long as the writer is there it has finished no `FlushAndStop`. -/
theorem not_flushed (h : Bookkeeping s log) (hlive : s.writer.phase.isStopped = false)
    {it : Iteration} (hit : it ∈ log.finished) (reply : Ticket) :
    it.received ≠ some (.flushAndStop reply) := by
  intro hreceived
  rw [(h.flushed it hit reply hreceived).1] at hlive
  cases hlive

theorem flushed_write (h : Bookkeeping s log) (hn : Noted s log s' log') :
    ∀ it ∈ log'.finished, ∀ reply, it.received = some (.flushAndStop reply) →
      s'.writer.phase = .stopped ∧ (∃ earlier, log'.finished = it :: earlier) ∧
        ((reply, true) ∈ it.replies → unsaved log'.finished = []) := by
  intro it hit reply hreceived
  cases hn with
  | mutate rest hphase hqueue =>
      rcases List.mem_cons.mp hit with rfl | hit
      · cases hreceived
      · exact (h.not_flushed (by rw [hphase]; rfl) hit reply hreceived).elim
  | loop ok hphase =>
      rcases List.mem_cons.mp hit with rfl | hit
      · obtain ⟨-, hnext, -⟩ := h.atPhase.resolving _ _ _ hphase
        exact (Iteration.received_ne_flush hnext reply hreceived).elim
      · exact (h.not_flushed (by rw [hphase]; rfl) hit reply hreceived).elim
  | stop ok other hphase =>
      rcases List.mem_cons.mp hit with rfl | hit
      · refine ⟨rfl, ⟨log.finished, rfl⟩, fun hok => ?_⟩
        obtain ⟨-, hnone, -⟩ := h.atPhase.settled_stop hphase
        obtain ⟨-, -, -, -, houtcome⟩ := h.atPhase.resolving _ _ _ hphase
        have htrue : ok = true := by
          simp only [WriterLog.answer, hnone, List.nil_append, List.mem_singleton,
            Prod.mk.injEq] at hok
          exact hok.2.symm
        simp only [WriterLog.finish, WriterLog.answer, unsaved_replies]
        rcases houtcome with hended | ⟨-, -, hclean, -⟩
        · rw [unsaved, if_pos (by rw [hended, htrue])]
        · -- no write was needed: nothing had been received since the last one
          have hseq := h.seq
          exact List.length_eq_zero_iff.mp (by rw [WriterLog.iterations] at hseq; omega)
      · exact (h.not_flushed (by rw [hphase]; rfl) hit reply hreceived).elim
  | terminal _ _ hphase | flushDirty _ _ hphase | flushClean _ _ hphase | debounce hphase
  | persist _ _ _ hphase | reply _ _ _ _ hphase | keep _ _ _ _ hphase =>
      exact (h.not_flushed (by rw [hphase]; rfl) hit reply hreceived).elim
  | build phase hbefore =>
      refine (h.not_flushed ?_ hit reply hreceived).elim
      cases hphase : s.writer.phase <;> simp_all [Phase.writing, Phase.isStopped]

theorem write (h : Bookkeeping s log) (hn : Noted s log s' log') : Bookkeeping s' log' where
  atPhase := h.atPhase.write hn
  settled := h.settled_write hn
  seq := h.seq_write hn
  channel := h.channel_write hn
  fresh := by
    rw [hn.sent]
    exact h.fresh
  replies := h.replies_write hn
  flushed := h.flushed_write hn

/-- Commands arrive behind those that are waiting. -/
theorem act (h : Bookkeeping s log) {commands : List Command} (hwriter : s'.writer = s.writer)
    (hreplies : s'.replies = s.replies) (hqueue : s'.queue = s.queue ++ commands)
    (hfresh : ((log.sent ++ commands).filterMap Command.reply).Nodup) :
    Bookkeeping s' { log with sent := log.sent ++ commands } where
  atPhase := by
    rw [hwriter]
    exact h.atPhase
  settled := h.settled
  seq := by
    rw [hwriter]
    exact h.seq
  channel := by
    obtain ⟨rest, hsent, hrest⟩ := h.channel
    refine ⟨rest ++ commands, ?_, fun hlive => ?_⟩
    · change log.sent ++ commands = log.received ++ (rest ++ commands)
      rw [hsent, List.append_assoc]
    · rw [hqueue, hrest (by rw [← hwriter]; exact hlive)]
  fresh := hfresh
  replies := by
    rw [hreplies]
    exact h.replies
  flushed := by
    rw [hwriter]
    exact h.flushed

end Bookkeeping

/-- The bookkeeping is right in every run. -/
theorem Logged.bookkeeping [TokenCodec] (h : Logged s log) : Bookkeeping s log := by
  induction h with
  | start s hqueue hreplies hwriter =>
      refine ⟨?_, by simp, ?_, ⟨[], rfl, fun _ => hqueue.symm⟩, List.nodup_nil, ?_, by simp⟩
      · rw [hwriter]
        exact .of_between rfl rfl
      · rw [hwriter]
        rfl
      · intro reply ok
        rw [hreplies]
        simp [WriterLog.mem_replies]
  | act commands h hwriter hreplies hqueue hlive hfresh ih =>
      exact ih.act hwriter hreplies hqueue hfresh
  | write m h hstep ih => exact ih.write (Server.writerStep_noted _ hstep)

/-! ### What it means to those who wait -/

namespace Bookkeeping

/-- What an iteration sent to its own command is all that was ever sent to it. -/
theorem repliesTo_eq (h : Bookkeeping s log) {it : Iteration} (hit : it ∈ log.finished)
    {reply : Ticket} {ok : Bool} (hticket : it.ticket = some reply)
    (hreplies : it.replies = [(reply, ok)]) (hcurrent : log.current = {}) :
    log.repliesTo reply = [ok] := by
  have hnodup := h.tickets_nodup
  have hsettled := h.settled
  obtain ⟨later, earlier, heq⟩ := List.append_of_mem hit
  have hother : ∀ it' ∈ later ++ earlier, it'.replies.filter (·.1 = reply) = [] := by
    intro it' hit'
    rw [List.filter_eq_nil_iff]
    intro x hx hreply
    have hmem : it' ∈ log.finished := by
      rw [heq]
      simp only [List.mem_append, List.mem_cons] at hit' ⊢
      tauto
    obtain ⟨_, hsettled'⟩ := hsettled it' hmem
    have hticket' := hsettled'.ticket_eq hx
    rw [of_decide_eq_true hreply] at hticket'
    rw [WriterLog.iterations, hcurrent, heq] at hnodup
    simp only [List.filterMap_cons, List.filterMap_append, Iteration.ticket,
      Option.bind_none] at hnodup
    rw [Iteration.ticket] at hticket hticket'
    rw [hticket, List.nodup_middle, List.nodup_cons, ← List.filterMap_append] at hnodup
    exact hnodup.1 (List.mem_filterMap.mpr ⟨it', hit', hticket'⟩)
  have hnone : ∀ its : List Iteration, its ⊆ later ++ earlier →
      (its.flatMap (·.replies)).filter (·.1 = reply) = [] := by
    intro its hsub
    rw [List.filter_flatMap, List.flatMap_eq_nil_iff]
    exact fun it' hit' => hother it' (hsub hit')
  rw [WriterLog.repliesTo, WriterLog.replies, WriterLog.iterations, hcurrent, heq]
  simp only [List.flatMap_cons, List.flatMap_append, List.nil_append, List.filter_append, hreplies,
    hnone later (List.subset_append_left ..), hnone earlier (List.subset_append_right ..)]
  simp

/-- A `Terminal` command has its one reply by the end of the iteration that received it. -/
theorem terminal_answered (h : Bookkeeping s log)
    (hbetween : s.writer.phase.betweenIterations = true) {reply : Ticket}
    (hreceived : .terminal reply ∈ log.received) :
    ∃ it ∈ log.finished, ∃ ok, it.received = some (.terminal reply) ∧ it.persist = .ended ok ∧
      log.repliesTo reply = [ok] ∧ s.replies.lookup reply = some ok := by
  have hcurrent := (h.atPhase.between hbetween).2
  rw [WriterLog.received_eq, hcurrent] at hreceived
  simp only [Option.toList_none, List.append_nil, List.mem_reverse, List.mem_filterMap] at hreceived
  obtain ⟨it, hit, hcommand⟩ := hreceived
  obtain ⟨ok, hreplies, houtcome⟩ := h.settled it hit
  have hticket := Iteration.ticket_of_received hcommand rfl
  rw [hticket] at hreplies
  refine ⟨it, hit, ok, hcommand, ?_, h.repliesTo_eq hit hticket hreplies hcurrent, ?_⟩
  · rcases houtcome with hended | ⟨-, -, hnot⟩
    · exact hended
    · exact (hnot reply hcommand).elim
  · rw [h.replies, WriterLog.mem_replies]
    refine Or.inr ⟨it, hit, ?_⟩
    rw [hreplies]
    exact List.mem_singleton_self _

/-- What was queued before a `FlushAndStop` is what was received before it. -/
theorem received_flush (h : Bookkeeping s log) {it : Iteration} (hit : it ∈ log.finished)
    {reply : Ticket} (hcommand : it.received = some (.flushAndStop reply))
    {queued rest : List Command} (hsent : log.sent = queued ++ .flushAndStop reply :: rest) :
    log.received = queued ++ [.flushAndStop reply] := by
  obtain ⟨hstopped, ⟨earlier, hfinished⟩, -⟩ := h.flushed it hit reply hcommand
  obtain ⟨rest', hchannel, -⟩ := h.channel
  have hcurrent := (h.atPhase.between (by rw [hstopped]; rfl)).2
  have hreceived : log.received =
      (earlier.filterMap (·.received)).reverse ++ [.flushAndStop reply] := by
    rw [WriterLog.received_eq, hcurrent, hfinished]
    simp [hcommand]
  have hnodup := h.fresh
  rw [hsent, List.filterMap_append, List.filterMap_cons] at hnodup
  simp only [Command.reply] at hnodup
  rw [List.nodup_middle, List.nodup_cons, ← List.filterMap_append] at hnodup
  have honce : .flushAndStop reply ∉ queued ++ rest := by
    intro hmem
    exact hnodup.1 (List.mem_filterMap.mpr ⟨_, hmem, rfl⟩)
  rw [List.mem_append, not_or] at honce
  rw [hsent, hreceived, List.append_assoc, List.singleton_append,
    List.append_cons_inj_of_notMem honce.1 honce.2] at hchannel
  rw [hreceived, hchannel.1]

/-- Nobody replies to a command that was never received. -/
theorem lookup_eq_none (h : Bookkeeping s log)
    (hbetween : s.writer.phase.betweenIterations = true) {command : Command} {reply : Ticket}
    (hreply : command.reply = some reply) (hsent : command ∈ log.sent)
    (hreceived : command ∉ log.received) : s.replies.lookup reply = none := by
  rw [Option.eq_none_iff_forall_ne_some]
  intro ok hlookup
  have hcurrent := (h.atPhase.between hbetween).2
  obtain hmem | ⟨it, hit, hmem⟩ := WriterLog.mem_replies.mp ((h.replies reply ok).mp hlookup)
  · rw [hcurrent] at hmem
    cases hmem
  obtain ⟨_, hsettled⟩ := h.settled it hit
  obtain ⟨rest, hchannel, -⟩ := h.channel
  have hrest : command ∈ rest := by
    rw [hchannel, List.mem_append] at hsent
    exact hsent.resolve_left hreceived
  have hfresh := h.fresh
  rw [hchannel, List.filterMap_append] at hfresh
  have hticket := hsettled.ticket_eq hmem
  rw [Iteration.ticket, Option.bind_eq_some_iff] at hticket
  obtain ⟨other, hother, hsame⟩ := hticket
  have holder : other ∈ log.received := by
    rw [WriterLog.received_eq, List.mem_append, List.mem_reverse, List.mem_filterMap]
    exact Or.inl ⟨it, hit, hother⟩
  exact (List.nodup_append.mp hfresh).2.2 reply (List.mem_filterMap.mpr ⟨other, holder, hsame⟩)
    reply (List.mem_filterMap.mpr ⟨command, hrest, hreply⟩) rfl

end Bookkeeping

variable [TokenCodec]

/-- The writer's bookkeeping, in every run and after every step: at the end of an iteration
    nobody waits, and each `Terminal` command received has been sent one reply, which is
    how the write of its iteration ended; the counters agree when nothing was received
    since the start of the last successful write; a `FlushAndStop` is answered `Ok` when
    everything queued before it was received before the start of a successful write; and
    what is still queued when the writer stops fails. -/
theorem writer_bookkeeping (h : Logged s log) :
    (s.writer.phase.betweenIterations = true →
      s.writer.waiters = [] ∧
      ∀ reply, .terminal reply ∈ log.received →
        ∃ it ∈ log.finished, ∃ ok, it.received = some (.terminal reply) ∧
          it.persist = .ended ok ∧ log.repliesTo reply = [ok] ∧
          s.replies.lookup reply = some ok) ∧
    s.writer.durableSeq ≤ s.writer.dirtySeq ∧
    (s.writer.durableSeq = s.writer.dirtySeq ↔ unsaved log.iterations = []) ∧
    (∀ it ∈ log.finished, ∀ reply, it.received = some (.flushAndStop reply) →
      (reply, true) ∈ it.replies →
        ∀ queued rest, log.sent = queued ++ .flushAndStop reply :: rest →
          log.received = queued ++ [.flushAndStop reply] ∧
          ∀ later it' earlier, log.finished = later ++ it' :: earlier →
            ∀ command ∈ it'.received, command.dirties = true →
              ∃ it'' ∈ later ++ [it'], it''.persist = .ended true) ∧
    (s.writer.phase.isStopped = true →
      ∀ reply, .terminal reply ∈ log.sent → .terminal reply ∉ log.received →
        ∀ t e, s.exec t (.awaitReply reply) e = some (false, s)) := by
  have hbook := h.bookkeeping
  have hseq := hbook.seq
  refine ⟨?_, by omega, ?_, ?_, ?_⟩
  · intro hbetween
    exact ⟨(hbook.atPhase.between hbetween).1, fun reply => hbook.terminal_answered hbetween⟩
  · rw [← List.length_eq_zero_iff]
    omega
  · intro it hit reply hcommand hok queued rest hsent
    have hsaved := (hbook.flushed it hit reply hcommand).2.2 hok
    exact ⟨hbook.received_flush hit hcommand hsent, unsaved_eq_nil_iff.mp hsaved⟩
  · intro hstopped reply hsent hreceived t e
    have hbetween : s.writer.phase.betweenIterations = true := by
      cases hphase : s.writer.phase <;> simp_all [Phase.isStopped, Phase.betweenIterations]
    have hnone := hbook.lookup_eq_none hbetween rfl hsent hreceived
    simp only [Server.exec, hnone, hstopped, if_true]

omit [TokenCodec] in
/-- Two requests and a mutation, with a `FlushAndStop` between the requests: the first is
    answered, the second is still queued when the writer returns. -/
theorem writer_bookkeeping_until_stop :
    letI : TokenCodec := sampleCodec
    ∃ s log, Logged s log ∧ log.repliesTo 0 = [true] ∧ unsaved log.iterations = [] ∧
      ∀ t e, s.exec t (.awaitReply 2) e = some (false, s) := by
  let _ : TokenCodec := sampleCodec
  have hsent : Logged { queue := [.terminal 0, .mutate, .flushAndStop 1, .terminal 2] }
      { sent := [.terminal 0, .mutate, .flushAndStop 1, .terminal 2] } :=
    .act _ (.start {} rfl rfl rfl) rfl rfl rfl nofun (by decide)
  -- the first request, with its write and its reply
  have hterminal := (((hsent.write .recv rfl).write .collect rfl).write (.persist true) rfl).write
    .resolve rfl
  have hmutate := (hterminal.write .resolve rfl).write .recv rfl
  -- the last write, and the end
  have hflush := ((hmutate.write .recv rfl).write .collect rfl).write (.persist true) rfl
  have hstop := hflush.write .resolve rfl
  obtain ⟨hanswered, -, hseq, -, hdropped⟩ := writer_bookkeeping hstop
  obtain ⟨it, hit, ok, -, -, hreplies, hlookup⟩ := (hanswered rfl).2 0 (by decide)
  cases hlookup
  exact ⟨_, _, hstop, hreplies, hseq.mp rfl, hdropped rfl 2 (by decide) (by decide)⟩

/-! ### The relay -/

/-- What a task puts into the channel: nothing, a mutation, or a request with the next
    ticket. -/
theorem Moves.sends {t : Tid} {e : Env} {a : Act} (h : Moves t e s a s') :
    ∃ commands, s'.queue = s.queue ++ commands ∧
      (s.writer.phase.isStopped = true → commands = []) ∧
      (commands.filterMap Command.reply = [] ∧ s'.nextTicket = s.nextTicket ∨
        commands.filterMap Command.reply = [s.nextTicket] ∧ s'.nextTicket = s.nextTicket + 1) := by
  cases h with
  | note hlive =>
      refine ⟨[.mutate], rfl, fun hstopped => ?_, Or.inl ⟨rfl, rfl⟩⟩
      rw [hlive] at hstopped
      cases hstopped
  | request _ command ha hlive =>
      refine ⟨[command s.nextTicket], rfl, fun hstopped => ?_, Or.inr ⟨?_, rfl⟩⟩
      · rw [hlive] at hstopped
        cases hstopped
      · rcases ha with ⟨_, rfl⟩ | ⟨_, rfl⟩ <;> rfl
  | _ => exact ⟨[], by simp, fun _ => rfl, Or.inl ⟨rfl, rfl⟩⟩

/-- Every run of the relay is such a run of its writer. -/
theorem relay_logged {C : RelaySys → RelayLabel → Prop} {sys : RelaySys} (h : Reaches C sys) :
    ∃ log, Logged sys.shared.server log ∧
      ∀ reply ∈ log.sent.filterMap Command.reply, reply < sys.shared.server.nextTicket := by
  apply relay_invariant (P := fun w => ∃ log, Logged w.server log ∧
    ∀ reply ∈ log.sent.filterMap Command.reply, reply < w.server.nextTicket) h
  · intro sys hsys
    obtain ⟨_, _, _, hshared⟩ := hsys.shared_eq
    rw [hshared]
    exact ⟨{}, .start _ rfl rfl rfl, by simp⟩
  · rintro sys w' - ⟨log, hlogged, htickets⟩ hnext
    cases hnext with
    | act hx =>
        have hmoves := World.did_moves hx
        obtain ⟨hwriter, hreplies, -⟩ := hmoves.writer
        obtain ⟨commands, hqueue, hlive, hcommands⟩ := hmoves.sends
        have hfresh := hlogged.bookkeeping.fresh
        refine ⟨_, hlogged.act commands hwriter hreplies hqueue hlive ?_, ?_⟩
        · rw [List.filterMap_append]
          rcases hcommands with ⟨hnone, -⟩ | ⟨hnext, -⟩
          · rw [hnone, List.append_nil]
            exact hfresh
          · rw [hnext, List.nodup_append]
            refine ⟨hfresh, List.nodup_singleton _, fun reply hreply other hother => ?_⟩
            rw [List.mem_singleton.mp hother]
            exact Nat.ne_of_lt (htickets reply hreply)
        · intro reply hreply
          rw [List.filterMap_append, List.mem_append] at hreply
          rcases hcommands with ⟨hnone, hnext⟩ | ⟨hone, hnext⟩
          · rw [hnone] at hreply
            exact hnext ▸ htickets reply (hreply.resolve_right List.not_mem_nil)
          · rw [hone, List.mem_singleton] at hreply
            rw [hnext]
            rcases hreply with hold | rfl
            · exact Nat.lt_succ_of_lt (htickets reply hold)
            · exact Nat.lt_succ_self _
    | @writer m hm =>
        have hstep := (World.writerStep_iff.mp hm).1
        have hframe := Server.writerStep_frame hstep
        refine ⟨_, hlogged.write m hstep, fun reply hreply => ?_⟩
        rw [(Server.writerStep_noted log hstep).sent] at hreply
        rw [hframe.2.2.2.2.2.2.1]
        exact htickets reply hreply

end Steps

end PlezyRelay
