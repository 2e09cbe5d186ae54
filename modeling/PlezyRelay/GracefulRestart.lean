/-
  PlezyRelay/GracefulRestart.lean
  ===============================
  **What a graceful restart keeps.**

  `flush_and_stop` writes the state file if the writer knows of a change, and answers once
  the writer is done.  If nobody has an unrecorded change when it is called and nobody makes
  one from then on, the file then says of every room what there is to say, as in
  `SnapshotAgreement`; where the process
  has written nothing at all, the file is still the one it was started from, and the rooms
  are as they were then.  So the loader finds an entry for every registered room and accepts
  it, except for its two expiry rules.

  These are where rooms are lost.  The sweep leaves a room alone while somebody is connected
  to it; the loader drops it if the last activity it was saved with is too long ago.  And
  that may be long before the last activity: relaying a message moves `last_activity_at`
  without a note to the writer.
-/
import PlezyRelay.SnapshotAgreement
import PlezyRelay.SnapshotRoundTrip
import PlezyRelay.TerminalDurability

namespace PlezyRelay

open Machine

/-! ### The flush in the history -/

/-- A call of `flush_and_stop`. -/
def Event.flushes : Event → Bool
  | ⟨_, .sendFlush, _⟩ => true
  | _ => false

/-- A call of `flush_and_stop` that waits for the writer on `reply`. -/
def Event.requests (reply : Ticket) : Event → Bool
  | ⟨_, .sendFlush, ticket⟩ => decide (ticket = some reply)
  | _ => false

/-- The last thing that has happened is that `flush_and_stop` has returned `Ok`. -/
def FlushResolved : List Event → Bool
  | ⟨_, .awaitFlush reply, ok⟩ :: h => ok && h.any (Event.requests reply)
  | ⟨_, .sendFlush, ticket⟩ :: _ => ticket.isNone
  | _ => false

variable [TokenCodec]

/-- The action sends the writer no command and makes no debt; and once the writer is gone
    it changes nothing that is saved. -/
def Act.Harmless (a : Act) (e : Env) (s : Server) : Prop :=
  match a with
  | .recordMutation | .sendTerminal | .sendFlush | .newRoom .. => False
  | .room r op => ∀ st ∈ s.heap[r]?,
      op.dirties (op.run (e.readings ⟨s.nextToken⟩) st).2 = false ∧
        (s.writer.phase.isStopped = true → op.slips (e.readings ⟨s.nextToken⟩) st = false)
  | _ => True

instance (a : Act) (e : Env) (s : Server) : Decidable (a.Harmless e s) := by
  induction a using Act.casesOn <;> (dsimp only [Act.Harmless]; infer_instance)

/-- When `flush_and_stop` is called nobody has a change that is not recorded, and all that
    happens from then on is harmless. -/
def QuietShutdown (a : Act) (e : Env) (w : World) : Prop :=
  match a with
  | .sendFlush => w.history.any Event.flushes = false ∧
      ∀ ev ∈ w.history, owes ev.thread w.history = false
  | a => w.history.any Event.flushes = true → a.Harmless e w.server

instance (a : Act) (e : Env) (w : World) : Decidable (QuietShutdown a e w) := by
  induction a using Act.casesOn <;> (dsimp only [QuietShutdown]; infer_instance)

/-- The runs in which every change is recorded and the shutdown is quiet. -/
def Graceful (sys : RelaySys) : RelayLabel → Prop
  | .act t e => Recorded sys (.act t e) ∧
      ∀ a ∈ (sys.threads t).next, QuietShutdown a e sys.shared
  | _ => True

instance (sys : RelaySys) : (l : RelayLabel) → Decidable (Graceful sys l)
  | .act t e => inferInstanceAs (Decidable (Recorded sys (.act t e) ∧
      ∀ a ∈ (sys.threads t).next, QuietShutdown a e sys.shared))
  | .start .. | .ambient _ => inferInstanceAs (Decidable True)

theorem Graceful.recorded {sys : RelaySys} {l : RelayLabel} (h : Graceful sys l) :
    Recorded sys l := by
  cases l with
  | act t e => exact h.1
  | start | ambient => trivial

/-! ### Where the flush is -/

def Command.isFlush : Command → Bool
  | .flushAndStop _ => true
  | _ => false

/-- Only the last command of the channel may stop the writer; `flush` is the ticket it has to
    answer if it does. -/
inductive StopsAt (flush : Option Ticket) : List Command → Prop where
  | never (h : flush = none) : StopsAt flush []
  | last (reply : Ticket) (h : flush = some reply) : StopsAt flush [.flushAndStop reply]
  | cons (command : Command) (rest : List Command) (hcommand : command.isFlush = false)
      (hrest : StopsAt flush rest) : StopsAt flush (command :: rest)

/-- The writer has not come to the flush yet. -/
structure Before (flush : Option Ticket) (s : Server) : Prop where
  queue : StopsAt flush s.queue
  after : s.writer.phase.after = .loop
  live : s.writer.phase.isStopped = false

/-- The writer is at its last write, or has found that there is nothing to write. -/
structure Taken (reply : Ticket) (s : Server) : Prop where
  queue : s.queue = []
  after : s.writer.phase.after = .stop reply
  clean : ∀ todo next, s.writer.phase = .resolving true todo next →
    s.writer.dirtySeq ≤ s.writer.durableSeq

/-- Nobody but the flush is to be answered on `reply`, and it has not been. -/
structure Unanswered (reply : Ticket) (s : Server) : Prop where
  queue : .terminal reply ∉ s.queue
  waiters : ∀ waiter ∈ s.writer.waiters, waiter.2 ≠ reply
  answering : ∀ waiter ∈ s.writer.phase.answering, waiter.2 ≠ reply
  replies : s.replies.lookup reply = none

section Stage

variable {flush : Option Ticket} {reply : Ticket} {s s' : Server}

omit [TokenCodec] in
theorem StopsAt.append_flush {queue : List Command} (h : StopsAt none queue) :
    StopsAt (some reply) (queue ++ [.flushAndStop reply]) := by
  induction h with
  | never => exact .last reply rfl
  | last _ h => cases h
  | cons command rest hcommand _ ih => exact .cons command _ hcommand ih

omit [TokenCodec] in
theorem StopsAt.append {queue : List Command} (h : StopsAt none queue) {command : Command}
    (hcommand : command.isFlush = false) : StopsAt none (queue ++ [command]) := by
  induction h with
  | never => exact .cons command [] hcommand (.never rfl)
  | last _ h => cases h
  | cons first rest hfirst _ ih => exact .cons first _ hfirst ih

/-- The writer goes on as before until it takes the flush. -/
theorem Before.writer (h : Before flush s) (hm : WriterMoves s s') :
    Before flush s' ∨ ∃ reply, flush = some reply ∧ Taken reply s' := by
  obtain ⟨hstops, hafter, hlive⟩ := h
  cases hm with
  | mutate rest hphase hqueue =>
      rw [hqueue] at hstops
      cases hstops with
      | cons _ _ _ hrest => exact Or.inl ⟨hrest, hafter, hlive⟩
  | terminal _ rest hphase hqueue =>
      rw [hqueue] at hstops
      cases hstops with
      | cons _ _ _ hrest => exact Or.inl ⟨hrest, rfl, rfl⟩
  | flushDirty reply rest hphase hqueue =>
      rw [hqueue] at hstops
      cases hstops with
      | last _ hflush => exact Or.inr ⟨reply, hflush, rfl, rfl, nofun⟩
      | cons _ _ hcommand _ => cases hcommand
  | flushClean reply rest hphase hqueue hclean =>
      rw [hqueue] at hstops
      cases hstops with
      | last _ hflush => exact Or.inr ⟨reply, hflush, rfl, rfl, fun _ _ _ => hclean⟩
      | cons _ _ hcommand _ => cases hcommand
  | debounce | loop => exact Or.inl ⟨hstops, rfl, rfl⟩
  | collect _ hphase | capture _ _ _ _ _ _ hphase | persist _ _ _ hphase | reply _ _ _ _ hphase
  | keep _ _ _ _ hphase =>
      rw [hphase] at hafter
      exact Or.inl ⟨hstops, hafter, rfl⟩
  | stop _ _ hphase =>
      rw [hphase] at hafter
      cases hafter

/-- Having taken the flush, the writer finishes its write and answers. -/
theorem Taken.writer (h : Taken reply s) (hm : WriterMoves s s') :
    Taken reply s' ∨ s'.writer.phase = .stopped ∧ s'.heap = s.heap ∧ s'.file = s.file ∧
      ∃ ok, s.writer.phase = .resolving ok [] (.stop reply) ∧
        s'.replies.lookup reply = some ok := by
  obtain ⟨hqueue, hafter, hclean⟩ := h
  cases hm with
  | mutate _ hphase | terminal _ _ hphase | flushDirty _ _ hphase | flushClean _ _ hphase
  | debounce hphase | loop _ hphase =>
      rw [hphase] at hafter
      cases hafter
  | collect _ hphase | capture _ _ _ _ _ _ hphase =>
      rw [hphase] at hafter
      exact Or.inl ⟨hqueue, hafter, nofun⟩
  | persist ok _ _ hphase =>
      rw [hphase] at hafter
      refine Or.inl ⟨hqueue, hafter, ?_⟩
      rintro _ _ ⟨⟩
      exact le_rfl
  | reply ok waiter todo next hphase | keep ok waiter todo next hphase =>
      rw [hphase] at hafter
      refine Or.inl ⟨hqueue, hafter, ?_⟩
      rintro _ _ ⟨⟩
      exact hclean _ _ hphase
  | stop ok other hphase =>
      rw [hphase] at hafter
      cases hafter
      exact Or.inr ⟨rfl, rfl, rfl, ok, hphase, AList.lookup_insert _⟩

/-- While the writer is there, nobody else is answered on the ticket of the flush. -/
theorem Unanswered.writer (h : Unanswered reply s) (hm : WriterMoves s s')
    (hlive : s'.writer.phase.isStopped = false) : Unanswered reply s' := by
  constructor
  · intro hmem
    exact h.queue (hm.queue hmem)
  · intro x hx heq
    rcases hm.mem_waiters hx with hold | ⟨hnew, _⟩ | ⟨_, _, _, hphase, _⟩
    · exact h.waiters x hold heq
    · rw [heq] at hnew
      exact h.queue hnew
    · exact h.answering x (by rw [hphase]; exact List.mem_cons_self) heq
  · intro x hx
    rcases hm.mem_answering hx with hold | hwaiter
    · exact h.answering x hold
    · exact h.waiters x hwaiter
  · cases hlookup : s'.replies.lookup reply with
    | none => rfl
    | some ok =>
        rcases hm.lookup_replies hlookup with hold | ⟨x, _, _, hphase, hx⟩ | ⟨_, hstopped⟩
        · cases h.replies.symm.trans hold
        · exact absurd hx (h.answering x (by rw [hphase]; exact List.mem_cons_self))
        · rw [hstopped] at hlive
          cases hlive

omit [TokenCodec] in
theorem Taken.live (h : Taken reply s) : s.writer.phase.isStopped = false := by
  have hafter := h.after
  cases hphase : s.writer.phase with
  | stopped =>
      rw [hphase] at hafter
      cases hafter
  | _ => rfl

theorem Before.act {t : Tid} {a : Act} {e : Env} (h : Before none s) (hm : Moves t e s a s')
    (ha : a ≠ .sendFlush) : Before none s' := by
  obtain ⟨hstops, hafter, hlive⟩ := h
  cases hm with
  | note => exact ⟨hstops.append rfl, hafter, hlive⟩
  | request _ command hcommand =>
      rcases hcommand with ⟨_, rfl⟩ | ⟨rfl, _⟩
      · exact ⟨hstops.append rfl, hafter, hlive⟩
      · exact absurd rfl ha
  | _ => exact ⟨hstops, hafter, hlive⟩

omit [TokenCodec] in
/-- The ticket of a new request is nobody's yet. -/
theorem Unanswered.requested (hwf : WriterWf s) :
    Unanswered s.nextTicket
      { s with
        queue := s.queue ++ [.flushAndStop s.nextTicket]
        nextTicket := s.nextTicket + 1 } := by
  obtain ⟨hqueue, hwaiters, hanswering, _, hreplies⟩ := hwf.nextTicket_fresh
  refine ⟨?_, hwaiters, hanswering, hreplies⟩
  intro hmem
  rcases List.mem_append.mp hmem with hold | hnew
  · exact hqueue _ hold rfl
  · simp at hnew

end Stage

/-! ### What the flush is worth -/

/-- The writer is gone, and what is on disk shows every room as it is. -/
def Flushed (base : List (RoomId × RoomDto)) (s : Server) : Prop :=
  s.writer.phase.isStopped = true ∧ ∀ r, Reflects s (s.file.getD base) r

/-- How far the writer has come with the flush. -/
inductive FlushStage (base : List (RoomId × RoomDto)) (reply : Ticket) (s : Server) : Prop where
  | queued (hbefore : Before (some reply) s) (hunanswered : Unanswered reply s)
  | taken (htaken : Taken reply s) (hunanswered : Unanswered reply s)
  | stopped (ok : Bool) (hstopped : s.writer.phase.isStopped = true)
      (hreply : s.replies.lookup reply = some ok) (hshows : ok = true → Flushed base s)

section Flush

variable {base : List (RoomId × RoomDto)} {reply : Ticket} {w w' : World}

/-- Where the last write has succeeded, or none was needed, there is nothing left to write. -/
theorem Taken.flushed (h : Taken reply w.server) {todo : List (Nat × Ticket)} {next : After}
    (hphase : w.server.writer.phase = .resolving true todo next) (hagreed : Agreed base w)
    (hpaid : ∀ t, owes t w.history = false) (r : RoomId) :
    Reflects w.server (w.server.file.getD base) r := by
  rcases hagreed.followed h.live r with ⟨t, howes⟩ | (⟨_, hmem, _⟩ | hdue) | hshows
  · cases (hpaid t).symm.trans howes
  · rw [h.queue] at hmem
    cases hmem
  · rw [hphase] at hdue
    exact absurd hdue (Nat.not_lt.mpr (h.clean _ _ hphase))
  · rw [Server.latest, hphase] at hshows
    exact hshows

theorem FlushStage.writer {s' : Server} (h : FlushStage base reply w.server)
    (hagreed : Agreed base w) (hpaid : ∀ t, owes t w.history = false)
    (hm : WriterMoves w.server s') : FlushStage base reply s' := by
  cases h with
  | queued hbefore hunanswered =>
      rcases hbefore.writer hm with hbefore | ⟨_, ⟨⟩, htaken⟩
      · exact .queued hbefore (hunanswered.writer hm hbefore.live)
      · exact .taken htaken (hunanswered.writer hm htaken.live)
  | taken htaken hunanswered =>
      rcases htaken.writer hm with htaken | ⟨hphase, hheap, hfile, ok, hresolving, hreply⟩
      · exact .taken htaken (hunanswered.writer hm htaken.live)
      · have hstopped : s'.writer.phase.isStopped = true := by
          rw [hphase]
          rfl
        refine .stopped ok hstopped hreply ?_
        rintro rfl
        refine ⟨hstopped, fun r c => ?_⟩
        rw [hfile, imageOf, hheap]
        exact htaken.flushed hresolving hagreed hpaid r c
  | stopped _ hstopped => cases hm.live.symm.trans hstopped

/-- A wait for the flush that returns `Ok`. -/
theorem awaitFlush_ok {t : Tid} {e : Env} {s s' : Server}
    (h : s.exec t (.awaitFlush reply) e = some (true, s')) :
    s.replies.lookup reply = some true ∨
      s.replies.lookup reply = none ∧ s.writer.phase.isStopped = true := by
  simp only [Server.exec] at h
  split at h
  · cases h
  · split at h
    · rename_i hreply
      cases h
      exact Or.inl hreply
    · rename_i hnone
      split at h
      · exact Or.inr ⟨hnone, ‹_›⟩
      · cases h

omit [TokenCodec] in
theorem flushes_iff {t : Tid} {a : Act} {x : a.Resp} :
    Event.flushes ⟨t, a, x⟩ = true ↔ a = .sendFlush := by
  cases a <;> simp [Event.flushes]

omit [TokenCodec] in
theorem flushes_of_requests {ev : Event} (h : ev.requests reply = true) : ev.flushes = true := by
  obtain ⟨t, a, x⟩ := ev
  cases a with
  | sendFlush => rfl
  | _ => cases h

omit [TokenCodec] in
theorem requests_inj {ev : Event} {reply' : Ticket} (h : ev.requests reply = true)
    (h' : ev.requests reply' = true) : reply = reply' := by
  obtain ⟨t, a, x⟩ := ev
  cases a with
  | sendFlush => exact Option.some.inj ((of_decide_eq_true h).symm.trans (of_decide_eq_true h'))
  | _ => cases h

/-- The flush has been called, and nobody has a change that is not recorded. -/
structure Flushing (base : List (RoomId × RoomDto)) (reply : Ticket) (w : World) : Prop where
  called : w.history.any Event.flushes = true
  requested : ∀ ev ∈ w.history, ev.flushes = true → ev.requests reply = true
  paid : ∀ t, owes t w.history = false
  stage : FlushStage base reply w.server
  resolved : FlushResolved w.history = true → Flushed base w.server

/-- A world is before the flush or in it. -/
inductive Shutdown (base : List (RoomId × RoomDto)) (w : World) : Prop where
  | running (hnone : w.history.any Event.flushes = false) (hbefore : Before none w.server)
  | flushing (reply : Ticket) (hflushing : Flushing base reply w)

theorem FlushStage.flushed {s : Server} (h : FlushStage base reply s)
    (hok : s.replies.lookup reply = some true ∨
      s.replies.lookup reply = none ∧ s.writer.phase.isStopped = true) : Flushed base s := by
  have hunstopped : s.writer.phase.isStopped = false → Unanswered reply s → Flushed base s := by
    intro hlive hunanswered
    rcases hok with hok | ⟨_, hstopped⟩
    · cases hunanswered.replies.symm.trans hok
    · cases hlive.symm.trans hstopped
  cases h with
  | queued hbefore hunanswered => exact hunstopped hbefore.live hunanswered
  | taken htaken hunanswered => exact hunstopped htaken.live hunanswered
  | stopped ok _ hreply hshows =>
      rcases hok with hok | ⟨hnone, _⟩
      · exact hshows (Option.some.inj (hreply.symm.trans hok))
      · cases hnone.symm.trans hreply

omit [TokenCodec] in
/-- A task that has done nothing owes nothing. -/
theorem owes_of_absent {t : Tid} {h : List Event} (habsent : ∀ ev ∈ h, ev.thread ≠ t) :
    owes t h = false := by
  induction h with
  | nil => rfl
  | cons ev h ih =>
      rw [owes, if_neg (habsent ev List.mem_cons_self)]
      exact ih fun ev hev => habsent ev (List.mem_cons_of_mem _ hev)

/-- The call of the flush. -/
theorem Flushing.start {t : Tid} {e : Env} {x : Option Ticket}
    (hnone : w.history.any Event.flushes = false)
    (hbefore : Before none w.server) (hwf : WriterWf w.server)
    (hpaid : ∀ ev ∈ w.history, owes ev.thread w.history = false)
    (hx : Did t .sendFlush e w x w') : ∃ reply, Flushing base reply w' := by
  obtain ⟨s', hs, rfl⟩ := World.did_iff.mp hx
  simp only [Server.exec, Server.sendRequest, hbefore.live, Bool.false_eq_true, if_false,
    Option.some.injEq, Prod.mk.injEq] at hs
  obtain ⟨rfl, rfl⟩ := hs
  refine ⟨w.server.nextTicket, rfl, ?_, ?_, ?_, ?_⟩
  · intro ev hev hflushes
    rcases List.mem_cons.mp hev with rfl | hev
    · exact decide_eq_true rfl
    · rw [List.any_eq_false] at hnone
      exact absurd hflushes (hnone ev hev)
  · intro u
    rw [owes_cons_neutral rfl rfl]
    by_cases hu : ∃ ev ∈ w.history, ev.thread = u
    · obtain ⟨ev, hev, rfl⟩ := hu
      exact hpaid ev hev
    · exact owes_of_absent fun ev hev heq => hu ⟨ev, hev, heq⟩
  · exact .queued ⟨hbefore.queue.append_flush, hbefore.after, hbefore.live⟩
      (Unanswered.requested hwf)
  · intro hresolved
    cases hresolved

section Harmless

variable {t : Tid} {a : Act} {e : Env} {x : a.Resp}

theorem QuietShutdown.harmless (h : QuietShutdown a e w)
    (hcalled : w.history.any Event.flushes = true) : a.Harmless e w.server := by
  cases a with
  | sendFlush => cases h.1.symm.trans hcalled
  | _ => exact h hcalled

theorem Act.Harmless.clean (h : a.Harmless e w.server) (hx : Did t a e w x w') :
    Event.records ⟨t, a, x⟩ = false ∧ Event.dirties ⟨t, a, x⟩ = false := by
  cases a with
  | recordMutation | sendTerminal | newRoom => exact h.elim
  | room r op =>
      obtain ⟨st, hst, hrun, _⟩ := World.did_room hx
      have hdirties := (h st hst).1
      rw [hrun] at hdirties
      exact ⟨rfl, hdirties⟩
  | _ => exact ⟨rfl, rfl⟩

/-- What is harmless does not touch the channel of the writer. -/
theorem Act.Harmless.queue {s s' : Server} (h : a.Harmless e s) (hm : Moves t e s a s') :
    s'.queue = s.queue := by
  cases hm with
  | note => exact h.elim
  | request _ _ ha =>
      rcases ha with ⟨rfl, _⟩ | ⟨rfl, _⟩
      · exact h.elim
      · exact h.elim
  | _ => rfl

/-- Once the writer is gone, what is harmless leaves what is saved as it is. -/
theorem Act.Harmless.imageOf (h : a.Harmless e w.server) (hlegal : Legal t a w)
    (hx : Did t a e w x w') (hstopped : w.server.writer.phase.isStopped = true) (r : RoomId) :
    imageOf w'.server r = imageOf w.server r := by
  rcases imageOf_did hx (h.clean hx).2 hlegal r with himage | ⟨op, rfl, st, hst, hslips⟩
  · exact himage
  · cases ((h st hst).2 hstopped).symm.trans hslips

theorem FlushStage.act (h : FlushStage base reply w.server) (hharmless : a.Harmless e w.server)
    (hlegal : Legal t a w) (hx : Did t a e w x w') : FlushStage base reply w'.server := by
  have hmoves := World.did_moves hx
  obtain ⟨hwriter, hreplies, hfile⟩ := hmoves.writer
  have hqueue := hharmless.queue hmoves
  have hunanswered : Unanswered reply w.server → Unanswered reply w'.server := by
    rintro ⟨hq, hw, ha, hr⟩
    constructor
    · rwa [hqueue]
    · rwa [hwriter]
    · rwa [hwriter]
    · rwa [hreplies]
  cases h with
  | queued hbefore h =>
      obtain ⟨hstops, hafter, hlive⟩ := hbefore
      refine .queued ⟨?_, ?_, ?_⟩ (hunanswered h)
      · rwa [hqueue]
      · rwa [hwriter]
      · rwa [hwriter]
  | taken htaken h =>
      obtain ⟨hempty, hafter, hclean⟩ := htaken
      refine .taken ⟨?_, ?_, ?_⟩ (hunanswered h)
      · rwa [hqueue]
      · rwa [hwriter]
      · rwa [hwriter]
  | stopped ok hstopped hreply hshows =>
      have hstopped' : w'.server.writer.phase.isStopped = true := by rwa [hwriter]
      refine .stopped ok hstopped' (by rwa [hreplies]) fun hok => ⟨hstopped', fun r c => ?_⟩
      rw [hfile, hharmless.imageOf hlegal hx hstopped]
      exact (hshows hok).2 r c

/-- A wait for the flush that returns `Ok` comes after the last write. -/
theorem Flushing.returned {ticket : Ticket} {ok : Bool} (h : Flushing base reply w)
    (hx : Did t (.awaitFlush ticket) e w ok w') (hresolved : FlushResolved w'.history = true) :
    Flushed base w'.server := by
  obtain ⟨s', hs, rfl⟩ := World.did_iff.mp hx
  obtain rfl : s' = w.server := by
    cases Server.exec_moves hs with
    | same => rfl
    | removeCurrent _ _ _ hact | request _ _ hact => simp at hact
  simp only [FlushResolved, Bool.and_eq_true, List.any_eq_true] at hresolved
  obtain ⟨rfl, ev, hev, hrequests⟩ := hresolved
  obtain rfl := requests_inj hrequests (h.requested ev hev (flushes_of_requests hrequests))
  exact h.stage.flushed (awaitFlush_ok hs)

theorem Flushing.did (h : Flushing base reply w) (hharmless : a.Harmless e w.server)
    (hlegal : Legal t a w) (hx : Did t a e w x w') : Flushing base reply w' := by
  have hhistory := World.did_history hx
  obtain ⟨hrecords, hdirties⟩ := hharmless.clean hx
  refine ⟨?_, ?_, ?_, h.stage.act hharmless hlegal hx, ?_⟩
  · rw [hhistory, List.any_cons, h.called, Bool.or_true]
  · intro ev hev hflushes
    rw [hhistory] at hev
    rcases List.mem_cons.mp hev with rfl | hev
    · rw [flushes_iff.mp hflushes] at hharmless
      exact hharmless.elim
    · exact h.requested ev hev hflushes
  · intro u
    rw [hhistory, owes_cons_neutral hrecords hdirties]
    exact h.paid u
  · intro hresolved
    cases a with
    | awaitFlush ticket => exact h.returned hx hresolved
    | sendFlush => exact hharmless.elim
    | _ =>
        rw [hhistory] at hresolved
        cases hresolved

theorem Shutdown.did (h : Shutdown base w) (hwf : WriterWf w.server) (hlegal : Legal t a w)
    (hquiet : QuietShutdown a e w) (hx : Did t a e w x w') : Shutdown base w' := by
  cases h with
  | running hnone hbefore =>
      by_cases ha : a = .sendFlush
      · subst ha
        obtain ⟨reply, hflushing⟩ := Flushing.start hnone hbefore hwf hquiet.2 hx
        exact .flushing reply hflushing
      · refine .running ?_ (hbefore.act (World.did_moves hx) ha)
        rw [World.did_history hx, List.any_cons, hnone, Bool.or_false]
        exact Bool.eq_false_iff.mpr fun hflushes => ha (flushes_iff.mp hflushes)
  | flushing reply hflushing =>
      exact .flushing reply (hflushing.did (hquiet.harmless hflushing.called) hlegal hx)

end Harmless

theorem Shutdown.writer {m : WriterStep} (h : Shutdown base w) (hagreed : Agreed base w)
    (hm : w.writerStep m = some w') : Shutdown base w' := by
  obtain ⟨hs, hh⟩ := World.writerStep_iff.mp hm
  have hmoves := Server.writerStep_moves hs
  cases h with
  | running hnone hbefore =>
      rcases hbefore.writer hmoves with hbefore | ⟨_, ⟨⟩, _⟩
      exact .running (by rw [hh]; exact hnone) hbefore
  | flushing reply hflushing =>
      obtain ⟨hcalled, hrequested, hpaid, hstage, hresolved⟩ := hflushing
      refine .flushing reply ⟨?_, ?_, ?_, hstage.writer hagreed hpaid hmoves, ?_⟩
      · rwa [hh]
      · rwa [hh]
      · rwa [hh]
      · rw [hh]
        -- once the flush has returned the writer is gone
        exact fun hflush => by cases hmoves.live.symm.trans (hresolved hflush).1

end Flush

theorem relay_shutdown {restored : List RestoredRoom} {sys : RelaySys}
    (hstart : Startup (initially restored))
    (h : relay.Reachable (· = initially restored) Graceful sys) :
    Shutdown (baseline restored) sys.shared := by
  induction h with
  | init h =>
      rw [h]
      obtain ⟨heap, rooms, quota, hrestore⟩ := Server.restore_frame {} restored
      refine .running rfl ?_
      simp only [initially, hrestore]
      exact ⟨.never rfl, rfl, rfl⟩
  | step hreach hc hstep ih =>
      have hrecorded : relay.Reachable (· = initially restored) Recorded _ :=
        hreach.mono fun _ _ h => h.recorded
      rcases relay.step_cases hstep with ⟨t, q, loc, p, rfl, _, _, rfl⟩ |
        ⟨t, e, a, k, x, s, rfl, ht, hx, rfl⟩ | ⟨m, s, rfl, hm, rfl⟩
      · exact ih
      · have hstarted := hreach.of_init hstart
        exact ih.did (relay_writerWf hstarted) (relay_legal hstarted ht)
          (hc.2 a (by rw [ht]; rfl)) hx
      · exact ih.writer (initially_agreed hstart hrecorded) hm

/-- Once the flush has returned `Ok`, what is on disk shows every room as it is. -/
theorem relay_flushed {restored : List RestoredRoom} {sys : RelaySys}
    (hstart : Startup (initially restored))
    (h : relay.Reachable (· = initially restored) Graceful sys)
    (hflush : FlushResolved sys.shared.history = true) :
    Flushed (baseline restored) sys.shared.server := by
  cases relay_shutdown hstart h with
  | running hnone _ =>
      -- a flush that has returned has been called
      exfalso
      rw [List.any_eq_false] at hnone
      cases hhistory : sys.shared.history with
      | nil =>
          rw [hhistory] at hflush
          cases hflush
      | cons ev rest =>
          rw [hhistory] at hflush hnone
          obtain ⟨t, a, x⟩ := ev
          cases a with
          | awaitFlush ticket =>
              simp only [FlushResolved, Bool.and_eq_true, List.any_eq_true] at hflush
              obtain ⟨_, ev, hev, hrequests⟩ := hflush
              exact hnone ev (List.mem_cons_of_mem _ hev) (flushes_of_requests hrequests)
          | sendFlush => exact hnone _ List.mem_cons_self rfl
          | _ => cases hflush
  | flushing reply hflushing => exact hflushing.resolved hflush

/-! ### The times in the entries -/

/-- The entries of the file and of the write in progress. -/
def Server.written (s : Server) : List (RoomId × RoomDto) :=
  s.file.getD [] ++ s.writer.phase.draft

/-- The entry is of the current version and has the time its room was created. -/
def Dated (w : World) (entry : RoomId × RoomDto) : Prop :=
  supportedProtocolVersion entry.2.protocolVersion = true ∧
    ∃ st, w.server.heap[entry.1]? = some st ∧ entry.2.createdAtMillis = toMillis st.createdAt

section Written

variable {w w' : World}

theorem Dated.next {entry : RoomId × RoomDto} (h : Dated w entry) (hnext : World.Next w w') :
    Dated w' entry := by
  obtain ⟨hversion, st, hst, hmillis⟩ := h
  obtain ⟨st', hst', hcreated⟩ := hnext.createdAt hst
  exact ⟨hversion, st', hst', by rw [hcreated]; exact hmillis⟩

/-- The writer has only entries it has captured. -/
theorem WriterMoves.written {s s' : Server} (hm : WriterMoves s s') {entry : RoomId × RoomDto}
    (h : entry ∈ s'.written) :
    entry ∈ s.written ∨
      ∃ clock r st, s.heap[r]? = some st ∧ entry ∈ Server.captured clock r st := by
  have hfile : entry ∈ s.file.getD [] → entry ∈ s.written := List.mem_append_left _
  have hdraft : entry ∈ s.writer.phase.draft → entry ∈ s.written := List.mem_append_right _
  rcases List.mem_append.mp h with h | h
  · left
    cases hm with
    | persist ok dtos next hphase =>
        cases ok with
        | false => exact hfile h
        | true =>
            apply hdraft
            rw [hphase]
            exact h
    | _ => exact hfile h
  · cases hm with
    | mutate => exact Or.inl (hdraft h)
    | capture clock r todo dtos next st hphase hst =>
        rcases List.mem_append.mp h with h | h
        · left
          apply hdraft
          rw [hphase]
          exact h
        · exact Or.inr ⟨clock, r, st, hst, h⟩
    | _ => cases h

end Written

theorem relay_dated {C : RelaySys → RelayLabel → Prop} {sys : RelaySys} (h : Reaches C sys) :
    ∀ entry ∈ sys.shared.server.written, Dated sys.shared entry := by
  apply relay_invariant (P := fun w => ∀ entry ∈ w.server.written, Dated w entry) h
  · intro sys hsys
    obtain ⟨_, _, _, hshared⟩ := hsys.shared_eq
    rw [hshared]
    exact nofun
  · intro sys w' _ ih hnext entry hentry
    refine Dated.next ?_ hnext
    cases hnext with
    | act hx =>
        obtain ⟨hwriter, _, hfile⟩ := (World.did_moves hx).writer
        rw [Server.written, hwriter, hfile] at hentry
        exact ih entry hentry
    | writer hm =>
        have hmoves := Server.writerStep_moves (World.writerStep_iff.mp hm).1
        rcases hmoves.written hentry with hold | ⟨clock, r, st, hst, hnew⟩
        · exact ih entry hold
        · obtain ⟨_, rfl⟩ := Server.mem_captured.mp hnew
          exact ⟨rfl, st, hst, rfl⟩

/-! ### Rooms that are the same but for their times -/

/-- The two rooms agree on everything that is saved, times aside. -/
structure SameRoom (st restored : RoomState) : Prop where
  sessionId : restored.sessionId = st.sessionId
  hostPeerId : restored.hostPeerId = st.hostPeerId
  hostVerifier : restored.hostVerifier = st.hostVerifier
  reservations : ∀ p v, (∃ res, restored.Saves p res ∧ res.verifier = v) ↔
    ∃ res, st.Saves p res ∧ res.verifier = v

/-- The room has what the entry says. -/
structure Carries (c : RoomCore) (st : RoomState) : Prop where
  sessionId : st.sessionId = c.sessionId
  hostPeerId : st.hostPeerId = c.hostPeerId
  hostVerifier : Verifier.fromEncoded c.hostVerifier = some st.hostVerifier
  reservations : ∀ p v, (∃ res, st.Saves p res ∧ res.verifier = v) ↔
    ∃ encoded, c.reservations p = some encoded ∧ Verifier.fromEncoded encoded = some v

section Same

variable {st st' st'' : RoomState} {c : RoomCore}

omit [TokenCodec] in
theorem SameRoom.trans (h : SameRoom st st') (h' : SameRoom st' st'') : SameRoom st st'' where
  sessionId := h'.sessionId.trans h.sessionId
  hostPeerId := h'.hostPeerId.trans h.hostPeerId
  hostVerifier := h'.hostVerifier.trans h.hostVerifier
  reservations p v := (h'.reservations p v).trans (h.reservations p v)

theorem Carries.same (h : Carries c st) (h' : Carries c st') : SameRoom st st' where
  sessionId := h'.sessionId.trans h.sessionId.symm
  hostPeerId := h'.hostPeerId.trans h.hostPeerId.symm
  hostVerifier := Option.some.inj (h'.hostVerifier.symm.trans h.hostVerifier)
  reservations p v := (h'.reservations p v).trans (h.reservations p v).symm

/-- A room has what is saved of it. -/
theorem Decodes.carries (h : Decodes st) (hsaved : st.saved = some c) : Carries c st := by
  have ⟨_, hcore⟩ := (saved_eq_some fun _ => (0, 0)).mp hsaved
  refine ⟨congrArg RoomCore.sessionId hcore, congrArg RoomCore.hostPeerId hcore, ?_, ?_⟩
  · rw [← congrArg RoomCore.hostVerifier hcore]
    exact h.host
  · intro p v
    constructor
    · rintro ⟨res, hres, rfl⟩
      exact ⟨_, (saved_reservations hsaved).mpr ⟨res, hres, rfl⟩, h.reserved hres⟩
    · rintro ⟨_, hencoded, hv⟩
      obtain ⟨res, hres, rfl⟩ := (saved_reservations hsaved).mp hencoded
      exact ⟨res, hres, Option.some.inj ((h.reserved hres).symm.trans hv)⟩

/-- A room taken back has what its entry says. -/
theorem RoomDto.LoadsAs.carries {dto : RoomDto} {room : RestoredRoom} {now : SystemTime}
    {clock : String → String → Instant × Instant} (h : dto.LoadsAs now clock room) :
    Carries dto.core room.state := by
  refine ⟨h.sessionId, h.hostPeerId, h.hostVerifier, ?_⟩
  intro p v
  have hlookup : room.state.reservations.lookup p =
      ((dto.reservations.lookup p).bind (ReservationDto.load now (clock dto.sessionId p))).map
        fun r => { verifier := r.verifier, absentSince := r.absentSince, releasePending := false } := by
    rw [← h.reservations p]
    exact AList.lookup_mapValues ..
  simp only [RoomState.Saves, hlookup, RoomDto.core]
  cases dto.reservations.lookup p with
  | none => simp
  | some r =>
      simp only [Option.bind_some, ReservationDto.load, Option.map_map, Option.map_some]
      cases hverifier : Verifier.fromEncoded r.verifier <;> simp [hverifier]

end Same

/-! ### The restart -/

/-- What is on disk: the last file this process has written, or the one it was started
    from. -/
def Server.stateFile (s : Server) (file₀ : Option StateSnapshotDto) : Option StateSnapshotDto :=
  match s.file with
  | none => file₀
  | some dtos => some { version := SNAPSHOT_FORMAT_VERSION, rooms := dtos.map (·.2) }

/-- The session's last activity, as the file has it, is not too long ago. -/
def SavedActive (now : SystemTime) (file : Option StateSnapshotDto) (sid : String) : Prop :=
  ∀ saved ∈ file, ∀ dto ∈ saved.rooms, dto.sessionId = sid →
    now.durationSince (fromMillis dto.lastActivityAtMillis) ≤ EMPTY_ROOM_MAX_AGE

instance (now : SystemTime) (file : Option StateSnapshotDto) (sid : String) :
    Decidable (SavedActive now file sid) := by
  unfold SavedActive
  infer_instance

/-- The room is taken back, with its creation time as it was or in whole milliseconds. -/
def Survives (restored : List RestoredRoom) (st : RoomState) : Prop :=
  ∃ room ∈ restored, SameRoom st room.state ∧
    (room.createdAt = st.createdAt ∨ room.createdAt = SystemTime.truncated st.createdAt)

section Restart

variable {file₀ : Option StateSnapshotDto} {now₀ now : SystemTime}
  {clock₀ clock : String → String → Instant × Instant} {sys : RelaySys} {st : RoomState}

omit [TokenCodec] in
theorem durationSince_mono {earlier : SystemTime} (h : now₀ ≤ now) :
    now₀.durationSince earlier ≤ now.durationSince earlier :=
  Int.toNat_le_toNat (Int.sub_le_sub_right h earlier)

/-- What the checks turn down once they turn down later. -/
theorem checkRoomDto_later {dto : RoomDto} (h : checkRoomDto now₀ dto = none) (hnow : now₀ ≤ now) :
    checkRoomDto now dto = none := by
  rw [Option.eq_none_iff_forall_ne_some] at h ⊢
  intro v hv
  obtain ⟨hids, hversion, hverifier, hage, hidle⟩ := checkRoomDto_eq_some.mp hv
  exact h v (checkRoomDto_eq_some.mpr ⟨hids, hversion, hverifier,
    Nat.le_trans (durationSince_mono hnow) hage, Nat.le_trans (durationSince_mono hnow) hidle⟩)

/-- A room is taken back again from the file it was taken back from before. -/
theorem mem_loadSnapshot_again {room₀ : RestoredRoom} (h : room₀ ∈ loadSnapshot file₀ now₀ clock₀)
    (hnow : now₀ ≤ now) (hage : now.durationSince room₀.createdAt ≤ ROOM_MAX_AGE)
    (hactive : SavedActive now file₀ room₀.sessionId) :
    ∃ room ∈ loadSnapshot file₀ now clock, SameRoom room₀.state room.state ∧
      room.createdAt = room₀.createdAt := by
  obtain ⟨saved, hfile, hversion, earlier, dto, later, hrooms, hload, hfailed⟩ :=
    mem_loadSnapshot.mp h
  obtain ⟨hloadable, _, hloads⟩ := RoomDto.load_spec hload
  have hidle : now.durationSince (fromMillis dto.lastActivityAtMillis) ≤ EMPTY_ROOM_MAX_AGE :=
    hactive saved hfile dto (by simp [hrooms]) hloads.sessionId.symm
  rw [hloads.createdAt] at hage
  obtain ⟨room, hroom⟩ : ∃ room, dto.load now clock = some room :=
    hloadable.load_total ⟨hage, hidle⟩
  obtain ⟨_, _, hloads'⟩ := RoomDto.load_spec hroom
  refine ⟨room, ?_, hloads.carries.same hloads'.carries,
    hloads'.createdAt.trans hloads.createdAt.symm⟩
  exact mem_loadSnapshot.mpr ⟨saved, hfile, hversion, earlier, dto, later, hrooms, hroom,
    fun d hd hsid => checkRoomDto_later (hfailed d hd hsid) hnow⟩

/-- Where the process has written a file, a live room is taken back from its entry there. -/
theorem survives_written (h : Reaches Recorded sys) {dtos : List (RoomId × RoomDto)}
    (hshows : ∀ r, Reflects sys.shared.server dtos r) (hfile : sys.shared.server.file = some dtos)
    (hlive : Live sys.shared.server st) (hdecodes : Decodes st)
    (hage : now.durationSince (SystemTime.truncated st.createdAt) ≤ ROOM_MAX_AGE)
    (hactive : SavedActive now (sys.shared.server.stateFile file₀) st.sessionId) :
    Survives (loadSnapshot (sys.shared.server.stateFile file₀) now clock) st := by
  obtain ⟨hb, _⟩ := relay_base h
  obtain ⟨_, r, _, hst, hopen⟩ := hlive
  obtain ⟨hsession, hids⟩ := relay_checked h r st hst
  have himage : imageOf sys.shared.server r = some (buildRoomDto (fun _ => (0, 0)) st).core := by
    rw [imageOf, hst]
    exact saved_eq _ hopen
  -- all entries of the session are of this room and say the same
  have hentry : ∀ dto ∈ dtos.map (·.2), dto.sessionId = st.sessionId →
      st.saved = some dto.core ∧ dto.createdAtMillis = toMillis st.createdAt ∧ dto.Loadable := by
    intro dto hdto hsid
    obtain ⟨⟨r', dto⟩, hmem, rfl⟩ := List.mem_map.mp hdto
    have himage' := (hshows r' _).mp ⟨dto, hmem, rfl⟩
    have hlookup := lookup_of_imageOf hb himage'
    change sys.shared.server.rooms.lookup dto.sessionId = some r' at hlookup
    rw [hsid, hb.open_registered hst hopen] at hlookup
    obtain rfl := Option.some.inj hlookup
    have hsaved : st.saved = some dto.core := by
      rw [imageOf, hst] at himage'
      exact himage'
    obtain ⟨hversion, st', hst', hmillis⟩ := relay_dated h (r, dto) (by
      rw [Server.written, hfile]
      exact List.mem_append_left _ hmem)
    obtain rfl := Option.some.inj (hst.symm.trans hst')
    exact ⟨hsaved, hmillis, loadable_of_saved hsaved hversion hsession hids
      (hb.wf hst).host_unreserved hdecodes⟩
  rw [Server.stateFile, hfile] at hactive ⊢
  obtain ⟨d, hmem, hcore⟩ := (hshows r _).mpr himage
  have hsome : ∃ dto ∈ dtos.map (·.2), dto.sessionId = st.sessionId :=
    ⟨d, List.mem_map.mpr ⟨(r, d), hmem, rfl⟩, congrArg RoomCore.sessionId hcore⟩
  obtain ⟨dto, hdto, hsid, room, hroom, hload⟩ :
      ∃ dto ∈ dtos.map (·.2), dto.sessionId = st.sessionId ∧
        ∃ room ∈ loadRooms now clock [] (dtos.map (·.2)), dto.load now clock = some room := by
    refine exists_mem_loadRooms hsome fun dto hdto hsid => ?_
    obtain ⟨_, hmillis, hloadable⟩ := hentry dto hdto hsid
    refine hloadable.load_total ⟨?_, hactive _ rfl dto hdto hsid⟩
    rw [hmillis]
    exact hage
  obtain ⟨hsaved, hmillis, _⟩ := hentry dto hdto hsid
  obtain ⟨_, _, hloads⟩ := RoomDto.load_spec hload
  refine ⟨room, hroom, (hdecodes.carries hsaved).same hloads.carries, Or.inr ?_⟩
  rw [hloads.createdAt, hmillis]
  rfl

/-- Where it has written nothing, the room was there at startup, and is taken back again. -/
theorem survives_unwritten
    (h : relay.Reachable (· = initially (loadSnapshot file₀ now₀ clock₀)) Recorded sys)
    (hshows : ∀ r, Reflects sys.shared.server (baseline (loadSnapshot file₀ now₀ clock₀)) r)
    (hfile : sys.shared.server.file = none) (hlive : Live sys.shared.server st)
    (hdecodes : Decodes st)
    (hdecodes₀ : ∀ room ∈ loadSnapshot file₀ now₀ clock₀, Decodes room.state)
    (hnow : now₀ ≤ now) (hage : st.age now ≤ ROOM_MAX_AGE)
    (hactive : SavedActive now (sys.shared.server.stateFile file₀) st.sessionId) :
    Survives (loadSnapshot (sys.shared.server.stateFile file₀) now clock) st := by
  obtain ⟨_, r, _, hst, hopen⟩ := hlive
  have himage : imageOf sys.shared.server r = some (buildRoomDto (fun _ => (0, 0)) st).core := by
    rw [imageOf, hst]
    exact saved_eq _ hopen
  obtain ⟨d, hmem, hcore⟩ := (hshows r _).mpr himage
  obtain ⟨_, st₀, hst₀, hopen₀, rfl⟩ := Server.mem_buildSnapshot.mp hmem
  obtain ⟨st', hst', hcreated⟩ := relay_createdAt h hst₀
  obtain rfl := Option.some.inj (hst.symm.trans hst')
  rw [Server.restore_heap, List.nil_append] at hst₀
  obtain ⟨room₀, hroom₀, rfl⟩ := List.mem_map.mp (List.mem_of_getElem? hst₀)
  have hsame : SameRoom st room₀.state := by
    have hsaved₀ := saved_eq (fun _ => (0, 0)) hopen₀
    rw [hcore] at hsaved₀
    exact (hdecodes.carries (saved_eq _ hopen)).same ((hdecodes₀ room₀ hroom₀).carries hsaved₀)
  rw [Server.stateFile, hfile] at hactive ⊢
  rw [← hsame.sessionId] at hactive
  rw [RoomState.age, hcreated] at hage
  obtain ⟨room, hroom, hsame', hcreated'⟩ :
      ∃ room ∈ loadSnapshot file₀ now clock, SameRoom room₀.state room.state ∧
        room.createdAt = room₀.createdAt := mem_loadSnapshot_again hroom₀ hnow hage hactive
  exact ⟨room, hroom, hsame.trans hsame', Or.inl (hcreated'.trans hcreated.symm)⟩

/-- The restored registry has a room taken back under its session id. -/
theorem registered_of_loaded {file : Option StateSnapshotDto} {room : RestoredRoom}
    (h : room ∈ loadSnapshot file now clock) :
    ∃ r, (Server.restore {} (loadSnapshot file now clock)).rooms.lookup room.sessionId = some r ∧
      (Server.restore {} (loadSnapshot file now clock)).heap[r]? = some room.state := by
  have hb : Base (initially (loadSnapshot file now clock)).shared :=
    Base.startup ⟨file, now, clock, rfl⟩
  obtain ⟨r, hr⟩ := List.getElem?_of_mem (List.mem_map_of_mem (f := (·.state)) h)
  have hheap : (Server.restore {} (loadSnapshot file now clock)).heap[r]? = some room.state := by
    rw [Server.restore_heap]
    exact hr
  exact ⟨r, hb.open_registered hheap rfl, hheap⟩

end Restart

/-- The main task shuts down while the writer takes these steps. -/
def shutsDown (steps : List WriterStep) : List RelayLabel :=
  .start .main .shutdown :: acts .main 1 ++ writes steps ++ acts .main 1

/-- After a flush that has returned `Ok` the room of a session is live and a sweep at `now`
    would keep it, but a server restarted at `now` does not have it. -/
def LostByRestart (now : SystemTime) (sid : String) (sys : RelaySys) : Prop :=
  FlushResolved sys.shared.history = true ∧
  (∃ r ∈ sys.shared.server.rooms.lookup sid, ∃ st ∈ sys.shared.server.heap[r]?,
    st.closing = false ∧ st.KeptBySweep now ∧
    now.durationSince (SystemTime.truncated st.createdAt) ≤ ROOM_MAX_AGE) ∧
  (Server.restore {} (loadSnapshot (sys.shared.server.stateFile none) now
    fun _ _ => (0, 0))).rooms.lookup sid = none

instance (now : SystemTime) (sid : String) (sys : RelaySys) :
    Decidable (LostByRestart now sid sys) :=
  inferInstanceAs (Decidable (_ ∧ _ ∧ _))

end PlezyRelay
