/-
  PlezyRelay/SnapshotWriter.lean
  ==============================
  **What a reply of the snapshot writer is worth.**

  A task that requests a terminal write gets a ticket; the writer takes the request
  from its channel, builds the entries room by room, replaces the file or fails, and
  answers everyone who has been waiting.  `WriterWf` is what makes the answers mean
  something: a ticket is fresh when it is handed out, nobody waits while the writer
  idles, and after a successful write everyone it answers was registered before the
  sequence number that has become durable.

  `Awaits Bad ticket` is the contract of one request: if what the writer captures from
  the moment of the request on is never `Bad`, then a positive answer means that the
  file has no `Bad` entry, nor has the write in progress.
-/
import PlezyRelay.ServerFrame

namespace PlezyRelay

/-! ### Where the writer is -/

/-- The reply channel a command carries. -/
def Command.reply : Command → Option Ticket
  | .mutate => none
  | .terminal reply | .flushAndStop reply => some reply

/-- The commands that `dirty_seq` counts. -/
def Command.dirties : Command → Bool
  | .mutate | .terminal _ => true
  | .flushAndStop _ => false

def After.tickets : After → List Ticket
  | .loop => []
  | .stop reply => [reply]

namespace Phase

/-- The entries built so far. -/
def draft : Phase → List (RoomId × RoomDto)
  | .building _ dtos _ => dtos
  | _ => []

/-- The waiters that are being answered. -/
def answering : Phase → List (Nat × Ticket)
  | .resolving _ todo _ => todo
  | _ => []

/-- What comes after the write in progress. -/
def after : Phase → After
  | .collecting next | .building _ _ next | .resolving _ _ next => next
  | .idle | .stopped => .loop

/-- A write is under way. -/
def writing : Phase → Bool
  | .collecting _ | .building .. => true
  | _ => false

end Phase

/-- Every ticket between the channel and the replies. -/
def Server.tickets (s : Server) : List Ticket :=
  s.queue.filterMap Command.reply ++ s.writer.waiters.map (·.2) ++
    s.writer.phase.answering.map (·.2) ++ s.writer.phase.after.tickets ++ s.replies.keys

structure WriterWf (s : Server) : Prop where
  tickets_lt : ∀ reply ∈ s.tickets, reply < s.nextTicket
  waiters_le : ∀ x ∈ s.writer.waiters, x.1 ≤ s.writer.dirtySeq
  waiters_writing : s.writer.phase.writing = false → s.writer.waiters = []
  due : ∀ todo next, s.writer.phase = .resolving true todo next →
    ∀ x ∈ todo, x.1 ≤ s.writer.durableSeq

section Writer

variable [TokenCodec] {s s' : Server}

/-- A room has an entry until it is closing. -/
theorem Server.mem_captured {clock : String → Instant × SystemTime} {r : RoomId}
    {st : RoomState} {entry : RoomId × RoomDto} :
    entry ∈ Server.captured clock r st ↔
      st.closing = false ∧ entry = (r, buildRoomDto clock st) := by
  unfold Server.captured
  cases st.closing <;> simp

theorem Server.mem_buildSnapshot {clock : String → Instant × SystemTime} {r : RoomId}
    {dto : RoomDto} : (r, dto) ∈ s.buildSnapshot clock ↔
      r ∈ s.rooms.values ∧ ∃ st, s.heap[r]? = some st ∧ st.closing = false ∧
        dto = buildRoomDto clock st := by
  simp only [Server.buildSnapshot, List.mem_flatMap]
  constructor
  · rintro ⟨r', hr', hmem⟩
    cases hst : s.heap[r']? with
    | none => simp [hst] at hmem
    | some st =>
        simp only [hst] at hmem
        obtain ⟨hopen, heq⟩ := Server.mem_captured.mp hmem
        cases heq
        exact ⟨hr', st, hst, hopen, rfl⟩
  · rintro ⟨hr, st, hst, hopen, rfl⟩
    refine ⟨r, hr, ?_⟩
    simp only [hst]
    exact Server.mem_captured.mpr ⟨hopen, rfl⟩

/-- The writer hands tickets on: until it stops it neither makes one up nor loses one. -/
theorem WriterMoves.mem_tickets (hm : WriterMoves s s') (hlive : s'.writer.phase.isStopped = false)
    {reply : Ticket} : reply ∈ s'.tickets ↔ reply ∈ s.tickets := by
  cases hm with
  | mutate _ hphase hqueue =>
      simp only [Server.tickets, hqueue, Command.reply, List.filterMap_cons]
  | terminal _ _ hphase hqueue | flushDirty _ _ hphase hqueue | flushClean _ _ hphase hqueue =>
      simp only [Server.tickets, hphase, hqueue, Phase.answering, Phase.after, After.tickets,
        Command.reply, List.filterMap_cons, List.map_append, List.map_cons, List.map_nil,
        List.mem_append, List.mem_cons, List.not_mem_nil, or_false]
      exact iff_of_eq (by ac_rfl)
  | debounce hphase | collect _ hphase | capture _ _ _ _ _ _ hphase | loop _ hphase =>
      simp only [Server.tickets, hphase, Phase.answering, Phase.after, After.tickets, List.map_nil,
        List.mem_append, List.not_mem_nil]
  | persist _ _ _ hphase =>
      simp only [Server.tickets, Server.persisted, hphase, Phase.answering, Phase.after,
        List.map_nil, List.mem_append, List.not_mem_nil, or_false]
  | reply _ _ _ _ hphase | keep _ _ _ _ hphase =>
      simp only [Server.tickets, hphase, Phase.answering, Phase.after, ← AList.mem_keys,
        AList.mem_insert, List.map_append, List.map_cons, List.map_nil, List.mem_append,
        List.mem_cons, List.not_mem_nil, or_false]
      exact iff_of_eq (by ac_rfl)
  | stop => cases hlive

theorem WriterMoves.tickets (hm : WriterMoves s s') : s'.tickets ⊆ s.tickets := by
  intro reply hreply
  cases hlive : s'.writer.phase.isStopped with
  | false => exact (hm.mem_tickets hlive).mp hreply
  | true =>
      cases hm with
      | stop _ _ hphase =>
          -- the channel goes, and the last reply is one that was due
          simp only [Server.tickets, hphase, Phase.answering, Phase.after, After.tickets,
            ← AList.mem_keys, AList.mem_insert, List.filterMap_nil, List.map_nil, List.mem_append,
            List.mem_cons, List.not_mem_nil] at hreply ⊢
          tauto
      | mutate _ hphase =>
          dsimp only at hlive
          rw [hphase] at hlive
          cases hlive
      | _ => cases hlive

theorem WriterMoves.nextTicket (hm : WriterMoves s s') : s'.nextTicket = s.nextTicket := by
  cases hm <;> rfl

theorem WriterMoves.dirtySeq_le (hm : WriterMoves s s') :
    s.writer.dirtySeq ≤ s'.writer.dirtySeq := by
  cases hm with
  | mutate | terminal => exact Nat.le_succ _
  | _ => exact Nat.le_refl _

theorem WriterMoves.queue (hm : WriterMoves s s') : s'.queue ⊆ s.queue := by
  intro command hmem
  cases hm with
  | mutate _ _ hqueue | terminal _ _ _ hqueue | flushDirty _ _ _ hqueue
  | flushClean _ _ _ hqueue =>
      rw [hqueue]
      exact List.mem_cons_of_mem _ hmem
  | stop => cases hmem
  | _ => exact hmem

/-- The writer is going to stop only for a flush it has taken from the channel. -/
theorem WriterMoves.after_stop (hm : WriterMoves s s') {reply : Ticket}
    (h : s'.writer.phase.after = .stop reply) :
    s.writer.phase.after = .stop reply ∨ .flushAndStop reply ∈ s.queue := by
  cases hm with
  | mutate => exact Or.inl h
  | flushDirty _ _ _ hqueue | flushClean _ _ _ hqueue =>
      cases h
      rw [hqueue]
      exact Or.inr List.mem_cons_self
  | collect _ hphase | capture _ _ _ _ _ _ hphase | persist _ _ _ hphase | reply _ _ _ _ hphase
  | keep _ _ _ _ hphase =>
      rw [hphase]
      exact Or.inl h
  | _ => cases h

/-- Who waits has waited before, comes from the channel, or has been put off. -/
theorem WriterMoves.mem_waiters (hm : WriterMoves s s') {x : Nat × Ticket}
    (hx : x ∈ s'.writer.waiters) :
    x ∈ s.writer.waiters ∨
    (.terminal x.2 ∈ s.queue ∧ x.1 = s'.writer.dirtySeq ∧ s'.writer.phase.draft = []) ∨
    ∃ ok todo next, s.writer.phase = .resolving ok (x :: todo) next ∧
      ¬(x.1 ≤ s.writer.durableSeq ∨ ok = false) := by
  cases hm with
  | terminal _ _ _ hqueue =>
      rcases List.mem_append.mp hx with hold | hnew
      · exact Or.inl hold
      · rw [List.mem_singleton.mp hnew, hqueue]
        exact Or.inr (Or.inl ⟨List.mem_cons_self, rfl, rfl⟩)
  | keep ok _ todo next hphase hdue =>
      rcases List.mem_append.mp hx with hold | hnew
      · exact Or.inl hold
      · rw [List.mem_singleton.mp hnew]
        exact Or.inr (Or.inr ⟨ok, todo, next, hphase, hdue⟩)
  | flushClean | persist => cases hx
  | _ => exact Or.inl hx

theorem WriterMoves.mem_answering (hm : WriterMoves s s') {x : Nat × Ticket}
    (hx : x ∈ s'.writer.phase.answering) :
    x ∈ s.writer.phase.answering ∨ x ∈ s.writer.waiters := by
  cases hm with
  | mutate => exact Or.inl hx
  | flushClean | persist => exact Or.inr hx
  | reply _ _ _ _ hphase | keep _ _ _ _ hphase =>
      rw [hphase]
      exact Or.inl (List.mem_cons_of_mem _ hx)
  | _ => cases hx

/-- A new answer goes to the first of those that are being answered, or it is the last. -/
theorem WriterMoves.lookup_replies (hm : WriterMoves s s') {reply : Ticket} {ok : Bool}
    (h : s'.replies.lookup reply = some ok) :
    s.replies.lookup reply = some ok ∨
    (∃ waiter todo next, s.writer.phase = .resolving ok (waiter :: todo) next ∧
      waiter.2 = reply) ∨
    s.writer.phase = .resolving ok [] (.stop reply) ∧ s'.writer.phase = .stopped := by
  cases hm with
  | reply ok' waiter todo next hphase =>
      rw [AList.lookup_insert_eq] at h
      by_cases hreply : reply = waiter.2
      · rw [if_pos hreply] at h
        cases h
        exact Or.inr (Or.inl ⟨waiter, todo, next, hphase, hreply.symm⟩)
      · rw [if_neg hreply] at h
        exact Or.inl h
  | stop ok' other hphase =>
      rw [AList.lookup_insert_eq] at h
      by_cases hreply : reply = other
      · rw [if_pos hreply] at h
        cases h
        rw [hreply]
        exact Or.inr (Or.inr ⟨hphase, rfl⟩)
      · rw [if_neg hreply] at h
        exact Or.inl h
  | _ => exact Or.inl h

omit [TokenCodec] in
/-- After a successful write everyone is answered. -/
theorem WriterWf.not_keep (h : WriterWf s) {ok : Bool} {waiter : Nat × Ticket}
    {todo : List (Nat × Ticket)} {next : After}
    (hphase : s.writer.phase = .resolving ok (waiter :: todo) next) :
    waiter.1 ≤ s.writer.durableSeq ∨ ok = false := by
  cases ok with
  | false => exact Or.inr rfl
  | true => exact Or.inl (h.due _ _ hphase waiter List.mem_cons_self)

theorem WriterWf.writer (h : WriterWf s) (hm : WriterMoves s s') : WriterWf s' := by
  constructor
  · intro reply hreply
    rw [hm.nextTicket]
    exact h.tickets_lt reply (hm.tickets hreply)
  · intro x hx
    rcases hm.mem_waiters hx with hold | ⟨_, hnew, _⟩ | ⟨_, _, _, hphase, hdue⟩
    · exact Nat.le_trans (h.waiters_le x hold) hm.dirtySeq_le
    · exact Nat.le_of_eq hnew
    · exact absurd (h.not_keep hphase) hdue
  · intro hwriting
    cases hm with
    | flushClean | persist => rfl
    | keep _ _ _ _ hphase hdue => exact absurd (h.not_keep hphase) hdue
    | mutate _ hphase | reply _ _ _ _ hphase | loop _ hphase | stop _ _ hphase =>
        exact h.waiters_writing (by rw [hphase]; rfl)
    | _ => cases hwriting
  · intro todo next heq x hx
    cases hm with
    | mutate _ hphase => cases hphase.symm.trans heq
    | flushClean _ _ hphase =>
        cases heq
        rw [h.waiters_writing (by rw [hphase]; rfl)] at hx
        cases hx
    | persist =>
        cases heq
        exact h.waiters_le x hx
    | reply _ _ _ _ hphase =>
        cases heq
        exact h.due _ _ hphase x (List.mem_cons_of_mem _ hx)
    | keep _ _ _ _ hphase hdue => exact absurd (h.not_keep hphase) hdue
    | _ => cases heq

omit [TokenCodec] in
/-- The next ticket is nobody's yet. -/
theorem WriterWf.nextTicket_fresh (h : WriterWf s) :
    (∀ command ∈ s.queue, command.reply ≠ some s.nextTicket) ∧
    (∀ waiter ∈ s.writer.waiters, waiter.2 ≠ s.nextTicket) ∧
    (∀ waiter ∈ s.writer.phase.answering, waiter.2 ≠ s.nextTicket) ∧
    s.writer.phase.after ≠ .stop s.nextTicket ∧ s.replies.lookup s.nextTicket = none := by
  have hfresh : s.nextTicket ∉ s.tickets := fun hmem => lt_irrefl _ (h.tickets_lt _ hmem)
  simp only [Server.tickets, List.mem_append, not_or] at hfresh
  obtain ⟨⟨⟨⟨hqueue, hwaiters⟩, hanswering⟩, hafter⟩, hreplies⟩ := hfresh
  refine ⟨?_, ?_, ?_, ?_, ?_⟩
  · intro command hmem heq
    exact hqueue (List.mem_filterMap.mpr ⟨command, hmem, heq⟩)
  · intro waiter hmem heq
    exact hwaiters (List.mem_map.mpr ⟨waiter, hmem, heq⟩)
  · intro waiter hmem heq
    exact hanswering (List.mem_map.mpr ⟨waiter, hmem, heq⟩)
  · intro heq
    rw [heq] at hafter
    exact hafter (List.mem_singleton_self _)
  · exact AList.lookup_eq_none.mpr fun hmem => hreplies (AList.mem_keys.mp hmem)

/-- What the tasks do to the channel. -/
theorem WriterWf.act {t : Tid} {a : Act} {e : Env} (h : WriterWf s) (hm : Moves t e s a s') :
    WriterWf s' := by
  cases hm with
  | note =>
      refine ⟨fun reply hreply => h.tickets_lt reply ?_, h.waiters_le, h.waiters_writing, h.due⟩
      simpa [Server.tickets, Command.reply] using hreply
  | request _ command ha =>
      refine ⟨fun reply hreply => ?_, h.waiters_le, h.waiters_writing, h.due⟩
      have hcommand : (command s.nextTicket).reply = some s.nextTicket := by
        rcases ha with ⟨_, rfl⟩ | ⟨_, rfl⟩ <;> rfl
      have hcases : reply = s.nextTicket ∨ reply ∈ s.tickets := by
        simp only [Server.tickets, List.filterMap_append, List.filterMap_cons, hcommand,
          List.filterMap_nil, List.mem_append, List.mem_cons, List.not_mem_nil, or_false]
          at hreply ⊢
        refine (iff_of_eq ?_).mp hreply
        ac_rfl
      rcases hcases with rfl | hold
      · exact Nat.lt_succ_self _
      · exact Nat.lt_succ_of_lt (h.tickets_lt reply hold)
  | _ => exact ⟨h.tickets_lt, h.waiters_le, h.waiters_writing, h.due⟩

end Writer

/-! ### The contract of a request -/

section Contract

variable [TokenCodec] {s s' : Server} {Bad : RoomId × RoomDto → Prop} {reply : Ticket}

/-- Nothing the writer could capture now is `Bad`. -/
def Clean (Bad : RoomId × RoomDto → Prop) (s : Server) : Prop :=
  ∀ clock r st, s.heap[r]? = some st → ∀ entry ∈ Server.captured clock r st, ¬Bad entry

/-- The file has been written without `Bad` entries, and none is about to be. -/
structure Scrubbed (Bad : RoomId × RoomDto → Prop) (s : Server) : Prop where
  file : ∃ dtos, s.file = some dtos ∧ ∀ entry ∈ dtos, ¬Bad entry
  draft : ∀ entry ∈ s.writer.phase.draft, ¬Bad entry

/-- The state of a request made when nothing `Bad` could be captured any more. -/
structure Awaits (Bad : RoomId × RoomDto → Prop) (reply : Ticket) (s : Server) : Prop where
  issued : reply < s.nextTicket
  not_flush : .flushAndStop reply ∉ s.queue
  not_stop : s.writer.phase.after ≠ .stop reply
  waiting : ∀ seq, (seq, reply) ∈ s.writer.waiters →
    ∀ entry ∈ s.writer.phase.draft, ¬Bad entry
  answered : ∀ todo next seq, s.writer.phase = .resolving true todo next →
    (seq, reply) ∈ todo → Scrubbed Bad s
  replied : s.replies.lookup reply = some true → Scrubbed Bad s

/-- The draft stays clean as long as nothing `Bad` is captured. -/
theorem draft_clean (hm : WriterMoves s s') (hclean : Clean Bad s)
    (h : ∀ entry ∈ s.writer.phase.draft, ¬Bad entry) :
    ∀ entry ∈ s'.writer.phase.draft, ¬Bad entry := by
  cases hm with
  | mutate => exact h
  | capture clock r _ _ _ state hphase hstate =>
      intro entry hentry
      rcases List.mem_append.mp hentry with hold | hnew
      · exact h entry (by rw [hphase]; exact hold)
      · exact hclean clock r state hstate entry hnew
  | _ =>
      intro entry hentry
      cases hentry

theorem Scrubbed.writer (hm : WriterMoves s s') (hclean : Clean Bad s) (h : Scrubbed Bad s) :
    Scrubbed Bad s' := by
  refine ⟨?_, draft_clean hm hclean h.draft⟩
  cases hm with
  | persist ok dtos _ hphase =>
      cases ok with
      | false => exact h.file
      | true => exact ⟨dtos, rfl, fun entry hentry => h.draft entry (by rw [hphase]; exact hentry)⟩
  | _ => exact h.file

theorem Scrubbed.act {t : Tid} {a : Act} {e : Env} (hm : Moves t e s a s')
    (h : Scrubbed Bad s) : Scrubbed Bad s' := by
  obtain ⟨hwriter, _, hfile⟩ := hm.writer
  exact ⟨by rw [hfile]; exact h.file, by rw [hwriter]; exact h.draft⟩

namespace Awaits

/-- Whoever is told of a success waited while the file was written without `Bad` entries. -/
theorem answered_writer (hwf : WriterWf s) (hm : WriterMoves s s') (hclean : Clean Bad s)
    (h : Awaits Bad reply s) {todo : List (Nat × Ticket)} {next : After} {seq : Nat}
    (heq : s'.writer.phase = .resolving true todo next) (hmem : (seq, reply) ∈ todo) :
    Scrubbed Bad s' := by
  have hscrubbed : Scrubbed Bad s → Scrubbed Bad s' := Scrubbed.writer hm hclean
  cases hm with
  | mutate _ hphase => cases hphase.symm.trans heq
  | flushClean _ _ hphase =>
      -- nobody waits while the writer idles
      cases heq
      rw [hwf.waiters_writing (by rw [hphase]; rfl)] at hmem
      cases hmem
  | persist _ dtos _ hphase =>
      -- the entries just written are those of a write begun after the request
      cases heq
      have hdtos := h.waiting seq hmem
      rw [hphase] at hdtos
      refine ⟨⟨dtos, rfl, hdtos⟩, ?_⟩
      intro entry hentry
      cases hentry
  | reply _ _ _ _ hphase =>
      cases heq
      exact hscrubbed (h.answered _ _ seq hphase (List.mem_cons_of_mem _ hmem))
  | keep _ _ _ _ hphase hdue => exact absurd (hwf.not_keep hphase) hdue
  | _ => cases heq

theorem writer (hwf : WriterWf s) (hm : WriterMoves s s') (hclean : Clean Bad s)
    (h : Awaits Bad reply s) : Awaits Bad reply s' := by
  have hscrubbed : Scrubbed Bad s → Scrubbed Bad s' := Scrubbed.writer hm hclean
  constructor
  · rw [hm.nextTicket]
    exact h.issued
  · intro hmem
    exact h.not_flush (hm.queue hmem)
  · intro hstop
    rcases hm.after_stop hstop with hold | hflush
    · exact h.not_stop hold
    · exact h.not_flush hflush
  · intro seq hmem
    rcases hm.mem_waiters hmem with hold | ⟨_, _, hdraft⟩ | ⟨_, _, _, hphase, hdue⟩
    · exact draft_clean hm hclean (h.waiting seq hold)
    · simp [hdraft]
    · exact absurd (hwf.not_keep hphase) hdue
  · intro todo next seq heq hmem
    exact h.answered_writer hwf hm hclean heq hmem
  · intro hr
    rcases hm.lookup_replies hr with hold | ⟨waiter, _, _, hphase, rfl⟩ | ⟨hphase, _⟩
    · exact hscrubbed (h.replied hold)
    · exact hscrubbed (h.answered _ _ waiter.1 hphase List.mem_cons_self)
    · exact absurd (by rw [hphase]; rfl) h.not_stop

theorem act {t : Tid} {a : Act} {e : Env} (hm : Moves t e s a s') (h : Awaits Bad reply s) :
    Awaits Bad reply s' := by
  have hscrubbed : Scrubbed Bad s → Scrubbed Bad s' := Scrubbed.act hm
  cases hm with
  | note =>
      refine ⟨h.issued, fun hmem => ?_, h.not_stop, h.waiting,
        fun todo next seq heq hmem => hscrubbed (h.answered todo next seq heq hmem),
        fun hr => hscrubbed (h.replied hr)⟩
      exact h.not_flush (by simpa using hmem)
  | request _ command ha =>
      refine ⟨Nat.lt_succ_of_lt h.issued, fun hmem => ?_, h.not_stop, h.waiting,
        fun todo next seq heq hmem => hscrubbed (h.answered todo next seq heq hmem),
        fun hr => hscrubbed (h.replied hr)⟩
      rcases List.mem_append.mp hmem with hmem | hmem
      · exact h.not_flush hmem
      · -- the ticket of a new flush is a new one
        rcases ha with ⟨_, rfl⟩ | ⟨_, rfl⟩
        · simp at hmem
        · simp only [List.mem_singleton, Command.flushAndStop.injEq] at hmem
          exact absurd h.issued (by rw [hmem]; exact lt_irrefl _)
  | _ =>
      exact ⟨h.issued, h.not_flush, h.not_stop, h.waiting,
        fun todo next seq heq hmem => hscrubbed (h.answered todo next seq heq hmem),
        fun hr => hscrubbed (h.replied hr)⟩

omit [TokenCodec] in
/-- A request is entitled to its answer from the start. -/
theorem sent (hwf : WriterWf s) (Bad : RoomId × RoomDto → Prop) :
    Awaits Bad s.nextTicket
      { s with
        queue := s.queue ++ [.terminal s.nextTicket]
        nextTicket := s.nextTicket + 1 } := by
  obtain ⟨hqueue, hwaiters, hanswering, hafter, hreplies⟩ := hwf.nextTicket_fresh
  refine ⟨Nat.lt_succ_self _, fun hmem => ?_, hafter, fun seq hmem => ?_,
    fun todo next seq hphase hmem => ?_, fun hr => ?_⟩
  · rcases List.mem_append.mp hmem with hold | hnew
    · exact hqueue _ hold rfl
    · simp at hnew
  · exact absurd rfl (hwaiters _ hmem)
  · change s.writer.phase = _ at hphase
    rw [hphase] at hanswering
    exact absurd rfl (hanswering _ hmem)
  · cases hreplies.symm.trans hr

end Awaits

end Contract

end PlezyRelay
