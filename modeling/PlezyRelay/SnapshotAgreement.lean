/-
  PlezyRelay/SnapshotAgreement.lean
  =================================
  **The state file agrees with memory at rest.**

  A `RoomCore` is what an entry of a snapshot says about a room, timestamps aside, and
  `imageOf` what it would say now.  While the writer is not gone, every room satisfies
  one of three things: some task still owes the writer a command, a write is due that
  will read the room, or the last write shows the room as it is (`Followed`).  At rest
  only the third is left.

  Two sections change what is saved without making a debt: a join that prunes expired
  reservations and is then refused, and the rollback of a failed leave, which may come
  after another write has captured the pending state.  `NothingLost` excludes the cases
  in which nobody makes up for it.
-/
import PlezyRelay.RecordedMutations
import PlezyRelay.SnapshotWriter

namespace PlezyRelay

open Machine

/-! ### What a snapshot says about a room -/

variable [TokenCodec]

/-- What a snapshot taken now would say about room `r`. -/
def imageOf (s : Server) (r : RoomId) : Option RoomCore := s.heap[r]?.bind RoomState.saved

/-- The entries `f` show room `r` as it is. -/
def Reflects (s : Server) (f : List (RoomId × RoomDto)) (r : RoomId) : Prop :=
  ∀ c, (∃ d, (r, d) ∈ f ∧ d.core = c) ↔ imageOf s r = some c

theorem captured_core {clock : String → Instant × SystemTime} {r r' : RoomId} {st : RoomState}
    {c : RoomCore} :
    (∃ d, (r, d) ∈ Server.captured clock r' st ∧ d.core = c) ↔ r = r' ∧ st.saved = some c := by
  simp only [Server.mem_captured, Prod.mk.injEq]
  constructor
  · rintro ⟨d, ⟨hopen, rfl, rfl⟩, rfl⟩
    exact ⟨rfl, saved_eq clock hopen⟩
  · rintro ⟨rfl, hsaved⟩
    obtain ⟨hopen, hcore⟩ := (saved_eq_some clock).mp hsaved
    exact ⟨_, ⟨hopen, rfl, rfl⟩, hcore⟩

/-! ### What a section does to it -/

theorem RoomState.joinOrResume_dirty {st : RoomState} {msg : ClientMessage} {admission : Admission}
    {resumeOnly : Bool} {now : SystemTime} {instants : String → Instant}
    {cancel : CancellationToken} (hopen : st.closing = false)
    (hauth : (st.pruned instants).joinAuthorized admission.peerId
      (Verifier.fromToken msg.reconnectToken) resumeOnly = true)
    (hfits : (st.pruned instants).joinRoomFull admission.peerId = false) :
    (st.joinOrResume msg admission resumeOnly now instants cancel).2.dirty = true := by
  simp [RoomState.joinOrResume, hopen, hauth, hfits, RoomState.admissionEffects]

omit [TokenCodec] in
theorem RoomState.pruned_eq_self {st : RoomState} {instants : String → Instant}
    (h : (st.pruneExpiredReservations instants).2 = false) : st.pruned instants = st := by
  have hsize : (st.pruned instants).reservations.size = st.reservations.size :=
    (bne_eq_false_iff_eq.mp h).symm
  have hsame : st.reservations.retain (st.keepsReservation instants) = st.reservations :=
    AList.retain_eq_self_of_size hsize
  rw [RoomState.pruned, hsame]

/-- The sections that change what is saved and make no debt: a join that prunes an open
    room and is then refused, and the rollback of a leave from an open room. -/
def RoomOp.slips (rd : Readings) (st : RoomState) : RoomOp → Bool
  | .joinOrResume msg admission resumeOnly =>
      !st.closing && (st.pruneExpiredReservations rd.instants).2 &&
        !((st.pruned rd.instants).joinAuthorized admission.peerId
            (Verifier.fromToken msg.reconnectToken) resumeOnly &&
          !(st.pruned rd.instants).joinRoomFull admission.peerId)
  | .finishLeave p c persisted => !persisted && !st.closing && st.ownsPendingLeave p c
  | _ => false

/-- Every other section that makes no debt leaves what is saved as it is. -/
theorem RoomOp.saved_run {rd : Readings} {st : RoomState} {op : RoomOp}
    (hclean : op.dirties (op.run rd st).2 = false)
    (hteardown : op.isTeardown = true → st.closing = true) (hslips : op.slips rd st = false) :
    (op.run rd st).1.saved = st.saved := by
  rcases hrun : op.run rd st with ⟨st', x⟩
  rw [hrun] at hclean
  cases op with
  | isIdempotent | isReclaimable | ownerIpKey =>
      cases hrun
      rfl
  | markClosing => cases hclean
  | reconnectHost => cases (RoomState.reconnectHost_cases hrun).2.1.symm.trans hclean
  | joinOrResume msg admission resumeOnly =>
      rcases RoomState.joinOrResume_cases hrun with
        ⟨_, rfl, _⟩ | ⟨hopen, rfl, _⟩ | ⟨_, _, _, _, hdirty, _⟩
      · rfl
      · cases hpruned : (st.pruneExpiredReservations rd.instants).2 with
        | false => rw [RoomState.pruned_eq_self hpruned]
        | true =>
            obtain ⟨hauth, hfits⟩ : (st.pruned rd.instants).joinAuthorized admission.peerId
                (Verifier.fromToken msg.reconnectToken) resumeOnly = true ∧
                (st.pruned rd.instants).joinRoomFull admission.peerId = false := by
              simpa [RoomOp.slips, hopen, hpruned] using hslips
            have hdirty : (RoomOp.run rd st (.joinOrResume msg admission resumeOnly)).2.dirty = true :=
              RoomState.joinOrResume_dirty hopen hauth hfits
            rw [hrun] at hdirty
            cases hdirty.symm.trans hclean
      · cases hdirty.symm.trans hclean
  | beginLeave =>
      rcases RoomState.beginLeave_cases hrun with ⟨rfl, _⟩ | ⟨_, _, _, _, _, rfl⟩
      · rfl
      · cases hclean
  | finishLeave p c persisted =>
      rcases RoomState.finishLeave_cases hrun with
        ⟨_, rfl, _⟩ | ⟨howns, rfl, rfl, _⟩ | ⟨_, _, _, hdirty, _⟩
      · rfl
      · have hclosing : st.closing = true := by simpa [RoomOp.slips, howns] using hslips
        rw [saved_of_closing hclosing]
        exact saved_of_closing hclosing
      · cases hdirty.symm.trans hclean
  | beginEndSession =>
      rcases RoomState.beginEndSession_cases hrun with ⟨rfl, _⟩ | ⟨_, _, _, _, _, _, rfl⟩
      · rfl
      · cases hclean
  | finishEndSession =>
      obtain ⟨rfl, _⟩ := RoomState.finishEndSession_cases hrun
      have hclosing := hteardown rfl
      rw [saved_of_closing hclosing]
      exact saved_of_closing hclosing
  | transferHost =>
      rcases RoomState.transferHost_cases hrun with ⟨rfl, _⟩ | ⟨_, _, _, _, _, _, _, _, _, hdirty, _⟩
      · rfl
      · cases hdirty.symm.trans hclean
  | broadcast =>
      obtain ⟨rfl | rfl, _⟩ := RoomState.broadcast_cases hrun
      · rfl
      · rfl
  | sendTo =>
      obtain ⟨rfl | rfl, _⟩ := RoomState.sendTo_cases hrun
      · rfl
      · rfl
  | handleDisconnect =>
      rcases RoomState.handleDisconnect_cases hrun with ⟨_, rfl, _⟩ | ⟨_, _, _, hdirty, _⟩
      · rfl
      · cases hdirty.symm.trans hclean
  | pruneExpiredReservations =>
      cases hrun
      exact congrArg RoomState.saved (RoomState.pruned_eq_self hclean)
  | sweep now =>
      rcases RoomState.sweepRoom_cases hrun with ⟨rfl, rfl⟩ | ⟨_, rfl, _⟩ | ⟨_, rfl⟩
      · exact congrArg RoomState.saved (RoomState.pruned_eq_self hclean)
      · cases hclean
      · cases hclean

/-! ### What the writer will still do -/

/-- A write is still to come that reads room `r` from now on. -/
def WriteDue (s : Server) (r : RoomId) : Prop :=
  (∃ command ∈ s.queue, command.dirties = true) ∨
    match s.writer.phase with
    | .idle | .resolving .. => s.writer.durableSeq < s.writer.dirtySeq
    | .collecting _ => True
    | .building todo _ _ => r ∈ todo
    | .stopped => False

instance (s : Server) (r : RoomId) : Decidable (WriteDue s r) := by
  unfold WriteDue
  refine @instDecidableOr _ _ inferInstance ?_
  split <;> infer_instance

/-- What the write in progress has so far, or else the file. -/
def Server.latest (s : Server) : Option (List (RoomId × RoomDto)) :=
  match s.writer.phase with
  | .building _ dtos _ => some dtos
  | _ => s.file

/-- The writer is not behind with room `r`, or will catch up; where nothing has been
    written yet, what counts are the entries `base`. -/
def Followed (base : List (RoomId × RoomDto)) (s : Server) (r : RoomId) : Prop :=
  WriteDue s r ∨ Reflects s (s.latest.getD base) r

/-- The sequence numbers of the writer, and the rooms of the write in progress. -/
structure Writing (s : Server) : Prop where
  le : s.writer.durableSeq ≤ s.writer.dirtySeq
  behind : s.writer.phase.writing = true → s.writer.durableSeq < s.writer.dirtySeq
  distinct : ∀ {todo : List RoomId} {dtos : List (RoomId × RoomDto)} {next : After},
    s.writer.phase = .building todo dtos next → (dtos.map Prod.fst ++ todo).Nodup

section WriterSteps

variable {base : List (RoomId × RoomDto)} {s s' : Server} {r : RoomId}

theorem Writing.writer (h : Writing s) (hm : WriterMoves s s') (hvalues : s.rooms.values.Nodup) :
    Writing s' := by
  refine ⟨?_, ?_, ?_⟩
  · cases hm with
    | mutate | terminal => exact Nat.le_succ_of_le h.le
    | persist ok =>
        cases ok with
        | true => exact le_rfl
        | false => exact h.le
    | _ => exact h.le
  · cases hm with
    | mutate _ hphase => exact fun hwriting => Nat.lt_succ_of_le h.le
    | terminal => exact fun _ => Nat.lt_succ_of_le h.le
    | flushDirty _ _ _ _ hdirty | debounce _ hdirty => exact fun _ => hdirty
    | collect _ hphase | capture _ _ _ _ _ _ hphase =>
        exact fun _ => h.behind (by rw [hphase]; rfl)
    | _ => exact nofun
  · intro todo dtos next heq
    cases hm with
    | mutate _ hphase => cases hphase.symm.trans heq
    | collect =>
        cases heq
        exact hvalues
    | capture clock r' todo' dtos' _ state hphase =>
        cases heq
        have hold := h.distinct hphase
        unfold Server.captured
        split
        · rw [List.append_nil]
          exact hold.sublist (List.Sublist.append_left (List.sublist_cons_self _ _) _)
        · simpa using hold
    | _ => cases heq

/-- A write shows a room as it was when it was captured. -/
theorem reflects_capture {clock : String → Instant × SystemTime} {todo : List RoomId}
    {dtos : List (RoomId × RoomDto)} {state : RoomState}
    (hdistinct : (dtos.map Prod.fst ++ r :: todo).Nodup) (hstate : s.heap[r]? = some state) :
    Reflects s (dtos ++ Server.captured clock r state) r := by
  have hnot : ∀ d, (r, d) ∉ dtos := fun d hmem =>
    (List.disjoint_of_nodup_append hdistinct) (List.mem_map.mpr ⟨_, hmem, rfl⟩) List.mem_cons_self
  intro c
  simp only [List.mem_append, hnot, false_or, captured_core, imageOf, hstate, Option.bind_some,
    true_and]

theorem reflects_capture_other {clock : String → Instant × SystemTime} {r' : RoomId}
    {dtos : List (RoomId × RoomDto)} {state : RoomState} (hne : r ≠ r') (h : Reflects s dtos r) :
    Reflects s (dtos ++ Server.captured clock r' state) r := by
  intro c
  rw [← h c]
  constructor
  · rintro ⟨d, hmem, rfl⟩
    rcases List.mem_append.mp hmem with hmem | hmem
    · exact ⟨d, hmem, rfl⟩
    · exact (hne (captured_core.mp ⟨d, hmem, rfl⟩).1).elim
  · rintro ⟨d, hmem, rfl⟩
    exact ⟨d, List.mem_append_left _ hmem, rfl⟩

/-- The writer never falls behind by its own steps. -/
theorem Followed.writer (h : Followed base s r) (hw : Writing s) (hm : WriterMoves s s')
    (hregistered : imageOf s r ≠ none → r ∈ s.rooms.values)
    (hlive : s'.writer.phase.isStopped = false) : Followed base s' r := by
  cases hm with
  | mutate _ hphase =>
      left; right
      simp only [hphase]
      exact Nat.lt_succ_of_le hw.le
  | terminal | flushDirty | debounce => exact Or.inl (Or.inr trivial)
  | flushClean reply rest hphase hqueue hclean =>
      rcases h with (⟨command, hmem, hdirty⟩ | hdue) | hshows
      · rw [hqueue] at hmem
        rcases List.mem_cons.mp hmem with rfl | hmem
        · cases hdirty
        · exact Or.inl (Or.inl ⟨command, hmem, hdirty⟩)
      · rw [hphase] at hdue
        exact absurd hdue (Nat.not_lt.mpr hclean)
      · rw [Server.latest, hphase] at hshows
        exact Or.inr hshows
  | collect next hphase =>
      by_cases himage : imageOf s r = none
      · right
        intro c
        change (∃ d : RoomDto, (r, d) ∈ [] ∧ d.core = c) ↔ imageOf s r = some c
        simp [himage]
      · exact Or.inl (Or.inr (hregistered himage))
  | capture clock r' todo dtos next state hphase hstate =>
      have hdistinct := hw.distinct hphase
      by_cases hr : r = r'
      · subst hr
        exact Or.inr (reflects_capture hdistinct hstate)
      · rcases h with (hqueue | hdue) | hshows
        · exact Or.inl (Or.inl hqueue)
        · rw [hphase] at hdue
          exact Or.inl (Or.inr ((List.mem_cons.mp hdue).resolve_left hr))
        · rw [Server.latest, hphase] at hshows
          exact Or.inr (reflects_capture_other hr hshows)
  | persist ok dtos next hphase =>
      rcases h with (hqueue | hdue) | hshows
      · exact Or.inl (Or.inl hqueue)
      · rw [hphase] at hdue
        cases hdue
      · cases ok with
        | true =>
            rw [Server.latest, hphase] at hshows
            exact Or.inr hshows
        | false => exact Or.inl (Or.inr (hw.behind (by rw [hphase]; rfl)))
  | reply _ _ _ _ hphase | keep _ _ _ _ hphase | loop _ hphase =>
      rcases h with (hqueue | hdue) | hshows
      · exact Or.inl (Or.inl hqueue)
      · rw [hphase] at hdue
        exact Or.inl (Or.inr hdue)
      · rw [Server.latest, hphase] at hshows
        exact Or.inr hshows
  | stop => cases hlive

theorem WriteDue.act {t : Tid} {a : Act} {e : Env} (h : WriteDue s r) (hm : Moves t e s a s') :
    WriteDue s' r := by
  rcases h with ⟨command, hmem, hdirty⟩ | hdue
  · exact Or.inl ⟨command, hm.queue command hmem, hdirty⟩
  · right
    rw [hm.writer.1]
    exact hdue

theorem Followed.act {t : Tid} {a : Act} {e : Env} (h : Followed base s r)
    (hm : Moves t e s a s') (himage : imageOf s' r = imageOf s r) : Followed base s' r := by
  have hlatest : s'.latest = s.latest := by
    rw [Server.latest, hm.writer.1, hm.writer.2.2]
    rfl
  refine h.imp (fun hdue => hdue.act hm) fun hshows c => ?_
  rw [himage, hlatest]
  exact hshows c

/-- A command that marks the state dirty keeps every room followed. -/
theorem followed_of_records {t : Tid} {a : Act} {e : Env} {w w' : World} {x : a.Resp}
    (hx : Did t a e w x w') (hrecords : Event.records ⟨t, a, x⟩ = true)
    (hlive : w.server.writer.phase.isStopped = false) (r : RoomId) :
    Followed base w'.server r := by
  obtain ⟨s', hs, rfl⟩ := World.did_iff.mp hx
  cases a with
  | recordMutation =>
      obtain rfl := congrArg Prod.snd (Option.some.inj hs)
      refine Or.inl (Or.inl ⟨.mutate, ?_, rfl⟩)
      simp [Server.sendCommand, hlive]
  | sendTerminal =>
      obtain rfl := congrArg Prod.snd (Option.some.inj hs)
      refine Or.inl (Or.inl ⟨.terminal w.server.nextTicket, ?_, rfl⟩)
      simp [Server.sendRequest, hlive]
  | _ => cases hrecords

end WriterSteps

/-! ### What the tasks do -/

/-- When a join that has pruned is refused, or a failed leave is rolled back in an open
    room, a write is still to come that will read the room, unless the writer is gone. -/
def NothingLost (a : Act) (e : Env) (w : World) : Prop :=
  match a with
  | .room r op => ∀ st ∈ w.server.heap[r]?,
      op.slips (e.readings ⟨w.server.nextToken⟩) st = true →
        w.server.writer.phase.isStopped = true ∨ WriteDue w.server r
  | _ => True

instance (a : Act) (e : Env) (w : World) : Decidable (NothingLost a e w) := by
  unfold NothingLost
  split <;> infer_instance

/-- The runs in which every change is recorded. -/
def Recorded (sys : RelaySys) : RelayLabel → Prop
  | .act t e => ∀ a ∈ (sys.threads t).next,
      WithinLimits t a sys.shared ∧ NothingLost a e sys.shared
  | _ => True

instance (sys : RelaySys) : (l : RelayLabel) → Decidable (Recorded sys l)
  | .act t e => inferInstanceAs (Decidable (∀ a ∈ (sys.threads t).next,
      WithinLimits t a sys.shared ∧ NothingLost a e sys.shared))
  | .start .. | .ambient _ => inferInstanceAs (Decidable True)

section Step

variable {t : Tid} {a : Act} {e : Env} {w w' : World} {x : a.Resp}

/-- An action that makes no debt leaves what is saved of a room as it is, unless it is one
    of the two sections. -/
theorem imageOf_did (hx : Did t a e w x w') (hclean : Event.dirties ⟨t, a, x⟩ = false)
    (hlegal : Legal t a w) (r : RoomId) :
    imageOf w'.server r = imageOf w.server r ∨
      ∃ op, a = .room r op ∧ ∃ st ∈ w.server.heap[r]?,
        op.slips (e.readings ⟨w.server.nextToken⟩) st = true := by
  rcases hst : w.server.heap[r]? with _ | st
  · left
    rcases hst' : w'.server.heap[r]? with _ | st'
    · rw [imageOf, imageOf, hst, hst']
    · rcases (World.did_moves hx).heap_of_some hst' with
        ⟨st, hsome, _⟩ | ⟨_, _, _, _, _, _, _, _, rfl, _⟩
      · cases hst.symm.trans hsome
      · cases hclean
  · obtain ⟨st', hst', rfl | ⟨op, rfl, rfl⟩⟩ := (World.did_moves hx).heap_some hst
    · left
      rw [imageOf, imageOf, hst, hst']
    · obtain ⟨st₀, hst₀, hrun, _⟩ := World.did_room hx
      obtain rfl := Option.some.inj (hst₀.symm.trans hst)
      have hteardown : op.isTeardown = true → st₀.closing = true := by
        intro hop
        obtain ⟨st₁, hst₁, hclosing⟩ := hlegal.2.2.1 hop
        rwa [Option.some.inj (hst₁.symm.trans hst)] at hclosing
      have hdirties : op.dirties (op.run (e.readings ⟨w.server.nextToken⟩) st₀).2 = false := by
        rw [hrun]
        exact hclean
      cases hslips : op.slips (e.readings ⟨w.server.nextToken⟩) st₀ with
      | true => exact Or.inr ⟨op, rfl, st₀, rfl, hslips⟩
      | false =>
          left
          rw [imageOf, imageOf, hst, hst']
          exact RoomOp.saved_run hdirties hteardown hslips

omit [TokenCodec] in
theorem owes_cons_neutral {ev : Event} {h : List Event} (hrecords : ev.records = false)
    (hdirties : ev.dirties = false) (u : Tid) : owes u (ev :: h) = owes u h := by
  simp [owes, hrecords, hdirties]

/-- What holds of every room in every state. -/
structure Agreed (base : List (RoomId × RoomDto)) (w : World) : Prop where
  writing : Writing w.server
  followed : w.server.writer.phase.isStopped = false → ∀ r,
    (∃ t, owes t w.history = true) ∨ Followed base w.server r

variable {base : List (RoomId × RoomDto)}

theorem Agreed.did (h : Agreed base w) (hlegal : Legal t a w) (hlost : NothingLost a e w)
    (hx : Did t a e w x w') : Agreed base w' := by
  have hmoves := World.did_moves hx
  obtain ⟨hwriter, _⟩ := hmoves.writer
  refine ⟨⟨?_, ?_, ?_⟩, fun hlive r => ?_⟩
  · rw [hwriter]
    exact h.writing.le
  · rw [hwriter]
    exact h.writing.behind
  · rw [hwriter]
    exact h.writing.distinct
  · rw [hwriter] at hlive
    rw [World.did_history hx]
    by_cases hrecords : Event.records ⟨t, a, x⟩ = true
    · exact Or.inr (followed_of_records hx hrecords hlive r)
    · by_cases hdirties : Event.dirties ⟨t, a, x⟩ = true
      · exact Or.inl ⟨t, by simp [owes, hrecords, hdirties]⟩
      · rw [Bool.not_eq_true] at hrecords hdirties
        rcases imageOf_did hx hdirties hlegal r with himage | ⟨op, rfl, st, hst, hslips⟩
        · refine (h.followed hlive r).imp ?_ fun hfollowed => hfollowed.act hmoves himage
          rintro ⟨u, hu⟩
          exact ⟨u, by rw [owes_cons_neutral hrecords hdirties]; exact hu⟩
        · rcases hlost st hst hslips with hstopped | hdue
          · cases hlive.symm.trans hstopped
          · exact Or.inr (Or.inl (hdue.act hmoves))

theorem registered_of_imageOf (hb : Base w) {r : RoomId} (h : imageOf w.server r ≠ none) :
    r ∈ w.server.rooms.values := by
  rcases hst : w.server.heap[r]? with _ | st
  · simp [imageOf, hst] at h
  · cases hclosing : st.closing with
    | true => simp [imageOf, hst, saved_of_closing hclosing] at h
    | false => exact AList.mem_values.mpr ⟨_, hb.open_registered hst hclosing⟩

theorem Agreed.writer (h : Agreed base w) (hb : Base w) {m : WriterStep}
    (hm : w.writerStep m = some w') : Agreed base w' := by
  obtain ⟨hs, hh⟩ := World.writerStep_iff.mp hm
  have hmoves := Server.writerStep_moves hs
  have hvalues : w.server.rooms.values.Nodup := AList.nodup_values fun _ _ _ => hb.lookup_inj
  refine ⟨h.writing.writer hmoves hvalues, fun hlive r => ?_⟩
  rw [hh]
  exact (h.followed hmoves.live r).imp id fun hfollowed =>
    hfollowed.writer h.writing hmoves (registered_of_imageOf hb) hlive

/-- The entries of the rooms taken back at startup. -/
def baseline (restored : List RestoredRoom) : List (RoomId × RoomDto) :=
  (Server.restore {} restored).buildSnapshot fun _ => (0, 0)

theorem Agreed.startup {restored : List RestoredRoom}
    (hb : Base (initially restored).shared) :
    Agreed (baseline restored) (initially restored).shared := by
  obtain ⟨heap, rooms, quota, hrestore⟩ := Server.restore_frame {} restored
  have hlatest : (initially restored).shared.server.latest = none := by
    simp only [initially, hrestore, Server.latest]
  refine ⟨⟨?_, ?_, ?_⟩, fun _ r => Or.inr (Or.inr fun c => ?_)⟩
  · simp only [initially, hrestore]
    exact le_rfl
  · simp [initially, hrestore, Phase.writing]
  · simp [initially, hrestore]
  · rw [hlatest, Option.getD_none]
    constructor
    · rintro ⟨d, hmem, rfl⟩
      obtain ⟨_, st, hst, hopen, rfl⟩ := Server.mem_buildSnapshot.mp hmem
      exact Option.bind_eq_some_iff.mpr ⟨st, hst, saved_eq _ hopen⟩
    · intro hr
      have hregistered := registered_of_imageOf hb (r := r) (by simp [hr])
      obtain ⟨st, hst, hsaved⟩ := Option.bind_eq_some_iff.mp hr
      obtain ⟨hopen, hcore⟩ := (saved_eq_some fun _ => (0, 0)).mp hsaved
      exact ⟨_, Server.mem_buildSnapshot.mpr ⟨hregistered, st, hst, hopen, rfl⟩, hcore⟩

end Step

theorem initially_agreed {restored : List RestoredRoom} {sys : RelaySys}
    (hstart : Startup (initially restored))
    (h : relay.Reachable (· = initially restored) Recorded sys) :
    Agreed (baseline restored) sys.shared := by
  induction h with
  | init h =>
      rw [h]
      exact Agreed.startup (Base.startup hstart)
  | step hreach hc hstep ih =>
      have hreach := hreach.of_init hstart
      rcases relay.step_cases hstep with ⟨t, q, loc, p, rfl, _, _, rfl⟩ |
        ⟨t, e, a, k, x, s, rfl, ht, hx, rfl⟩ | ⟨m, s, rfl, hm, rfl⟩
      · exact ih
      · exact ih.did (relay_legal hreach ht) (hc a (by rw [ht]; rfl)).2 hx
      · exact ih.writer (relay_base hreach).1 hm

theorem relay_agreed {sys : RelaySys} (h : Reaches Recorded sys) :
    ∃ base, Agreed base sys.shared := by
  obtain ⟨_, hstart, hreach⟩ := h.exists_init
  have ⟨file, now, clock, heq⟩ := hstart
  rw [heq] at hstart hreach
  exact ⟨_, initially_agreed hstart hreach⟩

theorem mem_buildSnapshot_core {w : World} (hb : Base w) (clock : String → Instant × SystemTime)
    (c : RoomCore) :
    c ∈ (w.server.buildSnapshot clock).map (·.2.core) ↔ ∃ r, imageOf w.server r = some c := by
  rw [List.mem_map]
  constructor
  · rintro ⟨⟨r, d⟩, hmem, rfl⟩
    obtain ⟨_, st, hst, hopen, rfl⟩ := Server.mem_buildSnapshot.mp hmem
    exact ⟨r, by rw [imageOf, hst]; exact saved_eq clock hopen⟩
  · rintro ⟨r, hr⟩
    have hregistered := registered_of_imageOf hb (r := r) (by rw [hr]; exact nofun)
    obtain ⟨st, hst, hsaved⟩ := Option.bind_eq_some_iff.mp hr
    obtain ⟨hopen, hcore⟩ := (saved_eq_some clock).mp hsaved
    exact ⟨_, Server.mem_buildSnapshot.mpr ⟨hregistered, st, hst, hopen, rfl⟩, hcore⟩

theorem lookup_of_imageOf {w : World} (hb : Base w) {r : RoomId} {c : RoomCore}
    (hr : imageOf w.server r = some c) : w.server.rooms.lookup c.sessionId = some r := by
  obtain ⟨st, hst, hsaved⟩ := Option.bind_eq_some_iff.mp hr
  obtain ⟨hopen, rfl⟩ := (saved_eq_some fun _ => (0, 0)).mp hsaved
  exact hb.open_registered hst hopen

/-- The writer is there, has taken all commands and made the last one durable. -/
def WriterAtRest (s : Server) : Prop :=
  s.writer.phase.isStopped = false ∧ s.queue = [] ∧ s.writer.dirtySeq = s.writer.durableSeq

instance (s : Server) : Decidable (WriterAtRest s) := by
  unfold WriterAtRest
  infer_instance

theorem reflects_at_rest {sys : RelaySys} (h : Reaches Recorded sys)
    (hrest : ∀ t, ∃ l, sys.threads t = .ret l) (hwriter : WriterAtRest sys.shared.server)
    {f : List (RoomId × RoomDto)} (hfile : sys.shared.server.file = some f) (r : RoomId) :
    Reflects sys.shared.server f r := by
  obtain ⟨hlive, hqueue, hdurable⟩ := hwriter
  obtain ⟨base, hwriting, hfollowed⟩ := relay_agreed h
  have hnotLess : ¬sys.shared.server.writer.durableSeq < sys.shared.server.writer.dirtySeq := by
    rw [hdurable]
    exact lt_irrefl _
  have hphase : ¬sys.shared.server.writer.phase.writing = true := fun hwrite =>
    hnotLess (hwriting.behind hwrite)
  rcases hfollowed hlive r with ⟨t, howes⟩ | (⟨_, hmem, _⟩ | hdue) | hshows
  · obtain ⟨l, hl⟩ := hrest t
    have hpaid := paid_at_rest h (fun sys t e a hc ha => (hc a ha).1) hl
    cases hpaid.symm.trans howes
  · rw [hqueue] at hmem
    cases hmem
  · exfalso
    cases hp : sys.shared.server.writer.phase with
    | idle | resolving =>
        rw [hp] at hdue
        exact hnotLess hdue
    | collecting | building => exact hphase (by rw [hp]; rfl)
    | stopped =>
        rw [hp] at hdue
        exact hdue
  · have hlatest : sys.shared.server.latest = some f := by
      cases hp : sys.shared.server.writer.phase with
      | building => exact (hphase (by rw [hp]; rfl)).elim
      | _ =>
          rw [Server.latest, hp]
          exact hfile
    rwa [hlatest] at hshows

/-- **The state file agrees with memory at rest.**  In every run in which every change is
    recorded: once no task and no command is left, the last file that was written says the
    same as a snapshot taken now, timestamps aside; and neither has two entries for one
    session. -/
theorem file_agrees_at_rest {sys : RelaySys} (h : Reaches Recorded sys)
    (hrest : ∀ t, ∃ l, sys.threads t = .ret l) (hwriter : WriterAtRest sys.shared.server)
    {f : List (RoomId × RoomDto)} (hfile : sys.shared.server.file = some f)
    (clock : String → Instant × SystemTime) :
    (∀ c : RoomCore, c ∈ f.map (·.2.core) ↔
      c ∈ (sys.shared.server.buildSnapshot clock).map (·.2.core)) ∧
    ∀ c ∈ f.map (·.2.core), ∀ c' ∈ f.map (·.2.core), c.sessionId = c'.sessionId → c = c' := by
  obtain ⟨hb, _⟩ := relay_base h
  have hreflects := reflects_at_rest h hrest hwriter hfile
  have himages : ∀ c : RoomCore, c ∈ f.map (·.2.core) ↔
      ∃ r, imageOf sys.shared.server r = some c := by
    intro c
    rw [List.mem_map]
    constructor
    · rintro ⟨⟨r, d⟩, hmem, rfl⟩
      exact ⟨r, (hreflects r _).mp ⟨d, hmem, rfl⟩⟩
    · rintro ⟨r, hr⟩
      obtain ⟨d, hmem, hcore⟩ := (hreflects r c).mpr hr
      exact ⟨(r, d), hmem, hcore⟩
  refine ⟨fun c => (himages c).trans (mem_buildSnapshot_core hb clock c).symm,
    fun c hc c' hc' hsid => ?_⟩
  obtain ⟨r, hr⟩ := (himages c).mp hc
  obtain ⟨r', hr'⟩ := (himages c').mp hc'
  have hlookup := lookup_of_imageOf hb hr
  rw [hsid, lookup_of_imageOf hb hr'] at hlookup
  obtain rfl := Option.some.inj hlookup
  exact Option.some.inj (hr.symm.trans hr')

omit [TokenCodec] in
/-- A run it speaks about: a host and a guest, whose presence has been saved. -/
theorem file_agrees_at_rest_after_join : letI : TokenCodec := sampleCodec
    ∃ (sys : RelaySys) (f : List (RoomId × RoomDto)), Reaches Recorded sys ∧
      (∀ t, ∃ l, sys.threads t = .ret l) ∧ WriterAtRest sys.shared.server ∧
      sys.shared.server.file = some f ∧ f ≠ [] ∧
      ∀ c : RoomCore, c ∈ f.map (·.2.core) ↔
        c ∈ (sys.shared.server.buildSnapshot fun _ => (0, 0)).map (·.2.core) := by
  let _ : TokenCodec := sampleCodec
  obtain ⟨sys, hreach, hrest, hwriter, f, hfile, hne⟩ := rests_of_run (C := Recorded)
    (P := fun sys => WriterAtRest sys.shared.server ∧ ∃ f ∈ sys.shared.server.file, f ≠ [])
    (.start (.conn 0) (.connect "ip") :: .start (.conn 1) (.connect "ip") ::
      handles 0 (message .create "s" "a" tokenOnes) 8 ++
      handles 1 (message .join "s" "b" tokenTwos) 5 ++ saves 3 1)
    (by decide +kernel)
  exact ⟨sys, f, hreach, hrest, hwriter, hfile, hne,
    (file_agrees_at_rest hreach hrest hwriter hfile fun _ => (0, 0)).1⟩

omit [TokenCodec] in
/-- The three ways in which the file is left behind.  A join under the host's name prunes
    the expired reservation of `b` and is refused.  A `create` reclaims the room of another
    owner and is refused for its quota.  A leave of `b` fails to persist; before it is
    rolled back, another write saves the room without `b`. -/
theorem file_disagrees_at_rest : letI : TokenCodec := sampleCodec
    (∃ sys : RelaySys, Reaches Always sys ∧ (∀ t, ∃ l, sys.threads t = .ret l) ∧
      WriterAtRest sys.shared.server ∧ ∃ f ∈ sys.shared.server.file,
        (∃ entry ∈ f, "b" ∈ entry.2.reservations.keys) ∧
        ∀ entry ∈ sys.shared.server.buildSnapshot fun _ => (0, 0),
          "b" ∉ entry.2.reservations.keys) ∧
    (∃ sys : RelaySys, Reaches Always sys ∧ (∀ t, ∃ l, sys.threads t = .ret l) ∧
      WriterAtRest sys.shared.server ∧ ∃ f ∈ sys.shared.server.file,
        (∃ entry ∈ f, entry.2.sessionId = "s") ∧
        ∀ entry ∈ sys.shared.server.buildSnapshot fun _ => (0, 0), entry.2.sessionId ≠ "s") ∧
    (∃ sys : RelaySys, Reaches Always sys ∧ (∀ t, ∃ l, sys.threads t = .ret l) ∧
      WriterAtRest sys.shared.server ∧ ∃ f ∈ sys.shared.server.file,
        (∀ entry ∈ f, "b" ∉ entry.2.reservations.keys) ∧
        ∃ entry ∈ sys.shared.server.buildSnapshot fun _ => (0, 0),
          "b" ∈ entry.2.reservations.keys) := by
  let _ : TokenCodec := sampleCodec
  refine ⟨?_, ?_, ?_⟩
  · exact rests_of_run
      ((List.range 3).map (fun k => .start (.conn k) (.connect "ip")) ++
        handles 0 (message .create "s" "a" tokenOnes) 8 ++
        handles 1 (message .join "s" "b" tokenTwos) 5 ++
        .start (.conn 1) .hangup :: acts (.conn 1) 3 ++ saves 4 1 ++
        handles 2 (message .join "s" "a" tokenTwos) 1 ++
        .act (.conn 2) { instants := fun _ => PEER_RESERVATION_GRACE } :: acts (.conn 2) 1)
      (by decide +kernel)
  · exact rests_of_run
      (.start (.conn 0) (.connect "home") ::
        (List.range 4).map (fun k => .start (.conn (k + 1)) (.connect "ip")) ++
        handles 0 (message .create "s" "a" tokenOnes) 8 ++
        .start (.conn 0) .hangup :: acts (.conn 0) 2 ++
        handles 1 (message .create "t" "a" tokenTwos) 8 ++
        handles 2 (message .create "u" "a" tokenTwos) 8 ++
        handles 3 (message .create "v" "a" tokenTwos) 8 ++ saves 9 4 ++
        handles 4 (message .create "s" "a" tokenTwos) 11)
      (by decide +kernel)
  · exact rests_of_run
      ((List.range 2).map (fun k => .start (.conn k) (.connect "ip")) ++
        handles 0 (message .create "s" "a" tokenOnes) 8 ++
        handles 1 (message .join "s" "b" tokenTwos) 5 ++
        handles 1 (message .leave "s" "b" tokenTwos) 2 ++
        writes [.recv, .recv, .recv, .recv, .collect, .capture fun _ => (0, 0), .persist false,
          .resolve, .resolve] ++ saves 0 1 ++ acts (.conn 1) 3)
      (by decide +kernel)

end PlezyRelay
