/-
  PlezyRelay/DeliveryOrder.lean
  =============================
  **In which order the clients hear of changes.**

  A section changes the room under its lock; what it has to tell is put on the channels
  afterwards, by the task that ran it, when other tasks may already have run sections of
  their own.  Each message on a channel can be traced back to its section: a task delivers
  in the order of its own sections (`relay_dutiful`), so its `n`-th message is the `n`-th
  one that its sections decided.  `deliveries` does this for all tasks, on the history of
  the relay, where sections and deliveries are numbered as they happen.

  By design nothing keeps two tasks from overtaking each other in between, and a client
  can be told of a newer change before an older one (`departure_heard_after_return`).  What
  is kept is the order of each task's own changes, and of any two changes of different
  tasks unless the newer one was made while the message of the older one was waiting.
-/
import PlezyRelay.Foundation.Matching
import PlezyRelay.EffectDelivery

namespace PlezyRelay

/-! ### Messages and their sections -/

/-- The sections of a task bring it duties, and its other actions carry them out. -/
def deliveries : Book Event Tid Duty where
  owner := Event.thread
  asks := Event.decides
  pays ev := ev.act.discharges

/-- A roster-changing message for one channel. -/
def Duty.isRosterFor (tx : Sender) : Duty → Bool
  | .tell o => o.tx == tx && o.msg.isRoster
  | .cancel _ => false

/-- The roster-changing messages on a channel with the sections that decided them, in the
    order in which they were put there. -/
def rosterNews (tx : Sender) (h : List Event) : List (Match Tid Duty) :=
  (deliveries.matched h).filter fun m => m.duty.isRosterFor tx

/-! ### Tasks deliver in the order of their sections -/

theorem deliveries_paid (t : Tid) (h : List Event) :
    deliveries.paid t h = (dutiesOf t).paid (record t h) := by
  induction h with
  | nil => rfl
  | cons ev past ih =>
      rw [Book.paid, ih]
      by_cases ht : ev.thread = t
      · subst ht
        simp [record, Obligations.paid, deliveries, dutiesOf]
      · simp [record, deliveries, ht]

theorem deliveries_asked (t : Tid) (h : List Event) :
    (deliveries.asked t h).map Prod.snd = (dutiesOf t).asked (record t h) := by
  induction h with
  | nil => rfl
  | cons ev past ih =>
      rw [Book.asked, List.map_append, ih]
      by_cases ht : ev.thread = t
      · subst ht
        simp [record, Obligations.asked, deliveries, dutiesOf, Event.decides, Function.comp_def]
      · simp [record, deliveries, ht]

theorem punctual_of_due {h : List Event}
    (hdue : ∀ t, EachAfter (fun earlier d => (dutiesOf t).Due earlier d.1) (record t h)) :
    deliveries.Punctual h := by
  induction h with
  | nil => trivial
  | cons ev past ih =>
      refine ⟨?_, ih fun t => ?_⟩
      · have hev := hdue ev.thread
        rw [record, List.filter_cons_of_pos (by simp), List.map_cons] at hev
        show deliveries.paid ev.thread past ++ ev.act.discharges <+:
          (deliveries.asked ev.thread past).map Prod.snd
        rw [deliveries_paid, deliveries_asked]
        exact hev.1
      · have ht := hdue t
        by_cases hev : ev.thread = t
        · rw [record, List.filter_cons_of_pos (by simp [hev]), List.map_cons] at ht
          exact ht.2
        · rwa [record, List.filter_cons_of_neg (by simp [hev])] at ht

variable [TokenCodec]

theorem relay_punctual {C : RelaySys → RelayLabel → Prop} {sys : RelaySys} (h : Reaches C sys) :
    deliveries.Punctual sys.shared.history :=
  punctual_of_due fun t => (relay_dutiful h t).1

/-! ### What is on the channels -/

/-- What an action hands to a channel. -/
def Act.sends : Act → List Outbound
  | .send tx msg => [⟨tx, msg⟩]
  | _ => []

theorem relay_sent {C : RelaySys → RelayLabel → Prop} {sys : RelaySys} (h : Reaches C sys) :
    sys.shared.server.sent = sys.shared.history.reverse.flatMap fun ev => ev.act.sends := by
  refine @relay_rule _ C
    (fun w => w.server.sent = w.history.reverse.flatMap fun ev => ev.act.sends) sys h ?_ ?_ ?_
  · intro sys hsys
    obtain ⟨heap, rooms, quota, hshared⟩ := hsys.shared_eq
    rw [hshared]
    rfl
  · intro t a e w x w' _ _ _ ih hx
    rw [World.did_history hx, List.reverse_cons, List.flatMap_append, List.flatMap_singleton, ← ih]
    obtain ⟨s', hs, rfl⟩ := World.did_iff.mp hx
    cases a with
    | send tx msg =>
        cases hs
        rfl
    | _ =>
        cases Server.exec_moves hs <;> exact (List.append_nil _).symm
  · intro m w w' ih hm
    obtain ⟨hserver, hhistory⟩ := World.writerStep_iff.mp hm
    obtain ⟨_, _, _, _, _, _, _, hsent⟩ := Server.writerStep_frame hserver
    rw [hhistory, hsent]
    exact ih

omit [TokenCodec] in
theorem ServerMessage.isAnswer_of_isRoster {msg : ServerMessage} (h : msg.isRoster = true) :
    msg.isAnswer = false := by
  cases htype : msg.msgType <;> simp_all [ServerMessage.isRoster, ServerMessage.isAnswer]

omit [TokenCodec] in
/-- The roster-changing messages among what an action carries out. -/
theorem Act.filter_discharges (a : Act) (tx : Sender) :
    a.discharges.filter (Duty.isRosterFor tx) =
      ((heard tx a.sends).filter ServerMessage.isRoster).map fun msg => .tell ⟨tx, msg⟩ := by
  cases a with
  | send tx' msg =>
      by_cases htx : tx' = tx
      · subst htx
        cases hroster : msg.isRoster with
        | true =>
            simp [Act.discharges, Act.sends, heard, Outbound.duties, Duty.isRosterFor, hroster,
              ServerMessage.isAnswer_of_isRoster hroster]
        | false =>
            simp only [Act.discharges, Act.sends, heard, Outbound.duties]
            split <;> simp [Duty.isRosterFor, hroster]
      · simp only [Act.discharges, Act.sends, heard, Outbound.duties]
        split <;> simp [Duty.isRosterFor, htx]
  | _ => rfl

/-- Nothing is left out: the messages in `rosterNews` are those on the channel. -/
theorem rosterNews_heard {C : RelaySys → RelayLabel → Prop} {sys : RelaySys} (h : Reaches C sys)
    (tx : Sender) : (rosterNews tx sys.shared.history).map Match.duty =
      ((heard tx sys.shared.server.sent).filter ServerMessage.isRoster).map
        fun msg => .tell ⟨tx, msg⟩ := by
  have hduties : (rosterNews tx sys.shared.history).map Match.duty =
      (sys.shared.history.reverse.flatMap fun ev => ev.act.discharges).filter
        (Duty.isRosterFor tx) := by
    have hall : (deliveries.matched sys.shared.history).map Match.duty =
        sys.shared.history.reverse.flatMap fun ev => ev.act.discharges :=
      (relay_punctual h).matched_duty
    rw [rosterNews, ← hall, List.filter_map]
    rfl
  rw [hduties, relay_sent h]
  generalize sys.shared.history.reverse = events
  induction events with
  | nil => rfl
  | cons ev events ih =>
      rw [List.flatMap_cons, List.filter_append, ih, Act.filter_discharges, List.flatMap_cons]
      simp [heard]

/-! ### The result -/

/-- **What is kept of the order of changes.**  On every channel, and in every interleaving of
    the tasks:

      * each roster-changing message was decided by a section that its task had run before;
      * of any two of them, the one put there first tells of the earlier change, unless they
        are of two tasks and its section ran while the other message was waiting;
      * and whatever channels they go to, a task's messages are in the order of its
        sections. -/
theorem changes_heard_in_turn {C : RelaySys → RelayLabel → Prop} {sys : RelaySys}
    (h : Reaches C sys) :
    (∀ tx, (rosterNews tx sys.shared.history).map Match.duty =
        ((heard tx sys.shared.server.sent).filter ServerMessage.isRoster).map
          (fun msg => .tell ⟨tx, msg⟩) ∧
      (∀ m ∈ rosterNews tx sys.shared.history, m.asked < m.paid ∧
        ∃ ev, sys.shared.history.reverse[m.asked]? = some ev ∧ ev.thread = m.owner ∧
          m.duty ∈ ev.decides) ∧
      (rosterNews tx sys.shared.history).Pairwise Match.InTurn) ∧
    (deliveries.matched sys.shared.history).Pairwise
      fun a b => a.owner = b.owner → a.asked ≤ b.asked := by
  have hturn := deliveries.matched_inTurn sys.shared.history
  refine ⟨fun tx => ⟨rosterNews_heard h tx, ?_, hturn.filter _⟩, hturn.imp ?_⟩
  · intro m hm
    have hmatched := (List.mem_filter.mp hm).1
    exact ⟨(Book.placed_of_matched hmatched).1, Book.event_of_matched hmatched⟩
  · rintro a b (hle | ⟨hne, _⟩) howner
    · exact hle
    · exact absurd howner hne

/-- A host, and two guests who join one after the other. -/
def twoGuests : List RelayLabel :=
  .start (.conn 0) (.connect "ip") :: .start (.conn 1) (.connect "ip") ::
    .start (.conn 2) (.connect "ip") :: handles 0 (message .create "s" "a" tokenOnes) 8 ++
    handles 1 (message .join "s" "b" tokenTwos) 5 ++ handles 2 (message .join "s" "d" tokenTwos) 6

omit [TokenCodec] in
theorem changes_heard_in_turn_with_twoGuests : letI : TokenCodec := sampleCodec
    ∃ sys, Reaches Always sys ∧ (rosterNews 0 sys.shared.history).length = 3 ∧
      (rosterNews 0 sys.shared.history).Pairwise Match.InTurn := by
  let _ : TokenCodec := sampleCodec
  obtain ⟨sys, h, hnews⟩ := reaches_of_run (C := Always)
    (P := fun sys => (rosterNews 0 sys.shared.history).length = 3) twoGuests (by decide +kernel)
  exact ⟨sys, h, hnews, ((changes_heard_in_turn h).1 0).2.2⟩

/-- The socket of the guest drops; its task has not told the host yet when the guest resumes
    on a new socket, whose task tells the host at once. -/
def quickReturn : List RelayLabel :=
  .start (.conn 0) (.connect "ip") :: .start (.conn 1) (.connect "ip") ::
    .start (.conn 2) (.connect "ip") :: handles 0 (message .create "s" "a" tokenOnes) 8 ++
    handles 1 (message .join "s" "b" tokenTwos) 5 ++
    .start (.conn 1) .hangup :: acts (.conn 1) 1 ++
    handles 2 (message .resume "s" "b" tokenTwos) 5 ++ acts (.conn 1) 2

omit [TokenCodec] in
/-- The host hears of the return first and of the departure after it. -/
theorem departure_heard_after_return : letI : TokenCodec := sampleCodec
    ∃ sys, Reaches Always sys ∧ (∀ t, ∃ l, sys.threads t = .ret l) ∧
      ((heard 0 sys.shared.server.sent).filter ServerMessage.isRoster).drop 1 =
        [peerJoined "b", peerJoined "b", peerLeft "b"] ∧
      ¬(rosterNews 0 sys.shared.history).Pairwise fun a b => a.asked ≤ b.asked := by
  let _ : TokenCodec := sampleCodec
  exact rests_of_run (C := Always) (P := fun sys =>
    ((heard 0 sys.shared.server.sent).filter ServerMessage.isRoster).drop 1 =
        [peerJoined "b", peerJoined "b", peerLeft "b"] ∧
      ¬(rosterNews 0 sys.shared.history).Pairwise fun a b => a.asked ≤ b.asked) quickReturn
    (by decide +kernel)

end PlezyRelay
