/-
  PlezyRelay/EffectDelivery.lean
  ==============================
  **What the rooms decide is carried out, once and in order.**

  A section of a room sends nothing itself.  It returns `Effects`: a reply, messages for
  other connections and tokens to cancel.  The task that ran the section carries them out
  afterwards, without any lock, while others run sections of the same room; for a leave and
  an end of session it waits for the writer before its second section, and the sweep goes
  from room to room.

    * `applyEffects_settles`, `create_owes`, `leave_owes`, `endSession_owes`,
      `sweep_settles`: what each program still has to carry out when it returns;
    * `effects_carried_out`: at any time a task has carried out a beginning of what its
      sections decided, and all of it when it waits for the next request; and no task sends
      or cancels anything else.

  To send is to call `try_send`: a channel that is full may still refuse the message
  (see `Sockets`).  Errors and pongs are left aside: handlers also send them of their
  own accord.
-/
import PlezyRelay.Foundation.Obligations
import PlezyRelay.TaskRecords

namespace PlezyRelay

/-! ### Duties -/

/-- What `apply_effects` has to do. -/
inductive Duty where
  | tell (o : Outbound)
  | cancel (token : CancellationToken)
deriving DecidableEq

/-- A message is a duty unless it is a plain answer. -/
def Outbound.duties (o : Outbound) : List Duty := if o.msg.isAnswer then [] else [.tell o]

/-- The duties of a task with this channel, in the order of `apply_effects`. -/
def Effects.duties (e : Effects) (channel : Option Sender) : List Duty :=
  (e.deliveries channel).flatMap Outbound.duties ++ e.evict.map .cancel

/-- The channel of a connection's task. -/
def Tid.channel : Tid → Option Sender
  | .conn k => some k
  | _ => none

/-- The duties an action carries out. -/
def Act.discharges : Act → List Duty
  | .send tx msg => Outbound.duties ⟨tx, msg⟩
  | .cancel token => [.cancel token]
  | _ => []

/-- What the sections of a task ask of it, and what it does about it. -/
def dutiesOf (t : Tid) : Obligations Act Act.Resp Duty where
  asks a x := (a.effects x).duties t.channel
  pays := Act.discharges

theorem duties_none (channel : Option Sender) : ({} : Effects).duties channel = [] := by
  cases channel <;> rfl

theorem duties_error (err : ClientError) (text : String) (channel : Option Sender) :
    (Effects.error err text).duties channel = [] := by
  cases channel with
  | none => rfl
  | some tx =>
      simp [Effects.duties, Effects.deliveries, Effects.error, Outbound.duties,
        isAnswer_intoMessage]

/-- Actions that neither decide nor carry out anything. -/
def Act.isIndifferent : Act → Bool
  | .send .. | .cancel _ | .newRoom .. => false
  | .room _ op =>
      match op with
      | .isIdempotent .. | .isReclaimable | .markClosing | .ownerIpKey => true
      | _ => false
  | _ => true

theorem idle_of_isIndifferent {t : Tid} {a : Act} (h : a.isIndifferent = true) :
    (dutiesOf t).Idle a where
  pays := by
    cases a with
    | send | cancel => cases h
    | _ => rfl
  asks x := by
    cases a with
    | send | cancel | newRoom => cases h
    | room r op =>
        cases op with
        | isIdempotent | isReclaimable | markClosing | ownerIpKey => exact duties_none _
        | _ => cases h
    | _ => exact duties_none _

/-- The program goes on after such an action. -/
theorem indifferent_step {t : Tid} {past : List Done} {todo : List Duty} {α : Type} {a : Act}
    {k : a.Resp → Task α} {Q : List Done → α → Prop} (ha : a.isIndifferent = true)
    (h : (dutiesOf t).Owes todo past)
    (hk : ∀ r past, (dutiesOf t).Owes todo past → (k r).Obeys (dutiesOf t).Due Q past) :
    (Proc.act a k).Obeys (dutiesOf t).Due Q past :=
  Obligations.obeys_idle (idle_of_isIndifferent ha) h hk

theorem isIndifferent_of_isSnapshot {a : Act} (h : a.isSnapshot = true) : a.isIndifferent = true := by
  cases a with
  | sendTerminal | awaitReply | sendFlush | awaitFlush => rfl
  | _ => cases h

/-! ### The programs -/

section Programs

variable {t : Tid} {past : List Done} {todo : List Duty}

theorem settles_indifferent {α : Type} {p : Task α} (hp : p.All fun a => a.isIndifferent = true)
    (h : (dutiesOf t).Owes todo past) :
    p.Obeys (dutiesOf t).Due (fun past _ => (dutiesOf t).Owes todo past) past :=
  Obligations.obeys_of_idle (hp.mono fun _ => idle_of_isIndifferent) h

theorem settles_send {tx : Sender} {msg : ServerMessage}
    (h : (dutiesOf t).Owes (Outbound.duties ⟨tx, msg⟩ ++ todo) past) :
    (perform (.send tx msg)).Obeys (dutiesOf t).Due
      (fun past _ => (dutiesOf t).Owes todo past) past :=
  Obligations.obeys_perform (fun _ => duties_none _) h

theorem settles_cancels {tokens : List CancellationToken}
    (h : (dutiesOf t).Owes (tokens.map .cancel ++ todo) past) :
    (Proc.forEach (fun token => perform (.cancel token)) tokens).Obeys (dutiesOf t).Due
      (fun past _ => (dutiesOf t).Owes todo past) past := by
  apply Obligations.obeys_forEach (fun token todo past h => ?_)
  · rw [List.map_eq_flatMap] at h
    exact h
  · exact Obligations.obeys_perform (fun _ => duties_none _) h

/-- `apply_effects` carries out everything. -/
theorem applyEffects_settles {tx : Sender} {effects : Effects}
    (h : (dutiesOf t).Owes (effects.duties (some tx)) past) :
    (applyEffects tx effects).Obeys (dutiesOf t).Due
      (fun past _ => (dutiesOf t).Owes [] past) past := by
  have hall : effects.duties (some tx) =
      effects.reply.toList.flatMap (fun reply => Outbound.duties ⟨tx, reply⟩) ++
        (effects.broadcast.flatMap Outbound.duties ++ (effects.evict.map .cancel ++ [])) := by
    cases hreply : effects.reply <;> simp [Effects.duties, Effects.deliveries, hreply]
  rw [hall] at h
  apply Proc.Obeys.bind (Obligations.obeys_forEach (fun reply todo past h => settles_send h) h)
  intro _ past h
  apply Proc.Obeys.bind (Obligations.obeys_forEach (fun o todo past h => settles_send h) h)
  intro _ past h
  apply Proc.Obeys.bind (settles_cancels h)
  intro _ past h
  exact settles_indifferent (Proc.All.when ⟨rfl, fun _ => trivial⟩) h

/-- The program leaves its task with the duties of the effects it returns. -/
abbrev Owing (t : Tid) (past : List Done) (effects : Effects) : Prop :=
  (dutiesOf t).Owes (effects.duties t.channel) past

theorem Owing.error (h : (dutiesOf t).Owes [] past) (err : ClientError) (text : String) :
    Owing t past (Effects.error err text) := by
  rw [Owing, duties_error]
  exact h

theorem createFresh_owes {sid host : String} {v : Verifier} {token key : String}
    {admission : Admission} (h : (dutiesOf t).Owes [] past) :
    (Registry.createFresh sid host v token key admission).Obeys (dutiesOf t).Due
      (fun past x => Owing t past x.2) past := by
  apply indifferent_step rfl h
  intro n past h
  change Proc.Obeys _ _ (if MAX_RETAINED_ROOMS ≤ n then _ else _) _
  split
  · apply indifferent_step rfl h
    intro _ past h
    exact Owing.error h ..
  · apply indifferent_step rfl h
    intro claimed past h
    cases claimed with
    | false =>
        apply indifferent_step rfl h
        intro _ past h
        exact Owing.error h ..
    | true =>
        apply Obligations.obeys_ask rfl h
        intro made past h
        apply indifferent_step rfl h
        intro _ past h
        apply indifferent_step rfl h
        intro _ past h
        exact h

/-- The old room is closed and taken out of the table before the new one is made. -/
theorem createReclaim_owes {existing : RoomId} {sid host : String} {v : Verifier}
    {token key : String} {admission : Admission} (h : (dutiesOf t).Owes [] past) :
    (Registry.createReclaim existing sid host v token key admission).Obeys (dutiesOf t).Due
      (fun past x => Owing t past x.2) past := by
  apply indifferent_step rfl h
  intro owner past h
  apply indifferent_step rfl h
  intro _ past h
  apply indifferent_step rfl h
  intro _ past h
  apply indifferent_step rfl h
  intro _ past h
  exact createFresh_owes h

theorem create_owes [TokenCodec] {sid host token key : String} {admission : Admission}
    (h : (dutiesOf t).Owes [] past) :
    (Registry.create sid host token key admission).Obeys (dutiesOf t).Due
      (fun past x => Owing t past x.2) past := by
  unfold Registry.create
  split
  · exact Owing.error h ..
  · apply indifferent_step rfl h
    intro found past h
    cases found with
    | none => exact createFresh_owes h
    | some existing =>
        apply indifferent_step rfl h
        intro idempotent past h
        cases idempotent with
        | true =>
            apply Obligations.obeys_ask rfl h
            intro effects past h
            apply indifferent_step rfl h
            intro _ past h
            apply indifferent_step rfl h
            intro _ past h
            exact h
        | false =>
            apply indifferent_step rfl h
            intro reclaimable past h
            cases reclaimable with
            | false =>
                apply indifferent_step rfl h
                intro _ past h
                exact Owing.error h ..
            | true => exact createReclaim_owes h

/-- While a task waits for the writer its duties stay as they are. -/
theorem recordTerminalMutation_settles (h : (dutiesOf t).Owes todo past) :
    recordTerminalMutation.Obeys (dutiesOf t).Due
      (fun past _ => (dutiesOf t).Owes todo past) past :=
  settles_indifferent (recordTerminalMutation_all.mono fun _ => isIndifferent_of_isSnapshot) h

/-- One section, whose effects are handed on as they are. -/
theorem section_owes {r : RoomId} {op : RoomOp} (h : (dutiesOf t).Owes [] past) :
    (perform (.room r op)).Obeys (dutiesOf t).Due
      (fun past x => Owing t past (op.outcome x)) past := by
  apply Obligations.obeys_ask rfl h
  intro x past h
  exact h

theorem leave_owes (r : RoomId) (p : String) (c : Nat) (token : String) (version : Nat)
    (h : (dutiesOf t).Owes [] past) :
    (Room.leave r p c token version).Obeys (dutiesOf t).Due (Owing t) past := by
  apply Obligations.obeys_ask rfl h
  intro begun past h
  cases begun with
  | error effects => exact h
  | ok _ =>
      have hnone : (dutiesOf t).Owes [] past := by
        rwa [show (dutiesOf t).asks (.room r (.beginLeave p c token version)) (.ok ()) = [] from
          duties_none _] at h
      apply Proc.Obeys.bind (recordTerminalMutation_settles hnone)
      intro persisted past h
      exact section_owes h

theorem endSession_owes (r : RoomId) (p : String) (c : Nat) (token : String) (version : Nat)
    (h : (dutiesOf t).Owes [] past) :
    (Registry.endSession r p c token version).Obeys (dutiesOf t).Due (Owing t) past := by
  apply Obligations.obeys_ask rfl h
  intro begun past h
  cases begun with
  | error effects => exact h
  | ok closed =>
      have hnone : (dutiesOf t).Owes [] past := by
        rwa [show (dutiesOf t).asks (.room r (.beginEndSession p c token version)) (.ok closed) = []
          from duties_none _] at h
      apply indifferent_step rfl hnone
      intro _ past h
      apply indifferent_step rfl h
      intro _ past h
      apply Proc.Obeys.bind (recordTerminalMutation_settles h)
      intro persisted past h
      exact section_owes h

/-- The sweep is done with the tokens of a room before it comes to the next. -/
theorem sweepOne_settles (now : SystemTime) (r : RoomId) (h : (dutiesOf t).Owes [] past) :
    (sweepOne now r).Obeys (dutiesOf t).Due (fun past _ => (dutiesOf t).Owes [] past) past := by
  apply Obligations.obeys_ask rfl h
  rintro ⟨remove, changed, evict⟩ past h
  have hevict : (dutiesOf t).asks (.room r (.sweep now)) (remove, changed, evict) =
      evict.map .cancel ++ [] := by
    cases t <;> simp [dutiesOf, Act.effects, RoomOp.outcome, Effects.duties, Effects.deliveries]
  rw [hevict] at h
  have hcurrent : (Registry.removeIfCurrent r).All fun a => a.isIndifferent = true :=
    removeIfCurrent_all rfl rfl fun _ => rfl
  have hremoval : (Proc.when remove do let _ ← Registry.removeIfCurrent r; pure ()).All
      fun a => a.isIndifferent = true := Proc.All.when (hcurrent.bind fun _ => trivial)
  apply Proc.Obeys.bind (settles_indifferent hremoval h)
  intro _ past h
  have hnote : (Proc.when changed (perform .recordMutation)).All fun a => a.isIndifferent = true :=
    Proc.All.when ⟨rfl, fun _ => trivial⟩
  apply Proc.Obeys.bind (settles_indifferent hnote h)
  intro _ past h
  exact settles_cancels h

theorem sweep_settles (now : SystemTime) (h : (dutiesOf t).Owes [] past) :
    (sweep now).Obeys (dutiesOf t).Due (fun past _ => (dutiesOf t).Owes [] past) past := by
  apply indifferent_step rfl h
  intro rooms past h
  exact Proc.Obeys.forEach (fun r _ past h => sweepOne_settles now r h) h

/-! ### The handlers of a connection -/

variable (con : Connection)

/-- At the end of a handler nothing is open, and the locals name the task's own channel. -/
def Unburdened (t : Tid) (past : List Done) (con : Connection) : Prop :=
  (dutiesOf t).Owes [] past ∧ t = .conn con.tx

variable {con}

theorem settles_answer {reply : ServerMessage} (h : Unburdened t past con)
    (hreply : reply.isAnswer = true) :
    (con.answer reply).Obeys (dutiesOf t).Due (Unburdened t) past := by
  have hnone : (dutiesOf t).Owes (Outbound.duties ⟨con.tx, reply⟩ ++ []) past := by
    rw [Outbound.duties, if_pos hreply]
    exact h.1
  apply Proc.Obeys.bind (settles_send hnone)
  intro _ past' h'
  exact ⟨h', h.2⟩

/-- The end of a handler: it carries out the effects and keeps its channel. -/
theorem settles_deliver {con' : Connection} {effects : Effects} (ht : t = .conn con.tx)
    (h : Owing t past effects) (hcon : con'.tx = con.tx) :
    (do applyEffects con.tx effects; pure con' : Task Connection).Obeys (dutiesOf t).Due
      (Unburdened t) past := by
  subst ht
  apply Proc.Obeys.bind (applyEffects_settles h)
  intro _ past' h'
  refine ⟨h', ?_⟩
  rw [hcon]

theorem settles_handleCreate [TokenCodec] (msg : ClientMessage) (h : Unburdened t past con) :
    (con.handleCreate msg).Obeys (dutiesOf t).Due (Unburdened t) past := by
  unfold Connection.handleCreate
  split
  · exact settles_answer h (isAnswer_intoMessage ..)
  · split
    · exact settles_answer h (by decide)
    · apply Proc.Obeys.bind (create_owes h.1)
      rintro ⟨room, effects⟩ past' h'
      exact settles_deliver h.2 h' (entered_tx con msg room effects)

theorem settles_handleJoin (msg : ClientMessage) (resumeOnly : Bool) (h : Unburdened t past con) :
    (con.handleJoin msg resumeOnly).Obeys (dutiesOf t).Due (Unburdened t) past := by
  unfold Connection.handleJoin
  split
  · exact settles_answer h (isAnswer_intoMessage ..)
  · split
    · exact settles_answer h (by decide)
    · apply indifferent_step rfl h.1
      intro found past' h'
      cases found with
      | none => exact settles_answer ⟨h', h.2⟩ (isAnswer_intoMessage ..)
      | some room =>
          apply Proc.Obeys.bind (section_owes h')
          intro effects past' h'
          exact settles_deliver h.2 h' (entered_tx con msg (some room) effects)

theorem settles_inCurrentRoom {op : RoomId → Task Effects} (h : Unburdened t past con)
    (hop : ∀ room, (op room).Obeys (dutiesOf t).Due (Owing t) past) :
    (con.inCurrentRoom op).Obeys (dutiesOf t).Due (Unburdened t) past := by
  unfold Connection.inCurrentRoom
  split
  · exact settles_answer h (isAnswer_intoMessage ..)
  · apply Proc.Obeys.bind (hop _)
    intro effects past' h'
    exact settles_deliver h.2 h' rfl

theorem settles_inCurrentRoomTo {msg : ClientMessage} {op : RoomId → Task Effects}
    (h : Unburdened t past con) (hop : ∀ room, (op room).Obeys (dutiesOf t).Due (Owing t) past) :
    (con.inCurrentRoomTo msg op).Obeys (dutiesOf t).Due (Unburdened t) past := by
  unfold Connection.inCurrentRoomTo
  split
  · exact settles_answer h (isAnswer_intoMessage ..)
  · split
    · exact settles_answer h (isAnswer_intoMessage ..)
    · exact settles_inCurrentRoom h hop

theorem settles_handleLeave (msg : ClientMessage) (h : Unburdened t past con) :
    (con.handleLeave msg).Obeys (dutiesOf t).Due (Unburdened t) past := by
  unfold Connection.handleLeave
  split
  · exact settles_answer h (isAnswer_intoMessage ..)
  · apply Proc.Obeys.bind (leave_owes _ _ _ _ _ h.1)
    intro effects past' h'
    apply settles_deliver h.2 h'
    split <;> rfl

theorem settles_handleEndSession (msg : ClientMessage) (h : Unburdened t past con) :
    (con.handleEndSession msg).Obeys (dutiesOf t).Due (Unburdened t) past := by
  unfold Connection.handleEndSession
  split
  · exact settles_answer h (isAnswer_intoMessage ..)
  · apply Proc.Obeys.bind (endSession_owes _ _ _ _ _ h.1)
    intro effects past' h'
    exact settles_deliver h.2 h' rfl

theorem settles_fromOutside {handler : Task Connection} (h : Unburdened t past con)
    (hhandler : handler.Obeys (dutiesOf t).Due (Unburdened t) past) :
    (con.fromOutside handler).Obeys (dutiesOf t).Due (Unburdened t) past := by
  unfold Connection.fromOutside
  split
  · exact settles_answer h (isAnswer_intoMessage ..)
  · exact hhandler

theorem settles_handleMessage [TokenCodec] (msg : ClientMessage) (h : Unburdened t past con) :
    (con.handleMessage msg).Obeys (dutiesOf t).Due (Unburdened t) past := by
  unfold Connection.handleMessage
  split
  · exact settles_answer h (by decide)
  · exact settles_fromOutside h (settles_handleCreate msg h)
  · exact settles_fromOutside h (settles_handleJoin msg false h)
  · exact settles_fromOutside h (settles_handleJoin msg true h)
  · exact settles_handleLeave msg h
  · exact settles_handleEndSession msg h
  · exact settles_inCurrentRoomTo h fun _ => section_owes h.1
  · exact settles_inCurrentRoom h fun _ => section_owes h.1
  · exact settles_inCurrentRoomTo h fun _ => section_owes h.1
  · exact settles_answer h (isAnswer_intoMessage ..)

theorem settles_handleFrame [TokenCodec] (f : Frame) (h : Unburdened t past con) :
    (con.handleFrame f).Obeys (dutiesOf t).Due (Unburdened t) past := by
  cases f with
  | ignored => exact h
  | limited | malformed => exact settles_answer h (isAnswer_intoMessage ..)
  | message msg => exact settles_handleMessage msg h

theorem settles_exit (h : Unburdened t past con) :
    con.exit.Obeys (dutiesOf t).Due (fun past _ => (dutiesOf t).Owes [] past) past := by
  unfold Connection.exit
  split
  · exact h.1
  · split
    · exact h.1
    · apply Proc.Obeys.bind (section_owes h.1)
      intro effects past' h'
      obtain ⟨_, rfl⟩ := h
      exact applyEffects_settles h'

end Programs

/-! ### Every task, in every reachable state -/

variable [TokenCodec]

theorem settles_start {t : Tid} {q : Request} {l : Local} {p : Task Local} {past : List Done}
    (howes : (dutiesOf t).Owes [] past) (hl : OwnLocals t past l)
    (hp : relay.start t q l = some p) :
    p.Obeys (dutiesOf t).Due (fun past l => (dutiesOf t).Owes [] past ∧ OwnLocals t past l)
      past := by
  simp only [relay, Request.start] at hp
  split at hp
  · cases hp
    exact ⟨howes, rfl⟩
  · cases hp
    apply Proc.Obeys.bind (settles_handleFrame _ ⟨howes, hl⟩)
    intro con past' h
    exact h
  · cases hp
    apply Proc.Obeys.bind (settles_exit ⟨howes, hl⟩)
    intro _ past' h
    exact ⟨h, trivial⟩
  · cases hp
    apply Proc.Obeys.bind (sweep_settles _ howes)
    intro _ past' h
    exact ⟨h, trivial⟩
  · cases hp
    apply Proc.Obeys.bind (settles_indifferent
      (flushAndStop_all.mono fun _ => isIndifferent_of_isSnapshot) howes)
    intro _ past' h
    exact ⟨h, trivial⟩
  · cases hp

/-- Every task carries out what is next in line, and nothing else. -/
theorem relay_dutiful {C : RelaySys → RelayLabel → Prop} {sys : RelaySys} (h : Reaches C sys)
    (t : Tid) : Machine.Orderly (dutiesOf t).Due
      (fun past l => (dutiesOf t).Owes [] past ∧ OwnLocals t past l) (sys.threads t)
      (record t sys.shared.history) := by
  refine relay_traced.dutiful (L := dutiesOf) (Q := OwnLocals) ?_ ?_ h t
  · rintro _ ⟨file, now, clock, rfl⟩ t
    cases t <;> exact ⟨trivial, rfl, trivial⟩
  · intro t q l p past howes hl hp
    exact settles_start howes hl hp

/-- Each task for itself. -/
theorem relay_discharged {C : RelaySys → RelayLabel → Prop} {sys : RelaySys} (h : Reaches C sys)
    (t : Tid) :
    (dutiesOf t).paid (record t sys.shared.history) <+:
        (dutiesOf t).asked (record t sys.shared.history) ∧
      ∀ l, sys.threads t = .ret l → (dutiesOf t).paid (record t sys.shared.history) =
        (dutiesOf t).asked (record t sys.shared.history) :=
  (relay_dutiful h t).settled

/-! ### All tasks together -/

/-- What the section of an event has decided. -/
def Event.decides (ev : Event) : List Duty := (ev.act.effects ev.resp).duties ev.thread.channel

/-- The calls of `try_send`, whether or not the channel was full, and what was cancelled. -/
def World.output (w : World) : List Duty :=
  w.server.sent.flatMap Outbound.duties ++ w.server.cancelled.map .cancel

/-- Only the actions that carry out duties put anything out. -/
theorem World.did_output {t : Tid} {a : Act} {e : Env} {w w' : World} {x : a.Resp}
    (hx : Did t a e w x w') : w'.output.Perm (a.discharges ++ w.output) := by
  obtain ⟨s', hs, rfl⟩ := World.did_iff.mp hx
  cases a with
  | send tx msg =>
      cases hs
      simp only [World.output, Act.discharges, List.flatMap_append, List.flatMap_singleton]
      rw [← List.append_assoc]
      exact List.perm_append_comm.append_right _
  | cancel token =>
      cases hs
      simp only [World.output, Act.discharges, List.map_cons]
      exact List.perm_middle
  | _ =>
      cases Server.exec_moves hs <;> exact List.Perm.refl _

theorem relay_output {C : RelaySys → RelayLabel → Prop} {sys : RelaySys} (h : Reaches C sys) :
    sys.shared.output.Perm (sys.shared.history.flatMap fun ev => ev.act.discharges) := by
  refine @relay_rule _ C (fun w => w.output.Perm (w.history.flatMap fun ev => ev.act.discharges)) sys
    h ?_ ?_ ?_
  · intro sys hsys
    obtain ⟨heap, rooms, quota, hshared⟩ := hsys.shared_eq
    rw [hshared]
    exact List.Perm.refl _
  · intro t a e w x w' _ _ _ ih hx
    rw [World.did_history hx, List.flatMap_cons]
    exact (World.did_output hx).trans (ih.append_left _)
  · intro m w w' ih hm
    obtain ⟨hserver, hhistory⟩ := World.writerStep_iff.mp hm
    obtain ⟨_, _, _, _, hcancelled, _, _, hsent⟩ := Server.writerStep_frame hserver
    rw [hhistory]
    simpa only [World.output, hcancelled, hsent] using ih

omit [TokenCodec] in
/-- What a task has carried out, read off the history. -/
theorem discharges_perm (t : Tid) (h : List Event) :
    ((h.filter fun ev => decide (ev.thread = t)).flatMap fun ev => ev.act.discharges).Perm
      ((dutiesOf t).paid (record t h)) := by
  have hrecord : ((h.filter fun ev => decide (ev.thread = t)).flatMap fun ev => ev.act.discharges) =
      (record t h).flatMap fun d => (dutiesOf t).pays d.1 := by
    rw [record, List.flatMap_map]
    rfl
  rw [hrecord]
  exact ((dutiesOf t).paid_perm _).symm

omit [TokenCodec] in
/-- What a task was asked, read off the history. -/
theorem decides_perm (t : Tid) (h : List Event) :
    ((h.filter fun ev => decide (ev.thread = t)).flatMap Event.decides).Perm
      ((dutiesOf t).asked (record t h)) := by
  have hrecord : ((h.filter fun ev => decide (ev.thread = t)).flatMap Event.decides) =
      (record t h).flatMap fun d => (dutiesOf t).asks d.1 d.2 := by
    rw [record, List.flatMap_map]
    apply List.flatMap_congr
    intro ev hev
    obtain rfl := of_decide_eq_true (List.mem_filter.mp hev).2
    rfl
  rw [hrecord]
  exact ((dutiesOf t).asked_perm _).symm

/-- **What the rooms decide is carried out, once and in order.**  In every interleaving:

      * the `try_send` calls of a task and the tokens it has cancelled are, in order, the
        beginning of what its sections decided, and all of it when it is at rest;
      * those of all tasks together are no more, and nothing more often, than the sections
        have decided, and exactly that when every task is at rest. -/
theorem effects_carried_out {C : RelaySys → RelayLabel → Prop} {sys : RelaySys}
    (h : Reaches C sys) :
    (∀ t, (dutiesOf t).paid (record t sys.shared.history) <+:
        (dutiesOf t).asked (record t sys.shared.history) ∧
      ∀ l, sys.threads t = .ret l → (dutiesOf t).paid (record t sys.shared.history) =
        (dutiesOf t).asked (record t sys.shared.history)) ∧
    sys.shared.output.Subperm (sys.shared.history.flatMap Event.decides) ∧
    ((∀ t, ∃ l, sys.threads t = .ret l) →
      sys.shared.output.Perm (sys.shared.history.flatMap Event.decides)) := by
  have hcarried := relay_output h
  have hsub : (sys.shared.history.flatMap fun ev => ev.act.discharges).Subperm
      (sys.shared.history.flatMap Event.decides) := by
    apply List.Subperm.of_owners Event.thread
    intro t
    have hpaid := (relay_discharged h t).1.sublist.subperm
    exact ((discharges_perm t _).subperm.trans hpaid).trans (decides_perm t _).symm.subperm
  refine ⟨relay_discharged h, hcarried.subperm.trans hsub, ?_⟩
  intro hrest
  have hsup : (sys.shared.history.flatMap Event.decides).Subperm
      (sys.shared.history.flatMap fun ev => ev.act.discharges) := by
    apply List.Subperm.of_owners Event.thread
    intro t
    obtain ⟨l, hl⟩ := hrest t
    have hpaid := (relay_discharged h t).2 l hl
    have hdischarges := discharges_perm t sys.shared.history
    rw [hpaid] at hdischarges
    exact ((decides_perm t _).trans hdischarges.symm).subperm
  exact hcarried.trans (hsub.antisymm hsup)

/-- The host creates its room again on a second connection, and the first one is evicted. -/
def hostMoves : List RelayLabel :=
  .start (.conn 0) (.connect "ip") :: .start (.conn 1) (.connect "ip") ::
    handles 0 (message .create "s" "a" tokenOnes) 8 ++
    handles 1 (message .create "s" "a" tokenOnes) 8

omit [TokenCodec] in
theorem effects_carried_out_in_hostMoves : letI : TokenCodec := sampleCodec
    ∃ sys, Reaches Always sys ∧ (∀ t, ∃ l, sys.threads t = .ret l) ∧
      (sys.shared.server.sent.length = 2 ∧ sys.shared.server.cancelled ≠ []) ∧
      sys.shared.output.Perm (sys.shared.history.flatMap Event.decides) := by
  let _ : TokenCodec := sampleCodec
  obtain ⟨sys, h, hrest, hmoved⟩ := rests_of_run (C := Always) (P := fun sys =>
    sys.shared.server.sent.length = 2 ∧ sys.shared.server.cancelled ≠ []) hostMoves
    (by decide +kernel)
  exact ⟨sys, h, hrest, hmoved, (effects_carried_out h).2.2 hrest⟩

end PlezyRelay
