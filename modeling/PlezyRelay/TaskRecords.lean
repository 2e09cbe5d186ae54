/-
  PlezyRelay/TaskRecords.lean
  ===========================
  **What a task does is justified by what it has done before.**

  The history of a world contains the record of every task: its actions with their
  responses, latest first.  `Proper` is the rule the records follow:

    * a message goes to the task's own channel if it is a plain answer or the reply of one
      of its own sections, and to another channel only if one of its own sections asked
      for it;
    * a task admits nobody but its own connection, and under the peer id of the request;
      a room is created with the verifier of the token that was presented, the host is
      taken back after the identity test, and a join goes to the room that was found
      under the session id of the message;
    * the second half of an end of session gets the guests of its own first half.

  The rule is checked on the text of the handlers (`connection.rs`, `registry.rs`,
  `room.rs`, `cleanup.rs`) and holds of every task in every reachable state
  (`relay_proper`).
-/
import PlezyRelay.ClientViews
import PlezyRelay.RelaySafe
import PlezyRelay.Foundation.Discipline

namespace PlezyRelay

/-! ### Records -/

abbrev Done := Proc.Done Act Act.Resp

/-- The record of one task. -/
def record (t : Tid) (h : List Event) : List Done :=
  (h.filter fun ev => decide (ev.thread = t)).map fun ev => ⟨ev.act, ev.resp⟩

theorem mem_record {t : Tid} {h : List Event} {a : Act} {x : a.Resp} :
    (⟨a, x⟩ : Done) ∈ record t h ↔ ⟨t, a, x⟩ ∈ h := by
  simp only [record, List.mem_map, List.mem_filter, decide_eq_true_eq]
  constructor
  · rintro ⟨⟨u, b, y⟩, ⟨hev, rfl⟩, heq⟩
    cases heq
    exact hev
  · intro hev
    exact ⟨_, ⟨hev, rfl⟩, rfl⟩

/-- The effects an action has handed back to its task. -/
def Act.effects : (a : Act) → a.Resp → Effects
  | .newRoom .., (_, effects) => effects
  | .room _ op, x => op.outcome x
  | _, _ => {}

/-- An error or a pong, with nothing beside its code and text. -/
def ServerMessage.isAnswer (msg : ServerMessage) : Bool :=
  decide (msg.msgType = .error ∨ msg.msgType = .pong) &&
    decide (msg = { msgType := msg.msgType, protocolVersion := msg.protocolVersion,
                    code := msg.code, message := msg.message })

theorem isAnswer_intoMessage (err : ClientError) (text : String) :
    (err.intoMessage text).isAnswer = true := by
  simp [ServerMessage.isAnswer, ClientError.intoMessage, ServerMessage.error]

variable [TokenCodec]

theorem relay_traced : relay.Traced fun t w => record t w.history where
  own {t a e w x w'} hx := by
    rw [World.did_history (e := e) hx]
    simp [record]
  other {t u a e w x w'} hx hne := by
    rw [World.did_history (e := e) hx]
    simp [record, Ne.symm hne]
  ambient hm t := by rw [(World.writerStep_iff.mp hm).2]

/-! ### The rule -/

/-- What a task has done to be entitled to an action. -/
def Proper (t : Tid) (past : List Done) : Act → Prop
  | .send tx msg =>
      (t = .conn tx ∧ (msg.isAnswer = true ∨ ∃ d ∈ past, (d.1.effects d.2).reply = some msg)) ∨
        ∃ d ∈ past, ⟨tx, msg⟩ ∈ (d.1.effects d.2).broadcast
  | .newRoom _ hostPeerId hostVerifier token _ admission =>
      t = .conn admission.tx ∧ admission.peerId = hostPeerId ∧
        Verifier.fromToken token = some hostVerifier
  | .room r (.reconnectHost host token) =>
      t = .conn host.tx ∧ ∃ v, Verifier.fromToken token = some v ∧
        (⟨.room r (.isIdempotent host.peerId v), true⟩ : Done) ∈ past
  | .room r (.joinOrResume msg admission _) =>
      t = .conn admission.tx ∧ admission.peerId = msg.peerId ∧
        (⟨.getRoom msg.sessionId, some r⟩ : Done) ∈ past
  | .room r (.finishEndSession guests _) =>
      ∃ p c token version key,
        (⟨.room r (.beginEndSession p c token version), .ok (key, guests)⟩ : Done) ∈ past
  | _ => True

/-- The messages of `effects` come from the task's own sections, but for a plain answer. -/
structure Sourced (past : List Done) (effects : Effects) : Prop where
  reply : ∀ msg ∈ effects.reply, msg.isAnswer = true ∨
    ∃ d ∈ past, (d.1.effects d.2).reply = some msg
  broadcast : ∀ o ∈ effects.broadcast, ∃ d ∈ past, o ∈ (d.1.effects d.2).broadcast

namespace Sourced

omit [TokenCodec]

variable {past : List Done} {effects : Effects}

theorem error (err : ClientError) (text : String) : Sourced past (Effects.error err text) where
  reply msg hmsg := by
    obtain rfl := Option.some.inj hmsg
    exact Or.inl (isAnswer_intoMessage err text)
  broadcast o ho := by cases ho

theorem of_mem {a : Act} {x : a.Resp} (h : (⟨a, x⟩ : Done) ∈ past) :
    Sourced past (a.effects x) where
  reply _ hmsg := Or.inr ⟨_, h, hmsg⟩
  broadcast _ ho := ⟨_, h, ho⟩

theorem cons (h : Sourced past effects) (d : Done) : Sourced (d :: past) effects where
  reply msg hmsg := by
    rcases h.reply msg hmsg with hanswer | ⟨d', hd', hreply⟩
    · exact Or.inl hanswer
    · exact Or.inr ⟨d', List.mem_cons_of_mem d hd', hreply⟩
  broadcast o ho := by
    obtain ⟨d', hd', hmem⟩ := h.broadcast o ho
    exact ⟨d', List.mem_cons_of_mem d hd', hmem⟩

end Sourced

/-! ### The programs keep to it -/

section Programs

variable {t : Tid} {past : List Done}

/-- Actions that need no justification. -/
theorem proper_of_all {α : Type} {A : Act → Prop} {p : Task α} (hp : p.All A)
    (hA : ∀ past a, A a → Proper t past a) : p.Obeys (Proper t) (fun _ _ => True) past :=
  Proc.Obeys.of_all hp trivial (fun past a _ => hA past a) fun _ _ _ => trivial

theorem proper_snapshot {α : Type} {p : Task α} (hp : p.All fun a => a.isSnapshot = true) :
    p.Obeys (Proper t) (fun _ _ => True) past := by
  apply proper_of_all hp
  intro past a ha
  cases a <;> trivial

theorem proper_applyEffects {tx : Sender} {effects : Effects} (ht : t = .conn tx)
    (h : Sourced past effects) :
    (applyEffects tx effects).Obeys (Proper t) (fun _ _ => True) past := by
  apply Proc.Obeys.bind (Proc.Obeys.forEach (F := fun past => Sourced past effects) ?_ h)
  · intro _ past h
    apply Proc.Obeys.bind (Proc.Obeys.forEach (F := fun past => Sourced past effects) ?_ h)
    · intro _ past _
      apply Proc.Obeys.bind (Proc.Obeys.forEach (F := fun _ => True) ?_ trivial)
      · intro _ past _
        cases effects.dirty with
        | false => trivial
        | true => exact ⟨trivial, fun _ => trivial⟩
      · intro token _ past _
        exact ⟨trivial, fun _ => trivial⟩
    · intro o ho past h
      exact ⟨Or.inr (h.broadcast o ho), fun _ => h.cons _⟩
  · intro reply hreply past h
    exact ⟨Or.inl ⟨ht, h.reply reply (Option.mem_toList.mp hreply)⟩, fun _ => h.cons _⟩

theorem proper_act {α : Type} {Q : List Done → α → Prop} {a : Act} {k : a.Resp → Task α}
    (ha : Proper t past a) (hk : ∀ x, (k x).Obeys (Proper t) Q (⟨a, x⟩ :: past)) :
    Proc.Obeys (Proper t) Q (.act a k) past :=
  ⟨ha, hk⟩

theorem proper_createFresh {sid host : String} {v : Verifier} {token key : String}
    {admission : Admission} (ht : t = .conn admission.tx) (hpeer : admission.peerId = host)
    (hv : Verifier.fromToken token = some v) :
    (Registry.createFresh sid host v token key admission).Obeys (Proper t)
      (fun past x => Sourced past x.2) past := by
  refine proper_act trivial fun n => ?_
  rw [Proc.ret_bind]
  split
  · exact proper_act trivial fun _ => Sourced.error ..
  · refine proper_act trivial fun claimed => ?_
    cases claimed with
    | false => exact proper_act trivial fun _ => Sourced.error ..
    | true =>
        refine proper_act ⟨ht, hpeer, hv⟩ fun made => ?_
        refine proper_act trivial fun _ => ?_
        refine proper_act trivial fun _ => ?_
        apply Sourced.of_mem (a := .newRoom sid host v token key admission) (x := made)
        simp

/-- The test that has just succeeded entitles `create` to admit. -/
theorem proper_createReconnect {existing : RoomId} {host token : String} {v : Verifier}
    {admission : Admission} (ht : t = .conn admission.tx) (hpeer : admission.peerId = host)
    (hv : Verifier.fromToken token = some v)
    (htest : (⟨.room existing (.isIdempotent host v), true⟩ : Done) ∈ past) :
    (Registry.createReconnect existing token admission).Obeys (Proper t)
      (fun past x => Sourced past x.2) past := by
  refine proper_act ⟨ht, v, hv, by rwa [hpeer]⟩ fun effects => ?_
  refine proper_act trivial fun _ => ?_
  refine proper_act trivial fun _ => ?_
  apply Sourced.of_mem (a := .room existing (.reconnectHost admission token)) (x := effects)
  simp

theorem proper_createReclaim {existing : RoomId} {sid host : String} {v : Verifier}
    {token key : String} {admission : Admission} (ht : t = .conn admission.tx)
    (hpeer : admission.peerId = host) (hv : Verifier.fromToken token = some v) :
    (Registry.createReclaim existing sid host v token key admission).Obeys (Proper t)
      (fun past x => Sourced past x.2) past := by
  refine proper_act trivial fun oldOwner => ?_
  refine proper_act trivial fun _ => ?_
  refine proper_act trivial fun _ => ?_
  refine proper_act trivial fun _ => ?_
  exact proper_createFresh ht hpeer hv

theorem proper_create {sid host token key : String} {admission : Admission}
    (ht : t = .conn admission.tx) (hpeer : admission.peerId = host) :
    (Registry.create sid host token key admission).Obeys (Proper t)
      (fun past x => Sourced past x.2) past := by
  unfold Registry.create
  split
  · exact Sourced.error ..
  · rename_i v hv
    refine proper_act trivial fun found => ?_
    cases found with
    | none => exact proper_createFresh ht hpeer hv
    | some existing =>
        refine proper_act trivial fun idempotent => ?_
        cases idempotent with
        | true => exact proper_createReconnect ht hpeer hv List.mem_cons_self
        | false =>
            refine proper_act trivial fun reclaimable => ?_
            cases reclaimable with
            | false => exact proper_act trivial fun _ => Sourced.error ..
            | true => exact proper_createReclaim ht hpeer hv

theorem proper_leave (r : RoomId) (p : String) (c : Nat) (token : String) (version : Nat) :
    (Room.leave r p c token version).Obeys (Proper t) Sourced past := by
  refine proper_act trivial fun begun => ?_
  cases begun with
  | error effects =>
      apply Sourced.of_mem (a := .room r (.beginLeave p c token version)) (x := .error effects)
      simp
  | ok _ =>
      apply Proc.Obeys.bind (proper_snapshot recordTerminalMutation_all)
      intro persisted past' _
      refine proper_act trivial fun effects => ?_
      apply Sourced.of_mem (a := .room r (.finishLeave p c persisted)) (x := effects)
      simp

theorem proper_endSession (r : RoomId) (p : String) (c : Nat) (token : String) (version : Nat) :
    (Registry.endSession r p c token version).Obeys (Proper t) Sourced past := by
  refine proper_act trivial fun begun => ?_
  cases begun with
  | error effects =>
      apply Sourced.of_mem (a := .room r (.beginEndSession p c token version))
        (x := .error effects)
      simp
  | ok closed =>
      obtain ⟨key, guests⟩ := closed
      refine proper_act trivial fun _ => ?_
      refine proper_act trivial fun _ => ?_
      -- the guests stay on record while the task waits for the writer
      apply Proc.Obeys.bind (Proc.Obeys.frame (F := fun past => (⟨.room r
          (.beginEndSession p c token version), .ok (key, guests)⟩ : Done) ∈ past)
        (proper_snapshot recordTerminalMutation_all) ?_ fun d _ h => List.mem_cons_of_mem d h)
      · intro persisted past' h
        refine ⟨⟨p, c, token, version, key, h.2⟩, fun effects => ?_⟩
        apply Sourced.of_mem (a := .room r (.finishEndSession guests persisted)) (x := effects)
        simp
      · simp

theorem proper_sweep (now : SystemTime) :
    (sweep now).Obeys (Proper t) (fun _ _ => True) past := by
  apply proper_of_all (sweep_all now)
  intro past a ha
  cases a with
  | room r op => cases op <;> trivial
  | _ => trivial

/-! ### The handlers of a connection -/

variable (con : Connection)

theorem proper_answer {reply : ServerMessage} (ht : t = .conn con.tx)
    (hreply : reply.isAnswer = true) :
    (con.answer reply).Obeys (Proper t) (fun _ con => t = .conn con.tx) past :=
  ⟨Or.inl ⟨ht, Or.inl hreply⟩, fun _ => ht⟩

/-- The end of a handler: it delivers effects and keeps its channel. -/
theorem proper_deliver {con' : Connection} {effects : Effects} (ht : t = .conn con.tx)
    (h : Sourced past effects) (hcon : con'.tx = con.tx) :
    (do applyEffects con.tx effects; pure con' : Task Connection).Obeys (Proper t)
      (fun _ con => t = .conn con.tx) past := by
  apply Proc.Obeys.bind (proper_applyEffects ht h)
  intro _ _ _
  show t = .conn con'.tx
  rw [hcon]
  exact ht

omit [TokenCodec] in
theorem entered_tx (msg : ClientMessage) (room : Option RoomId) (effects : Effects) :
    (con.entered msg room effects).tx = con.tx := by
  rcases entered_cases con msg room effects with ⟨heq, _⟩ | ⟨_, _, _, _, heq⟩ <;> rw [heq]

theorem proper_handleCreate (msg : ClientMessage) (ht : t = .conn con.tx) :
    (con.handleCreate msg).Obeys (Proper t) (fun _ con => t = .conn con.tx) past := by
  unfold Connection.handleCreate
  split
  · exact proper_answer con ht (isAnswer_intoMessage ..)
  · split
    · exact proper_answer con ht (by decide)
    · have hcreate := @proper_create _ t past msg.sessionId msg.peerId msg.reconnectToken con.ip
        (con.admission msg) ht rfl
      apply Proc.Obeys.bind hcreate
      rintro ⟨room, effects⟩ past' h
      exact proper_deliver con ht h (entered_tx con msg room effects)

theorem proper_handleJoin (msg : ClientMessage) (resumeOnly : Bool) (ht : t = .conn con.tx) :
    (con.handleJoin msg resumeOnly).Obeys (Proper t) (fun _ con => t = .conn con.tx) past := by
  unfold Connection.handleJoin
  split
  · exact proper_answer con ht (isAnswer_intoMessage ..)
  · split
    · exact proper_answer con ht (by decide)
    · refine proper_act trivial fun found => ?_
      cases found with
      | none => exact proper_answer con ht (isAnswer_intoMessage ..)
      | some room =>
          refine ⟨⟨ht, rfl, by simp⟩, fun effects => ?_⟩
          apply proper_deliver con ht _ (entered_tx con msg (some room) effects)
          apply Sourced.of_mem (a := .room room (.joinOrResume msg (con.admission msg) resumeOnly))
            (x := effects)
          simp

theorem proper_inCurrentRoom {op : RoomId → Task Effects} (ht : t = .conn con.tx)
    (hop : ∀ room, (op room).Obeys (Proper t) Sourced past) :
    (con.inCurrentRoom op).Obeys (Proper t) (fun _ con => t = .conn con.tx) past := by
  unfold Connection.inCurrentRoom
  split
  · exact proper_answer con ht (isAnswer_intoMessage ..)
  · apply Proc.Obeys.bind (hop _)
    intro effects past' h
    exact proper_deliver con ht h rfl

theorem proper_inCurrentRoomTo {msg : ClientMessage} {op : RoomId → Task Effects}
    (ht : t = .conn con.tx) (hop : ∀ room, (op room).Obeys (Proper t) Sourced past) :
    (con.inCurrentRoomTo msg op).Obeys (Proper t) (fun _ con => t = .conn con.tx) past := by
  unfold Connection.inCurrentRoomTo
  split
  · exact proper_answer con ht (isAnswer_intoMessage ..)
  · split
    · exact proper_answer con ht (isAnswer_intoMessage ..)
    · exact proper_inCurrentRoom con ht hop

omit con in
/-- One section whose effects are handed on as they are. -/
theorem proper_section {r : RoomId} {op : RoomOp} (hproper : ∀ past, Proper t past (.room r op)) :
    (perform (.room r op)).Obeys (Proper t) (fun past x => Sourced past (op.outcome x)) past := by
  refine ⟨hproper past, fun x => ?_⟩
  apply Sourced.of_mem (a := .room r op) (x := x)
  simp

theorem proper_handleLeave (msg : ClientMessage) (ht : t = .conn con.tx) :
    (con.handleLeave msg).Obeys (Proper t) (fun _ con => t = .conn con.tx) past := by
  unfold Connection.handleLeave
  split
  · exact proper_answer con ht (isAnswer_intoMessage ..)
  · apply Proc.Obeys.bind (proper_leave ..)
    intro effects past' h
    apply proper_deliver con ht h
    split <;> rfl

theorem proper_handleEndSession (msg : ClientMessage) (ht : t = .conn con.tx) :
    (con.handleEndSession msg).Obeys (Proper t) (fun _ con => t = .conn con.tx) past := by
  unfold Connection.handleEndSession
  split
  · exact proper_answer con ht (isAnswer_intoMessage ..)
  · apply Proc.Obeys.bind (proper_endSession ..)
    intro effects past' h
    exact proper_deliver con ht h rfl

theorem proper_fromOutside {handler : Task Connection} (ht : t = .conn con.tx)
    (h : handler.Obeys (Proper t) (fun _ con => t = .conn con.tx) past) :
    (con.fromOutside handler).Obeys (Proper t) (fun _ con => t = .conn con.tx) past := by
  unfold Connection.fromOutside
  split
  · exact proper_answer con ht (isAnswer_intoMessage ..)
  · exact h

theorem proper_handleMessage (msg : ClientMessage) (ht : t = .conn con.tx) :
    (con.handleMessage msg).Obeys (Proper t) (fun _ con => t = .conn con.tx) past := by
  unfold Connection.handleMessage
  split
  · exact proper_answer con ht (by decide)
  · exact proper_fromOutside con ht (proper_handleCreate con msg ht)
  · exact proper_fromOutside con ht (proper_handleJoin con msg false ht)
  · exact proper_fromOutside con ht (proper_handleJoin con msg true ht)
  · exact proper_handleLeave con msg ht
  · exact proper_handleEndSession con msg ht
  · exact proper_inCurrentRoomTo con ht fun _ => proper_section fun _ => trivial
  · exact proper_inCurrentRoom con ht fun _ => proper_section fun _ => trivial
  · exact proper_inCurrentRoomTo con ht fun _ => proper_section fun _ => trivial
  · exact proper_answer con ht (isAnswer_intoMessage ..)

theorem proper_handleFrame (f : Frame) (ht : t = .conn con.tx) :
    (con.handleFrame f).Obeys (Proper t) (fun _ con => t = .conn con.tx) past := by
  cases f with
  | ignored => exact ht
  | limited | malformed => exact proper_answer con ht (isAnswer_intoMessage ..)
  | message msg => exact proper_handleMessage con msg ht

theorem proper_exit (ht : t = .conn con.tx) :
    con.exit.Obeys (Proper t) (fun _ _ => True) past := by
  unfold Connection.exit
  split
  · trivial
  · split
    · trivial
    · rename_i room _ _
      have hsection := @proper_section _ t past room
        (.handleDisconnect con.currentPeerId con.currentConnId) fun _ => trivial
      apply Proc.Obeys.bind hsection
      intro effects past' h
      exact proper_applyEffects ht h

end Programs

/-! ### Every task, in every reachable state -/

/-- A connection's locals name the channel of its own task. -/
def OwnLocals (t : Tid) (_ : List Done) : Local → Prop
  | .reading con => t = .conn con.tx
  | _ => True

theorem proper_start {t : Tid} {q : Request} {l : Local} {p : Task Local} {past : List Done}
    (hl : OwnLocals t past l) (hp : relay.start t q l = some p) :
    p.Obeys (Proper t) (OwnLocals t) past := by
  simp only [relay, Request.start] at hp
  split at hp
  · cases hp
    exact rfl
  · cases hp
    apply Proc.Obeys.bind (proper_handleFrame _ _ hl)
    intro con past' h
    exact h
  · cases hp
    apply Proc.Obeys.bind (proper_exit _ hl)
    intro _ _ _
    trivial
  · cases hp
    apply Proc.Obeys.bind (proper_sweep _)
    intro _ _ _
    trivial
  · cases hp
    apply Proc.Obeys.bind (proper_snapshot flushAndStop_all)
    intro _ _ _
    trivial
  · cases hp

theorem relay_orderly {C : RelaySys → RelayLabel → Prop} {sys : RelaySys} (h : Reaches C sys)
    (t : Tid) : Machine.Orderly (Proper t) (OwnLocals t) (sys.threads t)
      (record t sys.shared.history) := by
  apply relay_traced.obeys _ (fun _ t q l p past _ => proper_start) h
  rintro _ ⟨file, now, clock, rfl⟩ t
  cases t <;> exact ⟨trivial, trivial⟩

/-- **What a task is about to do is justified by its own record.** -/
theorem relay_proper {C : RelaySys → RelayLabel → Prop} {sys : RelaySys} (h : Reaches C sys)
    {t : Tid} {a : Act} {k : a.Resp → Task Local} (ht : sys.threads t = .act a k) :
    Proper t (record t sys.shared.history) a := by
  have hobeys := (relay_orderly h t).2
  rw [ht] at hobeys
  exact hobeys.1

/-- One step, for facts that rest on what the tasks keep to. -/
theorem relay_step {C : RelaySys → RelayLabel → Prop} {P : World → Prop} {sys sys' : RelaySys}
    {l : RelayLabel} (h : Reaches C sys) (hstep : relay.step sys l = some sys') (hP : P sys.shared)
    (hact : ∀ {t a e w x w'}, Base w → Legal t a w → Proper t (record t w.history) a → P w →
      Did t a e w x w' → P w')
    (hwriter : ∀ {m w w'}, Base w → P w → w.writerStep m = some w' → P w') : P sys'.shared := by
  have hbase := (relay_base h).1
  rcases relay.step_cases hstep with ⟨t, q, loc, p, rfl, _, _, rfl⟩ |
    ⟨t, e, a, k, x, w', rfl, ht, hx, rfl⟩ | ⟨m, w', rfl, hm, rfl⟩
  · exact hP
  · exact hact hbase (relay_legal h ht) (relay_proper h ht) hP hx
  · exact hwriter hbase hP hm

/-- The invariant rule for such facts. -/
theorem relay_rule {C : RelaySys → RelayLabel → Prop} {P : World → Prop} {sys : RelaySys}
    (h : Reaches C sys) (hinit : ∀ sys, Startup sys → P sys.shared)
    (hact : ∀ {t a e w x w'}, Base w → Legal t a w → Proper t (record t w.history) a → P w →
      Did t a e w x w' → P w')
    (hwriter : ∀ {m w w'}, P w → w.writerStep m = some w' → P w') : P sys.shared := by
  induction h with
  | init h => exact hinit _ h
  | step hreach _ hstep ih => exact relay_step hreach hstep ih hact fun _ => hwriter

end PlezyRelay
