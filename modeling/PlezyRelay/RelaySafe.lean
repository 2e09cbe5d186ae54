/-
  PlezyRelay/RelaySafe.lean
  =========================
  **Every task keeps to the rules.**

  The programs of `Tasks.lean` are safe for the logic whose invariant is `Base` and
  whose obligation before each action is `Legal`.  Four kinds of assertions carry all
  of them: that a room exists, that it is closing, that a connection id was assigned to
  the task, and what the table of rooms looks like while the task holds its lock.  None
  of these can be broken by the others.
-/
import PlezyRelay.RelayBase
import PlezyRelay.Connections

namespace PlezyRelay

open Machine

variable [TokenCodec]

/-! ### Stable assertions -/

section Stable

variable {L : relay.Logic} {t : Tid}

theorem interferes_cases {w w' : World} (h : L.Interferes t w w') :
    (∃ u a e x, u ≠ t ∧ L.assume u a w ∧ L.pre u a w ∧ Did u a e w x w') ∨
    ∃ m, World.writerStep m w = some w' := by
  cases h with
  | act hne hassume hpre hexec => exact Or.inl ⟨_, _, _, _, hne, hassume, hpre, hexec⟩
  | ambient hamb => exact Or.inr ⟨_, hamb⟩

theorem next_of_interferes {w w' : World} (h : L.Interferes t w w') : World.Next w w' := by
  rcases interferes_cases h with ⟨u, a, e, x, _, _, _, hx⟩ | ⟨m, hm⟩
  · exact .act hx
  · exact .writer hm

/-- What no step at all can break. -/
theorem stable_of_next {A : World → Prop} (h : ∀ w w', World.Next w w' → A w → A w') :
    L.Stable t A :=
  fun w w' _ _ hint => h w w' (next_of_interferes hint)

/-- Task `t` does not hold the registry's write lock. -/
def Free (t : Tid) (w : World) : Prop := w.server.writeLock ≠ some t

/-- Task `t` holds the registry's write lock and the table satisfies `P`. -/
def Holds (t : Tid) (P : AssocMap String RoomId → Prop) (w : World) : Prop :=
  w.server.writeLock = some t ∧ P w.server.rooms

theorem stable_free : L.Stable t (Free t) := by
  intro w w' _ _ hint hfree
  rcases interferes_cases hint with ⟨u, a, e, x, hne, _, _, hx⟩ | ⟨m, hm⟩
  · exact (World.did_moves hx).lock_ne (Ne.symm hne) hfree
  · have hframe := Server.writerStep_frame (World.writerStep_iff.mp hm).1
    rw [Free, hframe.2.2.2.1]
    exact hfree

theorem stable_holds (P : AssocMap String RoomId → Prop) : L.Stable t (Holds t P) := by
  rintro w w' _ _ hint ⟨hlock, hP⟩
  rcases interferes_cases hint with ⟨u, a, e, x, hne, _, _, hx⟩ | ⟨m, hm⟩
  · obtain ⟨hlock', hrooms⟩ := (World.did_moves hx).locked hne hlock
    exact ⟨hlock', by rw [hrooms]; exact hP⟩
  · have hframe := Server.writerStep_frame (World.writerStep_iff.mp hm).1
    exact ⟨by rw [hframe.2.2.2.1]; exact hlock, by rw [hframe.2.1]; exact hP⟩

theorem stable_present (r : RoomId) : L.Stable t fun w => Present w r :=
  stable_of_next fun _ _ h => h.present

theorem stable_isClosing (r : RoomId) : L.Stable t fun w => IsClosing w r :=
  stable_of_next fun _ _ h => h.isClosing

theorem stable_assigned (u : Tid) (r : RoomId) (c : Nat) :
    L.Stable t fun w => Assigned w.history u r c :=
  stable_of_next fun _ _ h => h.assigned

/-- Only the task itself settles its leave. -/
theorem stable_leaving (hinv : ∀ w, L.inv w → Base w)
    (hassume : ∀ u a w, L.assume u a w → Legal u a w) {r : RoomId} {p : String} {c : Nat} :
    L.Stable t fun w => Assigned w.history t r c ∧ Leaving r p c w := by
  rintro w w' hb _ hint ⟨hassigned, h⟩
  refine ⟨(next_of_interferes hint).assigned hassigned, ?_⟩
  rcases interferes_cases hint with ⟨u, a, e, x, hne, hlegal, _, hx⟩ | ⟨m, hm⟩
  · have hlegal := hassume u a w hlegal
    refine h.did (hinv w hb) hlegal hx ?_
    rintro op rfl hc
    exact hne ((hinv w hb).assigned_unique (hlegal.2.1 c hc) hassigned)
  · have hheap := (Server.writerStep_frame (World.writerStep_iff.mp hm).1).1
    simpa only [Leaving, IsClosing, hheap] using h

end Stable

/-! ### Own steps -/

section Own

variable {t : Tid} {a : Act} {e : Env} {w w' : World} {x : a.Resp}

theorem Free.own (h : Free t w) (hx : Did t a e w x w') (ha : a.keepsLock = true) :
    Free t w' := by
  rw [Free, (World.did_moves hx).lock_same ha]
  exact h

theorem Holds.own {P : AssocMap String RoomId → Prop} (h : Holds t P w)
    (hx : Did t a e w x w') (ha : a.keepsLock = true) (hr : a.keepsRooms = true) :
    Holds t P w' :=
  ⟨by rw [(World.did_moves hx).lock_same ha]; exact h.1,
    by rw [(World.did_moves hx).rooms_same hr]; exact h.2⟩

theorem free_of_unlock {y : Unit} (hx : Did t .unlockRooms e w y w') : Free t w' := by
  rw [Free, (World.did_unlockRooms hx).2]
  exact nofun

end Own

/-- One action, with the stable assertion that carries it. -/
theorem safe_act {L : relay.Logic} {t : Tid} {α : Type} {Q : α → World → Prop} {a : Act}
    {k : a.Resp → Task α} {w : World} (A : World → Prop) (hA : A w) (hstable : L.Stable t A)
    (hstep : ∀ w, L.inv w → A w → L.assume t a w → L.pre t a w ∧
      ∀ e x w', Did t a e w x w' → L.inv w' → L.Safe t Q (k x) w') :
    L.Safe t Q (.act a k) w :=
  Logic.Safe.act A hA hstable hstep

/-- A fact that no step can break goes along. -/
theorem safe_frame {L : relay.Logic} {t : Tid} {α : Type} {Q : α → World → Prop} {p : Task α}
    {w : World} {F : World → Prop} (h : L.Safe t Q p w) (hF : F w)
    (hnext : ∀ w w', World.Next w w' → F w → F w') : L.Safe t (fun x w => Q x w ∧ F w) p w :=
  h.frame hF (stable_of_next hnext) fun _ _ w _ w' hx => hnext w w' (.act hx)

/-! ### Dispatch -/

/-- What is to be shown of the programs of a task so that it keeps `Q` between requests. -/
structure Programs (L : relay.Logic) (t : Tid) (Q : Local → World → Prop) : Prop where
  connect : ∀ (k : Nat) (ip : String) (w : World), Q .fresh w →
    Q (.reading { tx := k, ip := ip }) w
  answer : ∀ (con : Connection) (reply : ServerMessage) (w : World), Q (.reading con) w →
    L.Safe t (fun con => Q (.reading con)) (con.answer reply) w
  create : ∀ (con : Connection) (msg : ClientMessage) (w : World), con.currentRoom = none →
    Q (.reading con) w → L.Safe t (fun con => Q (.reading con)) (con.handleCreate msg) w
  join : ∀ (con : Connection) (msg : ClientMessage) (resumeOnly : Bool) (w : World),
    con.currentRoom = none → Q (.reading con) w →
    L.Safe t (fun con => Q (.reading con)) (con.handleJoin msg resumeOnly) w
  leave : ∀ (con : Connection) (msg : ClientMessage) (w : World), Q (.reading con) w →
    L.Safe t (fun con => Q (.reading con)) (con.handleLeave msg) w
  endSession : ∀ (con : Connection) (msg : ClientMessage) (w : World), Q (.reading con) w →
    L.Safe t (fun con => Q (.reading con)) (con.handleEndSession msg) w
  transferHost : ∀ (con : Connection) (msg : ClientMessage) (w : World), Q (.reading con) w →
    L.Safe t (fun con => Q (.reading con)) (con.handleTransferHost msg) w
  broadcast : ∀ (con : Connection) (msg : ClientMessage) (w : World), Q (.reading con) w →
    L.Safe t (fun con => Q (.reading con)) (con.handleBroadcast msg) w
  sendTo : ∀ (con : Connection) (msg : ClientMessage) (w : World), Q (.reading con) w →
    L.Safe t (fun con => Q (.reading con)) (con.handleSendTo msg) w
  exit : ∀ (con : Connection) (w : World), Q (.reading con) w →
    L.Safe t (fun _ => Q .finished) con.exit w
  sweep : ∀ (now : SystemTime) (w : World), Q .idle w →
    L.Safe t (fun _ => Q .idle) (sweep now) w
  flushAndStop : ∀ (w : World), Q .idle w → L.Safe t (fun _ => Q .finished) flushAndStop w

namespace Programs

variable {L : relay.Logic} {t : Tid} {Q : Local → World → Prop} (h : Programs L t Q)
include h

theorem fromOutside (con : Connection) {handler : Task Connection} {w : World}
    (hw : Q (.reading con) w)
    (hhandler : con.currentRoom = none → L.Safe t (fun con => Q (.reading con)) handler w) :
    L.Safe t (fun con => Q (.reading con)) (con.fromOutside handler) w := by
  unfold Connection.fromOutside
  split
  · exact h.answer con _ w hw
  · exact hhandler ‹_›

theorem handleMessage (con : Connection) (msg : ClientMessage) {w : World}
    (hw : Q (.reading con) w) :
    L.Safe t (fun con => Q (.reading con)) (con.handleMessage msg) w := by
  unfold Connection.handleMessage
  split
  · exact h.answer con _ w hw
  · exact h.fromOutside con hw fun hout => h.create con msg w hout hw
  · exact h.fromOutside con hw fun hout => h.join con msg false w hout hw
  · exact h.fromOutside con hw fun hout => h.join con msg true w hout hw
  · exact h.leave con msg w hw
  · exact h.endSession con msg w hw
  · exact h.transferHost con msg w hw
  · exact h.broadcast con msg w hw
  · exact h.sendTo con msg w hw
  · exact h.answer con _ w hw

theorem handleFrame (con : Connection) (f : Frame) {w : World} (hw : Q (.reading con) w) :
    L.Safe t (fun con => Q (.reading con)) (con.handleFrame f) w := by
  cases f with
  | ignored => exact hw
  | limited | malformed => exact h.answer con _ w hw
  | message msg => exact h.handleMessage con msg hw

/-- Every program a task can start keeps `Q`. -/
theorem start {q : Request} {l : Local} {p : Task Local} {w : World} (hw : Q l w)
    (hp : relay.start t q l = some p) : L.Safe t Q p w := by
  simp only [relay, Request.start] at hp
  split at hp
  · cases hp
    exact h.connect _ _ w hw
  · cases hp
    exact (h.handleFrame _ _ hw).bind fun _ _ hw => hw
  · cases hp
    exact (h.exit _ w hw).bind fun _ _ hw => hw
  · cases hp
    exact (h.sweep _ w hw).bind fun _ _ hw => hw
  · cases hp
    exact (h.flushAndStop w hw).bind fun _ _ hw => hw
  · cases hp

end Programs

/-! ### The actions a program is made of -/

/-- Output to connections and notes to the writer. -/
def Act.isOutput : Act → Bool
  | .send .. | .cancel _ | .recordMutation => true
  | _ => false

/-- The traffic with the writer that a task waits for. -/
def Act.isSnapshot : Act → Bool
  | .sendTerminal | .awaitReply _ | .sendFlush | .awaitFlush _ => true
  | _ => false

/-- What the cleanup sweep does. -/
def Act.isSweep : Act → Bool
  | .allRooms | .removeIfCurrent _ | .releaseRoomQuota .. | .room _ .ownerIpKey
  | .room _ (.sweep _) | .recordMutation | .cancel _ => true
  | _ => false

section All

omit [TokenCodec]

theorem applyEffects_all (tx : Sender) (e : Effects) :
    (applyEffects tx e).All fun a => a.isOutput = true := by
  refine Proc.All.bind (.forEach fun _ _ => ⟨rfl, fun _ => trivial⟩) fun _ => ?_
  refine Proc.All.bind (.forEach fun _ _ => ⟨rfl, fun _ => trivial⟩) fun _ => ?_
  refine Proc.All.bind (.forEach fun _ _ => ⟨rfl, fun _ => trivial⟩) fun _ => ?_
  exact Proc.All.when ⟨rfl, fun _ => trivial⟩

theorem recordTerminalMutation_all :
    recordTerminalMutation.All fun a => a.isSnapshot = true := by
  refine ⟨rfl, fun r => ?_⟩
  cases r with
  | none => trivial
  | some reply => exact ⟨rfl, fun _ => trivial⟩

theorem flushAndStop_all : flushAndStop.All fun a => a.isSnapshot = true := by
  refine ⟨rfl, fun r => ?_⟩
  cases r with
  | none => trivial
  | some reply => exact ⟨rfl, fun _ => trivial⟩

theorem removeIfCurrent_all {P : Act → Prop} {r : RoomId} (hremove : P (.removeIfCurrent r))
    (howner : P (.room r .ownerIpKey)) (hrelease : ∀ key, P (.releaseRoomQuota key r)) :
    (Registry.removeIfCurrent r).All P := by
  refine ⟨hremove, fun removed => ?_⟩
  cases removed with
  | false => trivial
  | true => exact ⟨howner, fun key => ⟨hrelease key, fun _ => trivial⟩⟩

/-- The actions of the sweep of one room. -/
theorem sweepOne_all {P : Act → Prop} {now : SystemTime} {r : RoomId}
    (hverdict : P (.room r (.sweep now))) (hremove : P (.removeIfCurrent r))
    (howner : P (.room r .ownerIpKey)) (hrelease : ∀ key, P (.releaseRoomQuota key r))
    (hnote : P .recordMutation) (hcancel : ∀ k, P (.cancel k)) : (sweepOne now r).All P := by
  refine ⟨hverdict, fun verdict => ?_⟩
  obtain ⟨remove, changed, evict⟩ := verdict
  have hremoval : (Proc.when remove do let _ ← Registry.removeIfCurrent r; pure ()).All P :=
    Proc.All.when ((removeIfCurrent_all hremove howner hrelease).bind fun _ => trivial)
  refine hremoval.bind fun _ => ?_
  refine Proc.All.bind (Proc.All.when ⟨hnote, fun _ => trivial⟩) fun _ => ?_
  exact Proc.All.forEach fun k _ => ⟨hcancel k, fun _ => trivial⟩

theorem sweep_all (now : SystemTime) : (sweep now).All fun a => a.isSweep = true :=
  ⟨rfl, fun _ => Proc.All.forEach fun _ _ =>
    sweepOne_all rfl rfl rfl (fun _ => rfl) rfl fun _ => rfl⟩

end All

/-- The sweep of one room, by what holds after each of its parts: the verdict, the removal,
    the note to the writer and the evictions. -/
theorem safe_sweepOne {L : relay.Logic} {t : Tid} {now : SystemTime} {r : RoomId} {w : World}
    {V : Bool × Bool × List CancellationToken → World → Prop}
    {R : Bool → List CancellationToken → World → Prop} {E : List CancellationToken → World → Prop}
    {Q : Unit → World → Prop} (hverdict : L.Safe t V (perform (.room r (.sweep now))) w)
    (hkept : ∀ changed evict w, V (false, changed, evict) w → R changed evict w)
    (hremoved : ∀ changed evict w, V (true, changed, evict) w →
      L.Safe t (fun _ => R changed evict) (Registry.removeIfCurrent r) w)
    (hclean : ∀ evict w, R false evict w → E evict w)
    (hnoted : ∀ evict w, R true evict w → L.Safe t (fun _ => E evict) (perform .recordMutation) w)
    (hcancels : ∀ evict w, E evict w →
      L.Safe t Q (Proc.forEach (fun token => perform (.cancel token)) evict) w) :
    L.Safe t Q (sweepOne now r) w := by
  refine Logic.Safe.bind hverdict fun verdict w h => ?_
  obtain ⟨remove, changed, evict⟩ := verdict
  have hremoval : L.Safe t (fun _ => R changed evict)
      (Proc.when remove do let _ ← Registry.removeIfCurrent r; pure ()) w := by
    cases remove with
    | false => exact hkept changed evict w h
    | true => exact (hremoved changed evict w h).bind fun _ _ h => h
  refine hremoval.bind fun _ w h => ?_
  have hnote : L.Safe t (fun _ => E evict) (Proc.when changed (perform .recordMutation)) w := by
    cases changed with
    | false => exact hclean evict w h
    | true => exact hnoted evict w h
  exact hnote.bind fun _ w h => hcancels evict w h

/-- What `create` does. -/
def Act.isCreate : Act → Bool
  | .lockRooms _ | .unlockRooms | .removeRoom _ | .roomsLen | .newRoom .. | .tryClaimRoomQuota _
  | .releaseRoomQuota .. | .recordMutation => true
  | .room _ .ownerIpKey => true
  | .room _ op => op.inCreate
  | _ => false

/-- The one action of `create` that passes ids on. -/
def Act.makesRoom : Act → Bool
  | .newRoom .. => true
  | _ => false

/-- What a leave does. -/
def Act.isLeave : Act → Bool
  | .room _ (.beginLeave ..) | .room _ (.finishLeave ..) => true
  | a => a.isSnapshot

/-- What an end of session does. -/
def Act.isEnd : Act → Bool
  | .room _ (.beginEndSession ..) | .room _ (.finishEndSession ..) | .removeEnded _
  | .releaseRoomQuota .. => true
  | a => a.isSnapshot

/-- What the other handlers do: they answer, look a room up, run one section of it that
    neither leaves nor ends it, and deliver its effects. -/
def Act.isPlain : Act → Bool
  | .getRoom _ | .room _ (.joinOrResume ..) | .room _ (.transferHost ..) | .room _ (.broadcast ..)
  | .room _ (.sendTo ..) | .room _ (.handleDisconnect ..) => true
  | a => a.isOutput || a.isSnapshot

section Composition

omit [TokenCodec]

/-- The actions of the end of `create`, reached with the lock held. -/
theorem createFresh_all {P : Act → Prop} {sid host : String} {v : Verifier} {token key : String}
    {admission : Admission} (hcreate : ∀ a, a.isCreate = true → a.makesRoom = false → P a)
    (hnew : P (.newRoom sid host v token key admission)) :
    (Registry.createFresh sid host v token key admission).All P := by
  refine ⟨hcreate _ rfl rfl, fun n => ?_⟩
  change Proc.All _ (if MAX_RETAINED_ROOMS ≤ n then _ else _)
  split
  · exact ⟨hcreate _ rfl rfl, fun _ => trivial⟩
  · refine ⟨hcreate _ rfl rfl, fun b => ?_⟩
    cases b with
    | false => exact ⟨hcreate _ rfl rfl, fun _ => trivial⟩
    | true =>
        refine ⟨hnew, fun made => ?_⟩
        refine ⟨hcreate _ rfl rfl, fun _ => ?_⟩
        exact ⟨hcreate _ rfl rfl, fun _ => trivial⟩

/-- The actions of `create`: a new room is made for the caller's own ids. -/
theorem create_all_of [TokenCodec] {P : Act → Prop} {sid host token key : String}
    {admission : Admission} (hcreate : ∀ a, a.isCreate = true → a.makesRoom = false → P a)
    (hnew : ∀ v, P (.newRoom sid host v token key admission)) :
    (Registry.create sid host token key admission).All P := by
  unfold Registry.create
  split
  · trivial
  · rename_i v _
    have hfresh := createFresh_all hcreate (hnew v)
    refine ⟨hcreate _ rfl rfl, fun found => ?_⟩
    rcases found with _ | existing
    · exact hfresh
    · refine ⟨hcreate _ rfl rfl, fun idempotent => ?_⟩
      cases idempotent with
      | true =>
          refine ⟨hcreate _ rfl rfl, fun effects => ?_⟩
          refine ⟨hcreate _ rfl rfl, fun _ => ?_⟩
          exact ⟨hcreate _ rfl rfl, fun _ => trivial⟩
      | false =>
          refine ⟨hcreate _ rfl rfl, fun reclaimable => ?_⟩
          cases reclaimable with
          | false => exact ⟨hcreate _ rfl rfl, fun _ => trivial⟩
          | true =>
              refine ⟨hcreate _ rfl rfl, fun oldOwner => ?_⟩
              refine ⟨hcreate _ rfl rfl, fun _ => ?_⟩
              refine ⟨hcreate _ rfl rfl, fun _ => ?_⟩
              exact ⟨hcreate _ rfl rfl, fun _ => hfresh⟩

theorem create_all [TokenCodec] (sid host token key : String) (admission : Admission) :
    (Registry.create sid host token key admission).All fun a => a.isCreate = true :=
  create_all_of (fun _ ha _ => ha) fun _ => rfl

theorem leave_all (r : RoomId) (peerId : String) (c : Nat) (token : String) (version : Nat) :
    (Room.leave r peerId c token version).All fun a => a.isLeave = true := by
  have hwait : recordTerminalMutation.All fun a => a.isLeave = true :=
    recordTerminalMutation_all.mono fun a ha => by cases a <;> trivial
  refine ⟨rfl, fun begun => ?_⟩
  cases begun with
  | error effects => trivial
  | ok _ => exact hwait.bind fun _ => ⟨rfl, fun _ => trivial⟩

theorem endSession_all (r : RoomId) (peerId : String) (c : Nat) (token : String)
    (version : Nat) :
    (Registry.endSession r peerId c token version).All fun a => a.isEnd = true := by
  have hwait : recordTerminalMutation.All fun a => a.isEnd = true :=
    recordTerminalMutation_all.mono fun a ha => by cases a <;> trivial
  refine ⟨rfl, fun begun => ?_⟩
  cases begun with
  | error effects => trivial
  | ok _ =>
      refine ⟨rfl, fun _ => ?_⟩
      refine ⟨rfl, fun _ => ?_⟩
      exact hwait.bind fun persisted => ⟨rfl, fun _ => trivial⟩

theorem isPlain_of_isOutput {a : Act} (h : a.isOutput = true) : a.isPlain = true := by
  cases a <;> trivial

theorem isPlain_of_isSnapshot {a : Act} (h : a.isSnapshot = true) : a.isPlain = true := by
  cases a <;> trivial

theorem applyEffects_plain (tx : Sender) (effects : Effects) :
    (applyEffects tx effects).All fun a => a.isPlain = true :=
  (applyEffects_all tx effects).mono fun _ => isPlain_of_isOutput

end Composition

/-- The sections whose effects the handler of a message, or the end of the connection,
    delivers at once. -/
def RoomOp.isDelivered : RoomOp → Bool
  | .joinOrResume .. | .transferHost .. | .broadcast .. | .sendTo .. | .handleDisconnect .. => true
  | _ => false

/-- The effects such a section hands back. -/
def RoomOp.effects : (op : RoomOp) → op.Result → Effects
  | .joinOrResume .., effects | .transferHost .., effects | .broadcast .., effects
  | .sendTo .., effects | .handleDisconnect .., effects => effects
  | _, _ => {}

/-- For an assertion `B` between requests that becomes `A effects` while the effects of a
    section are to be delivered.  The ids of a `create` and of a join have been checked. -/
theorem Programs.of_delivery {L : relay.Logic} {t : Tid} {A : Effects → World → Prop}
    {B : World → Prop}
    (hsend : ∀ tx reply w, B w → L.Safe t (fun _ => B) (perform (.send tx reply)) w)
    (hget : ∀ sid w, B w → L.Safe t (fun _ => B) (perform (.getRoom sid)) w)
    (hsection : ∀ r op w, op.isDelivered = true → op.idsChecked → B w →
      L.Safe t (fun x => A (op.effects x)) (perform (.room r op)) w)
    (hdeliver : ∀ tx effects w, A effects w → L.Safe t (fun _ => B) (applyEffects tx effects) w)
    (hcreate : ∀ sid token key admission w, validSessionAndPeerId sid admission.peerId = true →
      B w → L.Safe t (fun x => A x.2)
        (Registry.create sid admission.peerId token key admission) w)
    (hleave : ∀ r peerId c token version w, B w → L.Safe t A
      (Room.leave r peerId c token version) w)
    (hend : ∀ r peerId c token version w, B w → L.Safe t A
      (Registry.endSession r peerId c token version) w)
    (hsweep : ∀ now w, B w → L.Safe t (fun _ => B) (PlezyRelay.sweep now) w)
    (hflush : ∀ w, B w → L.Safe t (fun _ => B) PlezyRelay.flushAndStop w) :
    Programs L t fun _ => B := by
  have hanswer : ∀ con reply w, B w → L.Safe t (fun _ => B) (Connection.answer con reply) w :=
    fun con reply w h => (hsend con.tx reply w h).bind fun _ _ h => h
  have hfinish : ∀ tx effects (con : Connection) w, A effects w →
      L.Safe t (fun _ => B) (do applyEffects tx effects; pure con) w :=
    fun tx effects con w h => (hdeliver tx effects w h).bind fun _ _ h => h
  have hroom : ∀ con (op : RoomId → Task Effects) w, (∀ r w, B w → L.Safe t A (op r) w) →
      B w → L.Safe t (fun _ => B) (Connection.inCurrentRoom con op) w := by
    intro con op w hop h
    unfold Connection.inCurrentRoom
    split
    · exact hanswer con _ w h
    · exact (hop _ w h).bind fun effects w h => hfinish _ effects con w h
  have hroomTo : ∀ con msg (op : RoomId → Task Effects) w, (∀ r w, B w → L.Safe t A (op r) w) →
      B w → L.Safe t (fun _ => B) (Connection.inCurrentRoomTo con msg op) w := by
    intro con msg op w hop h
    unfold Connection.inCurrentRoomTo
    split
    · exact hanswer con _ w h
    · split
      · exact hanswer con _ w h
      · exact hroom con op w hop h
  exact
    { connect := fun _ _ _ h => h
      answer := hanswer
      create := fun con msg w _ h => by
        unfold Connection.handleCreate
        split
        · exact hanswer con _ w h
        · rename_i hids
          split
          · exact hanswer con _ w h
          · have hids : validSessionAndPeerId msg.sessionId msg.peerId = true := by
              simpa using hids
            exact (hcreate _ _ con.ip (con.admission msg) w hids h).bind fun x w h =>
              hfinish _ x.2 _ w h
      join := fun con msg resumeOnly w _ h => by
        unfold Connection.handleJoin
        split
        · exact hanswer con _ w h
        · rename_i hids
          have hpeer : validId msg.peerId MAX_PEER_ID_LENGTH = true := by
            simp only [validSessionAndPeerId, Bool.not_eq_true', Bool.not_eq_false,
              Bool.and_eq_true] at hids
            exact hids.2
          split
          · exact hanswer con _ w h
          · refine (hget msg.sessionId w h).bind fun found w h => ?_
            rcases found with _ | room
            · exact hanswer con _ w h
            · exact (hsection room (.joinOrResume msg (con.admission msg) resumeOnly) w rfl hpeer
                h).bind fun effects w h => hfinish _ effects _ w h
      leave := fun con msg w h => by
        unfold Connection.handleLeave
        split
        · exact hanswer con _ w h
        · exact (hleave _ _ _ _ _ w h).bind fun effects w h => hfinish _ effects _ w h
      endSession := fun con msg w h => by
        unfold Connection.handleEndSession
        split
        · exact hanswer con _ w h
        · exact (hend _ _ _ _ _ w h).bind fun effects w h => hfinish _ effects _ w h
      transferHost := fun con msg w => hroomTo con msg _ w fun r w =>
        hsection r (.transferHost ..) w rfl trivial
      broadcast := fun con msg w => hroom con _ w fun r w =>
        hsection r (.broadcast ..) w rfl trivial
      sendTo := fun con msg w => hroomTo con msg _ w fun r w =>
        hsection r (.sendTo ..) w rfl trivial
      exit := fun con w h => by
        unfold Connection.exit
        split
        · exact h
        · split
          · exact h
          · exact (hsection _ (.handleDisconnect ..) w rfl trivial h).bind fun effects w h =>
              hdeliver _ effects w h
      sweep := hsweep
      flushAndStop := hflush }

/-- For an assertion that plain actions keep, only `create`, leaves, ends of session and
    sweeps are left to show. -/
theorem Programs.of_plain {L : relay.Logic} {t : Tid} {A : World → Prop} (hstable : L.Stable t A)
    (hpre : ∀ a w, a.isPlain = true → L.inv w → A w → L.assume t a w → L.pre t a w)
    (hkeep : ∀ a e w x w', a.isPlain = true → L.inv w → L.inv w' → L.assume t a w → A w →
      Did t a e w x w' → A w')
    (hcreate : ∀ sid token key admission w, A w → L.Safe t (fun _ => A)
      (Registry.create sid admission.peerId token key admission) w)
    (hleave : ∀ r peerId c token version w, A w → L.Safe t (fun _ => A)
      (Room.leave r peerId c token version) w)
    (hend : ∀ r peerId c token version w, A w → L.Safe t (fun _ => A)
      (Registry.endSession r peerId c token version) w)
    (hsweep : ∀ now w, A w → L.Safe t (fun _ => A) (PlezyRelay.sweep now) w) :
    Programs L t fun _ => A := by
  have hall : ∀ {α : Type} {p : Task α} {w : World}, p.All (fun a => a.isPlain = true) →
      A w → L.Safe t (fun _ => A) p w := fun hp hw => Logic.Safe.of_all hp hw hstable hpre hkeep
  refine Programs.of_delivery (A := fun _ => A) (fun _ _ _ => hall ⟨rfl, fun _ => trivial⟩)
    (fun _ _ => hall ⟨rfl, fun _ => trivial⟩) (fun r op w hop _ => hall ⟨?_, fun _ => trivial⟩)
    (fun tx effects _ => hall (applyEffects_plain tx effects))
    (fun sid token key admission w _ => hcreate sid token key admission w) hleave hend hsweep
    fun _ => hall (flushAndStop_all.mono fun _ => isPlain_of_isSnapshot)
  cases op <;> first | rfl | cases hop

/-! ### Legality of every program -/

/-- The logic that proves `Base` and `Legal`. -/
def legality : relay.Logic where
  inv := Base
  pre := Legal

section Legality

variable {t : Tid} {w : World} {r : RoomId} {c : Nat}

/-- A program without rooms and table keeps the lock free. -/
theorem legal_of_all {α : Type} {P : Act → Prop} {p : Task α} (hp : p.All P) (hfree : Free t w)
    (hP : ∀ a, P a → a.isOutput = true ∨ a.isSnapshot = true) :
    legality.Safe t (fun _ w => Free t w) p w := by
  refine Logic.Safe.of_all hp hfree stable_free ?_ ?_
  · intro a w ha _ _ _
    rcases hP a ha with h | h <;> cases a <;> trivial
  · intro a e w x w' ha _ _ _ hfree hx
    refine hfree.own hx ?_
    rcases hP a ha with h | h <;> cases a <;> trivial

theorem legal_applyEffects (tx : Sender) (effects : Effects) (hfree : Free t w) :
    legality.Safe t (fun _ w => Free t w) (applyEffects tx effects) w :=
  legal_of_all (applyEffects_all tx effects) hfree fun _ h => Or.inl h

/-- A section that speaks for nobody. -/
theorem legal_room {α : Type} {Q : α → World → Prop} {op : RoomOp} {k : op.Result → Task α}
    (hr : Present w r) (hfree : Free t w) (hconn : op.connId = none)
    (hteardown : op.isTeardown = false) (hoff : op.inCreate = false)
    (hk : ∀ e y w w', Did t (.room r op) e w y w' → Present w' r → Free t w' →
      legality.Safe t Q (k y) w') :
    legality.Safe t Q (.act (.room r op) k) w := by
  refine safe_act (fun w => Present w r ∧ Free t w) ⟨hr, hfree⟩
    ((stable_present r).and stable_free) fun w _ hA _ => ⟨⟨hA.1, ?_, ?_, ?_⟩, ?_⟩
  · intro c hc
    cases hconn.symm.trans hc
  · intro h
    cases hteardown.symm.trans h
  · intro h
    cases hoff.symm.trans h
  · intro e y w' hx _
    exact hk e y w w' hx ((World.Next.act hx).present hA.1) (hA.2.own hx rfl)

/-- A section that speaks for a connection id assigned to the task. -/
theorem legal_roomFor {α : Type} {Q : α → World → Prop} {op : RoomOp} {k : op.Result → Task α}
    (hc : Assigned w.history t r c) (hfree : Free t w) (hconn : op.connId = some c)
    (hteardown : op.isTeardown = false) (hoff : op.inCreate = false)
    (hk : ∀ y w, Assigned w.history t r c → Free t w → legality.Safe t Q (k y) w) :
    legality.Safe t Q (.act (.room r op) k) w := by
  refine safe_act (fun w => Assigned w.history t r c ∧ Free t w) ⟨hc, hfree⟩
    ((stable_assigned t r c).and stable_free) fun w hb hA _ => ⟨⟨?_, ?_, ?_, ?_⟩, ?_⟩
  · obtain ⟨st, hst, _⟩ := Base.assigned_lt hb hA.1
    exact ⟨st, hst⟩
  · intro c' hc'
    obtain rfl := Option.some.inj (hconn.symm.trans hc')
    exact hA.1
  · intro h
    cases hteardown.symm.trans h
  · intro h
    cases hoff.symm.trans h
  · intro e y w' hx _
    exact hk y w' ((World.Next.act hx).assigned hA.1) (hA.2.own hx rfl)

theorem legal_recordTerminalMutation (hfree : Free t w) :
    legality.Safe t (fun _ w => Free t w) recordTerminalMutation w :=
  legal_of_all recordTerminalMutation_all hfree fun _ h => Or.inr h

theorem legal_leave (peerId token : String) (version : Nat) (hc : Assigned w.history t r c)
    (hfree : Free t w) :
    legality.Safe t (fun _ w => Free t w) (Room.leave r peerId c token version) w := by
  refine legal_roomFor hc hfree rfl rfl rfl fun y w hc hfree => ?_
  cases y with
  | error effects => exact hfree
  | ok _ =>
      have hwait := safe_frame (legal_recordTerminalMutation hfree) hc fun _ _ h => h.assigned
      refine hwait.bind fun persisted w hw => ?_
      exact legal_roomFor hw.2 hw.1 rfl rfl rfl fun _ _ _ hfree => hfree

theorem legal_removeIfCurrent (hr : IsClosing w r) (hfree : Free t w) :
    legality.Safe t (fun _ w => Free t w) (Registry.removeIfCurrent r) w := by
  refine safe_act (fun w => IsClosing w r ∧ Free t w) ⟨hr, hfree⟩
    ((stable_isClosing r).and stable_free) fun w _ hA _ => ⟨hA.1, fun e y w' hx _ => ?_⟩
  have hfree' : Free t w' := hA.2.own hx rfl
  obtain ⟨st, hst, _⟩ := (World.Next.act hx).isClosing hA.1
  cases y with
  | false => exact hfree'
  | true =>
      refine legal_room ⟨st, hst⟩ hfree' rfl rfl rfl fun _ key _ w _ _ hfree => ?_
      exact safe_act (Free t) hfree stable_free fun w _ hfree _ =>
        ⟨trivial, fun e y w' hx _ => hfree.own hx rfl⟩

theorem legal_endSession (peerId token : String) (version : Nat) (hc : Assigned w.history t r c)
    (hfree : Free t w) :
    legality.Safe t (fun _ w => Free t w) (Registry.endSession r peerId c token version) w := by
  refine safe_act (fun w => Assigned w.history t r c ∧ Free t w) ⟨hc, hfree⟩
    ((stable_assigned t r c).and stable_free) fun w hb hA _ => ⟨⟨?_, ?_, nofun, nofun⟩, ?_⟩
  · obtain ⟨st, hst, _⟩ := Base.assigned_lt hb hA.1
    exact ⟨st, hst⟩
  · rintro c' ⟨⟩
    exact hA.1
  · intro e y w' hx _
    have hfree' : Free t w' := hA.2.own hx rfl
    rcases closing_of_beginEndSession hx with rfl | ⟨key, guests, rfl, hclosing⟩
    · exact hfree'
    · -- the accepted end has closed the room, so it may leave the table and be torn down
      refine safe_act (fun w => IsClosing w r ∧ Free t w) ⟨hclosing, hfree'⟩
        ((stable_isClosing r).and stable_free) fun w _ hA _ => ⟨hA.1, fun e y w' hx _ => ?_⟩
      refine safe_act (fun w => IsClosing w r ∧ Free t w)
        ⟨(World.Next.act hx).isClosing hA.1, hA.2.own hx rfl⟩
        ((stable_isClosing r).and stable_free) fun w _ hA _ => ⟨trivial, fun e y w' hx _ => ?_⟩
      have hwait := safe_frame (legal_recordTerminalMutation (hA.2.own hx rfl))
        ((World.Next.act hx).isClosing hA.1) fun _ _ h => h.isClosing
      refine hwait.bind fun persisted w hw => ?_
      refine safe_act (fun w => IsClosing w r ∧ Free t w) ⟨hw.2, hw.1⟩
        ((stable_isClosing r).and stable_free) fun w _ hA _ => ⟨⟨?_, nofun, fun _ => hA.1, nofun⟩, ?_⟩
      · obtain ⟨st, hst, _⟩ := hA.1
        exact ⟨st, hst⟩
      · intro e y w' hx _
        exact hA.2.own hx rfl

/-! ### `create` -/

/-- What `create` leaves: the lock is free, and the connection id it reports is the
    caller's. -/
def Created (t : Tid) (result : Option RoomId × Effects) (w : World) : Prop :=
  Free t w ∧ ∀ r c, result.1 = some r → result.2.assignedConnId = some c →
    Assigned w.history t r c

/-- A section that speaks for nobody, under the registry lock. -/
theorem legal_roomHeld {α : Type} {Q : α → World → Prop} {op : RoomOp} {k : op.Result → Task α}
    {P : AssocMap String RoomId → Prop} (hr : Present w r) (hheld : Holds t P w)
    (hconn : op.connId = none) (hteardown : op.isTeardown = false)
    (hk : ∀ e y w w', Did t (.room r op) e w y w' → Present w' r → Holds t P w' →
      legality.Safe t Q (k y) w') :
    legality.Safe t Q (.act (.room r op) k) w := by
  refine safe_act (fun w => Present w r ∧ Holds t P w) ⟨hr, hheld⟩
    ((stable_present r).and (stable_holds P)) fun w _ hA _ => ⟨⟨hA.1, ?_, ?_, ?_⟩, ?_⟩
  · intro c hc
    cases hconn.symm.trans hc
  · intro h
    cases hteardown.symm.trans h
  · exact fun _ => hA.2.1
  · intro e y w' hx _
    exact hk e y w w' hx ((World.Next.act hx).present hA.1) (hA.2.own hx rfl rfl)

theorem legal_unlock {α : Type} {Q : α → World → Prop} {k : Unit → Task α} {F : World → Prop}
    (hF : F w) (hnext : ∀ w w', World.Next w w' → F w → F w')
    (hk : ∀ w, Free t w → F w → legality.Safe t Q (k ()) w) :
    legality.Safe t Q (.act .unlockRooms k) w :=
  safe_act F hF (stable_of_next hnext) fun _ _ hF _ =>
    ⟨trivial, fun _ _ w' hx _ => hk w' (free_of_unlock hx) (hnext _ w' (.act hx) hF)⟩

/-- Giving up: unlock and report an error. -/
theorem legal_refuse (effects : Effects) :
    legality.Safe t (Created t) (.act .unlockRooms fun _ => .ret (none, effects)) w := by
  refine legal_unlock (F := fun _ => True) trivial (fun _ _ _ h => h) fun w hfree _ => ?_
  exact ⟨hfree, fun r c hr => by cases hr⟩

/-- Success: unlock, note the mutation and report the room. -/
theorem legal_admitted (room : RoomId) (effects : Effects)
    (hc : ∀ c, effects.assignedConnId = some c → Assigned w.history t room c) :
    legality.Safe t (Created t) (.act .unlockRooms fun _ => .act .recordMutation fun _ =>
      .ret (some room, effects)) w := by
  have hnext : ∀ w w', World.Next w w' →
      (∀ c, effects.assignedConnId = some c → Assigned w.history t room c) →
      ∀ c, effects.assignedConnId = some c → Assigned w'.history t room c :=
    fun w w' h hc c hcc => h.assigned (hc c hcc)
  refine legal_unlock hc hnext fun w hfree hc => ?_
  refine safe_act (fun w => Free t w ∧
    ∀ c, effects.assignedConnId = some c → Assigned w.history t room c) ⟨hfree, hc⟩
    (stable_free.and (stable_of_next hnext)) fun w _ hA _ => ⟨trivial, fun e y w' hx _ => ?_⟩
  refine ⟨hA.1.own hx rfl, fun r c hr hcc => ?_⟩
  cases hr
  exact hnext w w' (.act hx) hA.2 c hcc

theorem legal_createFresh (sid host : String) (v : Verifier) (token key : String)
    (admission : Admission) (hheld : Holds t (fun rooms => rooms.lookup sid = none) w) :
    legality.Safe t (Created t) (Registry.createFresh sid host v token key admission) w := by
  refine safe_act _ hheld (stable_holds _) fun w _ hA _ => ⟨trivial, fun e n w' hx _ => ?_⟩
  have hheld := hA.own hx rfl rfl
  rw [Proc.ret_bind]
  split
  · exact legal_refuse _
  · refine safe_act _ hheld (stable_holds _) fun w _ hA _ => ⟨hA.1, fun e b w' hx _ => ?_⟩
    have hheld := hA.own hx rfl rfl
    cases b with
    | false => exact legal_refuse _
    | true =>
        refine safe_act _ hheld (stable_holds _) fun w _ hA _ => ⟨hA.2, fun e x w' hx _ => ?_⟩
        obtain ⟨room, effects⟩ := x
        refine legal_admitted room effects fun c hc => ?_
        obtain ⟨_, hroom, _⟩ := World.did_newRoom hx
        obtain ⟨rfl, rfl⟩ := Prod.mk.inj hroom
        have hadm := RoomState.newRoom_admitted sid host v token key admission e.now
          ⟨w.server.nextToken⟩
        obtain rfl := Option.some.inj
          (hc.symm.trans (Effects.assignedConnId_of_admitted hadm))
        exact assigned_of_did hx (assigns_newRoom hx)

theorem legal_createReconnect (existing : RoomId) (token : String) (admission : Admission)
    {P : AssocMap String RoomId → Prop} (hr : Present w existing) (hheld : Holds t P w) :
    legality.Safe t (Created t) (Registry.createReconnect existing token admission) w := by
  refine legal_roomHeld hr hheld rfl rfl fun e effects w w' hx _ _ => ?_
  refine legal_admitted existing effects fun c hc => ?_
  obtain ⟨st, _, hadm⟩ := assigns_reconnectHost hx
  obtain rfl := Option.some.inj (hc.symm.trans (Effects.assignedConnId_of_admitted hadm))
  refine assigned_of_did (k := ⟨w.server.nextToken⟩) hx ?_
  simp [Event.assigns, hadm]

theorem legal_createReclaim (existing : RoomId) (sid host : String) (v : Verifier)
    (token key : String) (admission : Admission) (hr : Present w existing)
    (hheld : Holds t (fun rooms => rooms.lookup sid = some existing) w) :
    legality.Safe t (Created t)
      (Registry.createReclaim existing sid host v token key admission) w := by
  refine legal_roomHeld hr hheld rfl rfl fun _ oldOwner _ w _ hr hheld => ?_
  refine legal_roomHeld hr hheld rfl rfl fun e _ w w' hx _ hheld => ?_
  have hclosing : IsClosing w' existing := by
    obtain ⟨st, _, _, hst'⟩ := World.did_room hx
    exact ⟨_, hst', rfl⟩
  refine safe_act (fun w => IsClosing w existing ∧
    Holds t (fun rooms => rooms.lookup sid = some existing) w) ⟨hclosing, hheld⟩
    ((stable_isClosing existing).and (stable_holds _)) fun w _ hA _ => ⟨?_, ?_⟩
  · intro r hr
    obtain rfl := Option.some.inj (hA.2.2.symm.trans hr)
    exact hA.1
  · intro e x w' hx _
    have hheld : Holds t (fun rooms => rooms.lookup sid = none) w' := by
      obtain ⟨hlock, _, hs⟩ := World.did_removeRoom hx
      exact ⟨by rw [hs]; exact hlock, by rw [hs]; exact AList.lookup_erase _ _⟩
    refine safe_act _ hheld (stable_holds _) fun w _ hA _ => ⟨trivial, fun e y w' hx _ => ?_⟩
    exact legal_createFresh sid host v token key admission (hA.own hx rfl rfl)

theorem legal_create (sid host token key : String) (admission : Admission) (hfree : Free t w) :
    legality.Safe t (Created t) (Registry.create sid host token key admission) w := by
  unfold Registry.create
  split
  · exact ⟨hfree, fun r c hr => by cases hr⟩
  · rename_i v _
    refine safe_act _ hfree stable_free fun w hb hA _ => ⟨trivial, fun e x w' hx _ => ?_⟩
    obtain ⟨_, rfl, hs⟩ := World.did_lockRooms hx
    have hheld : Holds t (fun rooms => rooms.lookup sid = w.server.rooms.lookup sid) w' :=
      ⟨by rw [hs], by rw [hs]⟩
    rcases hfound : w.server.rooms.lookup sid with _ | existing
    · rw [hfound] at hheld
      exact legal_createFresh sid host v token key admission hheld
    · rw [hfound] at hheld
      obtain ⟨st, hst, _⟩ := Base.registered hb hfound
      have hr : Present w' existing := (World.Next.act hx).present ⟨st, hst⟩
      refine legal_roomHeld hr hheld rfl rfl fun _ idempotent _ w _ hr hheld => ?_
      cases idempotent with
      | true => exact legal_createReconnect existing token admission hr hheld
      | false =>
          refine legal_roomHeld hr hheld rfl rfl fun _ reclaimable _ w _ hr hheld => ?_
          cases reclaimable with
          | true => exact legal_createReclaim existing sid host v token key admission hr hheld
          | false => exact legal_refuse _

/-! ### Connections -/

/-- The connection id the locals remember is the task's own. -/
def Seated (t : Tid) (con : Connection) (w : World) : Prop :=
  ∀ r, con.currentRoom = some r → Assigned w.history t r con.currentConnId

theorem Seated.next {con : Connection} {w w' : World} (h : World.Next w w')
    (hseat : Seated t con w) : Seated t con w' :=
  fun r hr => h.assigned (hseat r hr)

/-- What holds of a connection between two frames. -/
def Reading (t : Tid) (con : Connection) (w : World) : Prop := Free t w ∧ Seated t con w

theorem stable_reading {L : relay.Logic} (con : Connection) : L.Stable t (Reading t con) :=
  stable_free.and (stable_of_next fun _ _ h => Seated.next h)

theorem legal_answer (con : Connection) (reply : ServerMessage) (h : Reading t con w) :
    legality.Safe t (Reading t) (con.answer reply) w :=
  safe_act _ h (stable_reading con) fun _ _ hA _ =>
    ⟨trivial, fun _ _ _ hx _ => ⟨hA.1.own hx rfl, hA.2.next (.act hx)⟩⟩

/-- The end of a handler: deliver the effects and keep the new locals. -/
theorem legal_deliver (tx : Sender) (effects : Effects) (con : Connection)
    (h : Reading t con w) :
    legality.Safe t (Reading t) (do applyEffects tx effects; pure con) w :=
  (safe_frame (legal_applyEffects tx effects h.1) h.2 fun _ _ h => Seated.next h).bind
    fun _ _ hw => hw

omit [TokenCodec] in
theorem seated_cleared (con : Connection) : Seated t con.cleared w := fun r hr => by cases hr

omit [TokenCodec] in
/-- An attempt to enter a room leaves the locals alone or makes the room current. -/
theorem entered_cases (con : Connection) (msg : ClientMessage) (room : Option RoomId)
    (effects : Effects) :
    (con.entered msg room effects = con ∧ (room = none ∨ effects.assignedConnId = none)) ∨
    ∃ r c, room = some r ∧ effects.assignedConnId = some c ∧
      con.entered msg room effects =
        { con with
          currentRoom := some r
          currentPeerId := msg.peerId
          currentConnId := c
          currentCancel := effects.assignedCancel } := by
  unfold Connection.entered
  rcases room with _ | r
  · exact Or.inl ⟨rfl, Or.inl rfl⟩
  · rcases effects.assignedConnId with _ | c
    · exact Or.inl ⟨rfl, Or.inr rfl⟩
    · exact Or.inr ⟨r, c, rfl, rfl, rfl⟩

omit [TokenCodec] in
/-- The locals after an attempt to enter are seated if the room has assigned the id. -/
theorem seated_entered {con : Connection} (msg : ClientMessage) {room : Option RoomId}
    {effects : Effects} (hseat : Seated t con w)
    (hc : ∀ r c, room = some r → effects.assignedConnId = some c → Assigned w.history t r c) :
    Seated t (con.entered msg room effects) w := by
  rcases entered_cases con msg room effects with ⟨heq, _⟩ | ⟨r, c, hroom, hconn, heq⟩
  · rw [heq]
    exact hseat
  · rw [heq]
    rintro r' ⟨⟩
    exact hc r c hroom hconn

theorem legal_handleCreate (con : Connection) (msg : ClientMessage) (h : Reading t con w) :
    legality.Safe t (Reading t) (con.handleCreate msg) w := by
  unfold Connection.handleCreate
  split
  · exact legal_answer con _ h
  · split
    · exact legal_answer con _ h
    · refine (safe_frame (legal_create _ _ _ _ _ h.1) h.2 fun _ _ h => Seated.next h).bind ?_
      rintro ⟨room, effects⟩ w ⟨⟨hfree, hc⟩, hseat⟩
      exact legal_deliver _ effects _ ⟨hfree, seated_entered msg hseat hc⟩

theorem legal_handleJoin (con : Connection) (msg : ClientMessage) (resumeOnly : Bool)
    (h : Reading t con w) : legality.Safe t (Reading t) (con.handleJoin msg resumeOnly) w := by
  unfold Connection.handleJoin
  split
  · exact legal_answer con _ h
  · split
    · exact legal_answer con _ h
    · refine safe_act _ h (stable_reading con) fun w hb hA _ => ⟨trivial, fun e x w' hx _ => ?_⟩
      have h' : Reading t con w' := ⟨hA.1.own hx rfl, hA.2.next (.act hx)⟩
      obtain ⟨rfl, _⟩ := World.did_getRoom hx
      rcases hfound : w.server.rooms.lookup msg.sessionId with _ | room
      · exact legal_answer con _ h'
      · obtain ⟨st, hst, _⟩ := Base.registered hb hfound
        have hr : Present w' room := (World.Next.act hx).present ⟨st, hst⟩
        refine safe_act (fun w => Present w room ∧ Reading t con w) ⟨hr, h'⟩
          ((stable_present room).and (stable_reading con)) fun w _ hA _ =>
            ⟨⟨hA.1, nofun, nofun, nofun⟩, fun e effects w' hx _ => ?_⟩
        refine legal_deliver _ effects _ ⟨hA.2.1.own hx rfl, ?_⟩
        refine seated_entered msg (hA.2.2.next (.act hx)) fun r c hr hc => ?_
        cases hr
        refine assigned_of_did (k := ⟨w.server.nextToken⟩) hx ?_
        simp [Event.assigns, assigns_joinOrResume hx hc]

theorem legal_handleLeave (con : Connection) (msg : ClientMessage) (h : Reading t con w) :
    legality.Safe t (Reading t) (con.handleLeave msg) w := by
  unfold Connection.handleLeave
  split
  · exact legal_answer con _ h
  · rename_i room hroom
    refine (safe_frame (legal_leave _ _ _ (h.2 room hroom) h.1) h.2
      fun _ _ h => Seated.next h).bind fun effects w hw => ?_
    refine legal_deliver _ effects _ ⟨hw.1, ?_⟩
    split
    · exact hw.2
    · exact seated_cleared con

theorem legal_handleEndSession (con : Connection) (msg : ClientMessage) (h : Reading t con w) :
    legality.Safe t (Reading t) (con.handleEndSession msg) w := by
  unfold Connection.handleEndSession
  split
  · exact legal_answer con _ h
  · rename_i room hroom
    refine (legal_endSession _ _ _ (h.2 room hroom) h.1).bind fun effects w hw => ?_
    exact legal_deliver _ effects _ ⟨hw, seated_cleared con⟩

/-- A message to the current room runs sections for the connection's own id. -/
theorem legal_inCurrentRoom (con : Connection) (op : RoomId → Task Effects)
    (hop : ∀ r w, Assigned w.history t r con.currentConnId → Free t w →
      legality.Safe t (fun _ w => Free t w) (op r) w) (h : Reading t con w) :
    legality.Safe t (Reading t) (con.inCurrentRoom op) w := by
  unfold Connection.inCurrentRoom
  split
  · exact legal_answer con _ h
  · rename_i room hroom
    refine (safe_frame (hop room w (h.2 room hroom) h.1) h.2 fun _ _ h => Seated.next h).bind
      fun effects w hw => ?_
    exact legal_deliver _ effects con hw

theorem legal_inCurrentRoomTo (con : Connection) (msg : ClientMessage) (op : RoomId → Task Effects)
    (hop : ∀ r w, Assigned w.history t r con.currentConnId → Free t w →
      legality.Safe t (fun _ w => Free t w) (op r) w) (h : Reading t con w) :
    legality.Safe t (Reading t) (con.inCurrentRoomTo msg op) w := by
  unfold Connection.inCurrentRoomTo
  split
  · exact legal_answer con _ h
  · split
    · exact legal_answer con _ h
    · exact legal_inCurrentRoom con op hop h

theorem legal_exit (con : Connection) (h : Reading t con w) :
    legality.Safe t (fun _ w => Free t w) con.exit w := by
  unfold Connection.exit
  split
  · exact h.1
  · rename_i room hroom
    split
    · exact h.1
    · refine legal_roomFor (h.2 room hroom) h.1 rfl rfl rfl fun effects w _ hfree => ?_
      exact legal_applyEffects _ effects hfree

/-! ### The cleanup sweep -/

theorem legal_sweepOne (now : SystemTime) (hr : Present w r) (hfree : Free t w) :
    legality.Safe t (fun _ w => Free t w) (sweepOne now r) w := by
  apply safe_sweepOne (V := fun verdict w => Free t w ∧ (verdict.1 = true → IsClosing w r))
    (R := fun _ _ => Free t) (E := fun _ => Free t)
  · refine legal_room hr hfree rfl rfl rfl fun e verdict w w' hx hr hfree => ⟨hfree, ?_⟩
    intro hremove
    obtain ⟨st, _, hrun, hst'⟩ := World.did_room hx
    rcases RoomState.sweepRoom_cases hrun with ⟨_, rfl⟩ | ⟨hst, _⟩ | ⟨hst, _⟩
    · cases hremove
    · exact ⟨_, hst', by rw [hst]⟩
    · exact ⟨_, hst', by rw [hst]⟩
  · exact fun _ _ _ h => h.1
  · exact fun _ _ _ h => legal_removeIfCurrent (h.2 rfl) h.1
  · exact fun _ _ hfree => hfree
  · intro evict w hfree
    have hrecord : (perform .recordMutation).All fun a => a.isOutput = true :=
      ⟨rfl, fun _ => trivial⟩
    exact legal_of_all hrecord hfree fun _ h => Or.inl h
  · intro evict w hfree
    have hcancel : (Proc.forEach (fun token => perform (.cancel token)) evict).All
        fun a => a.isOutput = true := Proc.All.forEach fun _ _ => ⟨rfl, fun _ => trivial⟩
    exact legal_of_all hcancel hfree fun _ h => Or.inl h

theorem legal_sweep (now : SystemTime) (hfree : Free t w) :
    legality.Safe t (fun _ w => Free t w) (sweep now) w := by
  refine safe_act _ hfree stable_free fun w hb hfree _ => ⟨trivial, fun e rooms w' hx _ => ?_⟩
  obtain ⟨rfl, _⟩ := World.did_allRooms hx
  have hrooms : ∀ r ∈ w.server.rooms.values, Present w' r := by
    intro r hr
    obtain ⟨sid, hsid⟩ := AList.mem_values.mp hr
    obtain ⟨st, hst, _⟩ := Base.registered hb hsid
    exact (World.Next.act hx).present ⟨st, hst⟩
  have hloop : legality.Safe t
      (fun _ w'' => Free t w'' ∧ ∀ r ∈ w.server.rooms.values, Present w'' r)
      (Proc.forEach (sweepOne now) w.server.rooms.values) w' := by
    refine Logic.Safe.forEach (fun r hr w'' h => ?_) ⟨hfree.own hx rfl, hrooms⟩
    exact safe_frame (legal_sweepOne now (h.2 r hr) h.1) h.2
      fun _ _ hnext h r hr => hnext.present (h r hr)
  exact hloop.mono fun _ _ h => h.1

/-! ### Every reachable state -/

/-- What holds of a task between two requests. -/
def AtRest (t : Tid) (l : Local) (w : World) : Prop :=
  match l with
  | .reading con => Reading t con w
  | _ => Free t w

theorem stable_atRest {L : relay.Logic} (l : Local) : L.Stable t (AtRest t l) := by
  cases l with
  | reading con => exact stable_reading con
  | _ => exact stable_free

theorem legal_programs : Programs legality t (AtRest t) where
  connect _ _ _ h := ⟨h, fun r hr => by cases hr⟩
  answer con reply _ h := legal_answer con reply h
  create con msg _ _ h := legal_handleCreate con msg h
  join con msg resumeOnly _ _ h := legal_handleJoin con msg resumeOnly h
  leave con msg _ h := legal_handleLeave con msg h
  endSession con msg _ h := legal_handleEndSession con msg h
  transferHost con msg _ h := legal_inCurrentRoomTo con msg _ (fun _ _ hc hfree =>
    legal_roomFor hc hfree rfl rfl rfl fun _ _ _ hfree => hfree) h
  broadcast con _ _ h := legal_inCurrentRoom con _ (fun _ _ hc hfree =>
    legal_roomFor hc hfree rfl rfl rfl fun _ _ _ hfree => hfree) h
  sendTo con msg _ h := legal_inCurrentRoomTo con msg _ (fun _ _ hc hfree =>
    legal_roomFor hc hfree rfl rfl rfl fun _ _ _ hfree => hfree) h
  exit con _ h := legal_exit con h
  sweep now _ h := legal_sweep now h
  flushAndStop _ h := legal_of_all flushAndStop_all h fun _ h => Or.inr h

end Legality

/-- No task starts with the registry's lock. -/
theorem Startup.free {sys : RelaySys} (h : Startup sys) (t : Tid) : Free t sys.shared := by
  obtain ⟨heap, rooms, quota, hshared⟩ := h.shared_eq
  rw [Free, hshared]
  exact nofun

/-- **Every reachable state is consistent, and every pending action is legal.** -/
theorem relay_base {C : RelaySys → RelayLabel → Prop} {sys : RelaySys} (h : Reaches C sys) :
    Base sys.shared ∧ ∀ t, legality.Safe t (AtRest t) (sys.threads t) sys.shared := by
  refine Logic.Safe.adequate (L := legality) ?_ ?_ ?_ ?_ ?_ ?_ h
  · intro sys hsys
    refine ⟨Base.startup hsys, fun t => ?_⟩
    have hfree := hsys.free t
    obtain ⟨file, now, clock, rfl⟩ := hsys
    cases t <;> exact hfree
  · exact fun t q l p w _ h hp => legal_programs.start h hp
  · exact fun _ _ _ _ _ _ _ _ => trivial
  · exact fun t a e w x w' hb _ hlegal hx => Base.did hb hlegal hx
  · exact fun m w w' hb hm => Base.writer hb hm
  · exact fun t l => stable_atRest l

theorem relay_legal {C : RelaySys → RelayLabel → Prop} {sys : RelaySys} (h : Reaches C sys)
    {t : Tid} {a : Act} {k : a.Resp → Task Local} (ht : sys.threads t = .act a k) :
    Legal t a sys.shared := by
  obtain ⟨hb, hsafe⟩ := relay_base h
  have hself := hsafe t
  rw [ht] at hself
  obtain ⟨A, hA, _, hstep⟩ := hself
  exact (hstep _ hb hA trivial).1

end PlezyRelay
