/-
  PlezyRelay/RecordedMutations.lean
  =================================
  **Every change that has to be saved is reported to the snapshot writer.**

  A section of a room that changes what is saved of it leaves its task with a debt:
  the task has to send the writer a command before it is done.  `owes` reads the debt
  off the history.  Most sections say themselves that they are dirty, and delivering
  their effects pays; `create`, leaves, ends of session and the sweep pay on their own.

  There is one program that ends in debt: a `create` that has reclaimed a room and is
  then refused.  `WithinLimits` excludes it.
-/
import PlezyRelay.RegistryCalls

namespace PlezyRelay

open Machine

/-! ### Debts -/

/-- The section has changed what is saved of the room, or says so. -/
def RoomOp.dirties : (op : RoomOp) → op.Result → Bool
  | .markClosing, _ => true
  | .beginLeave .., .ok _ => true
  | .beginEndSession .., .ok _ => true
  | .pruneExpiredReservations, changed => changed
  | .sweep _, verdict => verdict.2.1
  | .reconnectHost .., effects | .joinOrResume .., effects | .finishLeave .., effects
  | .finishEndSession .., effects | .transferHost .., effects | .broadcast .., effects
  | .sendTo .., effects | .handleDisconnect .., effects => effects.dirty
  | _, _ => false

def Event.dirties : Event → Bool
  | ⟨_, .newRoom .., _⟩ => true
  | ⟨_, .room _ op, x⟩ => op.dirties x
  | _ => false

/-- The event is a command that makes the writer save. -/
def Event.records : Event → Bool
  | ⟨_, .recordMutation, _⟩ | ⟨_, .sendTerminal, _⟩ => true
  | _ => false

/-- Task `t` has changed what is to be saved and not yet told the writer. -/
def owes (t : Tid) : List Event → Bool
  | [] => false
  | ev :: h => if ev.thread = t then !ev.records && (ev.dirties || owes t h) else owes t h

/-- A `create` that has reclaimed a room is within both limits when it comes to them. -/
def WithinLimits (t : Tid) (a : Act) (w : World) : Prop :=
  match a with
  | .roomsLen => owes t w.history = true → w.server.rooms.size < MAX_RETAINED_ROOMS
  | .tryClaimRoomQuota key => owes t w.history = true → w.server.quota key < MAX_ROOMS_PER_IP
  | _ => True

instance (t : Tid) (a : Act) (w : World) : Decidable (WithinLimits t a w) := by
  unfold WithinLimits
  split <;> infer_instance

/-- Task `t` owes a command at most if `b`. -/
def Debt (t : Tid) (b : Bool) (w : World) : Prop := owes t w.history = true → b = true

variable [TokenCodec]

/-- Runs in which no `create` is refused after it has reclaimed a room. -/
def paying : relay.Logic where
  inv _ := True
  assume := WithinLimits

section Debt

variable {t : Tid} {w w' : World} {b : Bool} {α : Type} {Q : α → World → Prop}

omit [TokenCodec] in
theorem Debt.mono (h : Debt t false w) : Debt t b w := fun howes => by cases h howes

theorem stable_debt : paying.Stable t (Debt t b) := by
  intro w w' _ _ hint h
  rcases interferes_cases hint with ⟨u, a, e, x, hne, _, _, hx⟩ | ⟨m, hm⟩
  · rw [Debt, World.did_history hx, owes, if_neg hne]
    exact h
  · rw [Debt, (World.writerStep_iff.mp hm).2]
    exact h

theorem Debt.own {a : Act} {e : Env} {x : a.Resp} (h : Debt t b w) (hx : Did t a e w x w') :
    Debt t (!Event.records ⟨t, a, x⟩ && (Event.dirties ⟨t, a, x⟩ || b)) w' := by
  rw [Debt, World.did_history hx, owes, if_pos rfl]
  simp only [Bool.and_eq_true, Bool.or_eq_true]
  exact fun howes => ⟨howes.1, howes.2.imp id h⟩

theorem debt_act {a : Act} {k : a.Resp → Task α} (h : Debt t b w)
    (hk : ∀ e x w w', Did t a e w x w' → WithinLimits t a w → Debt t b w →
      Debt t (!Event.records ⟨t, a, x⟩ && (Event.dirties ⟨t, a, x⟩ || b)) w' →
      paying.Safe t Q (k x) w') : paying.Safe t Q (.act a k) w :=
  safe_act _ h stable_debt fun w _ h hlimits =>
    ⟨trivial, fun e x w' hx _ => hk e x w w' hx hlimits h (h.own hx)⟩

/-- The actions that neither make nor pay a debt. -/
def Act.isNeutral : Act → Bool
  | .recordMutation | .sendTerminal | .newRoom .. => false
  | .room _ op =>
      match op with
      | .isIdempotent .. | .isReclaimable | .ownerIpKey => true
      | _ => false
  | _ => true

omit [TokenCodec] in
theorem neutral_spec {a : Act} (x : a.Resp) (h : a.isNeutral = true) :
    Event.records ⟨t, a, x⟩ = false ∧ Event.dirties ⟨t, a, x⟩ = false := by
  cases a with
  | recordMutation | sendTerminal | newRoom => cases h
  | room r op => cases op <;> first | exact ⟨rfl, rfl⟩ | cases h
  | _ => exact ⟨rfl, rfl⟩

theorem Debt.neutral {a : Act} {e : Env} {x : a.Resp} (h : Debt t b w) (hx : Did t a e w x w')
    (ha : a.isNeutral = true) : Debt t b w' := by
  obtain ⟨hrecords, hdirties⟩ := neutral_spec (t := t) x ha
  have h' := h.own hx
  rwa [hrecords, hdirties] at h'

theorem debt_neutral {a : Act} {k : a.Resp → Task α} (h : Debt t b w) (ha : a.isNeutral = true)
    (hk : ∀ x w, Debt t b w → paying.Safe t Q (k x) w) : paying.Safe t Q (.act a k) w :=
  debt_act h fun _ x _ w' hx _ h _ => hk x w' (h.neutral hx ha)

theorem debt_of_all {p : Task α} (hp : p.All fun a => a.isNeutral = true) (h : Debt t b w) :
    paying.Safe t (fun _ => Debt t b) p w :=
  Logic.Safe.of_all hp h stable_debt (fun _ _ _ _ _ _ => trivial)
    fun _ _ _ _ _ ha _ _ _ h hx => h.neutral hx ha

/-- A section makes a debt if it is dirty. -/
theorem debt_room {r : RoomId} {op : RoomOp} {k : op.Result → Task α} (h : Debt t false w)
    (hk : ∀ x w, Debt t (op.dirties x) w → paying.Safe t Q (k x) w) :
    paying.Safe t Q (.act (.room r op) k) w := by
  refine debt_act h fun _ x _ w' _ _ _ h' => hk x w' ?_
  simpa [Event.records, Event.dirties] using h'

/-- Telling the writer pays. -/
theorem debt_record {k : Unit → Task α} (h : Debt t b w)
    (hk : ∀ w, Debt t false w → paying.Safe t Q (k ()) w) :
    paying.Safe t Q (.act .recordMutation k) w :=
  debt_act h fun _ _ _ w' _ _ _ h' => hk w' h'

theorem debt_recordTerminalMutation (h : Debt t b w) :
    paying.Safe t (fun _ => Debt t false) recordTerminalMutation w := by
  refine debt_act h fun _ reply _ w' _ _ _ h' => ?_
  have hpaid : Debt t false w' := h'
  cases reply with
  | none => exact hpaid
  | some reply => exact debt_neutral hpaid rfl fun _ _ h => h

theorem debt_applyEffects (tx : Sender) (effects : Effects) (h : Debt t effects.dirty w) :
    paying.Safe t (fun _ => Debt t false) (applyEffects tx effects) w := by
  have hreply : (Proc.forEach (fun reply => perform (.send tx reply)) effects.reply.toList).All
      fun a => a.isNeutral = true := .forEach fun _ _ => ⟨rfl, fun _ => trivial⟩
  have hbroadcast : (Proc.forEach (fun outbound : Outbound =>
      perform (.send outbound.tx outbound.msg)) effects.broadcast).All
      fun a => a.isNeutral = true := .forEach fun _ _ => ⟨rfl, fun _ => trivial⟩
  have hevict : (Proc.forEach (fun token => perform (.cancel token)) effects.evict).All
      fun a => a.isNeutral = true := .forEach fun _ _ => ⟨rfl, fun _ => trivial⟩
  refine (debt_of_all hreply h).bind fun _ w h => ?_
  refine (debt_of_all hbroadcast h).bind fun _ w h => ?_
  refine (debt_of_all hevict h).bind fun _ w h => ?_
  cases hdirty : effects.dirty with
  | false => rwa [hdirty] at h
  | true => exact debt_record h fun _ h => h

/-! ### The programs -/

theorem did_roomsLen {e : Env} {n : Nat} (hx : Did t .roomsLen e w n w') :
    n = w.server.rooms.size := by
  obtain ⟨s', hs, _⟩ := World.did_iff.mp hx
  simp only [Server.exec] at hs
  split at hs
  · cases hs
    rfl
  · cases hs

theorem did_tryClaimRoomQuota {e : Env} {key : String} {granted : Bool}
    (hx : Did t (.tryClaimRoomQuota key) e w granted w') :
    granted = decide (w.server.quota key < MAX_ROOMS_PER_IP) := by
  obtain ⟨s', hs, _⟩ := World.did_iff.mp hx
  exact (congrArg Prod.fst (Option.some.inj hs)).symm.trans (Server.tryClaimRoomQuota_fst _ key)

/-- Whoever is refused owes nothing; a room that is made is reported. -/
theorem debt_createFresh (sid host : String) (v : Verifier) (token key : String)
    (admission : Admission) (h : Debt t b w) :
    paying.Safe t (fun _ => Debt t false)
      (Registry.createFresh sid host v token key admission) w := by
  refine debt_act h fun e n w w' hx hlimits h _ => ?_
  rw [Proc.ret_bind]
  split
  · rename_i hfull
    rw [did_roomsLen hx] at hfull
    have hpaid : Debt t false w := fun howes => absurd (hlimits howes) (Nat.not_lt.mpr hfull)
    exact debt_neutral (hpaid.neutral hx rfl) rfl fun _ _ h => h
  · refine debt_act (h.neutral hx rfl) fun e granted w w' hx hlimits h _ => ?_
    have hgranted := did_tryClaimRoomQuota hx
    cases granted with
    | false =>
        have hpaid : Debt t false w := fun howes =>
          absurd (hlimits howes) (of_decide_eq_false hgranted.symm)
        exact debt_neutral (hpaid.neutral hx rfl) rfl fun _ _ h => h
    | true =>
        refine debt_act (h.neutral hx rfl) fun e x w w' _ _ _ h => ?_
        refine debt_neutral h rfl fun _ w h => ?_
        exact debt_record h fun _ h => h

theorem debt_create (sid host token key : String) (admission : Admission) (h : Debt t false w) :
    paying.Safe t (fun _ => Debt t false) (Registry.create sid host token key admission) w := by
  unfold Registry.create
  split
  · exact h
  · refine debt_neutral h rfl fun found w h => ?_
    rcases found with _ | existing
    · exact debt_createFresh sid host _ token key admission h
    · refine debt_neutral h rfl fun idempotent w h => ?_
      cases idempotent with
      | true =>
          refine debt_room h fun effects w h => debt_neutral h rfl fun _ w h => ?_
          exact debt_record h fun _ h => h
      | false =>
          refine debt_neutral h rfl fun reclaimable w h => ?_
          cases reclaimable with
          | false => exact debt_neutral h rfl fun _ _ h => h
          | true =>
              refine debt_neutral h rfl fun _ w h => debt_room h fun _ w h => ?_
              refine debt_neutral h rfl fun _ w h => debt_neutral h rfl fun _ w h => ?_
              exact debt_createFresh sid host _ token key admission h

theorem debt_leave (r : RoomId) (peerId : String) (c : Nat) (token : String) (version : Nat)
    (h : Debt t false w) :
    paying.Safe t (fun effects => Debt t effects.dirty) (Room.leave r peerId c token version) w := by
  refine debt_room h fun begun w h => ?_
  cases begun with
  | error effects => exact Debt.mono h
  | ok _ =>
      refine (debt_recordTerminalMutation h).bind fun persisted w h => ?_
      exact debt_room h fun _ _ h => h

theorem debt_endSession (r : RoomId) (peerId : String) (c : Nat) (token : String) (version : Nat)
    (h : Debt t false w) :
    paying.Safe t (fun effects => Debt t effects.dirty)
      (Registry.endSession r peerId c token version) w := by
  refine debt_room h fun begun w h => ?_
  cases begun with
  | error effects => exact Debt.mono h
  | ok _ =>
      refine debt_neutral h rfl fun _ w h => debt_neutral h rfl fun _ w h => ?_
      refine (debt_recordTerminalMutation h).bind fun persisted w h => ?_
      exact debt_room h fun _ _ h => h

theorem debt_sweep (now : SystemTime) (h : Debt t false w) :
    paying.Safe t (fun _ => Debt t false) (sweep now) w := by
  refine debt_neutral h rfl fun rooms w h => ?_
  refine Logic.Safe.forEach (fun r _ w h => ?_) h
  apply safe_sweepOne (V := fun verdict => Debt t verdict.2.1) (R := fun changed _ => Debt t changed)
    (E := fun _ => Debt t false)
  · exact debt_room h fun _ _ h => h
  · exact fun _ _ _ h => h
  · exact fun _ _ _ h => debt_of_all (removeIfCurrent_all rfl rfl fun _ => rfl) h
  · exact fun _ _ h => h
  · exact fun _ _ h => debt_record h fun _ h => h
  · exact fun _ _ h => debt_of_all (.forEach fun _ _ => ⟨rfl, fun _ => trivial⟩) h

theorem debt_programs : Programs paying t fun _ => Debt t false := by
  have hflush : flushAndStop.All fun a => a.isNeutral = true := by
    refine ⟨rfl, fun reply => ?_⟩
    cases reply with
    | none => trivial
    | some reply => exact ⟨rfl, fun _ => trivial⟩
  refine Programs.of_delivery (A := fun effects => Debt t effects.dirty)
    (fun _ _ _ h => debt_neutral h rfl fun _ _ h => h)
    (fun _ _ h => debt_neutral h rfl fun _ _ h => h) (fun r op w hop _ h => ?_)
    (fun tx effects _ h => debt_applyEffects tx effects h)
    (fun _ _ _ _ _ _ h => (debt_create _ _ _ _ _ h).mono fun _ _ h => Debt.mono h)
    (fun _ _ _ _ _ _ h => debt_leave _ _ _ _ _ h)
    (fun _ _ _ _ _ _ h => debt_endSession _ _ _ _ _ h) (fun now _ h => debt_sweep now h)
    fun _ h => debt_of_all hflush h
  refine debt_room h fun x w h => ?_
  cases op <;> first | exact h | cases hop

end Debt

/-- A task at rest has reported all its changes. -/
theorem paid_at_rest {C : RelaySys → RelayLabel → Prop} {sys : RelaySys} (h : Reaches C sys)
    (hC : ∀ sys t e a, C sys (.act t e) → a ∈ (sys.threads t).next → WithinLimits t a sys.shared)
    {t : Tid} {l : Local} (ht : sys.threads t = .ret l) : owes t sys.shared.history = false := by
  have hsafe : True ∧ ∀ t, paying.Safe t (fun _ => Debt t false) (sys.threads t) sys.shared := by
    refine Logic.Safe.adequate (L := paying) ?_ ?_ ?_ ?_ ?_ ?_ h
    · intro sys hsys
      refine ⟨trivial, fun t => ?_⟩
      obtain ⟨file, now, clock, rfl⟩ := hsys
      have hnew : Debt t false (initially (loadSnapshot file now clock)).shared := id
      cases t <;> exact hnew
    · exact fun t q l p w _ h hp => debt_programs.start h hp
    · exact fun sys t e a k _ hc ht => hC sys t e a hc (by rw [ht]; rfl)
    · exact fun _ _ _ _ _ _ _ _ _ _ => trivial
    · exact fun _ _ _ _ _ => trivial
    · exact fun _ _ => stable_debt
  have hdebt := hsafe.2 t
  rw [ht] at hdebt
  exact Bool.eq_false_iff.mpr fun howes => by cases hdebt howes

end PlezyRelay
