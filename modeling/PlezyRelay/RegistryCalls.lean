/-
  PlezyRelay/RegistryCalls.lean
  =============================
  **Registry calls that run alone.**

  A call that is not interleaved with others (only the snapshot writer works beside it)
  is described by what it does to the rooms, the table and the quotas.  `registry`
  forgets everything else, so that a call's outcome is an equation between registries;
  `Outcome` says what `create` can come to, branch by branch.
-/
import PlezyRelay.RelaySafe

namespace PlezyRelay

open Machine

/-! ### The registry -/

namespace Server

/-- The rooms, the table and the quotas. -/
def registry (s : Server) : Server :=
  { heap := s.heap, rooms := s.rooms, roomsPerIp := s.roomsPerIp }

/-- `rooms_per_ip[key]`, zero when absent. -/
def quota (s : Server) (key : String) : Nat := (s.roomsPerIp.lookup key).getD 0

/-- A room replaced by what a section of it left behind. -/
def setRoom (s : Server) (r : RoomId) (st : RoomState) : Server := { s with heap := s.heap.set r st }

/-- What the reclaim branch of `create` does to the room it found under `sid`. -/
def reclaimed (s : Server) (r : RoomId) (sid : String) (st : RoomState) : Server :=
  ({ s.setRoom r { st with closing := true } with rooms := s.rooms.erase sid }).releaseRoomQuota
    st.ownerIpKey

variable (s : Server)

variable {s} in
theorem heap_of_registry {g : Server} (h : s.registry = g) : s.heap = g.heap := h ▸ rfl

variable {s} in
theorem rooms_of_registry {g : Server} (h : s.registry = g) : s.rooms = g.rooms := h ▸ rfl

theorem registry_releaseRoomQuota (key : String) :
    (s.releaseRoomQuota key).registry = s.registry.releaseRoomQuota key := by
  simp only [releaseRoomQuota, registry]
  split <;> rfl

theorem registry_tryClaimRoomQuota (key : String) :
    (s.tryClaimRoomQuota key).2.registry = (s.registry.tryClaimRoomQuota key).2 ∧
      (s.tryClaimRoomQuota key).1 = (s.registry.tryClaimRoomQuota key).1 := by
  by_cases hlimit : MAX_ROOMS_PER_IP ≤ (s.roomsPerIp.lookup key).getD 0 <;>
    simp [tryClaimRoomQuota, registry, hlimit]

/-- The map section of `remove_if_current` and `end_session`, on a room that is there. -/
theorem registry_removeIfCurrent {s s' g : Server} {r : RoomId} {b : Bool} {st : RoomState}
    (h : s.removeIfCurrent r = some (b, s')) (hg : s.registry = g) (hst : g.heap[r]? = some st) :
    (b = true ∧ g.rooms.lookup st.sessionId = some r ∧
        s'.registry = { g with rooms := g.rooms.erase st.sessionId }) ∨
      (b = false ∧ g.rooms.lookup st.sessionId ≠ some r ∧ s'.registry = g) := by
  subst hg
  obtain ⟨_, st₀, hst₀, hcase⟩ := removeIfCurrent_cases h
  obtain rfl := Option.some.inj (hst₀.symm.trans hst)
  rcases hcase with ⟨rfl, hcur, rfl⟩ | ⟨rfl, hne, rfl⟩
  · exact Or.inl ⟨rfl, hcur, rfl⟩
  · exact Or.inr ⟨rfl, hne, rfl⟩

/-- Updating a room and giving a slot back are independent. -/
theorem setRoom_releaseRoomQuota (key : String) (r : RoomId) (st : RoomState) :
    (s.releaseRoomQuota key).setRoom r st = (s.setRoom r st).releaseRoomQuota key := by
  simp only [releaseRoomQuota, setRoom]
  split <;> rfl

/-- Giving a slot back takes one off its key and forgets a key without slots. -/
theorem lookup_releaseRoomQuota (key k : String) :
    (s.releaseRoomQuota key).roomsPerIp.lookup k =
      if k = key then
        (s.roomsPerIp.lookup key).bind fun count => if count ≤ 1 then none else some (count - 1)
      else s.roomsPerIp.lookup k := by
  unfold releaseRoomQuota
  rcases hcount : s.roomsPerIp.lookup key with _ | count
  · dsimp only
    split
    · rename_i heq
      rw [heq, hcount]
      rfl
    · rfl
  · have hless : (if 0 < count then count - 1 else count) = count - 1 := by split <;> omega
    dsimp only [Option.bind_some]
    rw [hless]
    by_cases hlast : count ≤ 1
    · rw [if_pos (by omega), if_pos hlast, AList.lookup_erase_eq]
    · rw [if_neg (by omega), if_neg hlast, AList.lookup_insert_eq]

theorem quota_releaseRoomQuota (key k : String) :
    (s.releaseRoomQuota key).quota k = if k = key then s.quota k - 1 else s.quota k := by
  unfold quota
  rw [lookup_releaseRoomQuota]
  split
  · rename_i heq
    subst heq
    rcases s.roomsPerIp.lookup k with _ | count
    · rfl
    · dsimp only [Option.bind_some, Option.getD_some]
      split
      · simp only [Option.getD_none]
        omega
      · rfl
  · rfl

/-- A claim is granted below the limit. -/
theorem tryClaimRoomQuota_fst (key : String) :
    (s.tryClaimRoomQuota key).1 = decide (s.quota key < MAX_ROOMS_PER_IP) := by
  simp only [tryClaimRoomQuota, quota]
  split
  · exact (decide_eq_false (Nat.not_lt.mpr ‹_›)).symm
  · exact (decide_eq_true (Nat.lt_of_not_le ‹_›)).symm

theorem lookup_tryClaimRoomQuota (key k : String) :
    (s.tryClaimRoomQuota key).2.roomsPerIp.lookup k =
      if k = key then
        some (if s.quota key < MAX_ROOMS_PER_IP then s.quota key + 1 else s.quota key)
      else s.roomsPerIp.lookup k := by
  by_cases hlimit : MAX_ROOMS_PER_IP ≤ (s.roomsPerIp.lookup key).getD 0
  · have hnot : ¬s.quota key < MAX_ROOMS_PER_IP := Nat.not_lt.mpr hlimit
    rw [if_neg hnot]
    simp only [tryClaimRoomQuota, hlimit, if_true, AList.lookup_insert_eq]
    rfl
  · have hlt : s.quota key < MAX_ROOMS_PER_IP := Nat.lt_of_not_le hlimit
    rw [if_pos hlt]
    simp only [tryClaimRoomQuota, hlimit, if_false, AList.lookup_insert_eq]
    rfl

/-- A refused claim leaves the quotas as they are. -/
theorem lookup_tryClaimRoomQuota_of_le {key : String} (h : MAX_ROOMS_PER_IP ≤ s.quota key)
    (k : String) : (s.tryClaimRoomQuota key).2.roomsPerIp.lookup k = s.roomsPerIp.lookup k := by
  rw [lookup_tryClaimRoomQuota, if_neg (Nat.not_lt.mpr h)]
  split
  · rename_i heq
    subst heq
    rcases hlookup : s.roomsPerIp.lookup k with _ | count
    · simp [quota, hlookup, MAX_ROOMS_PER_IP] at h
    · simp [quota, hlookup]
  · rfl

theorem quota_tryClaimRoomQuota (key k : String) :
    (s.tryClaimRoomQuota key).2.quota k =
      if k = key ∧ s.quota key < MAX_ROOMS_PER_IP then s.quota k + 1 else s.quota k := by
  rw [quota, lookup_tryClaimRoomQuota]
  by_cases heq : k = key
  · subst heq
    simp
  · simp [heq, quota]

end Server

variable [TokenCodec]

/-! ### Running alone -/

/-- The logic of task `t` running alone: nobody else may act. -/
def alone (t : Tid) : relay.Logic where
  inv _ := True
  pre u _ _ := u = t

/-- The actions that leave the registry as it is. -/
def Act.keepsRegistry : Act → Bool
  | .removeRoom _ | .newRoom .. | .removeIfCurrent _ | .removeEnded _ | .tryClaimRoomQuota _
  | .releaseRoomQuota .. | .room .. => false
  | _ => true

section Alone

variable {t : Tid} {w : World} {α : Type} {Q : α → World → Prop}

theorem did_keepsRegistry {a : Act} {e : Env} {w' : World} {x : a.Resp} (hx : Did t a e w x w')
    (ha : a.keepsRegistry = true) : w'.server.registry = w.server.registry := by
  have hmoves := World.did_moves hx
  generalize w'.server = s' at hmoves ⊢
  cases hmoves with
  | room | newRoom | remove | claim | release => cases ha
  | removeCurrent _ _ _ hact => rcases hact with rfl | rfl <;> cases ha
  | _ => rfl

theorem stable_registry (R : Server → Prop) : (alone t).Stable t fun w => R w.server.registry := by
  intro w w' _ _ hint h
  rcases interferes_cases hint with ⟨u, a, e, x, hne, _, hpre, _⟩ | ⟨m, hm⟩
  · exact (hne hpre).elim
  · obtain ⟨hheap, hrooms, hquota, _⟩ := Server.writerStep_frame (World.writerStep_iff.mp hm).1
    rwa [Server.registry, hheap, hrooms, hquota]

/-- One action; the writer may have moved before it. -/
theorem alone_act {a : Act} {k : a.Resp → Task α}
    (h : ∀ e x w₀ w', w₀.server.registry = w.server.registry → Did t a e w₀ x w' →
      (alone t).Safe t Q (k x) w') : (alone t).Safe t Q (.act a k) w :=
  safe_act (fun w₀ => w₀.server.registry = w.server.registry) rfl
    (stable_registry (· = w.server.registry))
    fun w₀ _ hw₀ _ => ⟨rfl, fun e x w' hx _ => h e x w₀ w' hw₀ hx⟩

/-- An action that leaves the registry alone. -/
theorem alone_silent {a : Act} {k : a.Resp → Task α} (ha : a.keepsRegistry = true)
    (h : ∀ x w', w'.server.registry = w.server.registry → (alone t).Safe t Q (k x) w') :
    (alone t).Safe t Q (.act a k) w :=
  alone_act fun _ x _ w' hw₀ hx => h x w' ((did_keepsRegistry hx ha).trans hw₀)

/-- A section of a room. -/
theorem alone_room {r : RoomId} {op : RoomOp} {k : op.Result → Task α}
    (h : ∀ rd st w', w.server.heap[r]? = some st →
      w'.server.registry = w.server.registry.setRoom r (op.run rd st).1 →
      (alone t).Safe t Q (k (op.run rd st).2) w') :
    (alone t).Safe t Q (.act (.room r op) k) w := by
  refine alone_act fun e x w₀ w' hw₀ hx => ?_
  obtain ⟨s', hs, rfl⟩ := World.did_iff.mp hx
  obtain ⟨st, hst, rfl, rfl⟩ := Server.room_cases hs
  have hheap : w₀.server.heap = w.server.registry.heap := Server.heap_of_registry hw₀
  rw [hheap] at hst
  refine h _ st _ hst ?_
  rw [← hw₀]
  rfl

/-- A section of a room that only reads. -/
theorem alone_read {r : RoomId} {op : RoomOp} {k : op.Result → Task α}
    (hread : ∀ rd st, (op.run rd st).1 = st)
    (h : ∀ rd st w', w.server.heap[r]? = some st → w'.server.registry = w.server.registry →
      (alone t).Safe t Q (k (op.run rd st).2) w') :
    (alone t).Safe t Q (.act (.room r op) k) w := by
  refine alone_room fun rd st w' hst hw' => h rd st w' hst ?_
  rw [hw', hread, Server.setRoom]
  have hst : w.server.registry.heap[r]? = some st := hst
  obtain ⟨hlt, rfl⟩ := List.getElem?_eq_some_iff.mp hst
  rw [List.set_getElem_self]

/-- A program that leaves the registry alone. -/
theorem alone_of_all {p : Task α} {P : Act → Prop} (hp : p.All P)
    (hP : ∀ a, P a → a.keepsRegistry = true) :
    (alone t).Safe t (fun _ w' => w'.server.registry = w.server.registry) p w :=
  Logic.Safe.of_all hp rfl (stable_registry (· = w.server.registry)) (fun _ _ _ _ _ _ => rfl)
    fun _ _ _ _ _ ha _ _ _ hw hx => (did_keepsRegistry hx (hP _ ha)).trans hw

theorem alone_releaseRoomQuota {key : String} {r : RoomId} {k : Unit → Task α}
    (h : ∀ w', w'.server.registry = w.server.registry.releaseRoomQuota key →
      (alone t).Safe t Q (k ()) w') :
    (alone t).Safe t Q (.act (.releaseRoomQuota key r) k) w := by
  refine alone_act fun e x w₀ w' hw₀ hx => h w' ?_
  obtain ⟨s', hs, rfl⟩ := World.did_iff.mp hx
  cases hs
  rw [Server.registry_releaseRoomQuota, hw₀]

/-- What every way of running alone comes to. -/
theorem alone_runs {p : Task α} {x : α} {w' : World} {R : α → Server → Prop}
    (h : (alone t).Safe t (fun x w => R x w.server.registry) p w) (hrun : relay.Runs t p w x w') :
    R x w'.server.registry :=
  (h.runs trivial hrun (fun _ _ _ => trivial) (fun _ _ _ _ _ _ _ _ _ => trivial)
    (fun _ _ _ _ _ => trivial) fun x => stable_registry (R x)).2

end Alone

/-! ### `create` -/

/-- What the end of `create` comes to when no room is registered under the id. -/
inductive FreshOutcome (s : Server) (sid host : String) (v : Verifier) (token key : String)
    (admission : Admission) : Option RoomId → Server → Prop where
  | full (hsize : MAX_RETAINED_ROOMS ≤ s.rooms.size) :
      FreshOutcome s sid host v token key admission none s
  | overQuota (hsize : s.rooms.size < MAX_RETAINED_ROOMS) (hquota : MAX_ROOMS_PER_IP ≤ s.quota key) :
      FreshOutcome s sid host v token key admission none (s.tryClaimRoomQuota key).2
  | created (now : SystemTime) (cancel : CancellationToken)
      (hsize : s.rooms.size < MAX_RETAINED_ROOMS) (hquota : s.quota key < MAX_ROOMS_PER_IP) :
      FreshOutcome s sid host v token key admission (some s.heap.length)
        { (s.tryClaimRoomQuota key).2 with
          heap := s.heap ++ [(RoomState.newRoom sid host v token key admission now cancel).1]
          rooms := s.rooms.insert sid s.heap.length }

/-- What `create` comes to. -/
inductive Outcome (s : Server) (sid host token key : String) (admission : Admission) :
    Option RoomId → Server → Prop where
  | invalidToken (htoken : Verifier.fromToken token = none) :
      Outcome s sid host token key admission none s
  | fresh {v : Verifier} {room : Option RoomId} {s' : Server}
      (htoken : Verifier.fromToken token = some v) (hnone : s.rooms.lookup sid = none)
      (h : FreshOutcome s sid host v token key admission room s') :
      Outcome s sid host token key admission room s'
  | reconnected {v : Verifier} {r : RoomId} {st : RoomState} (cancel : CancellationToken)
      (htoken : Verifier.fromToken token = some v) (hfound : s.rooms.lookup sid = some r)
      (hst : s.heap[r]? = some st) (hsame : st.isIdempotent host v = true) :
      Outcome s sid host token key admission (some r)
        (s.setRoom r (st.reconnectHost admission token cancel).1)
  | taken {v : Verifier} {r : RoomId} {st : RoomState}
      (htoken : Verifier.fromToken token = some v) (hfound : s.rooms.lookup sid = some r)
      (hst : s.heap[r]? = some st) (hother : st.isIdempotent host v = false)
      (hlive : st.isReclaimable = false) :
      Outcome s sid host token key admission none s
  | reclaimed {v : Verifier} {r : RoomId} {st : RoomState} {room : Option RoomId} {s' : Server}
      (htoken : Verifier.fromToken token = some v) (hfound : s.rooms.lookup sid = some r)
      (hst : s.heap[r]? = some st) (hother : st.isIdempotent host v = false)
      (hempty : st.isReclaimable = true)
      (h : FreshOutcome (s.reclaimed r sid st) sid host v token key admission room s') :
      Outcome s sid host token key admission room s'

section Create

variable {t : Tid} {w : World} (sid host token key : String) (admission : Admission)

theorem outcome_createFresh (v : Verifier) {s : Server} (hs : w.server.registry = s) :
    (alone t).Safe t
      (fun x w => FreshOutcome s sid host v token key admission x.1 w.server.registry)
      (Registry.createFresh sid host v token key admission) w := by
  refine alone_act fun e n w₀ w₁ hw₀ hx => ?_
  have hn : n = s.rooms.size := by
    obtain ⟨s', hexec, rfl⟩ := World.did_iff.mp hx
    simp only [Server.exec] at hexec
    split at hexec
    · cases hexec
      rw [← hs, ← hw₀]
      rfl
    · cases hexec
  have hw₁ : w₁.server.registry = s := ((did_keepsRegistry hx rfl).trans hw₀).trans hs
  subst hn
  rw [Proc.ret_bind]
  split
  · rename_i hfull
    refine alone_silent rfl fun _ w₂ hw₂ => ?_
    change FreshOutcome _ _ _ _ _ _ _ none _
    rw [hw₂, hw₁]
    exact .full hfull
  · rename_i hsize
    rw [not_le] at hsize
    refine alone_act fun e b w₂ w₃ hw₂ hx => ?_
    have hclaim : w₃.server.registry = (s.tryClaimRoomQuota key).2 ∧
        b = (s.tryClaimRoomQuota key).1 := by
      obtain ⟨s', hexec, rfl⟩ := World.did_iff.mp hx
      have hexec := Option.some.inj hexec
      obtain rfl : _ = b := congrArg Prod.fst hexec
      obtain rfl : _ = s' := congrArg Prod.snd hexec
      obtain ⟨hreg, hb⟩ := Server.registry_tryClaimRoomQuota w₂.server key
      rw [hreg, hb, hw₂, hw₁]
      exact ⟨rfl, rfl⟩
    obtain ⟨hw₃, rfl⟩ := hclaim
    rw [Server.tryClaimRoomQuota_fst]
    by_cases hquota : s.quota key < MAX_ROOMS_PER_IP
    · rw [decide_eq_true hquota]
      refine alone_act fun e x w₄ w₅ hw₄ hx => ?_
      obtain ⟨_, rfl, hs₅⟩ := World.did_newRoom hx
      have hheap : w₄.server.heap = s.heap := by
        have := Server.heap_of_registry (hw₄.trans hw₃)
        rwa [Server.tryClaimRoomQuota_eq] at this
      have hrooms : w₄.server.rooms = s.rooms := by
        have := Server.rooms_of_registry (hw₄.trans hw₃)
        rwa [Server.tryClaimRoomQuota_eq] at this
      refine alone_silent rfl fun _ w₆ hw₆ => ?_
      refine alone_silent rfl fun _ w₇ hw₇ => ?_
      change FreshOutcome _ _ _ _ _ _ _ (some _) _
      have hreg : w₇.server.registry =
          { (s.tryClaimRoomQuota key).2 with
            heap := s.heap ++ [(RoomState.newRoom sid host v token key admission e.now
              ⟨w₄.server.nextToken⟩).1]
            rooms := s.rooms.insert sid s.heap.length } := by
        rw [hw₇, hw₆, hs₅, ← hw₃, ← hw₄, ← hheap, ← hrooms]
        rfl
      rw [hreg, hheap]
      exact .created _ _ hsize hquota
    · rw [decide_eq_false hquota]
      refine alone_silent rfl fun _ w₄ hw₄ => ?_
      change FreshOutcome _ _ _ _ _ _ _ none _
      rw [hw₄, hw₃]
      exact .overQuota hsize (Nat.le_of_not_lt hquota)

theorem outcome_create {s : Server} (hs : w.server.registry = s) :
    (alone t).Safe t (fun x w => Outcome s sid host token key admission x.1 w.server.registry)
      (Registry.create sid host token key admission) w := by
  unfold Registry.create
  split
  · rename_i htoken
    change Outcome _ _ _ _ _ _ none _
    rw [hs]
    exact .invalidToken htoken
  · rename_i v htoken
    refine alone_act fun e found w₀ w₁ hw₀ hx => ?_
    have hw₁ : w₁.server.registry = s := ((did_keepsRegistry hx rfl).trans hw₀).trans hs
    have hfound : s.rooms.lookup sid = found := by
      obtain ⟨_, rfl, _⟩ := World.did_lockRooms hx
      rw [← hs, ← hw₀]
      rfl
    rcases found with _ | existing
    · exact (outcome_createFresh sid host token key admission v hw₁).mono
        fun _ _ h => .fresh htoken hfound h
    · refine alone_read (fun _ _ => rfl) fun _ st w₂ hst hw₂ => ?_
      have hst : s.heap[existing]? = some st := by rw [← hw₁]; exact hst
      have hw₂ := hw₂.trans hw₁
      dsimp only [RoomOp.run]
      rcases hsame : st.isIdempotent host v with _ | _
      · refine alone_read (fun _ _ => rfl) fun _ st₂ w₃ hst₂ hw₃ => ?_
        obtain rfl : st₂ = st := by
          rw [← hw₂] at hst
          exact Option.some.inj (hst₂.symm.trans hst)
        have hw₃ := hw₃.trans hw₂
        dsimp only [RoomOp.run]
        rcases hempty : st₂.isReclaimable with _ | _
        · refine alone_silent rfl fun _ w₄ hw₄ => ?_
          change Outcome _ _ _ _ _ _ none _
          rw [hw₄, hw₃]
          exact .taken htoken hfound hst hsame hempty
        · refine alone_read (fun _ _ => rfl) fun _ st₃ w₄ hst₃ hw₄ => ?_
          obtain rfl : st₃ = st₂ := by
            rw [← hw₃] at hst
            exact Option.some.inj (hst₃.symm.trans hst)
          have hw₄ := hw₄.trans hw₃
          refine alone_room fun _ st₄ w₅ hst₄ hw₅ => ?_
          obtain rfl : st₄ = st₃ := by
            rw [← hw₄] at hst
            exact Option.some.inj (hst₄.symm.trans hst)
          rw [hw₄] at hw₅
          refine alone_act fun e x w₆ w₇ hw₆ hx => ?_
          have hw₇ : w₇.server.registry =
              { s.setRoom existing { st₄ with closing := true } with
                rooms := s.rooms.erase sid } := by
            obtain ⟨_, _, hs₇⟩ := World.did_removeRoom hx
            have hreg := hw₆.trans hw₅
            have hrooms : w₆.server.rooms = (s.setRoom existing _).rooms :=
              Server.rooms_of_registry hreg
            rw [hs₇, show s.rooms = w₆.server.rooms from hrooms.symm]
            exact congrArg (fun g : Server => { g with rooms := w₆.server.rooms.erase sid }) hreg
          refine alone_releaseRoomQuota fun w₈ hw₈ => ?_
          rw [hw₇] at hw₈
          exact (outcome_createFresh sid host token key admission v hw₈).mono
            fun _ _ h => .reclaimed htoken hfound hst hsame hempty h
      · refine alone_room fun rd st₂ w₃ hst₂ hw₃ => ?_
        obtain rfl : st₂ = st := by
          rw [← hw₂] at hst
          exact Option.some.inj (hst₂.symm.trans hst)
        refine alone_silent rfl fun _ w₄ hw₄ => ?_
        refine alone_silent rfl fun _ w₅ hw₅ => ?_
        change Outcome _ _ _ _ _ _ (some existing) _
        rw [hw₅, hw₄, hw₃, hw₂]
        exact .reconnected rd.token htoken hfound hst hsame

end Create

end PlezyRelay
