/-
  PlezyRelay/CreateAtomicity.lean
  ===============================
  **When a failed `create` leaves no trace.**

  Run alone, `create` always returns.  Its refusals before the reclaim branch change
  nothing.  The reclaim branch, however, closes the abandoned room, takes it out of the
  table and gives its slot back before the limits on rooms are tested; a caller who is at
  a limit destroys the room and gets nothing.  `RefusedAfterReclaim` is exactly that.
-/
import PlezyRelay.RegistryCalls

namespace PlezyRelay

open Machine

variable [TokenCodec]

/-! ### `create` returns -/

/-- Run alone, the program comes to an end. -/
def Finishes {α : Type} (t : Tid) (p : Task α) (w : World) : Prop := ∃ x w', relay.Runs t p w x w'

section Finishes

variable {t : Tid} {w : World} {α : Type} {r : RoomId}

theorem finishes_act {a : Act} {k : a.Resp → Task α}
    (henabled : ∃ y, w.server.exec t a {} = some y)
    (h : ∀ y w', Did t a {} w y w' → Finishes t (k y) w') : Finishes t (.act a k) w := by
  obtain ⟨⟨y, s'⟩, hexec⟩ := henabled
  have hdid : Did t a {} w y ⟨s', ⟨t, a, y⟩ :: w.history⟩ := World.did_iff.mpr ⟨s', hexec, rfl⟩
  obtain ⟨x, w', hrun⟩ := h y _ hdid
  exact ⟨x, w', .act hdid hrun⟩

/-- An action under the registry lock that does not wait for a room. -/
theorem finishes_held {a : Act} {k : a.Resp → Task α} (hlock : w.server.writeLock = some t)
    (ha : match a with
      | .removeRoom _ | .roomsLen | .newRoom .. | .tryClaimRoomQuota _ | .releaseRoomQuota .. => True
      | _ => False)
    (h : ∀ y w', w'.server.writeLock = some t → Finishes t (k y) w') :
    Finishes t (.act a k) w := by
  refine finishes_act ?_ fun y w' hx => h y w' ?_
  · cases a <;> first | exact ha.elim | simp [Server.exec, hlock]
  · rw [(World.did_moves hx).lock_same (by cases a <;> first | exact ha.elim | rfl), hlock]

theorem finishes_room {op : RoomOp} {k : op.Result → Task α} (hlock : w.server.writeLock = some t)
    (hr : Present w r)
    (h : ∀ y w', w'.server.writeLock = some t → Present w' r → Finishes t (k y) w') :
    Finishes t (.act (.room r op) k) w := by
  refine finishes_act ?_ fun y w' hx => h y w' ?_ ((World.Next.act hx).present hr)
  · obtain ⟨st, hst⟩ := hr
    simp [Server.exec, Server.room, hst]
  · rw [(World.did_moves hx).lock_same rfl, hlock]

theorem finishes_unlock {k : Unit → Task α} (hlock : w.server.writeLock = some t)
    (h : ∀ w', Finishes t (k ()) w') : Finishes t (.act .unlockRooms k) w :=
  finishes_act (by simp [Server.exec, hlock]) fun _ w' _ => h w'

theorem finishes_recordMutation {k : Unit → Task α} (h : ∀ w', Finishes t (k ()) w') :
    Finishes t (.act .recordMutation k) w :=
  finishes_act ⟨_, rfl⟩ fun _ w' _ => h w'

theorem finishes_ret (x : α) : Finishes t (.ret x) w := ⟨x, w, .ret x w⟩

theorem finishes_createFresh (sid host : String) (v : Verifier) (token key : String)
    (admission : Admission) (hlock : w.server.writeLock = some t) :
    Finishes t (Registry.createFresh sid host v token key admission) w := by
  refine finishes_held hlock trivial fun n w hlock => ?_
  rw [Proc.ret_bind]
  split
  · exact finishes_unlock hlock fun _ => finishes_ret _
  · refine finishes_held hlock trivial fun b w hlock => ?_
    cases b with
    | false => exact finishes_unlock hlock fun _ => finishes_ret _
    | true =>
        refine finishes_held hlock trivial fun x w hlock => ?_
        exact finishes_unlock hlock fun _ => finishes_recordMutation fun _ => finishes_ret _

/-- Once the lock is free, `create` waits for nothing. -/
theorem finishes_create (sid host token key : String) (admission : Admission)
    (hlock : w.server.writeLock = none)
    (hrooms : ∀ r, w.server.rooms.lookup sid = some r → Present w r) :
    Finishes t (Registry.create sid host token key admission) w := by
  unfold Registry.create
  split
  · exact finishes_ret _
  · refine finishes_act (by simp [Server.exec, hlock]) fun found w' hx => ?_
    obtain ⟨_, rfl, hs⟩ := World.did_lockRooms hx
    have hlock : w'.server.writeLock = some t := by rw [hs]
    rcases hfound : w.server.rooms.lookup sid with _ | existing
    · exact finishes_createFresh _ _ _ _ _ _ hlock
    · have hr : Present w' existing := (World.Next.act hx).present (hrooms existing hfound)
      refine finishes_room hlock hr fun idempotent w hlock hr => ?_
      cases idempotent with
      | true =>
          refine finishes_room hlock hr fun effects w hlock _ => ?_
          exact finishes_unlock hlock fun _ => finishes_recordMutation fun _ => finishes_ret _
      | false =>
          refine finishes_room hlock hr fun reclaimable w hlock hr => ?_
          cases reclaimable with
          | false => exact finishes_unlock hlock fun _ => finishes_ret _
          | true =>
              refine finishes_room hlock hr fun _ w hlock hr => ?_
              refine finishes_room hlock hr fun _ w hlock _ => ?_
              refine finishes_held hlock trivial fun _ w hlock => ?_
              refine finishes_held hlock trivial fun _ w hlock => ?_
              exact finishes_createFresh _ _ _ _ _ _ hlock

end Finishes

/-! ### What a refusal leaves behind -/

/-- The table, the quotas and every room are what they were. -/
structure Unchanged (s s' : Server) : Prop where
  rooms : ∀ sid, s'.rooms.lookup sid = s.rooms.lookup sid
  roomsPerIp : ∀ key, s'.roomsPerIp.lookup key = s.roomsPerIp.lookup key
  heap : s'.heap = s.heap

/-- The id is held by an abandoned room of somebody else, and once that room and its slot
    are gone the caller is still at a limit. -/
def RefusedAfterReclaim (s : Server) (sid host token key : String) : Prop :=
  ∃ v ∈ Verifier.fromToken token, ∃ r ∈ s.rooms.lookup sid, ∃ st ∈ s.heap[r]?,
    st.isIdempotent host v = false ∧ st.isReclaimable = true ∧
      (MAX_RETAINED_ROOMS < s.rooms.size ∨
        MAX_ROOMS_PER_IP + (if key = st.ownerIpKey then 1 else 0) ≤ s.quota key)

instance (s : Server) (sid host token key : String) :
    Decidable (RefusedAfterReclaim s sid host token key) := by
  unfold RefusedAfterReclaim
  infer_instance

section Outcomes

omit [TokenCodec]

variable {s : Server} {sid key : String} {r : RoomId} {st : RoomState}

theorem rooms_reclaimed : (s.reclaimed r sid st).rooms = s.rooms.erase sid := by
  rw [Server.reclaimed, Server.releaseRoomQuota_eq]

theorem heap_reclaimed :
    (s.reclaimed r sid st).heap = s.heap.set r { st with closing := true } := by
  rw [Server.reclaimed, Server.releaseRoomQuota_eq]
  rfl

theorem quota_reclaimed : (s.reclaimed r sid st).quota key =
    if key = st.ownerIpKey then s.quota key - 1 else s.quota key :=
  Server.quota_releaseRoomQuota _ _ _

/-- A reclaim is followed by a refusal exactly at the limits. -/
theorem limits_reclaimed (st : RoomState) (hfound : s.rooms.lookup sid = some r) :
    (MAX_RETAINED_ROOMS ≤ (s.reclaimed r sid st).rooms.size ∨
      MAX_ROOMS_PER_IP ≤ (s.reclaimed r sid st).quota key) ↔
    (MAX_RETAINED_ROOMS < s.rooms.size ∨
      MAX_ROOMS_PER_IP + (if key = st.ownerIpKey then 1 else 0) ≤ s.quota key) := by
  have hmem := AList.mem_of_lookup hfound
  have hsize := AList.size_erase_of_mem hmem
  have hlimit : 0 < MAX_ROOMS_PER_IP := by decide
  rw [rooms_reclaimed, quota_reclaimed]
  split <;> omega

/-- The abandoned room is visibly closed. -/
theorem heap_reclaimed_ne (hst : s.heap[r]? = some st) (hempty : st.isReclaimable = true) :
    (s.reclaimed r sid st).heap ≠ s.heap := by
  intro heq
  rw [heap_reclaimed] at heq
  have hset := List.getElem?_set_self (a := { st with closing := true })
    (List.getElem?_eq_some_iff.mp hst).1
  rw [heq, hst] at hset
  have hopen : st.closing = false := by
    simp only [RoomState.isReclaimable, Bool.and_eq_true, Bool.not_eq_true'] at hempty
    exact hempty.1
  rw [Option.some.inj hset] at hopen
  cases hopen

theorem unchanged_overQuota (h : MAX_ROOMS_PER_IP ≤ s.quota key) :
    Unchanged s (s.tryClaimRoomQuota key).2 :=
  ⟨fun _ => by rw [Server.tryClaimRoomQuota_eq], s.lookup_tryClaimRoomQuota_of_le h,
    by rw [Server.tryClaimRoomQuota_eq]⟩

end Outcomes

section Atomic

variable {w : World} {t : Tid}

theorem unchanged_of_outcome {s s' : Server} {sid host token key : String} {admission : Admission}
    (h : Outcome s sid host token key admission none s')
    (hnot : ¬RefusedAfterReclaim s sid host token key) : Unchanged s s' := by
  have hfresh : ∀ {s s' : Server} {v : Verifier},
      FreshOutcome s sid host v token key admission none s' →
      (MAX_RETAINED_ROOMS ≤ s.rooms.size ∨ MAX_ROOMS_PER_IP ≤ s.quota key) ∧ Unchanged s s' := by
    intro s s' v h
    cases h with
    | full hsize => exact ⟨Or.inl hsize, fun _ => rfl, fun _ => rfl, rfl⟩
    | overQuota _ hquota => exact ⟨Or.inr hquota, unchanged_overQuota hquota⟩
  cases h with
  | invalidToken | taken => exact ⟨fun _ => rfl, fun _ => rfl, rfl⟩
  | fresh _ _ h => exact (hfresh h).2
  | reclaimed htoken hfound hst hother hempty h =>
      exact (hnot ⟨_, htoken, _, hfound, _, hst, hother, hempty,
        (limits_reclaimed _ hfound).mp (hfresh h).1⟩).elim

/-- At a limit, a reclaim is all that `create` achieves. -/
theorem heap_of_outcome {s s' : Server} {sid host token key : String} {admission : Admission}
    {room : Option RoomId} {v : Verifier} {r : RoomId} {st : RoomState}
    (h : Outcome s sid host token key admission room s')
    (htoken : Verifier.fromToken token = some v) (hfound : s.rooms.lookup sid = some r)
    (hst : s.heap[r]? = some st) (hother : st.isIdempotent host v = false)
    (hempty : st.isReclaimable = true)
    (hlimit : MAX_RETAINED_ROOMS ≤ (s.reclaimed r sid st).rooms.size ∨
      MAX_ROOMS_PER_IP ≤ (s.reclaimed r sid st).quota key) :
    room = none ∧ s'.heap = (s.reclaimed r sid st).heap := by
  cases h with
  | invalidToken hinvalid => cases hinvalid.symm.trans htoken
  | fresh _ hnone => cases hnone.symm.trans hfound
  | reconnected _ htoken' hfound' hst' hsame =>
      obtain rfl := Option.some.inj (htoken'.symm.trans htoken)
      obtain rfl := Option.some.inj (hfound'.symm.trans hfound)
      obtain rfl := Option.some.inj (hst'.symm.trans hst)
      cases hsame.symm.trans hother
  | taken _ hfound' hst' _ hlive =>
      obtain rfl := Option.some.inj (hfound'.symm.trans hfound)
      obtain rfl := Option.some.inj (hst'.symm.trans hst)
      cases hlive.symm.trans hempty
  | reclaimed _ hfound' hst' _ _ h =>
      obtain rfl := Option.some.inj (hfound'.symm.trans hfound)
      obtain rfl := Option.some.inj (hst'.symm.trans hst)
      cases h with
      | full => exact ⟨rfl, rfl⟩
      | overQuota => exact ⟨rfl, by rw [Server.tryClaimRoomQuota_eq]⟩
      | created _ _ hsize hquota => omega

/-- **`create` is atomic on failure except after a reclaim.**  Run alone, it returns; and
    its refusals leave the table, the quotas and every room as they were exactly if the
    caller is not at a limit when the abandoned room has been reclaimed. -/
theorem create_atomic_iff (t : Tid) (hlock : w.server.writeLock = none)
    (hrooms : ∀ sid r, w.server.rooms.lookup sid = some r → Present w r)
    (sid host token key : String) (admission : Admission) :
    (∃ x w', relay.Runs t (Registry.create sid host token key admission) w x w') ∧
    ((∀ x w', relay.Runs t (Registry.create sid host token key admission) w x w' →
        x.1 = none → Unchanged w.server w'.server) ↔
      ¬RefusedAfterReclaim w.server sid host token key) := by
  have hreturns : Finishes t (Registry.create sid host token key admission) w :=
    finishes_create sid host token key admission hlock (hrooms sid)
  have houtcome : ∀ x w', relay.Runs t (Registry.create sid host token key admission) w x w' →
      Outcome w.server.registry sid host token key admission x.1 w'.server.registry :=
    fun x w' hrun => alone_runs
      (R := fun x s => Outcome w.server.registry sid host token key admission x.1 s)
      (outcome_create sid host token key admission rfl) hrun
  refine ⟨hreturns, fun hatomic hrefused => ?_, fun hnot x w' hrun hx => ?_⟩
  · obtain ⟨x, w', hrun⟩ := hreturns
    obtain ⟨v, htoken, r, hfound, st, hst, hother, hempty, hlimit⟩ := hrefused
    have hlimit := (limits_reclaimed (s := w.server.registry) (r := r) st hfound).mpr hlimit
    obtain ⟨hx, hheap⟩ :=
      heap_of_outcome (houtcome x w' hrun) htoken hfound hst hother hempty hlimit
    have hsame := (hatomic x w' hrun hx).heap
    exact heap_reclaimed_ne (s := w.server.registry) hst hempty (hheap.symm.trans hsame)
  · have h := houtcome x w' hrun
    rw [hx] at h
    obtain ⟨h₁, h₂, h₃⟩ := unchanged_of_outcome h hnot
    exact ⟨h₁, h₂, h₃⟩

end Atomic

/-- The connection that the runs below create rooms for. -/
def caller (k : Nat) (p : String) : Admission :=
  { peerId := p, tx := k, syncProtocolVersion := 0, hostTransferCapable := false }

omit [TokenCodec] in
/-- A refusal it speaks about: the id is taken by a room with its host in it. -/
theorem create_atomic_iff_taken : letI : TokenCodec := sampleCodec
    ∃ (sys : RelaySys) (effects : Effects) (w' : World), Reaches Always sys ∧
      ¬RefusedAfterReclaim sys.shared.server "s" "b" tokenTwos "ip" ∧
      relay.Runs (.conn 1) (Registry.create "s" "b" tokenTwos "ip" (caller 1 "b")) sys.shared
        (none, effects) w' ∧
      sys.shared.server.rooms.lookup "s" = some 0 ∧ Unchanged sys.shared.server w'.server := by
  let _ : TokenCodec := sampleCodec
  obtain ⟨sys, hreach, hlock, hfound, hnot, ⟨⟨_, effects⟩, w'⟩, hrun, rfl⟩ :=
    reaches_of_run (C := Always)
      (P := fun sys => sys.shared.server.writeLock = none ∧
        sys.shared.server.rooms.lookup "s" = some 0 ∧
        ¬RefusedAfterReclaim sys.shared.server "s" "b" tokenTwos "ip" ∧
        ∃ x ∈ relay.runAlone (.conn 1) {}
          (Registry.create "s" "b" tokenTwos "ip" (caller 1 "b")) sys.shared, x.1.1 = none)
      (.start (.conn 0) (.connect "ip") :: handles 0 (message .create "s" "a" tokenOnes) 8)
      (by decide +kernel)
  have hrun := runs_of_runAlone hrun
  have hrooms : ∀ sid r, sys.shared.server.rooms.lookup sid = some r → Present sys.shared r := by
    intro sid r hr
    obtain ⟨st, hst, _⟩ := (relay_base hreach).1.registered hr
    exact ⟨st, hst⟩
  refine ⟨sys, effects, w', hreach, hnot, hrun, hfound, ?_⟩
  exact (create_atomic_iff (.conn 1) hlock hrooms "s" "b" tokenTwos "ip" (caller 1 "b")).2.mpr hnot
    _ _ hrun rfl

omit [TokenCodec] in
/-- Somebody who already owns three rooms asks for the id of a fourth, which its host has
    left for a moment: the request is refused, but the room is gone from the table, its
    owner's slot is released, and nobody can return to it. -/
theorem create_destroys_room_it_refuses : letI : TokenCodec := sampleCodec
    ∃ (sys : RelaySys) (effects : Effects) (w' : World), Reaches Always sys ∧
      (∀ t, ∃ l, sys.threads t = .ret l) ∧
      relay.Runs (.conn 4) (Registry.create "s" "z" tokenTwos "ip" (caller 4 "z")) sys.shared
        (none, effects) w' ∧
      sys.shared.server.rooms.lookup "s" = some 0 ∧ w'.server.rooms.lookup "s" = none ∧
      sys.shared.server.quota "home" = 1 ∧ w'.server.quota "home" = 0 ∧
      (∃ st, sys.shared.server.heap[0]? = some st ∧ st.closing = false) ∧
      ∃ st, w'.server.heap[0]? = some st ∧ st.closing = true := by
  let _ : TokenCodec := sampleCodec
  obtain ⟨sys, hreach, hrest, ⟨⟨_, effects⟩, w'⟩, hrun, rfl, hfound, hgone, hheld, hfreed, hopen,
      hclosing⟩ :=
    rests_of_run (C := Always)
      (P := fun sys => ∃ x ∈ relay.runAlone (.conn 4) {}
          (Registry.create "s" "z" tokenTwos "ip" (caller 4 "z")) sys.shared,
        x.1.1 = none ∧ sys.shared.server.rooms.lookup "s" = some 0 ∧
        x.2.server.rooms.lookup "s" = none ∧ sys.shared.server.quota "home" = 1 ∧
        x.2.server.quota "home" = 0 ∧ (∃ st ∈ sys.shared.server.heap[0]?, st.closing = false) ∧
        ∃ st ∈ x.2.server.heap[0]?, st.closing = true)
      (.start (.conn 0) (.connect "home") :: handles 0 (message .create "s" "a" tokenOnes) 8 ++
        .start (.conn 0) .hangup :: acts (.conn 0) 2 ++
        .start (.conn 1) (.connect "ip") :: handles 1 (message .create "t" "b" tokenTwos) 8 ++
        .start (.conn 2) (.connect "ip") :: handles 2 (message .create "u" "c" tokenTwos) 8 ++
        .start (.conn 3) (.connect "ip") :: handles 3 (message .create "v" "d" tokenTwos) 8)
      (by decide +kernel)
  exact ⟨sys, effects, w', hreach, hrest, runs_of_runAlone hrun, hfound, hgone, hheld, hfreed, hopen,
    hclosing⟩

end PlezyRelay
