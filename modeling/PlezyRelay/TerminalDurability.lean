/-
  PlezyRelay/TerminalDurability.lean
  ==================================
  **Durability of terminal replies.**

  A `left` reply is given once a write has succeeded that was begun after the leave had
  marked the reservation release-pending.  From the mark on, no snapshot of the room
  contains the reservation: a pending one is left out, a closing room altogether, and
  once the leave has committed the identity is unbound until it joins again.  So the
  file cannot name it, nor can the write in progress.  An `ended` reply works the same
  way with the closing mark in the place of the pending one.
-/
import PlezyRelay.RelaySafe
import PlezyRelay.SnapshotWriter

namespace PlezyRelay

open Machine

variable [TokenCodec]

/-! ### What the history says -/

/-- A leave of `p` from `r` was answered `left`. -/
def Event.leaves (r : RoomId) (p : String) : Event → Bool
  | ⟨_, .room room (.finishLeave peerId _ _), effects⟩ =>
      decide (room = r) && decide (peerId = p) && effects.reply.any (·.msgType == .left)
  | _ => false

/-- `p` was admitted to `r` by a join or resume. -/
def Event.joins (r : RoomId) (p : String) : Event → Bool
  | ⟨_, .room room (.joinOrResume _ admission _), effects⟩ =>
      decide (room = r) && decide (admission.peerId = p) && effects.assignedConnId.isSome
  | _ => false

/-- An end of session of `r` was answered `ended`. -/
def Event.ends (r : RoomId) : Event → Bool
  | ⟨_, .room room (.finishEndSession ..), effects⟩ =>
      decide (room = r) && effects.reply.any (·.msgType == .ended)
  | _ => false

/-- `p` was told it has left `r`, and has not been admitted to it since. -/
def HasLeft (r : RoomId) (p : String) : List Event → Prop
  | [] => False
  | ev :: h => ev.leaves r p = true ∨ (ev.joins r p = false ∧ HasLeft r p h)

/-- `r` has been ended. -/
def HasEnded (r : RoomId) (h : List Event) : Prop := ∃ ev ∈ h, ev.ends r = true

instance HasLeft.decidable (r : RoomId) (p : String) : (h : List Event) → Decidable (HasLeft r p h)
  | [] => inferInstanceAs (Decidable False)
  | ev :: h =>
      have := HasLeft.decidable r p h
      inferInstanceAs (Decidable (ev.leaves r p = true ∨ (ev.joins r p = false ∧ HasLeft r p h)))

instance (r : RoomId) (h : List Event) : Decidable (HasEnded r h) :=
  inferInstanceAs (Decidable (∃ ev ∈ h, ev.ends r = true))

/-! ### What must not be written -/

/-- An entry of room `r` with a reservation for `p`. -/
def Reserves (r : RoomId) (p : String) (entry : RoomId × RoomDto) : Prop :=
  entry.1 = r ∧ p ∈ entry.2.reservations

/-- Any entry of room `r`. -/
def From (r : RoomId) (entry : RoomId × RoomDto) : Prop := entry.1 = r

/-- `p` is neither the host of `r` nor has it a reservation. -/
def Unbound (r : RoomId) (p : String) (w : World) : Prop :=
  ∃ st, w.server.heap[r]? = some st ∧ st.bound p = none

section Clean

variable {w : World} {r : RoomId} {p : String}

/-- What is saved of a room are its reservations that are not pending release. -/
theorem mem_buildRoomDto {clock : String → Instant × SystemTime} {st : RoomState} :
    p ∈ (buildRoomDto clock st).reservations ↔
      ∃ res, st.reservations.lookup p = some res ∧ res.releasePending = false := by
  simp [buildRoomDto, AList.mem_retain]

theorem clean_of_isClosing (h : IsClosing w r) : Clean (From r) w.server := by
  rintro clock r' st hst entry hentry rfl
  obtain ⟨hopen, rfl⟩ := Server.mem_captured.mp hentry
  obtain ⟨st', hst', hclosing⟩ := h
  obtain rfl := Option.some.inj (hst'.symm.trans hst)
  cases hopen.symm.trans hclosing

theorem Clean.reserves (h : Clean (From r) w.server) : Clean (Reserves r p) w.server :=
  fun clock r' st hst entry hentry hbad => h clock r' st hst entry hentry hbad.1

theorem clean_of_leaving {c : Nat} (h : Leaving r p c w) : Clean (Reserves r p) w.server := by
  rcases h with hclosing | ⟨st, res, hst, hpending⟩
  · exact (clean_of_isClosing hclosing).reserves
  · rintro clock r' st' hst' entry hentry ⟨rfl, hp⟩
    obtain ⟨_, rfl⟩ := Server.mem_captured.mp hentry
    obtain rfl := Option.some.inj (hst.symm.trans hst')
    obtain ⟨res', hres', hidle⟩ := mem_buildRoomDto.mp hp
    obtain rfl := Option.some.inj (hpending.lookup.symm.trans hres')
    cases hpending.pending.symm.trans hidle

theorem clean_of_unbound (h : Unbound r p w) : Clean (Reserves r p) w.server := by
  obtain ⟨st, hst, hnone⟩ := h
  rintro clock r' st' hst' entry hentry ⟨rfl, hp⟩
  obtain ⟨_, rfl⟩ := Server.mem_captured.mp hentry
  obtain rfl := Option.some.inj (hst.symm.trans hst')
  obtain ⟨res, hres, _⟩ := mem_buildRoomDto.mp hp
  simp only [RoomState.bound, hres] at hnone
  split at hnone <;> cases hnone

end Clean

/-! ### The invariant -/

/-- What terminal replies promise. -/
structure Kept (w : World) : Prop where
  left : ∀ r p, HasLeft r p w.history → Unbound r p w ∧ Scrubbed (Reserves r p) w.server
  ended : ∀ r, HasEnded r w.history → IsClosing w r ∧ Scrubbed (From r) w.server

/-- A terminal reply is only given once the file is known to be clean. -/
def Settles (_ : Tid) (a : Act) (w : World) : Prop :=
  match a with
  | .room r (.finishLeave p _ true) => Scrubbed (Reserves r p) w.server
  | .room r (.finishEndSession _ true) => Scrubbed (From r) w.server
  | _ => True

/-- The sections that give a terminal reply. -/
def Act.isTerminal : Act → Bool
  | .room _ (.finishLeave ..) | .room _ (.finishEndSession ..) => true
  | _ => false

section Step

variable {t : Tid} {a : Act} {e : Env} {w w' : World} {x : a.Resp} {r : RoomId} {p : String}

/-- An unbound identity stays unbound until it joins. -/
theorem Unbound.did (hb : Base w) (hx : Did t a e w x w') (hjoin : Event.joins r p ⟨t, a, x⟩ = false)
    (h : Unbound r p w) : Unbound r p w' := by
  obtain ⟨st, hst, hnone⟩ := h
  obtain ⟨st', hst', rfl | ⟨op, rfl, rfl⟩⟩ := (World.did_moves hx).heap_some hst
  · exact ⟨st', hst', hnone⟩
  · refine ⟨_, hst', ?_⟩
    rcases op.bound_cases (hb.wf hst).toMembership (e.readings ⟨w.server.nextToken⟩) p with
      hsame | ⟨_, hgone⟩ | ⟨msg, admission, v, rfl, rfl, _, _, hv⟩ | ⟨_, _, _, hgone⟩ |
      ⟨_, _, _, hgone⟩
    · exact hsame.trans hnone
    · exact hgone
    · -- a join that binds has admitted
      obtain ⟨st₀, hst₀, hrun, _⟩ := World.did_room hx
      obtain rfl := Option.some.inj (hst₀.symm.trans hst)
      rcases RoomState.joinOrResume_cases hrun with
        ⟨_, hsame, _⟩ | ⟨_, hsame, _⟩ | ⟨_, _, _, _, _, hid, _⟩
      · rw [hsame]
        exact hnone
      · rw [hsame]
        exact (RoomState.bound_pruned _).elim (fun h => h.trans hnone) And.right
      · simp [Event.joins, hid] at hjoin
    · exact hgone
    · exact hgone

/-- A committed leave was told so by the writer, and unbinds the identity. -/
theorem unbound_of_leaves (hb : Base w) (hx : Did t a e w x w') (hsettles : Settles t a w)
    (hleaves : Event.leaves r p ⟨t, a, x⟩ = true) :
    Unbound r p w' ∧ Scrubbed (Reserves r p) w.server := by
  cases a with
  | room room op =>
      cases op with
      | finishLeave peerId c persisted =>
          simp only [Event.leaves, Bool.and_eq_true, decide_eq_true_eq] at hleaves
          obtain ⟨⟨rfl, rfl⟩, hreply⟩ := hleaves
          obtain ⟨st, hst, hrun, hst'⟩ := World.did_room hx
          rcases RoomState.finishLeave_cases hrun with
            ⟨_, _, rfl⟩ | ⟨_, _, _, rfl⟩ | ⟨howns, rfl, hreleased, _⟩
          · cases hreply
          · cases hreply
          · refine ⟨⟨_, hst', ?_⟩, hsettles⟩
            obtain ⟨_, res, hres, _⟩ := RoomState.ownsPendingLeave_iff.mp howns
            have hguest := (hb.wf hst).guest_of_reserved (AList.mem_of_lookup hres)
            rw [hreleased]
            simp [RoomState.bound, RoomState.released, hguest]
      | _ => cases hleaves
  | _ => cases hleaves

theorem closing_of_ends (hlegal : Legal t a w) (hsettles : Settles t a w)
    (hx : Did t a e w x w') (hends : Event.ends r ⟨t, a, x⟩ = true) :
    IsClosing w r ∧ Scrubbed (From r) w.server := by
  cases a with
  | room room op =>
      cases op with
      | finishEndSession guests persisted =>
          simp only [Event.ends, Bool.and_eq_true, decide_eq_true_eq] at hends
          obtain ⟨rfl, hreply⟩ := hends
          obtain ⟨st, _, hrun, _⟩ := World.did_room hx
          obtain ⟨_, _, _, _, hmessage⟩ := RoomState.finishEndSession_cases hrun
          cases persisted with
          | false =>
              rw [hmessage] at hreply
              cases hreply
          | true => exact ⟨hlegal.2.2.1 rfl, hsettles⟩
      | _ => cases hends
  | _ => cases hends

theorem Kept.did (hb : Base w) (hlegal : Legal t a w) (hsettles : Settles t a w)
    (hx : Did t a e w x w') (h : Kept w) : Kept w' := by
  have hmoves := World.did_moves hx
  constructor
  · intro r p hleft
    rw [World.did_history hx] at hleft
    rcases hleft with hleaves | ⟨hjoin, hold⟩
    · obtain ⟨hunbound, hscrubbed⟩ := unbound_of_leaves hb hx hsettles hleaves
      exact ⟨hunbound, hscrubbed.act hmoves⟩
    · obtain ⟨hunbound, hscrubbed⟩ := h.left r p hold
      exact ⟨hunbound.did hb hx hjoin, hscrubbed.act hmoves⟩
  · rintro r ⟨ev, hev, hends⟩
    rw [World.did_history hx] at hev
    have hbefore : IsClosing w r ∧ Scrubbed (From r) w.server := by
      rcases List.mem_cons.mp hev with rfl | hold
      · exact closing_of_ends hlegal hsettles hx hends
      · exact h.ended r ⟨ev, hold, hends⟩
    exact ⟨(World.Next.act hx).isClosing hbefore.1, hbefore.2.act hmoves⟩

theorem Kept.writer {m : WriterStep} (hm : w.writerStep m = some w') (h : Kept w) : Kept w' := by
  obtain ⟨hs, hh⟩ := World.writerStep_iff.mp hm
  have hmoves := Server.writerStep_moves hs
  have hheap := (Server.writerStep_frame hs).1
  constructor
  · intro r p hleft
    obtain ⟨hunbound, hscrubbed⟩ := h.left r p (hh ▸ hleft)
    refine ⟨?_, hscrubbed.writer hmoves (clean_of_unbound hunbound)⟩
    rw [Unbound, hheap]
    exact hunbound
  · intro r hended
    obtain ⟨hclosing, hscrubbed⟩ := h.ended r (hh ▸ hended)
    exact ⟨(World.Next.writer hm).isClosing hclosing,
      hscrubbed.writer hmoves (clean_of_isClosing hclosing)⟩

end Step

/-! ### The logic -/

/-- What is known of every state and shown of every terminal reply. -/
def durability : relay.Logic where
  inv w := Base w ∧ WriterWf w.server ∧ Kept w
  assume := Legal
  pre := Settles

section Durability

variable {t : Tid} {w : World} {r : RoomId} {A : World → Prop} {Bad : RoomId × RoomDto → Prop}

/-- A request keeps its claim as long as nothing `Bad` can be captured. -/
theorem stable_awaits (hA : durability.Stable t A) (hclean : ∀ w, A w → Clean Bad w.server)
    (reply : Ticket) : durability.Stable t fun w => A w ∧ Awaits Bad reply w.server := by
  rintro w w' hinv hinv' hint ⟨hAw, h⟩
  refine ⟨hA w w' hinv hinv' hint hAw, ?_⟩
  rcases interferes_cases hint with ⟨u, a, e, x, _, _, _, hx⟩ | ⟨m, hm⟩
  · exact h.act (World.did_moves hx)
  · exact h.writer hinv.2.1 (Server.writerStep_moves (World.writerStep_iff.mp hm).1) (hclean w hAw)

theorem stable_scrubbed (hA : durability.Stable t A) (hclean : ∀ w, A w → Clean Bad w.server) :
    durability.Stable t fun w => A w ∧ Scrubbed Bad w.server := by
  rintro w w' hinv hinv' hint ⟨hAw, h⟩
  refine ⟨hA w w' hinv hinv' hint hAw, ?_⟩
  rcases interferes_cases hint with ⟨u, a, e, x, _, _, _, hx⟩ | ⟨m, hm⟩
  · exact h.act (World.did_moves hx)
  · exact h.writer (Server.writerStep_moves (World.writerStep_iff.mp hm).1) (hclean w hAw)

theorem stable_granted (hA : durability.Stable t A) (hclean : ∀ w, A w → Clean Bad w.server)
    (persisted : Bool) :
    durability.Stable t fun w => A w ∧ (persisted = true → Scrubbed Bad w.server) := by
  intro w w' hinv hinv' hint h
  exact ⟨hA w w' hinv hinv' hint h.1, fun hp =>
    (stable_scrubbed hA hclean w w' hinv hinv' hint ⟨h.1, h.2 hp⟩).2⟩

/-- **A positive answer is worth what it says.** -/
theorem granted_recordTerminalMutation (hA : durability.Stable t A)
    (hclean : ∀ w, A w → Clean Bad w.server)
    (hkeep : ∀ a e w x w', a.isSnapshot = true → durability.inv w → Legal t a w → A w →
      Did t a e w x w' → A w') (h : A w) :
    durability.Safe t (fun persisted w => A w ∧ (persisted = true → Scrubbed Bad w.server))
      recordTerminalMutation w := by
  refine safe_act A h hA fun w hinv hAw hlegal => ⟨trivial, fun e y w' hx _ => ?_⟩
  have hA' := hkeep .sendTerminal _ _ _ _ rfl hinv hlegal hAw hx
  obtain ⟨s', hs, rfl⟩ := World.did_iff.mp hx
  simp only [Server.exec, Server.sendRequest, Option.some.injEq] at hs
  split at hs
  · cases hs
    refine ⟨hA', ?_⟩
    intro hpersisted
    cases hpersisted
  · cases hs
    refine safe_act _ ⟨hA', Awaits.sent hinv.2.1 Bad⟩ (stable_awaits hA hclean _)
      fun w hinv hAw hlegal => ⟨trivial, fun e y w' hx _ => ?_⟩
    refine ⟨hkeep (.awaitReply _) _ _ _ _ rfl hinv hlegal hAw.1 hx, fun hy => ?_⟩
    obtain ⟨s', hs, rfl⟩ := World.did_iff.mp hx
    subst hy
    refine Scrubbed.act (Server.exec_moves hs) (hAw.2.replied ?_)
    simp only [Server.exec] at hs
    split at hs
    · cases hs
      assumption
    · split at hs <;> cases hs

theorem durable_leave (peerId : String) (c : Nat) (token : String) (version : Nat) :
    durability.Safe t (fun _ _ => True) (Room.leave r peerId c token version) w := by
  refine safe_act (fun _ => True) trivial (Logic.Stable.const _) fun w hinv _ hlegal =>
    ⟨trivial, fun e y w' hx _ => ?_⟩
  have hassigned := (World.Next.act hx).assigned (hlegal.2.1 c rfl)
  rcases leaving_of_beginLeave hx with rfl | ⟨rfl, hleaving⟩
  · trivial
  · have hstable : durability.Stable t fun w => Assigned w.history t r c ∧ Leaving r peerId c w :=
      stable_leaving (L := durability) (fun _ h => h.1) fun _ _ _ h => h
    have hclean : ∀ w : World, Assigned w.history t r c ∧ Leaving r peerId c w →
        Clean (Reserves r peerId) w.server := fun w h => clean_of_leaving h.2
    refine (granted_recordTerminalMutation hstable hclean ?_ ⟨hassigned, hleaving⟩).bind ?_
    · intro a e w x w' ha hinv hlegal h hx
      refine ⟨(World.Next.act hx).assigned h.1, h.2.did hinv.1 hlegal hx ?_⟩
      rintro op rfl
      cases ha
    · intro persisted w h
      refine safe_act _ h (stable_granted hstable hclean persisted) fun w _ h _ =>
        ⟨?_, fun _ _ _ _ _ => trivial⟩
      cases persisted with
      | true => exact h.2 rfl
      | false => trivial

theorem durable_endSession (peerId : String) (c : Nat) (token : String) (version : Nat) :
    durability.Safe t (fun _ _ => True) (Registry.endSession r peerId c token version) w := by
  refine safe_act (fun _ => True) trivial (Logic.Stable.const _) fun w _ _ _ =>
    ⟨trivial, fun e y w' hx _ => ?_⟩
  rcases closing_of_beginEndSession hx with rfl | ⟨key, guests, rfl, hclosing⟩
  · trivial
  · refine safe_act _ hclosing (stable_isClosing r) fun w _ hclosing _ =>
      ⟨trivial, fun e y w' hx _ => ?_⟩
    refine safe_act _ ((World.Next.act hx).isClosing hclosing) (stable_isClosing r)
      fun w _ hclosing _ => ⟨trivial, fun e y w' hx _ => ?_⟩
    have hclean : ∀ w, IsClosing w r → Clean (From r) w.server := fun w => clean_of_isClosing
    refine (granted_recordTerminalMutation (stable_isClosing r) hclean
      (fun _ _ _ _ _ _ _ _ h hx => (World.Next.act hx).isClosing h)
      ((World.Next.act hx).isClosing hclosing)).bind fun persisted w h => ?_
    refine safe_act _ h (stable_granted (stable_isClosing r) hclean persisted) fun w _ h _ =>
      ⟨?_, fun _ _ _ _ _ => trivial⟩
    cases persisted with
    | true => exact h.2 rfl
    | false => trivial

omit [TokenCodec] in
/-- Nothing but the two terminal sections has to settle anything. -/
theorem settles_of_not_terminal (t : Tid) {a : Act} (h : a.isTerminal = false) (w : World) :
    Settles t a w := by
  cases a with
  | room r op =>
      cases op with
      | finishLeave | finishEndSession => cases h
      | _ => trivial
  | _ => trivial

theorem durable_of_all {α : Type} {P : Act → Prop} {p : Task α} (hp : p.All P)
    (hP : ∀ a, P a → a.isTerminal = false) : durability.Safe t (fun _ _ => True) p w :=
  Logic.Safe.of_all hp trivial (Logic.Stable.const _)
    (fun a w ha _ _ _ => settles_of_not_terminal t (hP a ha) w) fun _ _ _ _ _ _ _ _ _ _ _ => trivial

omit [TokenCodec] in
theorem not_terminal {a : Act} (h : a.isPlain = true ∨ a.isCreate = true ∨ a.isSweep = true) :
    a.isTerminal = false := by
  cases a with
  | room r op => cases op <;> simp_all [Act.isPlain, Act.isOutput, Act.isSnapshot, Act.isCreate,
      Act.isSweep, Act.isTerminal, RoomOp.inCreate]
  | _ => rfl

theorem durable_programs : Programs durability t fun _ _ => True :=
  .of_plain (Logic.Stable.const _)
    (fun _ w ha _ _ _ => settles_of_not_terminal t (not_terminal (Or.inl ha)) w)
    (fun _ _ _ _ _ _ _ _ _ _ _ => trivial)
    (fun _ _ _ _ _ _ => durable_of_all (create_all ..) fun _ h => not_terminal (Or.inr (Or.inl h)))
    (fun _ _ _ _ _ _ _ => durable_leave ..) (fun _ _ _ _ _ _ _ => durable_endSession ..)
    fun _ _ _ => durable_of_all (sweep_all _) fun _ h => not_terminal (Or.inr (Or.inr h))

end Durability

theorem WriterWf.startup {sys : RelaySys} (h : Startup sys) : WriterWf sys.shared.server := by
  obtain ⟨heap, rooms, quota, hshared⟩ := h.shared_eq
  rw [hshared]
  exact ⟨nofun, nofun, fun _ => rfl, nofun⟩

theorem WriterWf.next {w w' : World} (h : WriterWf w.server) (hnext : World.Next w w') :
    WriterWf w'.server := by
  cases hnext with
  | act hx => exact h.act (World.did_moves hx)
  | writer hm => exact h.writer (Server.writerStep_moves (World.writerStep_iff.mp hm).1)

theorem relay_writerWf {C : RelaySys → RelayLabel → Prop} {sys : RelaySys} (h : Reaches C sys) :
    WriterWf sys.shared.server :=
  relay_invariant (P := fun w => WriterWf w.server) h (fun _ => WriterWf.startup)
    fun _ _ _ h hnext => h.next hnext

/-- Terminal replies keep their promise in every reachable state. -/
theorem relay_durable {sys : RelaySys} (h : Reaches Always sys) : Kept sys.shared := by
  have hsafe := Logic.Safe.adequate (L := durability) (Q := fun _ _ _ => True) ?_ ?_ ?_ ?_ ?_ ?_ h
  · exact hsafe.1.2.2
  · intro sys hsys
    refine ⟨⟨Base.startup hsys, WriterWf.startup hsys, ?_⟩, fun t => ?_⟩
    · obtain ⟨file, now, clock, rfl⟩ := hsys
      refine ⟨fun r p hleft => hleft.elim, ?_⟩
      rintro r ⟨ev, hev, _⟩
      cases hev
    · obtain ⟨file, now, clock, rfl⟩ := hsys
      cases t <;> trivial
  · exact fun t q l p w _ _ hp => durable_programs.start trivial hp
  · exact fun sys t e a k hreach _ ht => relay_legal hreach ht
  · exact fun t a e w x w' hinv hlegal hsettles hx =>
      ⟨hinv.1.did hlegal hx, hinv.2.1.act (World.did_moves hx), hinv.2.2.did hinv.1 hlegal hsettles hx⟩
  · exact fun m w w' hinv hm => ⟨hinv.1.writer hm,
      hinv.2.1.writer (Server.writerStep_moves (World.writerStep_iff.mp hm).1), hinv.2.2.writer hm⟩
  · exact fun _ _ => Logic.Stable.const _

/-! ### A restart from the file -/

/-- The rooms a restart would take back from what this process has written. -/
def Server.restarted (s : Server) (now : SystemTime)
    (clock : String → String → Instant × Instant) : List RestoredRoom :=
  loadSnapshot (s.file.map fun dtos => ⟨SNAPSHOT_FORMAT_VERSION, dtos.map (·.2)⟩) now clock

/-- Every room taken back comes from a saved one. -/
theorem restarted_origin {s : Server} {dtos : List (RoomId × RoomDto)} (hfile : s.file = some dtos)
    {now : SystemTime} {clock : String → String → Instant × Instant} {room : RestoredRoom}
    (h : room ∈ s.restarted now clock) :
    ∃ entry ∈ dtos, room.sessionId = entry.2.sessionId ∧
      ∀ p, p ∈ room.reservations → p ∈ entry.2.reservations := by
  rw [Server.restarted, hfile, Option.map_some] at h
  obtain ⟨_, ⟨⟩, dto, hdto, hload⟩ := load_of_mem_loadSnapshot h
  obtain ⟨_, _, hloads⟩ := RoomDto.load_spec hload
  obtain ⟨entry, hentry, rfl⟩ := List.mem_map.mp hdto
  exact ⟨entry, hentry, hloads.sessionId, fun p hp => AList.mem_iff_lookup.mpr (hloads.saved hp)⟩

/-- **Terminal replies are durable.**  From the moment a leave of `p` from a room is
    answered `left` until `p` is next admitted to it, no entry of the state file that was
    built from that room has a reservation for `p`; from the moment its end is answered
    `ended`, no entry was built from it at all.  So neither comes back with a restart. -/
theorem terminal_replies_durable {sys : RelaySys} (h : Reaches Always sys) :
    (∀ r p, HasLeft r p sys.shared.history → ∃ dtos, sys.shared.server.file = some dtos ∧
      (∀ dto, (r, dto) ∈ dtos → p ∉ dto.reservations) ∧
      ∀ now clock, ∀ room ∈ sys.shared.server.restarted now clock,
        ∃ entry ∈ dtos, room.sessionId = entry.2.sessionId ∧
          (entry.1 = r → p ∉ room.reservations)) ∧
    (∀ r, HasEnded r sys.shared.history → ∃ dtos, sys.shared.server.file = some dtos ∧
      (∀ dto, (r, dto) ∉ dtos) ∧
      ∀ now clock, ∀ room ∈ sys.shared.server.restarted now clock,
        ∃ entry ∈ dtos, room.sessionId = entry.2.sessionId ∧ entry.1 ≠ r) := by
  have hkept := relay_durable h
  constructor
  · intro r p hleft
    obtain ⟨dtos, hfile, hclean⟩ := (hkept.left r p hleft).2.file
    refine ⟨dtos, hfile, fun dto hdto hp => hclean _ hdto ⟨rfl, hp⟩, fun now clock room hroom => ?_⟩
    obtain ⟨entry, hentry, hsid, hres⟩ := restarted_origin hfile hroom
    exact ⟨entry, hentry, hsid, fun heq hp => hclean entry hentry ⟨heq, hres p hp⟩⟩
  · intro r hended
    obtain ⟨dtos, hfile, hclean⟩ := (hkept.ended r hended).2.file
    refine ⟨dtos, hfile, fun dto hdto => hclean _ hdto rfl, fun now clock room hroom => ?_⟩
    obtain ⟨entry, hentry, hsid, _⟩ := restarted_origin hfile hroom
    exact ⟨entry, hentry, hsid, fun heq => hclean entry hentry heq⟩

omit [TokenCodec] in
/-- A run with both replies: a guest leaves one room while another room is ended. -/
theorem terminal_replies_durable_after_leave_and_end : letI : TokenCodec := sampleCodec
    ∃ (sys : RelaySys) (dtos : List (RoomId × RoomDto)) (dto : RoomDto), Reaches Always sys ∧
      HasLeft 0 "b" sys.shared.history ∧ HasEnded 1 sys.shared.history ∧
      sys.shared.server.file = some dtos ∧ (0, dto) ∈ dtos ∧ "b" ∉ dto.reservations ∧
      ∀ other, (1, other) ∉ dtos := by
  let _ : TokenCodec := sampleCodec
  let capture : WriterStep := .capture fun _ => (0, 0)
  obtain ⟨sys, hreach, hleft, hended, dtos, hfile, ⟨_, dto⟩, hdto, rfl⟩ :=
    reaches_of_run (C := Always)
      (P := fun sys => HasLeft 0 "b" sys.shared.history ∧ HasEnded 1 sys.shared.history ∧
        ∃ dtos ∈ sys.shared.server.file, ∃ entry ∈ dtos, entry.1 = 0)
      ([.start (.conn 0) (.connect "ip"), .start (.conn 1) (.connect "ip"),
          .start (.conn 2) (.connect "ip")] ++
        handles 0 (message .create "s" "a" tokenOnes) 8 ++
        handles 1 (message .join "s" "b" tokenTwos) 5 ++
        handles 2 (message .create "t" "c" tokenOnes) 8 ++
        handles 1 (message .leave "s" "b" tokenTwos) 2 ++
        handles 2 (message .endSession "t" "c" tokenOnes) 4 ++
        -- five notes and the leave's request; then the end's request
        writes [.recv, .recv, .recv, .recv, .recv, .recv, .collect, capture, .persist true, .resolve,
          .resolve, .recv, .collect, capture, .persist true, .resolve, .resolve] ++
        acts (.conn 1) 2 ++ acts (.conn 2) 2)
      (by decide +kernel)
  obtain ⟨hleaves, hends⟩ := terminal_replies_durable hreach
  obtain ⟨dtos₁, hfile₁, hclean, _⟩ := hleaves 0 "b" hleft
  obtain ⟨dtos₂, hfile₂, hgone, _⟩ := hends 1 hended
  obtain rfl := Option.some.inj (hfile.symm.trans hfile₁)
  obtain rfl := Option.some.inj (hfile.symm.trans hfile₂)
  exact ⟨sys, dtos, dto, hreach, hleft, hended, hfile, hdto, hclean dto hdto, hgone⟩

end PlezyRelay
