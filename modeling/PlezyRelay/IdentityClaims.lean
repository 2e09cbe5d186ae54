/-
  PlezyRelay/IdentityClaims.lean
  ==============================
  **Every identity goes back to somebody who presented its token.**

  A room knows a peer id by the verifier of a token.  Here the verifiers of all rooms are
  followed back: in whatever order the tasks run, the verifier a room has for a peer id was
  made from a token that a connection presented when it created the room or was admitted to
  it under this id, in the session the room is registered for — or the room was taken back
  at startup and had it then.

  The same is true of what the snapshot writer has collected (`Identities.draft`), which is
  what the next server will start from.  The file stores a verifier as text, so this rests
  on the text being decoded to the verifier it was made from.
-/
import PlezyRelay.SnapshotWriter
import PlezyRelay.TaskRecords

namespace PlezyRelay

/-- Who may own which peer id in which session. -/
abbrev Ownership := String → String → Verifier → Prop

/-! ### Claims -/

/-- The session, the peer id and the token of an event that took its connection in under a
    verifier of the connection's own. -/
def Event.claims : Event → Option (String × String × String)
  | ⟨_, .newRoom sessionId hostPeerId _ token _ _, _⟩ => some (sessionId, hostPeerId, token)
  | ⟨_, .room _ (.joinOrResume msg admission _), effects⟩ =>
      if effects.assignedConnId.isSome then some (msg.sessionId, admission.peerId, msg.reconnectToken)
      else none
  | _ => none

variable [TokenCodec]

/-- A connection was admitted to the session as `p` with a token of the verifier `v`. -/
def Claimed (h : List Event) : Ownership := fun sid p v =>
  ∃ ev ∈ h, ∃ k token, ev.thread = .conn k ∧ ev.claims = some (sid, p, token) ∧
    Verifier.fromToken token = some v

theorem Claimed.cons {h : List Event} {sid p : String} {v : Verifier} (hc : Claimed h sid p v)
    (ev : Event) : Claimed (ev :: h) sid p v := by
  obtain ⟨ev', hev', hrest⟩ := hc
  exact ⟨ev', List.mem_cons_of_mem ev hev', hrest⟩

/-! ### What an entry of the file says -/

/-- The entry has `v` for the peer id `p`. -/
def RoomDto.Binds (d : RoomDto) (p : String) (v : Verifier) : Prop :=
  (p = d.hostPeerId ∧ Verifier.fromEncoded d.hostVerifier = some v) ∨
    ∃ r, d.reservations.lookup p = some r ∧ Verifier.fromEncoded r.verifier = some v

/-- Everything the entry says about identities is so. -/
def RoomDto.OwnedBy (own : Ownership) (d : RoomDto) : Prop :=
  ∀ p v, d.Binds p v → own d.sessionId p v

theorem RoomDto.OwnedBy.mono {own own' : Ownership} {d : RoomDto} (h : d.OwnedBy own)
    (hown : ∀ sid p v, own sid p v → own' sid p v) : d.OwnedBy own' :=
  fun p v hbinds => hown _ _ _ (h p v hbinds)

/-- The text of a verifier stands for that verifier. -/
def Lawful : Prop := ∀ v : Verifier, Verifier.fromEncoded v.encode = some v

theorem bound_of_buildRoomDto (hcodec : Lawful) {st : RoomState} (hm : Membership st)
    {clock : String → Instant × SystemTime} {p : String} {v : Verifier}
    (h : (buildRoomDto clock st).Binds p v) : st.bound p = some v := by
  have hdecode : ∀ w : Verifier, Verifier.fromEncoded w.encode = some v → w = v := by
    intro w hw
    exact Option.some.inj ((hcodec w).symm.trans hw)
  rcases h with ⟨hp, hv⟩ | ⟨r, hr, hv⟩
  · have hhost : p = st.hostPeerId := hp
    rw [RoomState.bound, if_pos hhost, hdecode _ hv]
  · simp only [buildRoomDto, AList.lookup_mapValues, Option.map_eq_some_iff] at hr
    obtain ⟨res, hres, rfl⟩ := hr
    rw [AList.lookup_retain] at hres
    have hlookup : st.reservations.lookup p = some res := (Option.filter_eq_some_iff.mp hres).1
    rw [RoomState.bound_of_lookup hm hlookup, hdecode _ hv]

theorem binds_of_load {now : SystemTime} {clock : String → String → Instant × Instant}
    {d : RoomDto} {room : RestoredRoom} (h : d.load now clock = some room) {p : String}
    {v : Verifier} (hv : room.state.bound p = some v) :
    room.state.sessionId = d.sessionId ∧ d.Binds p v := by
  obtain ⟨_, _, hloads⟩ := RoomDto.load_spec h
  refine ⟨hloads.sessionId, ?_⟩
  rw [RoomState.bound] at hv
  split at hv
  · rename_i hp
    refine Or.inl ⟨hp.trans hloads.hostPeerId, ?_⟩
    rw [hloads.hostVerifier]
    exact hv
  · simp only [RestoredRoom.state, RoomState.restore, AList.lookup_mapValues, Option.map_map,
      Option.map_eq_some_iff] at hv
    obtain ⟨restored, hrestored, rfl⟩ := hv
    rw [hloads.reservations, Option.bind_eq_some_iff] at hrestored
    obtain ⟨r, hr, hload⟩ := hrestored
    obtain ⟨w, hw, rfl⟩ := Option.map_eq_some_iff.mp hload
    exact Or.inr ⟨r, hr, hw⟩

/-- What holds of everything built from a room holds of all the writer has collected. -/
theorem draft_all {s s' : Server} {Good : RoomDto → Prop} (hm : WriterMoves s s')
    (hroom : ∀ clock (r : RoomId) st, s.heap[r]? = some st → Good (buildRoomDto clock st))
    (h : ∀ entry ∈ s.writer.phase.draft, Good entry.2) :
    ∀ entry ∈ s'.writer.phase.draft, Good entry.2 := by
  have hclean : Clean (fun entry : RoomId × RoomDto => ¬Good entry.2) s := by
    intro clock r st hst entry hentry hbad
    obtain ⟨_, rfl⟩ := Server.mem_captured.mp hentry
    exact hbad (hroom clock r st hst)
  intro entry hentry
  exact not_not.mp (draft_clean hm hclean (fun entry hentry => not_not.mpr (h entry hentry)) entry
    hentry)

def FileOwns (file : Option StateSnapshotDto) : Ownership := fun sid p v =>
  ∃ dto ∈ file, ∃ room ∈ dto.rooms, room.sessionId = sid ∧ room.Binds p v

/-! ### The invariant -/

/-- The bindings of all rooms, and of all entries collected for the file, are claimed or
    were there before. -/
structure Identities (old : Ownership) (w : World) : Prop where
  bound : ∀ {r : RoomId} {st : RoomState} {p : String} {v : Verifier},
    w.server.heap[r]? = some st → st.bound p = some v →
    old st.sessionId p v ∨ Claimed w.history st.sessionId p v
  found : ∀ {t sid r}, ⟨t, .getRoom sid, some r⟩ ∈ w.history →
    ∃ st, w.server.heap[r]? = some st ∧ st.sessionId = sid
  draft : ∀ entry ∈ w.server.writer.phase.draft,
    entry.2.OwnedBy fun sid p v => old sid p v ∨ Claimed w.history sid p v

namespace Identities

variable {old : Ownership} {t : Tid} {a : Act} {e : Env} {w w' : World} {x : a.Resp}

/-- A join binds its own id at most, to the token it presents, and only if it admits. -/
theorem bound_joinOrResume {st st' : RoomState} {msg : ClientMessage} {admission : Admission}
    {resumeOnly : Bool} {rd : Readings} {effects : Effects} {p : String} {v : Verifier}
    (hrun : (RoomOp.joinOrResume msg admission resumeOnly).run rd st = (st', effects))
    (hv : st'.bound p = some v) :
    st.bound p = some v ∨ (p = admission.peerId ∧ effects.assignedConnId.isSome = true ∧
      Verifier.fromToken msg.reconnectToken = some v) := by
  have hpruned : ∀ {q}, (st.pruned rd.instants).bound q = some v → st.bound q = some v := by
    intro q hq
    rcases @RoomState.bound_pruned st q rd.instants with hsame | ⟨_, hnone⟩
    · exact hsame ▸ hq
    · cases hnone.symm.trans hq
  rcases RoomState.joinOrResume_cases hrun with
    ⟨_, rfl, _⟩ | ⟨_, rfl, _⟩ | ⟨_, hauth, _, rfl, _, hid, _⟩
  · exact Or.inl hv
  · exact Or.inl (hpruned hv)
  · by_cases hp : p = admission.peerId
    · subst hp
      obtain ⟨v', hpresented, hnew, _⟩ := RoomState.bound_joined_self rd.now rd.token hauth
      obtain rfl := Option.some.inj (hnew.symm.trans hv)
      exact Or.inr ⟨rfl, by simp [hid], hpresented⟩
    · rw [RoomState.bound_joined_ne _ _ hp] at hv
      exact Or.inl (hpruned hv)

/-- No other section gives a peer id a verifier. -/
theorem bound_of_run {st : RoomState} (hm : Membership st) {rd : Readings} {op : RoomOp}
    {p : String} {v : Verifier} (hv : (op.run rd st).1.bound p = some v) :
    st.bound p = some v ∨ ∃ msg admission resumeOnly, op = .joinOrResume msg admission resumeOnly ∧
      p = admission.peerId ∧ Verifier.fromToken msg.reconnectToken = some v ∧
      (op.outcome (op.run rd st).2).assignedConnId.isSome = true := by
  rcases RoomOp.bound_cases hm rd op p with
    hsame | ⟨_, hnone⟩ | ⟨msg, admission, _, rfl, _⟩ | ⟨_, _, _, hnone⟩ | ⟨_, _, _, hnone⟩
  · exact Or.inl (hsame ▸ hv)
  · cases hnone.symm.trans hv
  · rcases hrun : (RoomOp.joinOrResume msg admission false).run rd st with ⟨st', effects⟩
    rw [hrun] at hv
    rcases bound_joinOrResume hrun hv with hold | ⟨hp, hadmitted, htoken⟩
    · exact Or.inl hold
    · exact Or.inr ⟨msg, admission, false, rfl, hp, htoken, hadmitted⟩
  · cases hnone.symm.trans hv
  · cases hnone.symm.trans hv

theorem did_found (h : Identities old w) (hb : Base w) (hx : Did t a e w x w') {u : Tid}
    {sid : String} {r : RoomId} (hmem : ⟨u, .getRoom sid, some r⟩ ∈ w'.history) :
    ∃ st, w'.server.heap[r]? = some st ∧ st.sessionId = sid := by
  have hold : ∃ st, w.server.heap[r]? = some st ∧ st.sessionId = sid := by
    rw [World.did_history hx] at hmem
    rcases List.mem_cons.mp hmem with heq | hmem
    · cases heq
      obtain ⟨hlookup, _⟩ := World.did_getRoom hx
      exact hb.registered hlookup.symm
    · exact h.found hmem
  obtain ⟨st, hst, hsid⟩ := hold
  obtain ⟨st', hst', hcase⟩ := (World.Next.act hx).heap_some hst
  refine ⟨st', hst', ?_⟩
  rcases hcase with rfl | hchange
  · exact hsid
  · exact hchange.sessionId.trans hsid

theorem did_bound (h : Identities old w) (hb : Base w) (hproper : Proper t (record t w.history) a)
    (hx : Did t a e w x w') {r : RoomId} {st' : RoomState} {p : String} {v : Verifier}
    (hst' : w'.server.heap[r]? = some st') (hv : st'.bound p = some v) :
    old st'.sessionId p v ∨ Claimed w'.history st'.sessionId p v := by
  rw [World.did_history hx]
  have hmono : ∀ {sid}, old sid p v ∨ Claimed w.history sid p v →
      old sid p v ∨ Claimed (⟨t, a, x⟩ :: w.history) sid p v := by
    intro sid hsid
    exact hsid.imp_right fun hclaimed => hclaimed.cons _
  rcases (World.did_moves hx).heap_of_some hst' with
    ⟨st, hst, rfl | ⟨op, rfl, rfl⟩⟩ | ⟨rfl, _, sid, host, w₀, token, key, admission, rfl, rfl, _⟩
  · exact hmono (h.bound hst hv)
  · have hsid := (RoomOp.run_change (e.readings ⟨w.server.nextToken⟩) st op).sessionId
    rw [hsid]
    rcases bound_of_run (hb.wf hst).toMembership hv with
      hold | ⟨msg, admission, resumeOnly, rfl, rfl, htoken, hadmitted⟩
    · exact hmono (h.bound hst hold)
    · obtain ⟨ht, _, hgot⟩ := hproper
      obtain ⟨st₁, hst₁, hfound⟩ := h.found (mem_record.mp hgot)
      obtain rfl := Option.some.inj (hst.symm.trans hst₁)
      obtain ⟨st₂, hst₂, hrun, _⟩ := World.did_room hx
      obtain rfl := Option.some.inj (hst.symm.trans hst₂)
      rw [show RoomOp.run _ _ _ = _ from hrun] at hadmitted
      refine Or.inr ⟨_, List.mem_cons_self, _, _, ht, ?_, htoken⟩
      rw [hfound]
      exact if_pos hadmitted
  · obtain ⟨ht, _, htoken⟩ := hproper
    right
    have hbound : p = host ∧ w₀ = v := by
      rw [RoomState.bound] at hv
      split at hv
      · rename_i hp
        exact ⟨hp, Option.some.inj hv⟩
      · cases hv
    obtain ⟨rfl, rfl⟩ := hbound
    exact ⟨_, List.mem_cons_self, _, _, ht, rfl, htoken⟩

theorem act (h : Identities old w) (hb : Base w) (hproper : Proper t (record t w.history) a)
    (hx : Did t a e w x w') : Identities old w' where
  bound := h.did_bound hb hproper hx
  found := h.did_found hb hx
  draft entry hentry := by
    obtain ⟨hwriter, _⟩ := (World.did_moves hx).writer
    rw [hwriter] at hentry
    rw [World.did_history hx]
    exact (h.draft entry hentry).mono fun _ _ _ hown => hown.imp_right fun hc => hc.cons _

/-- What the writer collects are the bindings of the rooms. -/
theorem writer (hcodec : Lawful) (h : Identities old w) (hb : Base w) {m : WriterStep}
    (hm : w.writerStep m = some w') : Identities old w' := by
  obtain ⟨hstep, hhistory⟩ := World.writerStep_iff.mp hm
  have hheap := (Server.writerStep_frame hstep).1
  refine ⟨?_, ?_, ?_⟩
  · rw [hheap, hhistory]
    exact h.bound
  · rw [hheap, hhistory]
    exact h.found
  · rw [hhistory]
    apply draft_all (Server.writerStep_moves hstep) ?_ h.draft
    intro clock r st hst p v hbinds
    exact h.bound hst (bound_of_buildRoomDto hcodec (hb.wf hst).toMembership hbinds)

theorem startup (file : Option StateSnapshotDto) (now : SystemTime)
    (clock : String → String → Instant × Instant) :
    Identities (FileOwns file) (initially (loadSnapshot file now clock)).shared := by
  have hstartup : Startup (initially (loadSnapshot file now clock)) := ⟨file, now, clock, rfl⟩
  obtain ⟨heap, rooms, quota, hshared⟩ := hstartup.shared_eq
  constructor
  · intro r st p v hst hv
    left
    simp only [initially, Server.restore_heap, List.nil_append] at hst
    obtain ⟨room, hroom, rfl⟩ := List.mem_map.mp (List.mem_of_getElem? hst)
    obtain ⟨dto, hfile, saved, hsaved, hload⟩ := load_of_mem_loadSnapshot hroom
    obtain ⟨hsid, hbinds⟩ := binds_of_load hload hv
    exact ⟨dto, hfile, saved, hsaved, hsid.symm, hbinds⟩
  · intro t sid r hmem
    cases hmem
  · intro entry hentry
    rw [hshared] at hentry
    cases hentry

theorem mono {old' : Ownership} (h : Identities old w)
    (hown : ∀ sid p v, old sid p v → old' sid p v) : Identities old' w where
  bound hst hv := (h.bound hst hv).imp_left (hown _ _ _)
  found := h.found
  draft entry hentry := (h.draft entry hentry).mono fun _ _ _ h => h.imp_left (hown _ _ _)

end Identities

end PlezyRelay
