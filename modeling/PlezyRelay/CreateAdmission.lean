/-
  PlezyRelay/CreateAdmission.lean
  ===============================
  **Admission through `create` under concurrency.**

  `create` compares the host's identity under one acquisition of the room's lock and
  admits under a later one.  It holds the registry's write lock in between, but a host
  transfer, an end of session and the sweep need only the room's lock, so any of them
  may run in the gap.  What `create` has compared is the identity it was called with;
  so an admission is authenticated exactly if the room would still pass the test.
-/
import PlezyRelay.RelaySafe

namespace PlezyRelay

open Machine

variable [TokenCodec]

/-! ### The gap -/

def Act.reconnects : Act → Option RoomId
  | .room r (.reconnectHost ..) => some r
  | _ => none

/-- The room, the peer and the verifier of a test of `create`. -/
def Event.compares : Event → Option (RoomId × String × Verifier)
  | ⟨_, .room r (.isIdempotent host v), _⟩ => some (r, host, v)
  | _ => none

/-- What task `t` has compared, if that is the last thing it has done. -/
def compared (t : Tid) (h : List Event) : Option (RoomId × String × Verifier) :=
  (h.find? (·.thread = t)).bind Event.compares

/-- When `create` admits the host into an existing room, the room still passes the test it
    has passed before: it has the same host and verifier and is not closing. -/
def Undisturbed (t : Tid) (a : Act) (w : World) : Prop :=
  ∀ r ∈ a.reconnects, ∃ c ∈ compared t w.history, c.1 = r ∧
    ∃ st ∈ w.server.heap[r]?, st.isIdempotent c.2.1 c.2.2 = true

instance (t : Tid) (a : Act) (w : World) : Decidable (Undisturbed t a w) :=
  inferInstanceAs (Decidable (∀ r ∈ a.reconnects, _))

/-! ### What `create` has checked -/

/-- The admission and the token with which an action of `create` admits. -/
def Act.createAdmission : Act → Option (Admission × String)
  | .newRoom _ _ _ token _ admission => some (admission, token)
  | .room _ (.reconnectHost admission token) => some (admission, token)
  | _ => none

/-- Task `t` has just compared the presented identity with the room's. -/
def HasCompared (t : Tid) (r : RoomId) (admission : Admission) (token : String) (w : World) :
    Prop :=
  ∃ v, Verifier.fromToken token = some v ∧ compared t w.history = some (r, admission.peerId, v)

/-- What holds before an action of `create` admits. -/
def Presented (t : Tid) (a : Act) (w : World) : Prop :=
  match a with
  | .room r (.reconnectHost admission token) => HasCompared t r admission token w
  | .newRoom _ host v token _ admission =>
      host = admission.peerId ∧ Verifier.fromToken token = some v
  | _ => True

def authentication : relay.Logic where
  inv := Base
  assume := Legal
  pre := Presented

section Authentication

variable {t : Tid} {w : World}

theorem presented_of_createAdmission {a : Act} (h : a.createAdmission = none) :
    Presented t a w := by
  cases a with
  | newRoom => cases h
  | room r op => cases op <;> trivial
  | _ => trivial

/-- An action by which `create` admits nobody. -/
theorem authentic_act {α : Type} {Q : α → World → Prop} {a : Act} {k : a.Resp → Task α}
    (ha : a.createAdmission = none) (hk : ∀ x w, authentication.Safe t Q (k x) w) :
    authentication.Safe t Q (.act a k) w :=
  safe_act (fun _ => True) trivial (.const True) fun _ _ _ _ =>
    ⟨presented_of_createAdmission ha, fun _ x w' _ _ => hk x w'⟩

/-! ### `create` -/

theorem authentic_createFresh (sid host : String) (v : Verifier) (token key : String)
    (admission : Admission) (hhost : host = admission.peerId)
    (hv : Verifier.fromToken token = some v) :
    authentication.Safe t (fun _ _ => True)
      (Registry.createFresh sid host v token key admission) w := by
  refine authentic_act rfl fun n w => ?_
  rw [Proc.ret_bind]
  split
  · exact authentic_act rfl fun _ _ => trivial
  · refine authentic_act rfl fun b w => ?_
    cases b with
    | false => exact authentic_act rfl fun _ _ => trivial
    | true =>
        refine safe_act (fun _ => True) trivial (.const True) fun _ _ _ _ =>
          ⟨⟨hhost, hv⟩, fun _ x w' _ _ => ?_⟩
        exact authentic_act rfl fun _ _ => authentic_act rfl fun _ _ => trivial

theorem stable_hasCompared {r : RoomId} {admission : Admission} {token : String} :
    authentication.Stable t (HasCompared t r admission token) := by
  rintro w w' _ _ hint ⟨v, hv, hcompared⟩
  refine ⟨v, hv, ?_⟩
  rcases interferes_cases hint with ⟨u, a, e, x, hne, _, _, hx⟩ | ⟨m, hm⟩
  · rw [compared, World.did_history hx, List.find?_cons_of_neg (by simpa using hne)]
    exact hcompared
  · rw [(World.writerStep_iff.mp hm).2]
    exact hcompared

theorem authentic_createReconnect (existing : RoomId) (token : String) (admission : Admission)
    (h : HasCompared t existing admission token w) :
    authentication.Safe t (fun _ _ => True)
      (Registry.createReconnect existing token admission) w := by
  refine safe_act _ h stable_hasCompared fun w _ h _ => ⟨h, fun _ _ _ _ _ => ?_⟩
  exact authentic_act rfl fun _ _ => authentic_act rfl fun _ _ => trivial

theorem authentic_create (sid host token key : String) (admission : Admission)
    (hhost : host = admission.peerId) :
    authentication.Safe t (fun _ _ => True) (Registry.create sid host token key admission) w := by
  unfold Registry.create
  split
  · trivial
  · rename_i v hv
    refine authentic_act rfl fun found w => ?_
    rcases found with _ | existing
    · exact authentic_createFresh sid host v token key admission hhost hv
    · refine safe_act (fun _ => True) trivial (.const True) fun w _ _ _ =>
        ⟨trivial, fun e idempotent w' hx _ => ?_⟩
      cases idempotent with
      | true =>
          refine authentic_createReconnect existing token admission ⟨v, hv, ?_⟩
          rw [compared, World.did_history hx, List.find?_cons_of_pos (by simp), hhost]
          rfl
      | false =>
          refine authentic_act rfl fun reclaimable w => ?_
          cases reclaimable with
          | false => exact authentic_act rfl fun _ _ => trivial
          | true =>
              refine authentic_act rfl fun _ w => authentic_act rfl fun _ w => ?_
              refine authentic_act rfl fun _ w => authentic_act rfl fun _ w => ?_
              exact authentic_createFresh sid host v token key admission hhost hv

theorem authentic_of_all {α : Type} {p : Task α} {P : Act → Prop} (hp : p.All P)
    (hP : ∀ a, P a → a.createAdmission = none) : authentication.Safe t (fun _ _ => True) p w :=
  Logic.Safe.of_all hp trivial (.const True)
    (fun _ _ ha _ _ _ => presented_of_createAdmission (hP _ ha))
    fun _ _ _ _ _ _ _ _ _ _ _ => trivial

theorem authentic_programs : Programs authentication t fun _ _ => True := by
  refine .of_plain (.const True) ?_ (fun _ _ _ _ _ _ _ _ _ _ _ => trivial) ?_ ?_ ?_ ?_
  · intro a w ha _ _ _
    refine presented_of_createAdmission ?_
    cases a with
    | room r op => cases op <;> first | rfl | cases ha
    | _ => first | rfl | cases ha
  · exact fun sid token key admission _ _ => authentic_create sid _ token key admission rfl
  · intro r peerId c token version w _
    refine authentic_of_all (leave_all r peerId c token version) fun a ha => ?_
    cases a with
    | room r op => cases op <;> first | rfl | cases ha
    | _ => first | rfl | cases ha
  · intro r peerId c token version w _
    refine authentic_of_all (endSession_all r peerId c token version) fun a ha => ?_
    cases a with
    | room r op => cases op <;> first | rfl | cases ha
    | _ => first | rfl | cases ha
  · intro now w _
    refine authentic_of_all (sweep_all now) fun a ha => ?_
    cases a with
    | room r op => cases op <;> first | rfl | cases ha
    | _ => first | rfl | cases ha

end Authentication

/-- Every pending admission of `create` is of the identity it was called with. -/
theorem relay_presented {sys : RelaySys} (h : Reaches Always sys) {t : Tid} {a : Act}
    {k : a.Resp → Task Local} (ht : sys.threads t = .act a k) : Presented t a sys.shared := by
  have hsafe : Base sys.shared ∧
      ∀ t, authentication.Safe t (fun _ _ => True) (sys.threads t) sys.shared := by
    refine Logic.Safe.adequate (L := authentication) ?_ ?_ ?_ ?_ ?_ ?_ h
    · intro sys hsys
      refine ⟨Base.startup hsys, fun t => ?_⟩
      obtain ⟨file, now, clock, rfl⟩ := hsys
      cases t <;> trivial
    · exact fun t q l p w _ h hp => authentic_programs.start h hp
    · exact fun sys t e a k hreach _ ht => relay_legal hreach ht
    · exact fun t a e w x w' hb hlegal _ hx => Base.did hb hlegal hx
    · exact fun m w w' hb hm => Base.writer hb hm
    · exact fun t l => .const True
  obtain ⟨hb, hself⟩ := hsafe
  have hself := hself t
  rw [ht] at hself
  obtain ⟨A, hA, _, hact⟩ := hself
  exact (hact _ hb hA (relay_legal h ht)).1

/-! ### The admission -/

/-- The action admits the presented identity: the connection is inserted under the peer id it
    presented, its token's verifier is the one the room binds to that peer id, and the room is
    not closing. -/
def AdmitsPresented (t : Tid) (a : Act) (admission : Admission) (token : String) (w w' : World) :
    Prop :=
  ∃ x r connId cancel st v, w'.history = ⟨t, a, x⟩ :: w.history ∧
    Event.assigns ⟨t, a, x⟩ = some (r, connId, cancel) ∧ w'.server.heap[r]? = some st ∧
    st.connIdOf admission.peerId = some connId ∧ Verifier.fromToken token = some v ∧
    st.bound admission.peerId = some v ∧ st.closing = false

section Admission

variable {t : Tid} {e : Env} {w w' : World} {admission : Admission} {token : String}

omit [TokenCodec] in
theorem RoomState.isIdempotent_iff {st : RoomState} {host : String} {v : Verifier} :
    st.isIdempotent host v = true ↔
      st.closing = false ∧ st.hostPeerId = host ∧ st.hostVerifier = v := by
  simp [RoomState.isIdempotent, and_assoc]

omit [TokenCodec] in
/-- The new connection is the one of the host, whoever that is. -/
theorem RoomState.reconnectHost_connIdOf {st : RoomState} (hwf : RoomWf st) (host : Admission)
    (token : String) (cancel : CancellationToken) (p : String) :
    (st.reconnectHost host token cancel).1.connIdOf p = some st.nextConnId ↔
      p = st.hostPeerId := by
  simp only [RoomState.reconnectHost, RoomState.admitPeer, RoomState.connIdOf]
  by_cases hp : p = st.hostPeerId
  · subst hp
    simp [Admission.connect]
  · rw [AList.lookup_insert_ne hp]
    -- the ids of the others are older
    refine iff_of_false (fun hold => ?_) hp
    exact absurd (hwf.conn_lt p _ hold) (lt_irrefl _)

theorem admitsPresented_newRoom {sid : String} {v : Verifier} {key : String}
    {x : RoomId × Effects}
    (hx : Did t (.newRoom sid admission.peerId v token key admission) e w x w')
    (hv : Verifier.fromToken token = some v) :
    AdmitsPresented t (.newRoom sid admission.peerId v token key admission) admission token w
      w' := by
  have hhistory := World.did_history hx
  have hassigns := assigns_newRoom hx
  obtain ⟨_, rfl, hs⟩ := World.did_newRoom hx
  refine ⟨_, _, _, _, _, v, hhistory, hassigns, by rw [hs]; exact List.getElem?_concat_length, ?_,
    hv, ?_, rfl⟩
  · simp only [RoomState.newRoom, RoomState.connIdOf, AList.lookup_insert]
    rfl
  · simp [RoomState.newRoom, RoomState.bound]

/-- `reconnect_host` admits the presented identity exactly if it is the host's, in a room that
    is not closing. -/
theorem admitsPresented_reconnectHost_iff {r : RoomId} {v : Verifier} {st : RoomState} {x : Effects}
    (hx : Did t (.room r (.reconnectHost admission token)) e w x w')
    (hst : w.server.heap[r]? = some st) (hwf : RoomWf st) (hv : Verifier.fromToken token = some v) :
    AdmitsPresented t (.room r (.reconnectHost admission token)) admission token w w' ↔
      st.isIdempotent admission.peerId v = true := by
  have hhistory := World.did_history hx
  obtain ⟨st₀, hst₀, hadm⟩ := assigns_reconnectHost hx
  obtain rfl := Option.some.inj (hst₀.symm.trans hst)
  have hassigns : Event.assigns ⟨t, .room r (.reconnectHost admission token), x⟩ =
      some (r, st₀.nextConnId, ⟨w.server.nextToken⟩) := by simp [Event.assigns, hadm]
  obtain ⟨st₁, hst₁, _, hst'⟩ := World.did_room hx
  obtain rfl := Option.some.inj (hst₁.symm.trans hst)
  have hconn := RoomState.reconnectHost_connIdOf hwf admission token ⟨w.server.nextToken⟩
    admission.peerId
  rw [RoomState.isIdempotent_iff]
  constructor
  · rintro ⟨x', r', connId, cancel, st', v', hhistory', hassigns', hst'', hconn', hv', hbound,
      hopen⟩
    obtain ⟨hevent, _⟩ := List.cons.inj (hhistory.symm.trans hhistory')
    cases hevent
    cases hassigns.symm.trans hassigns'
    obtain rfl := Option.some.inj (hst'.symm.trans hst'')
    obtain rfl := Option.some.inj (hv.symm.trans hv')
    have hhost := hconn.mp hconn'
    refine ⟨hopen, hhost.symm, ?_⟩
    rw [hhost] at hbound
    simpa [RoomOp.run, RoomState.reconnectHost, RoomState.admitPeer, RoomState.bound] using hbound
  · rintro ⟨hopen, hhost, rfl⟩
    refine ⟨x, r, st₁.nextConnId, _, _, _, hhistory, hassigns, hst', hconn.mpr hhost.symm, hv, ?_,
      hopen⟩
    simp [RoomOp.run, RoomState.reconnectHost, RoomState.admitPeer, RoomState.bound, hhost]

end Admission

def ableToHost (msg : ClientMessage) : ClientMessage :=
  { msg with capabilities := [HOST_TRANSFER], syncProtocolVersion := 1 }

/-- The host `a` and a guest `b` are in a room, and a third connection creates it again as
    `a`, up to the admission. -/
def recreating : List RelayLabel :=
  .start (.conn 0) (.connect "ip") :: .start (.conn 1) (.connect "ip") ::
    .start (.conn 2) (.connect "ip") ::
    handles 0 (ableToHost (message .create "s" "a" tokenOnes)) 9 ++
    handles 1 (ableToHost (message .join "s" "b" tokenTwos)) 7 ++
    handles 2 (ableToHost (message .create "s" "a" tokenOnes)) 2

end PlezyRelay
