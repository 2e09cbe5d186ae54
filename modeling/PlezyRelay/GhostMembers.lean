/-
  PlezyRelay/GhostMembers.lean
  ============================
  **No ghost members** — a connection's locals and the rooms' peer maps agree.

  A connection remembers at most one seat: a room, the peer id it entered under and the
  connection id it got.  `Tracked` says that of all the ids any room ever gave the
  connection, no open room still has one in its peer map, except the remembered one
  under the remembered name.  Every handler keeps this, with two exceptions in the
  source: a refused `endSession` forgets the seat although the room keeps it, and a
  re-`create` whose host was transferred meanwhile is seated under another name than
  the one it remembers.  `Orderly` excludes these two.
-/
import PlezyRelay.RelaySafe

namespace PlezyRelay

open Machine

variable [TokenCodec]

/-! ### When the locals can be trusted -/

/-- A current member that ends the session does so successfully, and a re-`create` is
    admitted under the name it presented. -/
def Orderly (_ : Tid) (a : Act) (w : World) : Prop :=
  match a with
  | .room r (.beginEndSession peerId connId token version) =>
      ∀ st ∈ w.server.heap[r]?, st.closing = false → st.connIdOf peerId = some connId →
        peerId = st.hostPeerId ∧ version = RELAY_PROTOCOL_VERSION ∧
          Verifier.fromToken token = some st.hostVerifier
  | .room r (.reconnectHost host _) =>
      ∀ st ∈ w.server.heap[r]?, st.closing = false → st.hostPeerId = host.peerId
  | _ => True

instance (t : Tid) (a : Act) (w : World) : Decidable (Orderly t a w) := by
  unfold Orderly
  split <;> infer_instance

/-! ### Who holds a connection id -/

/-- While the room is open, the connection id `c` is held only by members with `P`. -/
def HeldOnly (w : World) (r : RoomId) (c : Nat) (P : String → Prop) : Prop :=
  ∀ st, w.server.heap[r]? = some st → st.closing = false → ∀ p, st.connIdOf p = some c → P p

/-- An assigned id never comes into anybody else's hands. -/
theorem HeldOnly.next {w w' : World} {t : Tid} {r : RoomId} {c : Nat} {P : String → Prop}
    (hb : Base w) (h : World.Next w w') (hassigned : Assigned w.history t r c)
    (hheld : HeldOnly w r c P) : HeldOnly w' r c P := by
  intro st' hst' hopen p hp
  obtain ⟨st, hst, hlt⟩ := hb.assigned_lt hassigned
  obtain ⟨st₁, hst₁, hcase⟩ := h.heap_some hst
  obtain rfl := Option.some.inj (hst₁.symm.trans hst')
  rcases hcase with rfl | hchange
  · exact hheld st₁ hst hopen p hp
  · have hopen₀ : st.closing = false := by
      cases hc : st.closing with
      | false => rfl
      | true => cases hopen.symm.trans (hchange.closing hc)
    rcases hchange.connIdOf hp with hold | ⟨hfresh, _⟩
    · exact hheld st hst hopen₀ p hold
    · exact absurd hfresh (Nat.ne_of_lt hlt)

/-- Of all ids assigned to `t`, an open room has only those in its peer map that `P`
    accounts for. -/
def Accounts (t : Tid) (P : RoomId → Nat → String → Prop) (w : World) : Prop :=
  ∀ r c, Assigned w.history t r c → HeldOnly w r c (P r c)

/-- The locals account for all ids. -/
def Tracked (t : Tid) (con : Connection) : World → Prop :=
  Accounts t fun r c p =>
    con.currentRoom = some r ∧ con.currentConnId = c ∧ con.currentPeerId = p

/-- No open room has the task in its peer map. -/
def NoGhost (t : Tid) : World → Prop := Accounts t fun _ _ _ => False

section Accounts

variable {t : Tid} {w w' : World} {P P' : RoomId → Nat → String → Prop}

omit [TokenCodec] in
theorem Accounts.mono (h : Accounts t P w) (hP : ∀ r c p, P r c p → P' r c p) :
    Accounts t P' w :=
  fun r c hassigned st hst hopen p hp => hP r c p (h r c hassigned st hst hopen p hp)

omit [TokenCodec] in
theorem NoGhost.accounts (h : NoGhost t w) : Accounts t P w := h.mono fun _ _ _ => False.elim

omit [TokenCodec] in
theorem Tracked.noGhost {con : Connection} (h : Tracked t con w) (hout : con.currentRoom = none) :
    NoGhost t w :=
  h.mono fun r c p hP => by cases hout.symm.trans hP.1

/-- A step that assigns nothing to the task keeps its accounts. -/
theorem Accounts.next (h : Accounts t P w) (hb : Base w) (hnext : World.Next w w')
    (hkept : ∀ r c, Assigned w'.history t r c → Assigned w.history t r c) : Accounts t P w' :=
  fun r c hassigned => (h r c (hkept r c hassigned)).next hb hnext (hkept r c hassigned)

/-- The actions that can seat a connection. -/
def Act.admits : Act → Bool
  | .newRoom .. | .room _ (.reconnectHost ..) | .room _ (.joinOrResume ..) => true
  | _ => false

omit [TokenCodec] in
theorem assigns_of_not_admits {a : Act} {x : a.Resp} (h : a.admits = false) :
    Event.assigns ⟨t, a, x⟩ = none := by
  cases a with
  | newRoom => cases h
  | room r op => cases op <;> first | rfl | cases h
  | _ => rfl

theorem Accounts.own {a : Act} {e : Env} {x : a.Resp} (h : Accounts t P w) (hb : Base w)
    (hx : Did t a e w x w') (hassigns : Event.assigns ⟨t, a, x⟩ = none) : Accounts t P w' := by
  refine h.next hb (.act hx) fun r c hassigned => ?_
  rw [World.did_history hx, assigned_cons] at hassigned
  rcases hassigned with ⟨_, k, hk⟩ | hold
  · cases hassigns.symm.trans hk
  · exact hold

/-- The seat that an attempt to enter a room reports. -/
def Reported (name : String) (room : Option RoomId) (effects : Effects) :
    RoomId → Nat → String → Prop :=
  fun r c p => room = some r ∧ effects.assignedConnId = some c ∧ p = name

/-- An admission of a task that had no seat adds the one it reports. -/
theorem NoGhost.admitted {a : Act} {e : Env} {x : a.Resp} {r : RoomId} {c : Nat}
    {k : CancellationToken} {effects : Effects} {name : String} (h : NoGhost t w) (hb : Base w)
    (hx : Did t a e w x w') (hassigns : Event.assigns ⟨t, a, x⟩ = some (r, c, k))
    (hadm : effects.admitted = some (c, k)) (hname : HeldOnly w' r c (· = name)) :
    Accounts t (Reported name (some r) effects) w' := by
  intro r' c' hassigned st hst hopen p hp
  rw [World.did_history hx, assigned_cons] at hassigned
  rcases hassigned with ⟨_, k', hk⟩ | hold
  · rw [hassigns] at hk
    obtain ⟨rfl, rfl, rfl⟩ : r = r' ∧ c = c' ∧ k = k' := by simpa using hk
    exact ⟨rfl, Effects.assignedConnId_of_admitted hadm, hname st hst hopen p hp⟩
  · exact ((h r' c' hold).next hb (.act hx) hold st hst hopen p hp).elim

end Accounts

/-! ### The logic -/

/-- Runs with orderly steps; that steps are legal is known. -/
def tracking : relay.Logic where
  inv := Base
  assume t a w := Legal t a w ∧ Orderly t a w

section Tracking

variable {t : Tid} {w : World} {P : RoomId → Nat → String → Prop}

theorem stable_accounts : tracking.Stable t (Accounts t P) := by
  intro w w' hb _ hint h
  refine h.next hb (next_of_interferes hint) fun r c hassigned => ?_
  rcases interferes_cases hint with ⟨u, a, e, x, hne, _, _, hx⟩ | ⟨m, hm⟩
  · rw [World.did_history hx, assigned_cons] at hassigned
    exact hassigned.resolve_left fun hev => hne hev.1
  · rwa [(World.writerStep_iff.mp hm).2] at hassigned

/-- An action that admits nobody. -/
theorem accounts_act {α : Type} {Q : α → World → Prop} {a : Act} {k : a.Resp → Task α}
    (h : Accounts t P w) (ha : a.admits = false)
    (hk : ∀ x w, Accounts t P w → tracking.Safe t Q (k x) w) :
    tracking.Safe t Q (.act a k) w :=
  safe_act _ h stable_accounts fun _ hb hA _ =>
    ⟨trivial, fun _ x w' hx _ => hk x w' (hA.own hb hx (assigns_of_not_admits ha))⟩

theorem accounts_of_all {α : Type} {p : Task α} {R : Act → Prop} (hp : p.All R)
    (hR : ∀ a, R a → a.admits = false) (h : Accounts t P w) :
    tracking.Safe t (fun _ w => Accounts t P w) p w :=
  Logic.Safe.of_all hp h stable_accounts (fun _ _ _ _ _ _ => trivial)
    fun _ _ _ _ _ ha hb _ _ hA hx => hA.own hb hx (assigns_of_not_admits (hR _ ha))

omit [TokenCodec] in
theorem admits_of_isOutput {a : Act} (h : a.isOutput = true) : a.admits = false := by
  cases a <;> trivial

omit [TokenCodec] in
theorem admits_of_isSweep {a : Act} (h : a.isSweep = true) : a.admits = false := by
  cases a with
  | room r op => cases op <;> trivial
  | _ => trivial

omit [TokenCodec] in
theorem admits_of_isSnapshot {a : Act} (h : a.isSnapshot = true) : a.admits = false := by
  cases a <;> trivial

/-! ### `create` -/

/-- The end of `create`: release the lock, perhaps note the mutation. -/
theorem accounts_admitted (room : RoomId) (effects : Effects) (name : String)
    (h : Accounts t (Reported name (some room) effects) w) :
    tracking.Safe t (fun x w => Accounts t (Reported name x.1 x.2) w)
      (.act .unlockRooms fun _ => .act .recordMutation fun _ => .ret (some room, effects)) w :=
  accounts_act h rfl fun _ _ h => accounts_act h rfl fun _ _ h => h

theorem accounts_refuse (effects : Effects) (name : String) (h : NoGhost t w) :
    tracking.Safe t (fun x w => Accounts t (Reported name x.1 x.2) w)
      (.act .unlockRooms fun _ => .ret (none, effects)) w :=
  accounts_act h rfl fun _ _ h => NoGhost.accounts h

theorem accounts_createFresh (sid host : String) (v : Verifier) (token key : String)
    (admission : Admission) (h : NoGhost t w) :
    tracking.Safe t (fun x w => Accounts t (Reported host x.1 x.2) w)
      (Registry.createFresh sid host v token key admission) w := by
  refine accounts_act h rfl fun n w h => ?_
  rw [Proc.ret_bind]
  split
  · exact accounts_refuse _ host h
  · refine accounts_act h rfl fun b w h => ?_
    cases b with
    | false => exact accounts_refuse _ host h
    | true =>
        refine safe_act _ h stable_accounts fun w hb h _ => ⟨trivial, fun e x w' hx _ => ?_⟩
        obtain ⟨_, rfl, hs⟩ := World.did_newRoom hx
        -- the only member of the new room is its host
        have hname : HeldOnly w' w.server.heap.length 1 (· = host) := by
          intro st hst _ p hp
          rw [hs, List.getElem?_concat_length] at hst
          cases hst
          simp only [RoomState.newRoom, RoomState.connIdOf, AList.lookup_insert_eq] at hp
          split at hp
          · assumption
          · cases hp
        exact accounts_admitted _ _ host (NoGhost.admitted h hb hx (assigns_newRoom hx)
          (RoomState.newRoom_admitted ..) hname)

theorem accounts_createReconnect (existing : RoomId) (token : String) (admission : Admission)
    (h : NoGhost t w) :
    tracking.Safe t (fun x w => Accounts t (Reported admission.peerId x.1 x.2) w)
      (Registry.createReconnect existing token admission) w := by
  refine safe_act _ h stable_accounts fun w hb h hD => ⟨trivial, fun e effects w' hx _ => ?_⟩
  obtain ⟨st, hst, hadm⟩ := assigns_reconnectHost hx
  have hname : HeldOnly w' existing st.nextConnId (· = admission.peerId) := by
    intro st' hst' hopen p hp
    obtain ⟨st₀, hst₀, _, hheap⟩ := World.did_room hx
    obtain rfl := Option.some.inj (hst₀.symm.trans hst)
    obtain rfl := Option.some.inj (hheap.symm.trans hst')
    have hhost : st₀.hostPeerId = admission.peerId := hD.2 st₀ hst hopen
    simp only [RoomOp.run, RoomState.reconnectHost, RoomState.admitPeer, RoomState.connIdOf,
      AList.lookup_insert_eq] at hp
    split at hp
    · exact ‹p = st₀.hostPeerId›.trans hhost
    · -- the other members have smaller connection ids
      exact absurd ((Base.wf hb hst).conn_lt p _ hp) (lt_irrefl _)
  have hassigns : Event.assigns ⟨t, .room existing (.reconnectHost admission token), effects⟩ =
      some (existing, st.nextConnId, ⟨w.server.nextToken⟩) := by simp [Event.assigns, hadm]
  exact accounts_admitted existing effects admission.peerId
    (NoGhost.admitted h hb hx hassigns hadm hname)

theorem accounts_create (sid host token key : String) (admission : Admission)
    (hhost : admission.peerId = host) (h : NoGhost t w) :
    tracking.Safe t (fun x w => Accounts t (Reported host x.1 x.2) w)
      (Registry.create sid host token key admission) w := by
  unfold Registry.create
  split
  · exact NoGhost.accounts h
  · rename_i v _
    refine accounts_act h rfl fun found w h => ?_
    rcases found with _ | existing
    · exact accounts_createFresh sid host v token key admission h
    · refine accounts_act h rfl fun idempotent w h => ?_
      cases idempotent with
      | true => exact hhost ▸ accounts_createReconnect existing token admission h
      | false =>
          refine accounts_act h rfl fun reclaimable w h => ?_
          cases reclaimable with
          | false => exact accounts_refuse _ host h
          | true =>
              refine accounts_act h rfl fun _ w h => ?_
              refine accounts_act h rfl fun _ w h => ?_
              refine accounts_act h rfl fun _ w h => ?_
              refine accounts_act h rfl fun _ w h => ?_
              exact accounts_createFresh sid host v token key admission h

/-! ### Leaving and ending -/

omit [TokenCodec] in
/-- The seat a connection gives up has no holder any more. -/
theorem Tracked.cleared {con : Connection} {r : RoomId} (h : Tracked t con w)
    (hroom : con.currentRoom = some r) (hgone : HeldOnly w r con.currentConnId fun _ => False) :
    NoGhost t w := by
  intro r' c hassigned st hst hopen p hp
  obtain ⟨hr, rfl, _⟩ := h r' c hassigned st hst hopen p hp
  obtain rfl := Option.some.inj (hroom.symm.trans hr)
  exact hgone st hst hopen p hp

omit [TokenCodec] in
theorem heldOnly_of_isClosing {r : RoomId} {c : Nat} {R : String → Prop} (h : IsClosing w r) :
    HeldOnly w r c R := by
  intro st hst hopen
  obtain ⟨st', hst', hclosing⟩ := h
  obtain rfl := Option.some.inj (hst'.symm.trans hst)
  cases hopen.symm.trans hclosing

/-- A leave reports a failure and keeps the seat, or there is no seat any more. -/
theorem tracked_leave (con : Connection) {r : RoomId} (token : String) (version : Nat)
    (hroom : con.currentRoom = some r) (h : Tracked t con w) :
    tracking.Safe t (fun effects w => Tracked t con w ∧
        (effects.reply.any (·.code.isSome) = false → NoGhost t w))
      (Room.leave r con.currentPeerId con.currentConnId token version) w := by
  refine safe_act _ h stable_accounts fun w hb h hD => ⟨trivial, fun e y w' hx _ => ?_⟩
  have htracked : Tracked t con w' := h.own hb hx rfl
  have hseat := (World.Next.act hx).assigned (hD.1.2.1 _ rfl)
  rcases leaving_of_beginLeave hx with rfl | ⟨rfl, hleaving⟩
  · exact ⟨htracked, nofun⟩
  · have hstable : tracking.Stable t fun w => Assigned w.history t r con.currentConnId ∧
        Leaving r con.currentPeerId con.currentConnId w :=
      stable_leaving (L := tracking) (fun _ h => h) fun _ _ _ h => h.1
    have hwait : tracking.Safe t (fun _ w => Tracked t con w ∧
        Assigned w.history t r con.currentConnId ∧
          Leaving r con.currentPeerId con.currentConnId w) recordTerminalMutation w' := by
      refine Logic.Safe.of_all recordTerminalMutation_all ⟨htracked, hseat, hleaving⟩
        (stable_accounts.and hstable) (fun _ _ _ _ _ _ => trivial) ?_
      intro a e w x w' ha hb _ hD hw hx
      refine ⟨hw.1.own hb hx (assigns_of_not_admits (admits_of_isSnapshot ha)),
        (World.Next.act hx).assigned hw.2.1, hw.2.2.did hb hD.1 hx ?_⟩
      rintro op rfl
      cases ha
    refine hwait.bind fun persisted w hw => ?_
    refine safe_act _ hw (stable_accounts.and hstable)
      fun w hb hA _ => ⟨trivial, fun e y w' hx _ => ?_⟩
    have htracked : Tracked t con w' := hA.1.own hb hx rfl
    refine ⟨htracked, fun hreply => htracked.cleared hroom ?_⟩
    rcases hA.2.2 with hclosing | ⟨st, res, hst, hpending⟩
    · exact heldOnly_of_isClosing ((World.Next.act hx).isClosing hclosing)
    · obtain ⟨st₀, hst₀, hrun, hst'⟩ := World.did_room hx
      obtain rfl := Option.some.inj (hst₀.symm.trans hst)
      rcases RoomState.finishLeave_cases hrun with
        ⟨hnot, _⟩ | ⟨_, _, _, rfl⟩ | ⟨_, _, hreleased, _⟩
      · rw [RoomState.ownsPendingLeave_iff.mpr
          ⟨hpending.conn, res, hpending.lookup, hpending.pending⟩] at hnot
        cases hnot
      · cases hreply
      · -- the entry is erased, and by `Tracked` it was the only one with this id
        intro st₁ hst₁ hopen p hp
        obtain ⟨_, _, rfl⟩ :=
          htracked r _ ((World.Next.act hx).assigned hA.2.1) st₁ hst₁ hopen p hp
        rw [hst', hreleased] at hst₁
        cases hst₁
        simp [RoomState.released, RoomState.connIdOf] at hp

theorem beginEndSession_closes {st : RoomState} {peerId token : String} {connId version : Nat}
    (hopen : st.closing = false) (hconn : st.connIdOf peerId = some connId)
    (hhost : peerId = st.hostPeerId) (hversion : version = RELAY_PROTOCOL_VERSION)
    (htoken : Verifier.fromToken token = some st.hostVerifier) :
    (st.beginEndSession peerId connId token version).1.closing = true := by
  subst hhost hversion
  have haccepts : st.hostVerifier.accepts (Verifier.fromToken token) = true := by simp [htoken]
  simp [RoomState.beginEndSession, hopen, hconn, haccepts]

/-- An orderly end of session leaves no seat behind. -/
theorem tracked_endSession (con : Connection) {r : RoomId} (token : String) (version : Nat)
    (hroom : con.currentRoom = some r) (h : Tracked t con w) :
    tracking.Safe t (fun _ w => NoGhost t w)
      (Registry.endSession r con.currentPeerId con.currentConnId token version) w := by
  refine safe_act _ h stable_accounts fun w hb h hD => ⟨trivial, fun e y w' hx _ => ?_⟩
  have htracked : Tracked t con w' := h.own hb hx rfl
  have hseat := (World.Next.act hx).assigned (hD.1.2.1 _ rfl)
  have hnone : NoGhost t w' := by
    refine htracked.cleared hroom fun st' hst' hopen' p hp => ?_
    obtain ⟨_, _, rfl⟩ := htracked r _ hseat st' hst' hopen' p hp
    obtain ⟨st, hst, hrun, hheap⟩ := World.did_room hx
    obtain rfl := Option.some.inj (hheap.symm.trans hst')
    rcases RoomState.beginEndSession_cases hrun with ⟨hsame, _⟩ | ⟨_, _, _, _, hclosed, _⟩
    · -- refused: but an orderly end of a current member is accepted
      rw [hsame] at hopen' hp
      obtain ⟨hhost, hversion, htoken⟩ := hD.2 st hst hopen' hp
      have hcloses := beginEndSession_closes hopen' hp hhost hversion htoken
      rw [show st.beginEndSession con.currentPeerId con.currentConnId token version =
        RoomOp.run _ st (.beginEndSession con.currentPeerId con.currentConnId token version)
        from rfl, hsame] at hcloses
      cases hopen'.symm.trans hcloses
    · rw [hclosed] at hopen'
      cases hopen'
  cases y with
  | error effects => exact hnone
  | ok v =>
      refine accounts_act hnone rfl fun _ w h => ?_
      refine accounts_act h rfl fun _ w h => ?_
      refine (accounts_of_all recordTerminalMutation_all
        (fun _ => admits_of_isSnapshot) h).bind fun _ w h => ?_
      exact accounts_act h rfl fun _ _ h => h

/-! ### Connections -/

/-- What holds between two frames: the locals account for all ids, and a remembered name
    is not empty. -/
structure Seat (t : Tid) (con : Connection) (w : World) : Prop where
  tracked : Tracked t con w
  named : con.currentRoom ≠ none → con.currentPeerId ≠ ""

theorem stable_seat (con : Connection) : tracking.Stable t (Seat t con) :=
  fun w w' hb hb' hint h => ⟨stable_accounts w w' hb hb' hint h.tracked, h.named⟩

theorem Seat.own {con : Connection} {a : Act} {e : Env} {x : a.Resp} {w' : World}
    (h : Seat t con w) (hb : Base w) (hx : Did t a e w x w') (ha : a.admits = false) :
    Seat t con w' :=
  ⟨h.tracked.own hb hx (assigns_of_not_admits ha), h.named⟩

theorem seat_answer (con : Connection) (reply : ServerMessage) (h : Seat t con w) :
    tracking.Safe t (Seat t) (con.answer reply) w :=
  safe_act _ h (stable_seat con) fun _ hb h _ => ⟨trivial, fun _ _ _ hx _ => h.own hb hx rfl⟩

theorem seat_deliver (tx : Sender) (effects : Effects) (con : Connection) (h : Seat t con w) :
    tracking.Safe t (Seat t) (do applyEffects tx effects; pure con) w :=
  (accounts_of_all (applyEffects_all tx effects) (fun _ => admits_of_isOutput) h.tracked).bind
    fun _ _ hw => ⟨hw, h.named⟩

omit [TokenCodec] in
theorem NoGhost.seat_cleared (con : Connection) (h : NoGhost t w) : Seat t con.cleared w :=
  ⟨h.accounts, fun hroom => (hroom rfl).elim⟩

omit [TokenCodec] in
/-- The locals after an attempt to enter remember the reported seat. -/
theorem seat_entered {con : Connection} {msg : ClientMessage} {room : Option RoomId}
    {effects : Effects} (hout : con.currentRoom = none) (hname : msg.peerId ≠ "")
    (h : Accounts t (Reported msg.peerId room effects) w) :
    Seat t (con.entered msg room effects) w := by
  rcases entered_cases con msg room effects with ⟨heq, hnone⟩ | ⟨r, c, hroom, hconn, heq⟩
  · refine ⟨h.mono ?_, fun hroom => ?_⟩
    · rintro r c p ⟨hr, hc, _⟩
      rcases hnone with hnone | hnone
      · cases hnone.symm.trans hr
      · cases hnone.symm.trans hc
    · rw [heq] at hroom
      exact (hroom hout).elim
  · refine ⟨h.mono ?_, fun _ => by rw [heq]; exact hname⟩
    rintro r' c' p ⟨hr, hc, rfl⟩
    rw [heq]
    exact ⟨hroom.symm.trans hr, Option.some.inj (hconn.symm.trans hc), rfl⟩

omit [TokenCodec] in
theorem peerId_ne_empty {sessionId peerId : String}
    (h : ¬(!validSessionAndPeerId sessionId peerId) = true) : peerId ≠ "" := by
  simp only [validSessionAndPeerId, Bool.not_eq_true', Bool.not_eq_false, Bool.and_eq_true] at h
  exact validId_ne_empty h.2

theorem seat_handleCreate (con : Connection) (msg : ClientMessage) (hout : con.currentRoom = none)
    (h : Seat t con w) : tracking.Safe t (Seat t) (con.handleCreate msg) w := by
  unfold Connection.handleCreate
  split
  · exact seat_answer con _ h
  · rename_i hvalid
    split
    · exact seat_answer con _ h
    · refine (accounts_create _ msg.peerId _ _ (con.admission msg) rfl
        (h.tracked.noGhost hout)).bind fun result w hw => ?_
      exact seat_deliver _ result.2 _ (seat_entered hout (peerId_ne_empty hvalid) hw)

/-- Whoever joins is the only holder of the id that was assigned. -/
theorem heldOnly_joinOrResume {e : Env} {w' : World} {r : RoomId} {msg : ClientMessage}
    {admission : Admission} {resumeOnly : Bool} {x : Effects} {c : Nat} {k : CancellationToken}
    (hb : Base w) (hx : Did t (.room r (.joinOrResume msg admission resumeOnly)) e w x w')
    (hadm : x.admitted = some (c, k)) : HeldOnly w' r c (· = admission.peerId) := by
  intro st' hst' _ p hp
  obtain ⟨st, hst, hrun, hheap⟩ := World.did_room hx
  obtain rfl := Option.some.inj (hheap.symm.trans hst')
  obtain ⟨rfl, _⟩ := RoomState.joinOrResume_admitted hrun hadm
  rcases RoomState.joinOrResume_cases hrun with
    ⟨_, _, rfl⟩ | ⟨_, _, _, _, rfl⟩ | ⟨_, _, _, hjoined, _⟩
  · cases hadm
  · cases hadm
  · rw [hjoined, RoomState.connIdOf, RoomState.joined_peers, AList.lookup_insert_eq] at hp
    split at hp
    · assumption
    · exact absurd ((Base.wf hb hst).conn_lt p _ hp) (lt_irrefl _)

theorem seat_handleJoin (con : Connection) (msg : ClientMessage) (resumeOnly : Bool)
    (hout : con.currentRoom = none) (h : Seat t con w) :
    tracking.Safe t (Seat t) (con.handleJoin msg resumeOnly) w := by
  unfold Connection.handleJoin
  split
  · exact seat_answer con _ h
  · rename_i hvalid
    split
    · exact seat_answer con _ h
    · refine safe_act _ h (stable_seat con) fun w hb h _ => ⟨trivial, fun e x w' hx _ => ?_⟩
      have h := h.own hb hx rfl
      rcases x with _ | room
      · exact seat_answer con _ h
      · refine safe_act _ h (stable_seat con) fun w hb h _ => ⟨trivial, fun e effects w' hx _ => ?_⟩
        refine seat_deliver _ effects _ (seat_entered hout (peerId_ne_empty hvalid) ?_)
        have hnone := h.tracked.noGhost hout
        rcases hadm : effects.admitted with _ | ⟨c, k⟩
        · exact (hnone.own hb hx (by simp [Event.assigns, hadm])).mono fun _ _ _ => False.elim
        · exact hnone.admitted hb hx (by simp [Event.assigns, hadm]) hadm
            (heldOnly_joinOrResume hb hx hadm)

theorem seat_handleLeave (con : Connection) (msg : ClientMessage) (h : Seat t con w) :
    tracking.Safe t (Seat t) (con.handleLeave msg) w := by
  unfold Connection.handleLeave
  split
  · exact seat_answer con _ h
  · rename_i room hroom
    refine (tracked_leave con _ _ hroom h.tracked).bind fun effects w hw => ?_
    refine seat_deliver _ effects _ ?_
    split
    · exact ⟨hw.1, h.named⟩
    · rename_i hfailed
      exact NoGhost.seat_cleared con (hw.2 (by simpa using hfailed))

theorem seat_handleEndSession (con : Connection) (msg : ClientMessage) (h : Seat t con w) :
    tracking.Safe t (Seat t) (con.handleEndSession msg) w := by
  unfold Connection.handleEndSession
  split
  · exact seat_answer con _ h
  · rename_i room hroom
    refine (tracked_endSession con _ _ hroom h.tracked).bind fun effects w hw => ?_
    exact seat_deliver _ effects _ (NoGhost.seat_cleared con hw)

/-- Messages within the current room change no seat. -/
theorem seat_inCurrentRoom (con : Connection) (op : RoomId → Task Effects)
    (hop : ∀ r, (op r).All fun a => a.admits = false) (h : Seat t con w) :
    tracking.Safe t (Seat t) (con.inCurrentRoom op) w := by
  unfold Connection.inCurrentRoom
  split
  · exact seat_answer con _ h
  · refine (accounts_of_all (hop _) (fun _ ha => ha) h.tracked).bind fun effects w hw => ?_
    exact seat_deliver _ effects con ⟨hw, h.named⟩

theorem seat_inCurrentRoomTo (con : Connection) (msg : ClientMessage) (op : RoomId → Task Effects)
    (hop : ∀ r, (op r).All fun a => a.admits = false) (h : Seat t con w) :
    tracking.Safe t (Seat t) (con.inCurrentRoomTo msg op) w := by
  unfold Connection.inCurrentRoomTo
  split
  · exact seat_answer con _ h
  · split
    · exact seat_answer con _ h
    · exact seat_inCurrentRoom con op hop h

/-- The exit path gives up the seat. -/
theorem noGhost_exit (con : Connection) (h : Seat t con w) :
    tracking.Safe t (fun _ w => NoGhost t w) con.exit w := by
  unfold Connection.exit
  split
  · exact h.tracked.noGhost ‹_›
  · rename_i room hroom
    split
    · rename_i hempty
      exact (h.named (by simp [hroom]) (String.isEmpty_iff.mp hempty)).elim
    · refine safe_act _ h.tracked stable_accounts fun w hb h hD => ⟨trivial, fun e y w' hx _ => ?_⟩
      have htracked : Tracked t con w' := h.own hb hx rfl
      have hseat := (World.Next.act hx).assigned (hD.1.2.1 _ rfl)
      refine accounts_of_all (applyEffects_all _ _) (fun _ => admits_of_isOutput)
        (htracked.cleared hroom fun st' hst' hopen p hp => ?_)
      obtain ⟨_, _, rfl⟩ := htracked room _ hseat st' hst' hopen p hp
      obtain ⟨st, _, hrun, hheap⟩ := World.did_room hx
      obtain rfl := Option.some.inj (hheap.symm.trans hst')
      rcases RoomState.handleDisconnect_cases hrun with ⟨hnot, hsame, _⟩ | ⟨_, _, hst, _⟩
      · rw [hsame] at hopen hp
        rcases hnot with hclosing | hconn
        · cases hopen.symm.trans hclosing
        · exact hconn hp
      · rw [hst, RoomState.connIdOf, RoomState.disconnected_peers] at hp
        simp at hp

/-! ### Every reachable state -/

/-- What holds of a task between two requests. -/
def Rests (t : Tid) (l : Local) (w : World) : Prop :=
  match l with
  | .reading con => Seat t con w
  | _ => NoGhost t w

theorem stable_rests (l : Local) : tracking.Stable t (Rests t l) := by
  cases l with
  | reading con => exact stable_seat con
  | _ => exact stable_accounts

theorem tracking_programs : Programs tracking t (Rests t) where
  connect _ _ _ h := ⟨NoGhost.accounts h, fun hroom => (hroom rfl).elim⟩
  answer con reply _ h := seat_answer con reply h
  create con msg _ hout h := seat_handleCreate con msg hout h
  join con msg resumeOnly _ hout h := seat_handleJoin con msg resumeOnly hout h
  leave con msg _ h := seat_handleLeave con msg h
  endSession con msg _ h := seat_handleEndSession con msg h
  transferHost con msg _ h :=
    seat_inCurrentRoomTo con msg _ (fun _ => ⟨rfl, fun _ => trivial⟩) h
  broadcast con _ _ h := seat_inCurrentRoom con _ (fun _ => ⟨rfl, fun _ => trivial⟩) h
  sendTo con msg _ h := seat_inCurrentRoomTo con msg _ (fun _ => ⟨rfl, fun _ => trivial⟩) h
  exit con _ h := noGhost_exit con h
  sweep now _ h := accounts_of_all (sweep_all now) (fun _ => admits_of_isSweep) h
  flushAndStop _ h := accounts_of_all flushAndStop_all (fun _ => admits_of_isSnapshot) h

end Tracking

/-- In orderly runs every task's locals account for its seats. -/
theorem relay_tracked {sys : RelaySys} (h : Reaches (When Orderly) sys) :
    Base sys.shared ∧ ∀ t, tracking.Safe t (Rests t) (sys.threads t) sys.shared := by
  refine Logic.Safe.adequate (L := tracking) ?_ ?_ ?_ ?_ ?_ ?_ h
  · intro sys hsys
    refine ⟨Base.startup hsys, fun t => ?_⟩
    obtain ⟨file, now, clock, rfl⟩ := hsys
    have hnone : NoGhost t (initially (loadSnapshot file now clock)).shared := by
      rintro _ _ ⟨_, hev, _⟩
      cases hev
    cases t <;> exact hnone
  · exact fun t q l p w _ h hp => tracking_programs.start h hp
  · intro sys t e a k hreach hc ht
    exact ⟨relay_legal hreach ht, hc a (by rw [ht]; rfl)⟩
  · exact fun t a e w x w' hb hD _ hx => Base.did hb hD.1 hx
  · exact fun m w w' hb hm => Base.writer hb hm
  · exact fun t l => stable_rests l

/-- **No ghost members.** In every run whose steps are orderly, a connection whose task has
    finished, or which waits for its next message without being in a room, has no entry in
    the peer map of any room that is not closing. -/
theorem no_ghost_members {sys : RelaySys} (h : Reaches (When Orderly) sys) (k : Nat)
    (hout : sys.threads (.conn k) = .ret .finished ∨
      ∃ con, sys.threads (.conn k) = .ret (.reading con) ∧ con.currentRoom = none)
    {room : RoomId} {connId : Nat} (hassigned : Assigned sys.shared.history (.conn k) room connId)
    {st : RoomState} (hst : sys.shared.server.heap[room]? = some st) (hopen : st.closing = false)
    (p : String) : st.connIdOf p ≠ some connId := by
  intro hp
  have hsafe := (relay_tracked h).2 (.conn k)
  rcases hout with hfinished | ⟨con, hreading, hroom⟩
  · rw [hfinished] at hsafe
    exact hsafe room connId hassigned st hst hopen p hp
  · rw [hreading] at hsafe
    exact hsafe.tracked.noGhost hroom room connId hassigned st hst hopen p hp

omit [TokenCodec] in
/-- A run it speaks about: the host creates a room and hangs up. -/
theorem no_ghost_members_after_hangup : letI : TokenCodec := sampleCodec
    ∃ (sys : RelaySys) (st : RoomState), Reaches (When Orderly) sys ∧
      sys.threads (.conn 0) = .ret .finished ∧ Assigned sys.shared.history (.conn 0) 0 1 ∧
      sys.shared.server.heap[0]? = some st ∧ st.closing = false ∧ st.connIdOf "a" ≠ some 1 := by
  let _ : TokenCodec := sampleCodec
  obtain ⟨sys, hreach, hend, hassigned, st, hst, hopen⟩ :=
    reaches_of_run (C := When Orderly)
      (P := fun sys => (sys.threads (.conn 0)).result = some .finished ∧
        Assigned sys.shared.history (.conn 0) 0 1 ∧
        ∃ st ∈ sys.shared.server.heap[0]?, st.closing = false)
      (.start (.conn 0) (.connect "ip") :: handles 0 (message .create "s" "a" tokenOnes) 8 ++
        .start (.conn 0) .hangup :: acts (.conn 0) 2) (by decide +kernel)
  have hend := Proc.eq_ret_of_result hend
  exact ⟨sys, st, hreach, hend, hassigned, hst, hopen,
    no_ghost_members hreach 0 (Or.inl hend) hassigned hst hopen "a"⟩

omit [TokenCodec] in
/-- The host creates a room, sends an `endSession` with a wrong token and hangs up: the
    room stays open and keeps the finished connection as its host. -/
theorem ghost_after_refused_end_session : letI : TokenCodec := sampleCodec
    ∃ sys : RelaySys, Reaches Always sys ∧ sys.threads (.conn 0) = .ret .finished ∧
      Assigned sys.shared.history (.conn 0) 0 1 ∧
      ∃ st, sys.shared.server.heap[0]? = some st ∧ st.closing = false ∧
        st.connIdOf "a" = some 1 := by
  let _ : TokenCodec := sampleCodec
  obtain ⟨sys, hreach, hend, hassigned, st, hst, hghost⟩ :=
    reaches_of_run (C := Always)
      (P := fun sys => (sys.threads (.conn 0)).result = some .finished ∧
        Assigned sys.shared.history (.conn 0) 0 1 ∧
        ∃ st ∈ sys.shared.server.heap[0]?, st.closing = false ∧ st.connIdOf "a" = some 1)
      (.start (.conn 0) (.connect "ip") :: handles 0 (message .create "s" "a" tokenOnes) 8 ++
        handles 0 (message .endSession "s" "a" tokenTwos) 2 ++ [.start (.conn 0) .hangup])
      (by decide +kernel)
  exact ⟨sys, hreach, Proc.eq_ret_of_result hend, hassigned, st, hst, hghost⟩

end PlezyRelay
