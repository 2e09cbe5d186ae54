/-
  PlezyRelay/StrandedMembers.lean
  ===============================
  **No stranded member** — an admitted connection ends up in an open, registered room.

  The seat of a connection is read off the history: its last admission, unless it has
  left, ended the session or disconnected since.  Two invariants of the rooms carry the
  result.  A seat is in its room's peer map or its token has been handed out for
  eviction; and a closing room has no members, unless the section that evicts them all
  is still to come.  Once every task is at rest, all handed-out tokens have been fired
  and all ends of session have run to their last section.

  Two gaps in `create` break the second invariant: a join between the test for an
  abandoned room and the mark that closes it, and a host that comes back into a room
  the sweep has closed meanwhile.  `Unraced` excludes them.
-/
import PlezyRelay.Connections
import PlezyRelay.RelaySafe

namespace PlezyRelay

open Machine

variable [TokenCodec]

/-! ### What a section does to the room's members -/

/-- The section is the first half of an end of session, and was accepted. -/
def RoomOp.begins : (op : RoomOp) → op.Result → Bool
  | .beginEndSession .., .ok _ => true
  | _, _ => false

/-- Apart from the two gaps and from the first half of an end of session, a room that is
    closing has no members. -/
theorem RoomOp.closed_empty (rd : Readings) (st : RoomState) (op : RoomOp)
    (h : st.closing = true → st.peers.size = 0)
    (hmark : op = .markClosing → st.peers.size = 0)
    (hreconnect : ∀ host token, op = .reconnectHost host token → st.closing = false)
    (hbegins : op.begins (op.run rd st).2 = false)
    (hclosing : (op.run rd st).1.closing = true) : (op.run rd st).1.peers.size = 0 := by
  rcases hrun : op.run rd st with ⟨st', r⟩
  rw [hrun] at hbegins hclosing
  dsimp only at hbegins hclosing ⊢
  cases op with
  | isIdempotent | isReclaimable | ownerIpKey | pruneExpiredReservations =>
      cases hrun; exact h hclosing
  | markClosing => cases hrun; exact hmark rfl
  | reconnectHost host token =>
      cases hrun
      cases (hreconnect host token rfl).symm.trans hclosing
  | joinOrResume msg admission resumeOnly =>
      rcases RoomState.joinOrResume_cases hrun with
        ⟨_, rfl, _⟩ | ⟨_, rfl, _⟩ | ⟨hopen, _, _, rfl, _⟩
      · exact h hclosing
      · exact h hclosing
      · rw [RoomState.joined_closing, RoomState.pruned_closing, hopen] at hclosing
        cases hclosing
  | beginLeave peerId c token version =>
      rcases RoomState.beginLeave_cases hrun with ⟨rfl, _⟩ | ⟨_, _, _, _, rfl, _⟩ <;>
        exact h hclosing
  | finishLeave peerId c persisted =>
      rcases RoomState.finishLeave_cases hrun with
        ⟨_, rfl, _⟩ | ⟨_, _, rfl, _⟩ | ⟨howns, _, rfl, _⟩
      · exact h hclosing
      · exact h hclosing
      · exact Nat.le_zero.mp (le_trans (AList.size_erase_le _ _) (Nat.le_of_eq (h hclosing)))
  | beginEndSession peerId c token version =>
      rcases RoomState.beginEndSession_cases hrun with ⟨rfl, _⟩ | ⟨_, _, _, _, _, _, rfl⟩
      · exact h hclosing
      · cases hbegins
  | finishEndSession guests persisted =>
      obtain ⟨rfl, _⟩ := RoomState.finishEndSession_cases hrun
      rfl
  | transferHost peerId c version target =>
      rcases RoomState.transferHost_cases hrun with ⟨rfl, _⟩ | ⟨_, _, _, _, _, _, _, _, rfl, _⟩ <;>
        exact h hclosing
  | broadcast senderId c payload =>
      obtain ⟨rfl | rfl, _⟩ := RoomState.broadcast_cases hrun <;> exact h hclosing
  | sendTo senderId c targetId payload =>
      obtain ⟨rfl | rfl, _⟩ := RoomState.sendTo_cases hrun <;> exact h hclosing
  | handleDisconnect peerId c =>
      rcases RoomState.handleDisconnect_cases hrun with ⟨_, rfl, _⟩ | ⟨hopen, _, rfl, _⟩
      · exact h hclosing
      · rw [RoomState.disconnected_closing, hopen] at hclosing
        cases hclosing
  | sweep now =>
      rcases RoomState.sweepRoom_cases hrun with ⟨rfl, _⟩ | ⟨rfl, _, hempty⟩ | ⟨rfl, _⟩
      · exact h hclosing
      · exact hempty
      · rfl

/-! ### The history of a connection -/

/-- The tokens an event handed out for eviction. -/
def Event.evicts : Event → List CancellationToken
  | ⟨_, .newRoom .., (_, effects)⟩ => effects.evict
  | ⟨_, .room _ op, x⟩ => op.evicts x
  | _ => []

def Event.vacates : Event → Bool
  | ⟨_, .room _ op, x⟩ => op.vacates x
  | _ => false

/-- The event is an accepted first half of an end of session of `r`. -/
def Event.begins (r : RoomId) : Event → Bool
  | ⟨_, .room r' op, x⟩ => r' == r && op.begins x
  | _ => false

/-- The event is the second half of an end of session of `r`. -/
def Event.finishes (r : RoomId) : Event → Bool
  | ⟨_, .room r' op, _⟩ => r' == r && op.isTeardown
  | _ => false

/-- The last admission of `t`, unless it has left, ended the session or disconnected
    since. -/
def seatOf (t : Tid) : List Event → Option (RoomId × Nat × CancellationToken)
  | [] => none
  | ev :: h =>
      if ev.thread = t then if ev.vacates then none else ev.assigns.or (seatOf t h)
      else seatOf t h

/-- An end of session of `r` has begun and not reached its second half. -/
def Ending (h : List Event) (r : RoomId) : Prop :=
  (∃ ev ∈ h, ev.begins r = true) ∧ ∀ ev ∈ h, ev.finishes r = false

instance (h : List Event) (r : RoomId) : Decidable (Ending h r) :=
  inferInstanceAs (Decidable (_ ∧ _))

/-- `create` closes an abandoned room only while it is empty, and takes its host back only
    into a room that is open or about to be torn down by an end of session. -/
def Unraced (_ : Tid) (a : Act) (w : World) : Prop :=
  match a with
  | .room r .markClosing => ∀ st ∈ w.server.heap[r]?, st.peers.size = 0
  | .room r (.reconnectHost ..) =>
      ∀ st ∈ w.server.heap[r]?, st.closing = false ∨ Ending w.history r
  | _ => True

instance (t : Tid) (a : Act) (w : World) : Decidable (Unraced t a w) := by
  induction a using Act.casesOn with
  | room r op => induction op using RoomOp.casesOn <;> (dsimp only [Unraced]; infer_instance)
  | _ => exact isTrue trivial

omit [TokenCodec] in
theorem assigned_of_seatOf {t : Tid} {r : RoomId} {c : Nat} {k : CancellationToken}
    {h : List Event} (hseat : seatOf t h = some (r, c, k)) : Assigned h t r c := by
  induction h with
  | nil => cases hseat
  | cons ev h ih =>
      rw [seatOf] at hseat
      split at hseat
      · rename_i hev
        split at hseat
        · cases hseat
        · rcases Option.or_eq_some_iff.mp hseat with hassigns | ⟨_, hold⟩
          · exact assigned_cons.mpr (Or.inl ⟨hev, k, hassigns⟩)
          · exact (ih hold).cons
      · exact (ih hseat).cons

/-! ### The invariants -/

/-- The connection is in the room's peer map with its token. -/
def Sits (w : World) (r : RoomId) (c : Nat) (k : CancellationToken) : Prop :=
  ∃ st p peer, w.server.heap[r]? = some st ∧ st.peers.lookup p = some peer ∧
    peer.connId = c ∧ peer.cancel = k

structure Accommodated (w : World) : Prop where
  seated : ∀ {t : Tid} {r : RoomId} {c : Nat} {k : CancellationToken},
    seatOf t w.history = some (r, c, k) → Sits w r c k ∨ ∃ ev ∈ w.history, k ∈ ev.evicts
  closed : ∀ {r : RoomId} {st : RoomState}, w.server.heap[r]? = some st → st.closing = true →
    st.peers.size = 0 ∨ Ending w.history r
  torn : ∀ {r : RoomId} {ev : Event}, ev ∈ w.history → ev.finishes r = true → IsClosing w r

/-- Whoever is admitted sits in the room. -/
theorem sits_of_assigns {t : Tid} {a : Act} {e : Env} {w w' : World} {x : a.Resp} {r : RoomId}
    {c : Nat} {k : CancellationToken} (h : Did t a e w x w')
    (hassigns : Event.assigns ⟨t, a, x⟩ = some (r, c, k)) : Sits w' r c k := by
  cases a with
  | newRoom sid host v token key admission =>
      rw [assigns_newRoom h] at hassigns
      cases hassigns
      obtain ⟨_, _, hs⟩ := World.did_newRoom h
      exact ⟨_, host, _, by rw [hs]; exact List.getElem?_concat_length, AList.lookup_insert _,
        rfl, rfl⟩
  | room room op =>
      obtain ⟨st, hst, hrun, hst'⟩ := World.did_room h
      cases op with
      | reconnectHost host token =>
          obtain ⟨st₀, hst₀, hadm⟩ := assigns_reconnectHost h
          obtain rfl := Option.some.inj (hst₀.symm.trans hst)
          simp only [Event.assigns, hadm, Option.map_some, Option.some.injEq,
            Prod.mk.injEq] at hassigns
          obtain ⟨rfl, rfl, rfl⟩ := hassigns
          exact ⟨_, st₀.hostPeerId, _, hst', AList.lookup_insert _, rfl, rfl⟩
      | joinOrResume msg admission resumeOnly =>
          simp only [Event.assigns, Option.map_eq_some_iff, Prod.mk.injEq] at hassigns
          obtain ⟨⟨c', k'⟩, hadm, rfl, rfl, rfl⟩ := hassigns
          obtain ⟨rfl, rfl, _⟩ := RoomState.joinOrResume_admitted hrun hadm
          rcases RoomState.joinOrResume_cases hrun with
            ⟨_, _, rfl⟩ | ⟨_, _, _, _, rfl⟩ | ⟨_, _, _, hjoined, _⟩
          · cases hadm
          · cases hadm
          · rw [hjoined] at hst'
            exact ⟨_, admission.peerId, _, hst',
              by rw [RoomState.joined_peers]; exact AList.lookup_insert _, rfl, rfl⟩
      | _ => cases hassigns
  | _ => cases hassigns

namespace Accommodated

variable {w w' : World} {u : Tid} {a : Act} {e : Env} {x : a.Resp}

/-- A seat is kept, evicted or vacated. -/
theorem did_seated (h : Accommodated w) (hb : Base w) (hlegal : Legal u a w)
    (hx : Did u a e w x w') {t : Tid} {r : RoomId} {c : Nat} {k : CancellationToken}
    (hseat : seatOf t w'.history = some (r, c, k)) :
    Sits w' r c k ∨ ∃ ev ∈ w'.history, k ∈ ev.evicts := by
  have hhistory := World.did_history hx
  -- an older seat, which the event does not vacate
  have hold : seatOf t w.history = some (r, c, k) →
      (u = t → Event.vacates ⟨u, a, x⟩ = false) →
      Sits w' r c k ∨ ∃ ev ∈ w'.history, k ∈ ev.evicts := by
    intro hseat hstays
    rcases h.seated hseat with ⟨st, p, peer, hst, hpeer, rfl, rfl⟩ | ⟨ev, hev, hk⟩
    · obtain ⟨st', hst', rfl | ⟨op, rfl, rfl⟩⟩ := (World.did_moves hx).heap_some hst
      · exact Or.inl ⟨st', p, peer, hst', hpeer, rfl, rfl⟩
      · obtain ⟨st₀, hst₀, hrun, _⟩ := World.did_room hx
        obtain rfl := Option.some.inj (hst₀.symm.trans hst)
        have hresp := congrArg Prod.snd hrun
        rcases RoomOp.peer_kept (e.readings ⟨w.server.nextToken⟩) st₀ op hpeer with
          hkept | hevicted | ⟨hcaller, _, hvacates⟩
        · exact Or.inl ⟨_, p, peer, hst', hkept, rfl, rfl⟩
        · refine Or.inr ⟨_, by rw [hhistory]; exact List.mem_cons_self, ?_⟩
          rw [hresp] at hevicted
          exact hevicted
        · have hut := hb.assigned_unique (hlegal.2.1 _ (RoomOp.connId_of_caller hcaller))
            (assigned_of_seatOf hseat)
          rw [hresp] at hvacates
          cases (hstays hut).symm.trans hvacates
    · exact Or.inr ⟨ev, by rw [hhistory]; exact List.mem_cons_of_mem _ hev, hk⟩
  rw [hhistory, seatOf] at hseat
  split at hseat
  · split at hseat
    · cases hseat
    · rename_i hstays
      rcases Option.or_eq_some_iff.mp hseat with hassigns | ⟨_, hseat⟩
      · exact Or.inl (sits_of_assigns hx hassigns)
      · exact hold hseat fun _ => by simpa using hstays
  · rename_i hne
    exact hold hseat fun heq => (hne heq).elim

theorem did_torn (h : Accommodated w) (hlegal : Legal u a w) (hx : Did u a e w x w')
    {r : RoomId} {ev : Event} (hev : ev ∈ w'.history) (hfinishes : ev.finishes r = true) :
    IsClosing w' r := by
  refine (World.Next.act hx).isClosing ?_
  rw [World.did_history hx] at hev
  rcases List.mem_cons.mp hev with rfl | hev
  · cases a with
    | room r' op =>
        simp only [Event.finishes, Bool.and_eq_true, beq_iff_eq] at hfinishes
        obtain ⟨rfl, hteardown⟩ := hfinishes
        exact hlegal.2.2.1 hteardown
    | _ => cases hfinishes
  · exact h.torn hev hfinishes

omit [TokenCodec] in
/-- An end of session that is under way goes on until its second half. -/
theorem ending_cons {h : List Event} {r : RoomId} {ev : Event} (hending : Ending h r)
    (hev : ev.finishes r = false) : Ending (ev :: h) r := by
  obtain ⟨⟨ev', hev', hbegins⟩, hnot⟩ := hending
  refine ⟨⟨ev', List.mem_cons_of_mem _ hev', hbegins⟩, fun ev'' hev'' => ?_⟩
  rcases List.mem_cons.mp hev'' with rfl | hev''
  · exact hev
  · exact hnot ev'' hev''

/-- The second half of an end of session leaves the room empty. -/
theorem empty_of_finishes {r : RoomId} {st' : RoomState} (hx : Did u a e w x w')
    (hfinishes : Event.finishes r ⟨u, a, x⟩ = true) (hst' : w'.server.heap[r]? = some st') :
    st'.peers.size = 0 := by
  cases a with
  | room r' op =>
      simp only [Event.finishes, Bool.and_eq_true, beq_iff_eq] at hfinishes
      obtain ⟨rfl, hteardown⟩ := hfinishes
      obtain ⟨st, _, hrun, hheap⟩ := World.did_room hx
      obtain rfl := Option.some.inj (hheap.symm.trans hst')
      cases op with
      | finishEndSession guests persisted =>
          rw [(RoomState.finishEndSession_cases hrun).1]
          rfl
      | _ => cases hteardown
  | _ => cases hfinishes

/-- An accepted first half of an end of session has found the room open. -/
theorem open_of_begins {rd : Readings} {st : RoomState} {op : RoomOp}
    (h : op.begins (op.run rd st).2 = true) : st.closing = false := by
  rcases hrun : op.run rd st with ⟨st', y⟩
  rw [hrun] at h
  cases op with
  | beginEndSession peerId c token version =>
      rcases RoomState.beginEndSession_cases hrun with ⟨_, rfl⟩ | ⟨hopen, _⟩
      · cases h
      · exact hopen
  | _ => cases h

theorem did_closed (h : Accommodated w) (hD : Unraced u a w) (hx : Did u a e w x w')
    {r : RoomId} {st' : RoomState} (hst' : w'.server.heap[r]? = some st')
    (hclosing : st'.closing = true) : st'.peers.size = 0 ∨ Ending w'.history r := by
  by_cases hfinishes : Event.finishes r ⟨u, a, x⟩ = true
  · exact Or.inl (empty_of_finishes hx hfinishes hst')
  · rw [World.did_history hx]
    have hgoes : Ending w.history r → Ending (⟨u, a, x⟩ :: w.history) r := fun hending =>
      ending_cons hending (by simpa using hfinishes)
    rcases (World.did_moves hx).heap_of_some hst' with
      ⟨st, hst, rfl | ⟨op, rfl, rfl⟩⟩ | ⟨_, _, _, _, _, _, _, _, _, rfl, _⟩
    · exact (h.closed hst hclosing).imp id hgoes
    · by_cases hending : Ending w.history r
      · exact Or.inr (hgoes hending)
      · obtain ⟨st₀, hst₀, hrun, _⟩ := World.did_room hx
        obtain rfl := Option.some.inj (hst₀.symm.trans hst)
        have hresp := congrArg Prod.snd hrun
        by_cases hbegins : op.begins (op.run (e.readings ⟨w.server.nextToken⟩) st₀).2 = true
        · refine Or.inr ⟨⟨_, List.mem_cons_self, ?_⟩, fun ev hev => ?_⟩
          · rw [hresp] at hbegins
            simpa [Event.begins] using hbegins
          · -- nothing was torn down in a room that was still open
            rcases List.mem_cons.mp hev with rfl | hev
            · simpa using hfinishes
            · by_contra hev'
              obtain ⟨st₁, hst₁, hclosed⟩ := h.torn hev (by simpa using hev')
              rw [Option.some.inj (hst₁.symm.trans hst), open_of_begins hbegins] at hclosed
              cases hclosed
        · refine Or.inl (RoomOp.closed_empty _ st₀ op ?_ ?_ ?_ (by simpa using hbegins) hclosing)
          · exact fun hc => (h.closed hst hc).resolve_right hending
          · rintro rfl
            exact hD st₀ hst
          · rintro host token rfl
            exact (hD st₀ hst).resolve_right hending
    · cases hclosing

theorem did (h : Accommodated w) (hb : Base w) (hlegal : Legal u a w) (hD : Unraced u a w)
    (hx : Did u a e w x w') : Accommodated w' where
  seated := h.did_seated hb hlegal hx
  closed := h.did_closed hD hx
  torn := h.did_torn hlegal hx

theorem writer (h : Accommodated w) {m : WriterStep} (hm : w.writerStep m = some w') :
    Accommodated w' := by
  obtain ⟨hs, hh⟩ := World.writerStep_iff.mp hm
  have hheap := (Server.writerStep_frame hs).1
  constructor <;> intros <;> simp only [hheap, hh, Sits, IsClosing] at *
  · exact h.seated ‹_›
  · exact h.closed ‹_› ‹_›
  · exact h.torn ‹_› ‹_›

theorem startup {sys : RelaySys} (h : Startup sys) : Accommodated sys.shared := by
  have hnil : sys.shared.history = [] := by
    obtain ⟨file, now, clock, rfl⟩ := h
    rfl
  refine ⟨?_, fun hst hclosing => ?_, ?_⟩
  · rw [hnil]
    exact nofun
  · obtain ⟨room, rfl⟩ := heap_startup h hst
    cases hclosing
  · rw [hnil]
    exact nofun

end Accommodated

/-! ### What a task still has to do -/

/-- The tokens `t` has handed out are fired, except for `tokens`, and the ends of session
    it began have had their second half, except for that of `but`. -/
structure Settled (t : Tid) (tokens : List CancellationToken) (but : Option RoomId) (w : World) :
    Prop where
  fired : ∀ ev ∈ w.history, ev.thread = t → ∀ k ∈ ev.evicts,
    k ∈ w.server.cancelled ∨ k ∈ tokens
  ended : ∀ r, but ≠ some r → (∃ ev ∈ w.history, ev.thread = t ∧ ev.begins r = true) →
    ∃ ev ∈ w.history, ev.finishes r = true

/-- Runs without the two races; that steps are legal is known. -/
def settling : relay.Logic where
  inv w := Base w ∧ Accommodated w
  assume t a w := Legal t a w ∧ Unraced t a w

section Settled

variable {t : Tid} {w w' : World} {tokens : List CancellationToken} {but : Option RoomId}

/-- What the others do adds neither tokens nor ends of session to the task's own. -/
theorem stable_settled : settling.Stable t (Settled t tokens but) := by
  intro w w' _ _ hint h
  rcases interferes_cases hint with ⟨u, a, e, x, hne, _, _, hx⟩ | ⟨m, hm⟩
  · have hhistory := World.did_history hx
    constructor
    · intro ev hev ht k hk
      rw [hhistory] at hev
      rcases List.mem_cons.mp hev with rfl | hev
      · exact (hne ht).elim
      · exact (h.fired ev hev ht k hk).imp ((World.did_moves hx).cancelled k) id
    · rintro r hr ⟨ev, hev, ht, hbegins⟩
      rw [hhistory] at hev ⊢
      rcases List.mem_cons.mp hev with rfl | hev
      · exact (hne ht).elim
      · obtain ⟨ev', hev', hfinishes⟩ := h.ended r hr ⟨ev, hev, ht, hbegins⟩
        exact ⟨ev', List.mem_cons_of_mem _ hev', hfinishes⟩
  · obtain ⟨hs, hh⟩ := World.writerStep_iff.mp hm
    obtain ⟨_, _, _, _, hcancelled, _⟩ := Server.writerStep_frame hs
    exact ⟨by rw [hh, hcancelled]; exact h.fired, by rw [hh]; exact h.ended⟩

/-- An own step adds the tokens it hands out. -/
theorem Settled.own {a : Act} {e : Env} {x : a.Resp} (h : Settled t tokens but w)
    (hx : Did t a e w x w') (hbegins : ∀ r, but ≠ some r → Event.begins r ⟨t, a, x⟩ = false) :
    Settled t (Event.evicts ⟨t, a, x⟩ ++ tokens) but w' := by
  have hhistory := World.did_history hx
  constructor
  · intro ev hev ht k hk
    rw [hhistory] at hev
    rcases List.mem_cons.mp hev with rfl | hev
    · exact Or.inr (List.mem_append_left _ hk)
    · exact (h.fired ev hev ht k hk).imp ((World.did_moves hx).cancelled k)
        (List.mem_append_right _)
  · rintro r hr ⟨ev, hev, ht, hev'⟩
    rw [hhistory] at hev ⊢
    rcases List.mem_cons.mp hev with rfl | hev
    · cases (hbegins r hr).symm.trans hev'
    · obtain ⟨ev', hev', hfinishes⟩ := h.ended r hr ⟨ev, hev, ht, hev'⟩
      exact ⟨ev', List.mem_cons_of_mem _ hev', hfinishes⟩

/-- The actions that evict nobody and end no session. -/
def Act.isQuiet : Act → Bool
  | .newRoom .. => false
  | .room _ op =>
      match op with
      | .isIdempotent .. | .isReclaimable | .ownerIpKey | .markClosing
      | .pruneExpiredReservations => true
      | _ => false
  | _ => true

omit [TokenCodec] in
theorem quiet_spec {a : Act} (x : a.Resp) (h : a.isQuiet = true) :
    Event.evicts ⟨t, a, x⟩ = [] ∧ ∀ r, Event.begins r ⟨t, a, x⟩ = false := by
  cases a with
  | newRoom => cases h
  | room r op => cases op <;> first | exact ⟨rfl, fun _ => Bool.and_false _⟩ | cases h
  | _ => exact ⟨rfl, fun _ => rfl⟩

theorem Settled.quiet {a : Act} {e : Env} {x : a.Resp} (h : Settled t tokens but w)
    (hx : Did t a e w x w') (ha : a.isQuiet = true) : Settled t tokens but w' := by
  obtain ⟨hevicts, hbegins⟩ := quiet_spec (t := t) x ha
  have h' := h.own hx fun r _ => hbegins r
  rwa [hevicts] at h'

theorem settled_act {α : Type} {Q : α → World → Prop} {a : Act} {k : a.Resp → Task α}
    (h : Settled t tokens but w) (ha : a.isQuiet = true)
    (hk : ∀ x w, Settled t tokens but w → settling.Safe t Q (k x) w) :
    settling.Safe t Q (.act a k) w :=
  safe_act _ h stable_settled fun _ _ h _ => ⟨trivial, fun _ x w' hx _ => hk x w' (h.quiet hx ha)⟩

theorem settled_of_all {α : Type} {p : Task α} (hp : p.All fun a => a.isQuiet = true)
    (h : Settled t tokens but w) : settling.Safe t (fun _ => Settled t tokens but) p w :=
  Logic.Safe.of_all hp h stable_settled (fun _ _ _ _ _ _ => trivial)
    fun _ _ _ _ _ ha _ _ _ h hx => h.quiet hx ha

/-- A section that begins no end of session hands its tokens to the task. -/
theorem settled_room {α : Type} {Q : α → World → Prop} {r : RoomId} {op : RoomOp}
    {k : op.Result → Task α} (h : Settled t [] but w) (hop : ∀ x, op.begins x = false)
    (hk : ∀ x w, Settled t (op.evicts x) but w → settling.Safe t Q (k x) w) :
    settling.Safe t Q (.act (.room r op) k) w := by
  refine safe_act _ h stable_settled fun _ _ h _ => ⟨trivial, fun e x w' hx _ => hk x w' ?_⟩
  have h' := h.own hx fun r' _ => by simp [Event.begins, hop x]
  rwa [List.append_nil] at h'

/-- Firing tokens one after the other settles them. -/
theorem settled_cancel (tokens : List CancellationToken) (h : Settled t tokens but w) :
    settling.Safe t (fun _ => Settled t [] but)
      (Proc.forEach (fun token => perform (.cancel token)) tokens) w := by
  induction tokens generalizing w with
  | nil => exact h
  | cons token tokens ih =>
      refine safe_act _ h stable_settled fun w _ h _ => ⟨trivial, fun e x w' hx _ => ih ?_⟩
      have h' := h.quiet hx rfl
      have hcancelled : token ∈ w'.server.cancelled := by
        obtain ⟨s', hs, rfl⟩ := World.did_iff.mp hx
        cases hs
        exact List.mem_cons_self
      refine ⟨fun ev hev ht k hk => ?_, h'.ended⟩
      rcases h'.fired ev hev ht k hk with hk | hk
      · exact Or.inl hk
      · rcases List.mem_cons.mp hk with rfl | hk
        · exact Or.inl hcancelled
        · exact Or.inr hk

theorem settled_applyEffects (tx : Sender) (effects : Effects)
    (h : Settled t effects.evict but w) :
    settling.Safe t (fun _ => Settled t [] but) (applyEffects tx effects) w := by
  have hreply : (Proc.forEach (fun reply => perform (.send tx reply)) effects.reply.toList).All
      fun a => a.isQuiet = true := .forEach fun _ _ => ⟨rfl, fun _ => trivial⟩
  have hbroadcast : (Proc.forEach (fun outbound : Outbound =>
      perform (.send outbound.tx outbound.msg)) effects.broadcast).All fun a => a.isQuiet = true :=
    .forEach fun _ _ => ⟨rfl, fun _ => trivial⟩
  have hrecord : (Proc.when effects.dirty (perform .recordMutation)).All
      fun a => a.isQuiet = true := .when ⟨rfl, fun _ => trivial⟩
  refine (settled_of_all hreply h).bind fun _ w h => ?_
  refine (settled_of_all hbroadcast h).bind fun _ w h => ?_
  refine (settled_cancel effects.evict h).bind fun _ w h => ?_
  exact settled_of_all hrecord h

omit [TokenCodec] in
theorem isQuiet_of_isSnapshot {a : Act} (h : a.isSnapshot = true) : a.isQuiet = true := by
  cases a <;> trivial

/-! ### The programs -/

theorem settled_createFresh (sid host : String) (v : Verifier) (token key : String)
    (admission : Admission) (h : Settled t [] but w) :
    settling.Safe t (fun x => Settled t x.2.evict but)
      (Registry.createFresh sid host v token key admission) w := by
  refine settled_act h rfl fun n w h => ?_
  rw [Proc.ret_bind]
  split
  · exact settled_act h rfl fun _ _ h => h
  · refine settled_act h rfl fun b w h => ?_
    cases b with
    | false => exact settled_act h rfl fun _ _ h => h
    | true =>
        refine safe_act _ h stable_settled fun _ _ h _ => ⟨trivial, fun e x w' hx _ => ?_⟩
        have h' := h.own hx fun r _ => rfl
        rw [List.append_nil] at h'
        exact settled_act h' rfl fun _ _ h => settled_act h rfl fun _ _ h => h

theorem settled_create (sid host token key : String) (admission : Admission)
    (h : Settled t [] but w) :
    settling.Safe t (fun x => Settled t x.2.evict but)
      (Registry.create sid host token key admission) w := by
  unfold Registry.create
  split
  · exact h
  · refine settled_act h rfl fun found w h => ?_
    rcases found with _ | existing
    · exact settled_createFresh sid host _ token key admission h
    · refine settled_act h rfl fun idempotent w h => ?_
      cases idempotent with
      | true =>
          refine settled_room h (fun _ => rfl) fun effects w h => ?_
          exact settled_act h rfl fun _ _ h => settled_act h rfl fun _ _ h => h
      | false =>
          refine settled_act h rfl fun reclaimable w h => ?_
          cases reclaimable with
          | false => exact settled_act h rfl fun _ _ h => h
          | true =>
              refine settled_act h rfl fun _ w h => settled_act h rfl fun _ w h => ?_
              refine settled_act h rfl fun _ w h => settled_act h rfl fun _ w h => ?_
              exact settled_createFresh sid host _ token key admission h

theorem settled_leave (r : RoomId) (peerId : String) (c : Nat) (token : String) (version : Nat)
    (h : Settled t [] but w) :
    settling.Safe t (fun effects => Settled t effects.evict but)
      (Room.leave r peerId c token version) w := by
  refine settled_room h (fun _ => rfl) fun begun w h => ?_
  cases begun with
  | error effects => exact h
  | ok _ =>
      have hwait := settled_of_all
        (recordTerminalMutation_all.mono fun _ => isQuiet_of_isSnapshot) h
      refine hwait.bind fun persisted w h => ?_
      exact settled_room h (fun _ => rfl) fun effects w h => h

/-- An end of session is settled by its second half. -/
theorem settled_endSession (r : RoomId) (peerId : String) (c : Nat) (token : String)
    (version : Nat) (h : Settled t [] none w) :
    settling.Safe t (fun effects => Settled t effects.evict none)
      (Registry.endSession r peerId c token version) w := by
  refine safe_act _ h stable_settled fun w _ h _ => ⟨trivial, fun e y w' hx _ => ?_⟩
  cases y with
  | error effects =>
      have h' := h.own hx fun r _ => by simp [Event.begins, RoomOp.begins]
      rwa [List.append_nil] at h'
  | ok v =>
      have h' : Settled t [] (some r) w' := by
        have hbut : Settled t [] (some r) w := ⟨h.fired, fun r' _ => h.ended r' nofun⟩
        refine hbut.own hx fun r' hr => ?_
        have hne : (r == r') = false := by
          rw [beq_eq_false_iff_ne]
          exact fun heq => hr (congrArg some heq)
        simp [Event.begins, hne]
      refine settled_act h' rfl fun _ w h => settled_act h rfl fun _ w h => ?_
      have hwait := settled_of_all
        (recordTerminalMutation_all.mono fun _ => isQuiet_of_isSnapshot) h
      refine hwait.bind fun persisted w h => ?_
      refine safe_act _ h stable_settled fun w _ h _ => ⟨trivial, fun e effects w' hx _ => ?_⟩
      have h' := h.own hx fun r _ => by simp [Event.begins, RoomOp.begins]
      rw [List.append_nil] at h'
      refine ⟨h'.fired, fun r' _ hbegins => ?_⟩
      by_cases hr : r = r'
      · subst hr
        rw [World.did_history hx]
        exact ⟨_, List.mem_cons_self, by simp [Event.finishes, RoomOp.isTeardown]⟩
      · exact h'.ended r' (fun heq => hr (Option.some.inj heq)) hbegins

theorem settled_sweep (now : SystemTime) (h : Settled t [] but w) :
    settling.Safe t (fun _ => Settled t [] but) (sweep now) w := by
  refine settled_act h rfl fun rooms w h => ?_
  refine Logic.Safe.forEach (fun r _ w h => ?_) h
  apply safe_sweepOne (V := fun verdict => Settled t verdict.2.2 but)
    (R := fun _ evict => Settled t evict but) (E := fun evict => Settled t evict but)
  · exact settled_room h (fun _ => rfl) fun _ _ h => h
  · exact fun _ _ _ h => h
  · exact fun _ _ _ h => settled_of_all (removeIfCurrent_all rfl rfl fun _ => rfl) h
  · exact fun _ _ h => h
  · exact fun _ _ h => settled_act h rfl fun _ _ h => h
  · exact fun evict _ h => settled_cancel evict h

theorem settled_programs : Programs settling t fun _ => Settled t [] none := by
  refine Programs.of_delivery (A := fun effects => Settled t effects.evict none)
    (fun _ _ _ h => settled_act h rfl fun _ _ h => h)
    (fun _ _ h => settled_act h rfl fun _ _ h => h) (fun r op w hop _ h => ?_)
    (fun tx effects _ h => settled_applyEffects tx effects h)
    (fun _ _ _ _ _ _ h => settled_create _ _ _ _ _ h)
    (fun _ _ _ _ _ _ h => settled_leave _ _ _ _ _ h)
    (fun _ _ _ _ _ _ h => settled_endSession _ _ _ _ _ h) (fun now _ h => settled_sweep now h)
    fun _ h => settled_of_all (flushAndStop_all.mono fun _ => isQuiet_of_isSnapshot) h
  refine settled_room h (fun x => ?_) fun x w h => ?_
  · cases op <;> first | rfl | cases hop
  · cases op <;> first | exact h | cases hop

end Settled

theorem relay_settled {sys : RelaySys} (h : Reaches (When Unraced) sys) :
    (Base sys.shared ∧ Accommodated sys.shared) ∧
      ∀ t, settling.Safe t (fun _ => Settled t [] none) (sys.threads t) sys.shared := by
  refine Logic.Safe.adequate (L := settling) ?_ ?_ ?_ ?_ ?_ ?_ h
  · intro sys hsys
    refine ⟨⟨Base.startup hsys, Accommodated.startup hsys⟩, fun t => ?_⟩
    obtain ⟨file, now, clock, rfl⟩ := hsys
    have hnew : Settled t [] none (initially (loadSnapshot file now clock)).shared := by
      constructor
      · intro _ hev
        cases hev
      · rintro _ _ ⟨_, hev, _⟩
        cases hev
    cases t <;> exact hnew
  · exact fun t q l p w _ h hp => settled_programs.start h hp
  · intro sys t e a k hreach hc ht
    exact ⟨relay_legal hreach ht, hc a (by rw [ht]; rfl)⟩
  · exact fun t a e w x w' hb hD _ hx => ⟨Base.did hb.1 hD.1 hx, hb.2.did hb.1 hD.1 hD.2 hx⟩
  · exact fun m w w' hb hm => ⟨Base.writer hb.1 hm, hb.2.writer hm⟩
  · exact fun t l => stable_settled

/-- **No stranded member.** In every run without the two races, once no task has anything
    left to do, a connection with a seat whose token has not been fired is in the peer map
    of a room that is not closing and is registered under its session id. -/
theorem no_stranded_member {sys : RelaySys} (h : Reaches (When Unraced) sys)
    (hrest : ∀ t, ∃ l, sys.threads t = .ret l) {k : Nat} {r : RoomId} {connId : Nat}
    {cancel : CancellationToken}
    (hseat : seatOf (.conn k) sys.shared.history = some (r, connId, cancel))
    (hlive : cancel ∉ sys.shared.server.cancelled) :
    ∃ st p, sys.shared.server.heap[r]? = some st ∧ st.closing = false ∧
      st.connIdOf p = some connId ∧ sys.shared.server.rooms.lookup st.sessionId = some r := by
  obtain ⟨⟨hb, hacc⟩, hsafe⟩ := relay_settled h
  have hsettled : ∀ t, Settled t [] none sys.shared := by
    intro t
    obtain ⟨l, hl⟩ := hrest t
    have ht := hsafe t
    rw [hl] at ht
    exact ht
  rcases hacc.seated hseat with ⟨st, p, peer, hst, hpeer, rfl, rfl⟩ | ⟨ev, hev, hk⟩
  · have hopen : st.closing = false := by
      by_contra hclosing
      rcases hacc.closed hst (by simpa using hclosing) with hempty | ⟨⟨ev, hev, hbegins⟩, hnot⟩
      · exact AList.notMem_of_size_eq_zero hempty p (AList.mem_of_lookup hpeer)
      · obtain ⟨ev', hev', hfinishes⟩ :=
          (hsettled ev.thread).ended r (Option.some_ne_none r).symm ⟨ev, hev, rfl, hbegins⟩
        cases (hnot ev' hev').symm.trans hfinishes
    exact ⟨st, p, hst, hopen, by rw [RoomState.connIdOf, hpeer]; rfl, hb.open_registered hst hopen⟩
  · rcases (hsettled ev.thread).fired ev hev rfl cancel hk with hfired | hpending
    · exact absurd hfired hlive
    · cases hpending

omit [TokenCodec] in
/-- A run it speaks about: one connection creates a room, another joins it. -/
theorem no_stranded_member_after_join : letI : TokenCodec := sampleCodec
    ∃ (sys : RelaySys) (st : RoomState) (p : String), Reaches (When Unraced) sys ∧
      (∀ t, ∃ l, sys.threads t = .ret l) ∧
      seatOf (.conn 1) sys.shared.history = some (0, 2, ⟨1⟩) ∧
      sys.shared.server.heap[0]? = some st ∧ st.closing = false ∧ st.connIdOf p = some 2 ∧
      sys.shared.server.rooms.lookup st.sessionId = some 0 := by
  let _ : TokenCodec := sampleCodec
  obtain ⟨sys, hreach, hrest, hseat, hlive⟩ := rests_of_run (C := When Unraced)
    (P := fun sys => seatOf (.conn 1) sys.shared.history = some (0, 2, ⟨1⟩) ∧
      ⟨1⟩ ∉ sys.shared.server.cancelled)
    (.start (.conn 0) (.connect "ip") :: .start (.conn 1) (.connect "ip") ::
      handles 0 (message .create "s" "a" tokenOnes) 8 ++
      handles 1 (message .join "s" "b" tokenTwos) 5) (by decide +kernel)
  obtain ⟨st, p, hst, hopen, hconn, hreg⟩ := no_stranded_member hreach hrest hseat hlive
  exact ⟨sys, st, p, hreach, hrest, hseat, hst, hopen, hconn, hreg⟩

omit [TokenCodec] in
/-- The room of `a` is empty.  `b` looks it up; `create` finds it abandoned; `b` joins; and
    `create` closes it and makes a new one.  In the end `b` sits in the closed room. -/
theorem stranded_by_reclaim : letI : TokenCodec := sampleCodec
    ∃ sys : RelaySys, Reaches Always sys ∧ (∀ t, ∃ l, sys.threads t = .ret l) ∧
      ∃ seat ∈ seatOf (.conn 1) sys.shared.history, seat.2.2 ∉ sys.shared.server.cancelled ∧
        ∃ st ∈ sys.shared.server.heap[seat.1]?, st.closing = true ∧
          sys.shared.server.rooms.lookup st.sessionId ≠ some seat.1 := by
  let _ : TokenCodec := sampleCodec
  exact rests_of_run
    (.start (.conn 0) (.connect "ip") :: .start (.conn 1) (.connect "ip") ::
      .start (.conn 2) (.connect "ip") :: handles 0 (message .create "s" "a" tokenOnes) 8 ++
      .start (.conn 0) .hangup :: acts (.conn 0) 2 ++
      handles 1 (message .join "s" "b" tokenTwos) 1 ++
      handles 2 (message .create "s" "c" tokenTwos) 3 ++ acts (.conn 1) 3 ++ acts (.conn 2) 11)
    (by decide +kernel)

end PlezyRelay
