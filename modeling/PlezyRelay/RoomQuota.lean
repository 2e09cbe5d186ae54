/-
  PlezyRelay/RoomQuota.lean
  =========================
  **Room-quota accounting over sequential runs.**

  When every registry call runs to completion before the next begins, the counter of an
  owner key is the number of its registered rooms.  `Sound` carries that together with
  what it rests on: a room is registered as long as it is open, and only then.  There are
  three ways in which a call changes a sound registry: it updates a room without opening
  or closing it (`Sound.setRoom`), it retires a registered room together with its slot
  (`Sound.retire`), or it adds a room with a slot of its own (`Sound.add`).  Every branch
  of every call is one of these, or two in a row.
-/
import PlezyRelay.RegistryCalls

namespace PlezyRelay

open Machine

/-! ### The invariant -/

namespace Server

/-- The owner key of a room. -/
def ownerOf (s : Server) (r : RoomId) : Option String := s.heap[r]?.map (·.ownerIpKey)

/-- The number of registered rooms with the owner key. -/
def owned (s : Server) (key : String) : Nat :=
  s.rooms.values.countP fun r => decide (s.ownerOf r = some key)

end Server

structure Sound (s : Server) : Prop where
  registered : ∀ {sid : String} {r : RoomId}, s.rooms.lookup sid = some r →
    ∃ st, s.heap[r]? = some st ∧ st.sessionId = sid ∧ st.closing = false
  retired : ∀ {r : RoomId} {st : RoomState}, s.heap[r]? = some st →
    s.rooms.lookup st.sessionId ≠ some r → st.closing = true ∧ st.peers.size = 0
  counts : ∀ key, s.quota key = s.owned key
  stored : ∀ key, s.roomsPerIp.lookup key ≠ some 0
  perIp : ∀ key, key ≠ "" → s.quota key ≤ MAX_ROOMS_PER_IP
  retained : s.rooms.size ≤ MAX_RETAINED_ROOMS

section Sound

variable {s : Server} {r : RoomId} {st st' : RoomState}

theorem Server.ownerOf_setRoom (hst : s.heap[r]? = some st)
    (howner : st'.ownerIpKey = st.ownerIpKey) (i : RoomId) :
    (s.setRoom r st').ownerOf i = s.ownerOf i := by
  simp only [Server.ownerOf, Server.setRoom]
  by_cases hi : r = i
  · subst hi
    rw [List.getElem?_set_self (List.getElem?_eq_some_iff.mp hst).1, hst]
    simp [howner]
  · rw [List.getElem?_set_ne hi]

namespace Sound

/-- An open room is registered. -/
theorem current (h : Sound s) (hst : s.heap[r]? = some st) (hopen : st.closing = false) :
    s.rooms.lookup st.sessionId = some r := by
  by_contra hne
  cases hopen.symm.trans (h.retired hst hne).1

/-- A section that neither opens nor closes the room, nor brings peers into a closed one. -/
theorem setRoom (h : Sound s) (hst : s.heap[r]? = some st)
    (hsid : st'.sessionId = st.sessionId) (howner : st'.ownerIpKey = st.ownerIpKey)
    (hclosing : st'.closing = st.closing)
    (hpeers : st.closing = true → st.peers.size = 0 → st'.peers.size = 0) :
    Sound (s.setRoom r st') := by
  have hlt := (List.getElem?_eq_some_iff.mp hst).1
  have hheap : (s.setRoom r st').heap[r]? = some st' := List.getElem?_set_self hlt
  refine ⟨?_, ?_, ?_, h.stored, h.perIp, h.retained⟩
  · intro sid i hi
    obtain ⟨st₀, hst₀, hsid₀, hopen⟩ := h.registered hi
    by_cases heq : r = i
    · subst heq
      obtain rfl := Option.some.inj (hst₀.symm.trans hst)
      exact ⟨st', hheap, hsid.trans hsid₀, hclosing.trans hopen⟩
    · exact ⟨st₀, (List.getElem?_set_ne heq).trans hst₀, hsid₀, hopen⟩
  · intro i st₀ hst₀ hgone
    by_cases heq : r = i
    · subst heq
      obtain rfl := Option.some.inj (hheap.symm.trans hst₀)
      obtain ⟨hc, hp⟩ := h.retired hst (hsid ▸ hgone)
      exact ⟨hclosing.trans hc, hpeers hc hp⟩
    · exact h.retired ((List.getElem?_set_ne heq).symm.trans hst₀) hgone
  · intro key
    simp only [Server.owned, Server.ownerOf_setRoom hst howner]
    exact h.counts key

/-- A registered room is closed, leaves the table and gives its slot back. -/
theorem retire (h : Sound s) (st' : RoomState) (hst : s.heap[r]? = some st)
    (hcur : s.rooms.lookup st.sessionId = some r) (hsid : st'.sessionId = st.sessionId)
    (howner : st'.ownerIpKey = st.ownerIpKey) (hclosing : st'.closing = true)
    (hpeers : st'.peers.size = 0) :
    Sound (({ s.setRoom r st' with rooms := s.rooms.erase st.sessionId }).releaseRoomQuota
      st.ownerIpKey) := by
  have hlt := (List.getElem?_eq_some_iff.mp hst).1
  have hheap : (s.setRoom r st').heap[r]? = some st' := List.getElem?_set_self hlt
  generalize hs' : ({ s.setRoom r st' with rooms := s.rooms.erase st.sessionId }).releaseRoomQuota
    st.ownerIpKey = s'
  have hheap' : s'.heap = (s.setRoom r st').heap := by
    rw [← hs', Server.releaseRoomQuota_eq]
  have hrooms' : s'.rooms = s.rooms.erase st.sessionId := by
    rw [← hs', Server.releaseRoomQuota_eq]
  have hquota : ∀ key, s'.quota key =
      if key = st.ownerIpKey then s.quota key - 1 else s.quota key := by
    rw [← hs']
    exact Server.quota_releaseRoomQuota _ st.ownerIpKey
  have hlookup : ∀ key, s'.roomsPerIp.lookup key = if key = st.ownerIpKey then
      (s.roomsPerIp.lookup st.ownerIpKey).bind fun count => if count ≤ 1 then none else some (count - 1)
      else s.roomsPerIp.lookup key := by
    rw [← hs']
    exact Server.lookup_releaseRoomQuota _ st.ownerIpKey
  refine ⟨?_, ?_, ?_, ?_, ?_, ?_⟩
  · intro sid i hi
    rw [hrooms', AList.lookup_erase_eq] at hi
    split at hi
    · cases hi
    · rename_i hother
      obtain ⟨st₀, hst₀, hsid₀, hopen⟩ := h.registered hi
      have hne : r ≠ i := by
        rintro rfl
        obtain rfl := Option.some.inj (hst₀.symm.trans hst)
        exact hother hsid₀.symm
      exact ⟨st₀, by rw [hheap']; exact (List.getElem?_set_ne hne).trans hst₀, hsid₀, hopen⟩
  · intro i st₀ hst₀ hgone
    rw [hheap'] at hst₀
    by_cases heq : r = i
    · subst heq
      obtain rfl := Option.some.inj (hheap.symm.trans hst₀)
      exact ⟨hclosing, hpeers⟩
    · refine h.retired ((List.getElem?_set_ne heq).symm.trans hst₀) fun hi => hgone ?_
      rw [hrooms', AList.lookup_erase_eq, if_neg]
      · exact hi
      · intro hsame
        rw [hsame, hcur] at hi
        exact heq (Option.some.inj hi)
  · -- the counter and the number of rooms lose the same one
    intro key
    have howners : ∀ i, s'.ownerOf i = s.ownerOf i := by
      intro i
      rw [← Server.ownerOf_setRoom hst howner i, Server.ownerOf, hheap']
      rfl
    have hcount := AList.countP_values_erase (fun i => decide (s.ownerOf i = some key)) hcur
    have hown : s.ownerOf r = some st.ownerIpKey := by rw [Server.ownerOf, hst]; rfl
    have hbefore := h.counts key
    simp only [Server.owned] at hbefore
    simp only [hquota, Server.owned, howners, hrooms']
    rw [hown] at hcount
    by_cases hkey : key = st.ownerIpKey
    · subst hkey
      simp only [decide_true, if_true] at hcount
      rw [if_pos rfl]
      omega
    · have hne : some st.ownerIpKey ≠ some key := fun heq => hkey (Option.some.inj heq).symm
      simp only [decide_eq_false hne, Bool.false_eq_true, if_false] at hcount
      rw [if_neg hkey]
      omega
  · intro key
    rw [hlookup]
    split
    · rcases s.roomsPerIp.lookup st.ownerIpKey with _ | count
      · exact nofun
      · dsimp only [Option.bind_some]
        split
        · exact nofun
        · intro heq
          have := Option.some.inj heq
          omega
    · exact h.stored key
  · intro key hkey
    have := h.perIp key hkey
    rw [hquota]
    split <;> omega
  · rw [hrooms']
    exact le_trans (AList.size_erase_le _ _) h.retained

/-- A new open room enters the table with a slot of its own. -/
theorem add (h : Sound s) (st : RoomState) (hnone : s.rooms.lookup st.sessionId = none)
    (hsize : s.rooms.size < MAX_RETAINED_ROOMS)
    (hlimit : st.ownerIpKey ≠ "" → s.quota st.ownerIpKey < MAX_ROOMS_PER_IP)
    (hopen : st.closing = false) {quotas : AssocMap String Nat}
    (hquotas : ∀ k, quotas.lookup k =
      if k = st.ownerIpKey then some (s.quota st.ownerIpKey + 1) else s.roomsPerIp.lookup k) :
    Sound { s with
      heap := s.heap ++ [st]
      rooms := s.rooms.insert st.sessionId s.heap.length
      roomsPerIp := quotas } := by
  generalize hs' : ({ s with
    heap := s.heap ++ [st]
    rooms := s.rooms.insert st.sessionId s.heap.length
    roomsPerIp := quotas } : Server) = s'
  have hheap' : s'.heap = s.heap ++ [st] := by rw [← hs']
  have hrooms' : s'.rooms = s.rooms.insert st.sessionId s.heap.length := by rw [← hs']
  have hlookup : ∀ k, s'.roomsPerIp.lookup k =
      if k = st.ownerIpKey then some (s.quota st.ownerIpKey + 1) else s.roomsPerIp.lookup k := by
    rw [← hs']
    exact hquotas
  have hquota : ∀ k, s'.quota k = if k = st.ownerIpKey then s.quota k + 1 else s.quota k := by
    intro k
    rw [Server.quota, hlookup]
    split
    · rename_i heq
      rw [heq]
      rfl
    · rfl
  refine ⟨?_, ?_, ?_, ?_, ?_, ?_⟩
  · intro sid i hi
    rw [hrooms', AList.lookup_insert_eq] at hi
    rw [hheap']
    split at hi
    · rename_i hsid
      obtain rfl := Option.some.inj hi
      exact ⟨st, List.getElem?_concat_length, hsid.symm, hopen⟩
    · obtain ⟨st₀, hst₀, hsid₀, hopen₀⟩ := h.registered hi
      have hlt := (List.getElem?_eq_some_iff.mp hst₀).1
      exact ⟨st₀, by rw [List.getElem?_append_left hlt]; exact hst₀, hsid₀, hopen₀⟩
  · intro i st₀ hst₀ hgone
    rw [hrooms', AList.lookup_insert_eq] at hgone
    rw [hheap'] at hst₀
    rcases getElem?_concat_cases hst₀ with hst₀ | ⟨rfl, rfl⟩
    · by_cases hsid : st₀.sessionId = st.sessionId
      · apply h.retired hst₀
        rw [hsid, hnone]
        exact (Option.some_ne_none i).symm
      · rw [if_neg hsid] at hgone
        exact h.retired hst₀ hgone
    · exact (hgone (if_pos rfl)).elim
  · intro key
    have hold : ∀ i ∈ s.rooms.values, s'.ownerOf i = s.ownerOf i := by
      intro i hi
      obtain ⟨sid, hsid⟩ := AList.mem_values.mp hi
      obtain ⟨st₀, hst₀, _⟩ := h.registered hsid
      have hlt := (List.getElem?_eq_some_iff.mp hst₀).1
      rw [Server.ownerOf, Server.ownerOf, hheap', List.getElem?_append_left hlt]
    have hnew : s'.ownerOf s.heap.length = some st.ownerIpKey := by
      rw [Server.ownerOf, hheap', List.getElem?_concat_length]
      rfl
    have hsame : s.rooms.values.countP (fun i => decide (s'.ownerOf i = some key)) =
        s.owned key := by
      refine List.countP_congr fun i hi => ?_
      rw [hold i hi]
    rw [hquota, Server.owned, hrooms', AList.countP_values_insert _ hnone, hsame, hnew, h.counts]
    by_cases hkey : key = st.ownerIpKey
    · simp [hkey]
    · have hne : some st.ownerIpKey ≠ some key := fun heq => hkey (Option.some.inj heq).symm
      simp [hkey, hne]
  · intro key
    rw [hlookup]
    split
    · exact fun heq => Nat.succ_ne_zero _ (Option.some.inj heq)
    · exact h.stored key
  · intro key hkey
    rw [hquota]
    split
    · rename_i heq
      subst heq
      exact hlimit hkey
    · exact h.perIp key hkey
  · rw [hrooms', AList.size_insert_of_notMem (AList.lookup_eq_none.mp hnone)]
    exact hsize

/-- The invariant speaks of the registry only. -/
theorem of_registry (h : Sound s.registry) : Sound s :=
  ⟨h.registered, h.retired, h.counts, h.stored, h.perIp, h.retained⟩

end Sound

end Sound

variable [TokenCodec]

/-! ### Sections of a room -/

/-- The sections that a member's requests run. -/
def RoomOp.isMember : RoomOp → Bool
  | .joinOrResume .. | .beginLeave .. | .finishLeave .. | .transferHost .. | .handleDisconnect .. =>
      true
  | _ => false

/-- They neither open nor close the room, nor do they bring peers into a closed one. -/
theorem RoomOp.member_run {op : RoomOp} (hop : op.isMember = true) (rd : Readings)
    (st : RoomState) :
    (op.run rd st).1.closing = st.closing ∧
      (st.closing = true → st.peers.size = 0 → (op.run rd st).1.peers.size = 0) := by
  rcases hrun : op.run rd st with ⟨st', y⟩
  dsimp only
  cases op with
  | joinOrResume msg admission resumeOnly =>
      rcases RoomState.joinOrResume_cases hrun with
        ⟨_, rfl, _⟩ | ⟨hopen, rfl, _⟩ | ⟨hopen, _, _, rfl, _⟩
      · exact ⟨rfl, fun _ h => h⟩
      · exact ⟨rfl, fun _ h => h⟩
      · exact ⟨by simp, fun hclosing => by cases hopen.symm.trans hclosing⟩
  | beginLeave peerId c token version =>
      rcases RoomState.beginLeave_cases hrun with ⟨rfl, _⟩ | ⟨_, _, _, _, rfl, _⟩
      · exact ⟨rfl, fun _ h => h⟩
      · exact ⟨rfl, fun _ h => h⟩
  | finishLeave peerId c persisted =>
      rcases RoomState.finishLeave_cases hrun with
        ⟨_, rfl, _⟩ | ⟨_, _, rfl, _⟩ | ⟨_, _, rfl, _⟩
      · exact ⟨rfl, fun _ h => h⟩
      · exact ⟨rfl, fun _ h => h⟩
      · exact ⟨rfl, fun _ h => Nat.le_zero.mp (h ▸ AList.size_erase_le _ _)⟩
  | transferHost peerId c version target =>
      rcases RoomState.transferHost_cases hrun with
        ⟨rfl, _⟩ | ⟨_, _, _, _, _, res, _, _, rfl, _⟩
      · exact ⟨rfl, fun _ h => h⟩
      · exact ⟨rfl, fun _ h => h⟩
  | handleDisconnect peerId c =>
      rcases RoomState.handleDisconnect_cases hrun with ⟨_, rfl, _⟩ | ⟨hopen, _, rfl, _⟩
      · exact ⟨rfl, fun _ h => h⟩
      · exact ⟨by simp, fun hclosing => by cases hopen.symm.trans hclosing⟩
  | _ => cases hop

/-! ### The calls -/

/-- A registry call, with arbitrary arguments. -/
inductive Call where
  | create (sid host token key : String) (admission : Admission)
  | join (sid : String) (msg : ClientMessage) (admission : Admission) (resumeOnly : Bool)
  | leave (room : RoomId) (peerId : String) (connId : Nat) (token : String) (version : Nat)
  | endSession (room : RoomId) (peerId : String) (connId : Nat) (token : String) (version : Nat)
  | transferHost (room : RoomId) (peerId : String) (connId version : Nat) (target : String)
  | disconnect (room : RoomId) (peerId : String) (connId : Nat)
  | sweep (now : SystemTime)

def Call.run : Call → Task Unit
  | .create sid host token key admission => do
      let _ ← Registry.create sid host token key admission
      pure ()
  | .join sid msg admission resumeOnly => do
      match ← perform (.getRoom sid) with
      | none => pure ()
      | some room =>
          let _ ← perform (.room room (.joinOrResume msg admission resumeOnly))
          pure ()
  | .leave room peerId connId token version => do
      let _ ← Room.leave room peerId connId token version
      pure ()
  | .endSession room peerId connId token version => do
      let _ ← Registry.endSession room peerId connId token version
      pure ()
  | .transferHost room peerId connId version target => do
      let _ ← perform (.room room (.transferHost peerId connId version target))
      pure ()
  | .disconnect room peerId connId => do
      let _ ← perform (.room room (.handleDisconnect peerId connId))
      pure ()
  | .sweep now => PlezyRelay.sweep now

/-- The states of all sequential runs from a restored registry: a call runs to completion
    before the next begins, with only the snapshot writer beside it. -/
inductive Sequential : World → Prop where
  | restored (file : Option StateSnapshotDto) (now : SystemTime)
      (clock : String → String → Instant × Instant)
      (hsize : (loadSnapshot file now clock).length ≤ MAX_RETAINED_ROOMS) :
      Sequential ⟨Server.restore {} (loadSnapshot file now clock), []⟩
  | call {w w' : World} (t : Tid) (c : Call) (h : Sequential w)
      (hrun : relay.Runs t c.run w () w') : Sequential w'

section Calls

variable {t : Tid} {w : World} {r : RoomId}

/-- The registry is sound. -/
def SoundIn (w : World) : Prop := Sound w.server.registry

theorem sound_member {α : Type} {Q : α → World → Prop} {op : RoomOp} {k : op.Result → Task α}
    (hop : op.isMember = true) (h : SoundIn w)
    (hk : ∀ y w', SoundIn w' → (alone t).Safe t Q (k y) w') :
    (alone t).Safe t Q (.act (.room r op) k) w := by
  refine alone_room fun rd st w' hst hw' => hk _ w' ?_
  rw [SoundIn, hw']
  obtain ⟨hclosing, hpeers⟩ := op.member_run hop rd st
  have hchange := op.run_change rd st
  exact Sound.setRoom h hst hchange.sessionId hchange.ownerIpKey hclosing hpeers

omit [TokenCodec] in
theorem SoundIn.congr {w' : World} (h : SoundIn w)
    (hw' : w'.server.registry = w.server.registry) : SoundIn w' := by
  unfold SoundIn
  rwa [hw']

theorem alone_recordTerminalMutation :
    (alone t).Safe t (fun _ w' => w'.server.registry = w.server.registry)
      recordTerminalMutation w :=
  alone_of_all recordTerminalMutation_all fun a ha => by cases a <;> trivial

theorem sound_leave (peerId : String) (c : Nat) (token : String) (version : Nat)
    (h : SoundIn w) :
    (alone t).Safe t (fun _ w => SoundIn w) (Room.leave r peerId c token version) w := by
  refine sound_member rfl h fun y w h => ?_
  cases y with
  | error effects => exact h
  | ok _ =>
      refine alone_recordTerminalMutation.bind fun persisted w' hw' => ?_
      exact sound_member rfl (h.congr hw') fun _ _ h => h

/-- Only an open room can be ended, so it is registered and leaves the table with its slot. -/
theorem sound_endSession (peerId : String) (c : Nat) (token : String) (version : Nat)
    (h : SoundIn w) :
    (alone t).Safe t (fun _ w => SoundIn w) (Registry.endSession r peerId c token version) w := by
  refine alone_room fun rd st w₁ hst hw₁ => ?_
  rcases hrun : RoomOp.run rd st (.beginEndSession peerId c token version) with ⟨st', y⟩
  rw [hrun] at hw₁
  rcases RoomState.beginEndSession_cases hrun with ⟨rfl, rfl⟩ | ⟨hopen, _, _, _, rfl, guests, rfl⟩
  · change SoundIn w₁
    unfold SoundIn
    rw [hw₁]
    exact Sound.setRoom h hst rfl rfl rfl fun _ hp => hp
  · have hlt := (List.getElem?_eq_some_iff.mp hst).1
    have hcur : w.server.rooms.lookup st.sessionId = some r :=
      Sound.current (s := w.server.registry) h hst hopen
    refine alone_act fun e b w₂ w₃ hw₂ hx => ?_
    have hw₃ : w₃.server.registry =
        { w.server.registry.setRoom r { st with closing := true } with
          rooms := w.server.rooms.erase st.sessionId } := by
      obtain ⟨s', hexec, rfl⟩ := World.did_iff.mp hx
      rcases Server.registry_removeIfCurrent hexec (hw₂.trans hw₁)
        (List.getElem?_set_self hlt) with ⟨_, _, hs'⟩ | ⟨_, hne, _⟩
      · exact hs'
      · exact (hne hcur).elim
    refine alone_releaseRoomQuota fun w₄ hw₄ => ?_
    refine alone_recordTerminalMutation.bind fun persisted w₅ hw₅ => ?_
    refine alone_room fun rd st₂ w₆ hst₂ hw₆ => ?_
    have hreg := hw₅.trans (hw₄.trans (congrArg (Server.releaseRoomQuota · st.ownerIpKey) hw₃))
    obtain rfl : { st with closing := true } = st₂ := by
      have hheap := Server.heap_of_registry hreg
      rw [Server.releaseRoomQuota_eq] at hheap
      rw [hheap] at hst₂
      exact Option.some.inj ((List.getElem?_set_self hlt).symm.trans hst₂)
    rcases hrun : RoomOp.run rd { st with closing := true } (.finishEndSession guests persisted) with
      ⟨st₃, effects⟩
    rw [hrun] at hw₆
    obtain ⟨rfl, _⟩ := RoomState.finishEndSession_cases hrun
    change SoundIn w₆
    unfold SoundIn
    rw [hw₆, hreg, Server.setRoom_releaseRoomQuota]
    have hset : Server.setRoom
        { w.server.registry.setRoom r { st with closing := true } with
          rooms := w.server.rooms.erase st.sessionId } r
        (RoomState.cleared { st with closing := true }) =
        { w.server.registry.setRoom r (RoomState.cleared { st with closing := true }) with
          rooms := w.server.rooms.erase st.sessionId } := by
      simp only [Server.setRoom, List.set_set]
    rw [hset]
    exact Sound.retire h _ hst hcur rfl rfl rfl rfl

/-! ### The sweep -/

/-- A room that the sweep closes leaves the table with its slot, if it is in the table. -/
theorem sound_removeIfCurrent {st st' : RoomState} {s : Server} (h : Sound s)
    (hst : s.heap[r]? = some st) (hw : w.server.registry = s.setRoom r st')
    (hsid : st'.sessionId = st.sessionId) (howner : st'.ownerIpKey = st.ownerIpKey)
    (hclosing : st'.closing = true) (hpeers : st'.peers.size = 0) :
    (alone t).Safe t (fun _ w => SoundIn w) (Registry.removeIfCurrent r) w := by
  have hlt := (List.getElem?_eq_some_iff.mp hst).1
  have hst' : (s.setRoom r st').heap[r]? = some st' := List.getElem?_set_self hlt
  refine alone_act fun e b w₁ w₂ hw₁ hx => ?_
  obtain ⟨s', hexec, rfl⟩ := World.did_iff.mp hx
  rcases Server.registry_removeIfCurrent hexec (hw₁.trans hw) hst' with
    ⟨rfl, hcur, hw₂⟩ | ⟨rfl, hne, hw₂⟩
  · refine alone_read (fun _ _ => rfl) fun _ st₃ w₃ hst₃ hw₃ => ?_
    obtain rfl : st' = st₃ := by
      have hheap := Server.heap_of_registry hw₂
      change s'.heap[r]? = _ at hst₃
      rw [hheap] at hst₃
      exact Option.some.inj (hst'.symm.trans hst₃)
    refine alone_releaseRoomQuota fun w₄ hw₄ => ?_
    change SoundIn w₄
    unfold SoundIn
    rw [hw₄, hw₃]
    dsimp only [RoomOp.run]
    rw [hw₂, howner, hsid]
    exact h.retire _ hst (hsid ▸ hcur) hsid howner hclosing hpeers
  · change SoundIn _
    unfold SoundIn
    rw [hw₂]
    obtain ⟨hc, _⟩ := h.retired hst (hsid ▸ hne)
    exact h.setRoom hst hsid howner (hclosing.trans hc.symm) fun _ _ => hpeers

theorem sound_sweepOne (now : SystemTime) (h : SoundIn w) :
    (alone t).Safe t (fun _ w => SoundIn w) (sweepOne now r) w := by
  -- after the verdict the room is sound, or its removal will make it so
  apply safe_sweepOne
    (V := fun verdict w => if verdict.1 then
        (alone t).Safe t (fun _ => SoundIn) (Registry.removeIfCurrent r) w
      else SoundIn w)
    (R := fun _ _ => SoundIn) (E := fun _ => SoundIn)
  · refine alone_room fun rd st w₁ hst hw₁ => ?_
    rcases hrun : RoomOp.run rd st (.sweep now) with ⟨st', verdict⟩
    rw [hrun] at hw₁
    rcases RoomState.sweepRoom_cases hrun with ⟨rfl, rfl⟩ | ⟨rfl, rfl, hempty⟩ | ⟨rfl, rfl⟩
    · change Sound w₁.server.registry
      rw [hw₁]
      exact Sound.setRoom h hst rfl rfl rfl fun _ hp => hp
    · exact sound_removeIfCurrent h hst hw₁ rfl rfl rfl hempty
    · exact sound_removeIfCurrent h hst hw₁ rfl rfl rfl rfl
  · exact fun _ _ _ h => h
  · exact fun _ _ _ h => h
  · exact fun _ _ h => h
  · exact fun _ _ h => alone_silent rfl fun _ _ hw => h.congr hw
  · intro evict w h
    have hcancel : (Proc.forEach (fun token => perform (.cancel token)) evict).All
        fun a => a.isOutput = true := .forEach fun _ _ => ⟨rfl, fun _ => trivial⟩
    exact (alone_of_all hcancel fun a ha => by cases a <;> trivial).mono fun _ _ hw => h.congr hw

theorem sound_sweep (now : SystemTime) (h : SoundIn w) :
    (alone t).Safe t (fun _ w => SoundIn w) (sweep now) w := by
  refine alone_silent rfl fun rooms w' hw' => ?_
  exact Logic.Safe.forEach (fun r _ _ h => sound_sweepOne now h) (h.congr hw')

/-! ### `create` -/

omit [TokenCodec] in
theorem Sound.freshOutcome {s s' : Server} {sid host : String} {v : Verifier} {token key : String}
    {admission : Admission} {room : Option RoomId} (h : Sound s) (hnone : s.rooms.lookup sid = none)
    (ho : FreshOutcome s sid host v token key admission room s') : Sound s' := by
  cases ho with
  | full => exact h
  | overQuota _ hquota =>
      rw [Server.tryClaimRoomQuota_eq]
      have hlookup := Server.lookup_tryClaimRoomQuota_of_le s hquota
      refine ⟨h.registered, h.retired, fun k => ?_, fun k => ?_, fun k hk => ?_, h.retained⟩
      · rw [Server.quota, hlookup]
        exact h.counts k
      · rw [hlookup]
        exact h.stored k
      · rw [Server.quota, hlookup]
        exact h.perIp k hk
  | created now cancel hsize hquota =>
      rw [Server.tryClaimRoomQuota_eq]
      refine h.add (RoomState.newRoom sid host v token key admission now cancel).1 hnone hsize
        (fun _ => hquota) rfl fun k => ?_
      rw [Server.lookup_tryClaimRoomQuota, if_pos hquota]
      rfl

theorem Sound.outcome {s s' : Server} {sid host token key : String} {admission : Admission}
    {room : Option RoomId} (h : Sound s) (ho : Outcome s sid host token key admission room s') :
    Sound s' := by
  cases ho with
  | invalidToken | taken => exact h
  | fresh _ hnone ho => exact h.freshOutcome hnone ho
  | @reconnected v r st cancel _ _ hst hsame =>
      rcases hrun : st.reconnectHost admission token cancel with ⟨st', effects⟩
      obtain ⟨rfl, _⟩ := RoomState.reconnectHost_cases hrun
      have hopen : st.closing = false := by
        simp only [RoomState.isIdempotent, Bool.and_eq_true, Bool.not_eq_true'] at hsame
        exact hsame.1.1
      exact h.setRoom hst rfl rfl rfl fun hclosing => by cases hopen.symm.trans hclosing
  | @reclaimed v r st _ _ _ hfound hst _ hempty ho =>
      obtain ⟨st₀, hst₀, hsid, _⟩ := h.registered hfound
      obtain rfl := Option.some.inj (hst₀.symm.trans hst)
      subst hsid
      have hpeers : st₀.peers.size = 0 := by
        simp only [RoomState.isReclaimable, Bool.and_eq_true, beq_iff_eq] at hempty
        exact hempty.2
      refine (h.retire { st₀ with closing := true } hst hfound rfl rfl rfl
        hpeers).freshOutcome ?_ ho
      rw [Server.releaseRoomQuota_eq]
      exact AList.lookup_erase _ _

theorem sound_call (c : Call) (h : SoundIn w) :
    (alone t).Safe t (fun _ w => SoundIn w) c.run w := by
  cases c with
  | create sid host token key admission =>
      refine (outcome_create sid host token key admission rfl).bind fun _ w' ho => ?_
      exact Sound.outcome h ho
  | join sid msg admission resumeOnly =>
      refine alone_silent rfl fun found w' hw' => ?_
      rcases found with _ | room
      · exact h.congr hw'
      · exact sound_member rfl (h.congr hw') fun _ _ h => h
  | leave room peerId connId token version =>
      exact (sound_leave peerId connId token version h).bind fun _ _ h => h
  | endSession room peerId connId token version =>
      exact (sound_endSession peerId connId token version h).bind fun _ _ h => h
  | transferHost | disconnect => exact sound_member rfl h fun _ _ h => h
  | sweep now => exact sound_sweep now h

end Calls

/-! ### Sequential runs -/

omit [TokenCodec] in
theorem Sound.restore {s : Server} (restored : List RestoredRoom) (h : Sound s)
    (hnodup : (restored.map (·.sessionId)).Nodup)
    (hnew : ∀ room ∈ restored, s.rooms.lookup room.sessionId = none)
    (hsize : s.rooms.size + restored.length ≤ MAX_RETAINED_ROOMS) : Sound (s.restore restored) := by
  induction restored generalizing s with
  | nil => exact h
  | cons room rest ih =>
      rw [List.map_cons, List.nodup_cons] at hnodup
      rw [List.length_cons] at hsize
      have hnone : s.rooms.lookup room.sessionId = none := hnew room List.mem_cons_self
      refine ih ?_ hnodup.2 ?_ ?_
      · refine h.add room.state hnone (by omega) (fun hkey => (hkey rfl).elim) rfl fun k => ?_
        exact AList.lookup_insert_eq _ _ _ _
      · intro other hother
        dsimp only
        rw [AList.lookup_insert_eq, if_neg]
        · exact hnew other (List.mem_cons_of_mem room hother)
        · intro heq
          exact hnodup.1 (heq ▸ List.mem_map_of_mem hother)
      · dsimp only
        rw [AList.size_insert_of_notMem (AList.lookup_eq_none.mp hnone)]
        omega

omit [TokenCodec] in
theorem Sound.empty : Sound {} where
  registered h := by cases h
  retired h := by cases h
  counts _ := rfl
  stored _ := nofun
  perIp _ _ := Nat.zero_le _
  retained := Nat.zero_le _

theorem Sequential.sound {w : World} (h : Sequential w) : Sound w.server := by
  induction h with
  | restored file now clock hsize =>
      refine Sound.restore _ Sound.empty (loadSnapshot_nodup file now clock) (fun _ _ => rfl) ?_
      rw [AList.size_empty, Nat.zero_add]
      exact hsize
  | call t c _ hrun ih =>
      have hsound : SoundIn _ := ⟨ih.registered, ih.retired, ih.counts, ih.stored, ih.perIp, ih.retained⟩
      exact Sound.of_registry (alone_runs (R := fun _ s => Sound s) (sound_call c hsound) hrun)

/-- **Room-quota accounting.**  After every sequential run from a restored registry: the
    counter of an owner key is the number of registered rooms with that key, and is never
    stored as zero; it is within the limit for every key but the empty one of restored
    rooms; the number of rooms is within its limit; every registered room is open; and
    every room that is no longer registered is closed and empty. -/
theorem room_quota_accounting {w : World} (h : Sequential w) :
    (∀ key, (w.server.roomsPerIp.lookup key).getD 0 =
      w.server.rooms.values.countP fun r =>
        decide ((w.server.heap[r]?).map (·.ownerIpKey) = some key)) ∧
    (∀ key, w.server.roomsPerIp.lookup key ≠ some 0) ∧
    (∀ key, key ≠ "" → (w.server.roomsPerIp.lookup key).getD 0 ≤ MAX_ROOMS_PER_IP) ∧
    w.server.rooms.size ≤ MAX_RETAINED_ROOMS ∧
    (∀ sid r, w.server.rooms.lookup sid = some r →
      ∃ st, w.server.heap[r]? = some st ∧ st.closing = false) ∧
    (∀ r st, w.server.heap[r]? = some st → (∀ sid, w.server.rooms.lookup sid ≠ some r) →
      st.closing = true ∧ st.peers.size = 0) := by
  have hsound := h.sound
  refine ⟨hsound.counts, hsound.stored, hsound.perIp, hsound.retained, fun sid r hr => ?_,
    fun r st hst hgone => hsound.retired hst (hgone st.sessionId)⟩
  obtain ⟨st, hst, _, hopen⟩ := hsound.registered hr
  exact ⟨st, hst, hopen⟩

/-- One call after the other, without any step of the writer. -/
def runCalls (t : Tid) : List Call → World → Option World
  | [], w => some w
  | c :: cs, w => (relay.runAlone t {} c.run w).bind fun x => runCalls t cs x.2

theorem Sequential.runCalls {t : Tid} (cs : List Call) {w w' : World} (h : Sequential w)
    (hrun : runCalls t cs w = some w') : Sequential w' := by
  induction cs generalizing w with
  | nil => cases hrun; exact h
  | cons c cs ih =>
      obtain ⟨⟨_, mid⟩, hmid, hrest⟩ := Option.bind_eq_some_iff.mp hrun
      exact ih (.call t c h (runs_of_runAlone hmid)) hrest

omit [TokenCodec] in
/-- A run it speaks about: a host leaves its room for a moment and somebody else reclaims
    the session id. -/
theorem room_quota_accounting_after_reclaim : letI : TokenCodec := sampleCodec
    ∃ (w : World) (st : RoomState), Sequential w ∧ w.server.rooms.lookup "s" = some 1 ∧
      (w.server.roomsPerIp.lookup "home").getD 0 = 0 ∧
      (w.server.roomsPerIp.lookup "ip").getD 0 ≤ MAX_ROOMS_PER_IP ∧
      w.server.heap[0]? = some st ∧ st.closing = true ∧ st.peers.size = 0 := by
  let _ : TokenCodec := sampleCodec
  let admission (p : String) : Admission :=
    { peerId := p, tx := 0, syncProtocolVersion := 0, hostTransferCapable := false }
  have hrun : ((runCalls (.conn 0)
      [.create "s" "a" tokenOnes "home" (admission "a"), .disconnect 0 "a" 1,
        .create "s" "z" tokenTwos "ip" (admission "z")] ⟨Server.restore {} [], []⟩).any fun w =>
      decide (w.server.rooms.lookup "s" = some 1 ∧ 0 ∉ w.server.rooms.values ∧
        w.server.quota "home" = 0 ∧ (w.server.heap[0]?).isSome = true)) = true := by
    decide +kernel
  obtain ⟨w, hw, hw'⟩ := (Option.any_eq_true _ _).mp hrun
  obtain ⟨hfound, hgone, hhome, hst⟩ := of_decide_eq_true hw'
  obtain ⟨st, hst⟩ := Option.isSome_iff_exists.mp hst
  have hseq : Sequential w :=
    (Sequential.restored none 0 (fun _ _ => (0, 0)) (Nat.zero_le _)).runCalls _ hw
  obtain ⟨_, _, hperIp, _, _, hretired⟩ := room_quota_accounting hseq
  obtain ⟨hclosing, hpeers⟩ := hretired 0 st hst fun sid hsid => hgone (AList.mem_values.mpr ⟨sid, hsid⟩)
  exact ⟨w, st, hseq, hfound, hhome, hperIp "ip" (by decide), hst, hclosing, hpeers⟩

end PlezyRelay
