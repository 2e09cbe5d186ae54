/-
  PlezyRelay/QuotaRelease.lean
  ============================
  **A slot is given back at most once** — quota accounting under any interleaving.

  Taking a room out of the table and giving its slot back are separate steps, so the
  counter of an owner key is not the number of its registered rooms at every moment.
  What holds at every moment is that it counts the rooms whose slot has not been given
  back, plus the slot `create` has claimed for the room it is about to make (`Slots`).

  A task gives back the slot of a room it has itself taken out of the table.  Two calls
  do so only if the table told them that the room was there; `end_session` gives the
  slot back in any case.  If the sweep has taken the room out meanwhile, the slot is
  given back twice.  `StillListed` excludes this.
-/
import PlezyRelay.RoomQuota
import Mathlib.Data.Finset.Card
import Mathlib.Data.Finset.Range

namespace PlezyRelay

open Machine

/-! ### The history of a slot -/

/-- The event took room `r` out of the table. -/
def Event.removes (r : RoomId) : Event → Bool
  | ⟨_, .removeRoom _, found⟩ => found == some r
  | ⟨_, .removeIfCurrent r', current⟩ => r' == r && current
  | ⟨_, .removeEnded r', current⟩ => r' == r && current
  | _ => false

/-- The event gave the slot of room `r` back. -/
def Event.releases (r : RoomId) : Event → Bool
  | ⟨_, .releaseRoomQuota _ r', _⟩ => r' == r
  | _ => false

/-- The event made room `r` and registered it. -/
def Event.creates (r : RoomId) : Event → Bool
  | ⟨_, .newRoom .., (r', _)⟩ => r' == r
  | _ => false

/-- Task `t` has taken room `r` out of the table. -/
def RemovedBy (h : List Event) (t : Tid) (r : RoomId) : Prop :=
  ∃ ev ∈ h, ev.thread = t ∧ ev.removes r = true

/-- How often the slot of room `r` has been given back. -/
def releases (h : List Event) (r : RoomId) : Nat := h.countP (Event.releases r)

/-- The room comes from a `create`, not from the snapshot file. -/
abbrev MadeByCreate (h : List Event) (r : RoomId) : Prop := ∃ ev ∈ h, ev.creates r = true

/-- The owner key for which `create` has claimed a slot without having made the room yet. -/
def claimed : List Event → Option String
  | [] => none
  | ⟨_, .tryClaimRoomQuota key, true⟩ :: _ => some key
  | ⟨_, .newRoom .., _⟩ :: _ => none
  | _ :: h => claimed h

section History

variable {h : List Event} {ev : Event} {t : Tid} {r : RoomId}

theorem removedBy_cons : RemovedBy (ev :: h) t r ↔
    (ev.thread = t ∧ ev.removes r = true) ∨ RemovedBy h t r := by
  simp [RemovedBy]

theorem releases_cons : releases (ev :: h) r = releases h r + if ev.releases r then 1 else 0 := by
  simp [releases, List.countP_cons]

theorem madeByCreate_cons : MadeByCreate (ev :: h) r ↔ ev.creates r = true ∨ MadeByCreate h r := by
  simp [MadeByCreate]

theorem releases_iff {a : Act} {x : a.Resp} : Event.releases r ⟨t, a, x⟩ = true ↔
    ∃ key, a = .releaseRoomQuota key r := by
  cases a <;> simp [Event.releases]

end History

/-- The actions on slots. -/
def Act.keepsSlots : Act → Bool
  | .tryClaimRoomQuota _ | .releaseRoomQuota .. | .newRoom .. => false
  | _ => true

theorem keepsSlots_spec {t : Tid} {a : Act} (x : a.Resp) (ha : a.keepsSlots = true)
    (h : List Event) :
    (∀ r, Event.releases r ⟨t, a, x⟩ = false) ∧ (∀ r, Event.creates r ⟨t, a, x⟩ = false) ∧
      claimed (⟨t, a, x⟩ :: h) = claimed h := by
  cases a with
  | tryClaimRoomQuota | releaseRoomQuota | newRoom => cases ha
  | _ => exact ⟨fun _ => rfl, fun _ => rfl, rfl⟩

/-- A set with at most one new element. -/
theorem card_of_mem_iff {α : Type} [DecidableEq α] {S S' : Finset α} {a : α} {p : Prop}
    [Decidable p] (hnew : a ∉ S) (h : ∀ x, x ∈ S' ↔ x ∈ S ∨ (x = a ∧ p)) :
    S'.card = S.card + if p then 1 else 0 := by
  by_cases hp : p
  · have hS : S' = insert a S := by
      ext x
      simp [h, hp, or_comm]
    rw [hS, Finset.card_insert_of_notMem hnew, if_pos hp]
  · have hS : S' = S := by
      ext x
      simp [h, hp]
    rw [hS, if_neg hp]
    rfl

/-! ### The invariant -/

/-- The rooms with the owner key whose slot has not been given back. -/
def slotsOf (w : World) (key : String) : Finset RoomId :=
  (Finset.range w.server.heap.length).filter fun r =>
    w.server.ownerOf r = some key ∧ releases w.history r = 0

/-- Those of them that come from a `create`. -/
def createdSlots (w : World) (key : String) : Finset RoomId :=
  (slotsOf w key).filter (MadeByCreate w.history)

/-- The slot that is claimed for a room still to be made. -/
def claimedFor (h : List Event) (key : String) : Nat := if claimed h = some key then 1 else 0

structure Slots (w : World) : Prop where
  /-- A room that was taken out of the table never comes back. -/
  gone : ∀ {t : Tid} {r : RoomId}, RemovedBy w.history t r →
    Present w r ∧ ∀ sid, w.server.rooms.lookup sid ≠ some r
  remover : ∀ {t u : Tid} {r : RoomId}, RemovedBy w.history t r → RemovedBy w.history u r → t = u
  released : ∀ {r : RoomId}, 0 < releases w.history r → ∃ t, RemovedBy w.history t r
  once : ∀ r, releases w.history r ≤ 1
  owner : ∀ {t : Tid} {key : String} {r : RoomId},
    ⟨t, .releaseRoomQuota key r, ()⟩ ∈ w.history → w.server.ownerOf r = some key
  foreign : ∀ {r : RoomId} {key : String}, w.server.ownerOf r = some key → key ≠ "" →
    MadeByCreate w.history r
  balance : ∀ key, w.server.quota key = (slotsOf w key).card + claimedFor w.history key
  limit : ∀ key, (createdSlots w key).card + claimedFor w.history key ≤ MAX_ROOMS_PER_IP
  unclaimed : w.server.writeLock = none → claimed w.history = none

theorem mem_slotsOf {w : World} {key : String} {r : RoomId} :
    r ∈ slotsOf w key ↔ w.server.ownerOf r = some key ∧ releases w.history r = 0 := by
  simp only [slotsOf, Finset.mem_filter, Finset.mem_range, and_iff_right_iff_imp]
  rintro ⟨howner, _⟩
  obtain ⟨st, hst, _⟩ := Option.map_eq_some_iff.mp howner
  exact (List.getElem?_eq_some_iff.mp hst).1

theorem mem_createdSlots {w : World} {key : String} {r : RoomId} :
    r ∈ createdSlots w key ↔ (w.server.ownerOf r = some key ∧ releases w.history r = 0) ∧
      MadeByCreate w.history r := by
  rw [createdSlots, Finset.mem_filter, mem_slotsOf]

/-- The slot of a registered room has not been given back. -/
theorem Slots.unreleased {w : World} (h : Slots w) {sid : String} {r : RoomId}
    (hr : w.server.rooms.lookup sid = some r) : releases w.history r = 0 := by
  by_contra hne
  obtain ⟨t, ht⟩ := h.released (Nat.pos_of_ne_zero hne)
  exact (h.gone ht).2 sid hr

/-- What a task that is about to give a slot back has done. -/
def Owes (t : Tid) (r : RoomId) (w : World) : Prop :=
  RemovedBy w.history t r ∧ releases w.history r = 0

/-- What the programs make sure of before they act on a slot. -/
def SlotLegal (t : Tid) (a : Act) (w : World) : Prop :=
  match a with
  | .releaseRoomQuota key r => Owes t r w ∧ w.server.ownerOf r = some key
  | .tryClaimRoomQuota _ => claimed w.history = none
  | .newRoom _ _ _ _ key _ => claimed w.history = some key
  | .unlockRooms => claimed w.history = none
  | _ => True

/-- Whenever `end_session` comes to the table, it still points at the room. -/
def StillListed (_ : Tid) (a : Act) (w : World) : Prop :=
  match a with
  | .removeEnded r => ∀ st ∈ w.server.heap[r]?, w.server.rooms.lookup st.sessionId = some r
  | _ => True

instance (t : Tid) (a : Act) (w : World) : Decidable (StillListed t a w) := by
  unfold StillListed
  split <;> infer_instance

variable [TokenCodec]

/-! ### One step -/

section Step

variable {t : Tid} {a : Act} {e : Env} {w w' : World} {x : a.Resp} {r : RoomId} {key : String}

/-- A room keeps its owner. -/
theorem ownerOf_next (h : World.Next w w') (howner : w.server.ownerOf r = some key) :
    w'.server.ownerOf r = some key := by
  obtain ⟨st, hst, rfl⟩ := Option.map_eq_some_iff.mp howner
  obtain ⟨st', hst', rfl | hchange⟩ := h.heap_some hst
  · simp [Server.ownerOf, hst']
  · simp [Server.ownerOf, hst', hchange.ownerIpKey]

/-- Only `newRoom` brings in an owner. -/
theorem ownerOf_did (hx : Did t a e w x w') :
    w'.server.ownerOf r = some key ↔ w.server.ownerOf r = some key ∨
      (r = w.server.heap.length ∧
        ∃ sid host v token admission, a = .newRoom sid host v token key admission) := by
  constructor
  · intro howner
    obtain ⟨st', hst', rfl⟩ := Option.map_eq_some_iff.mp howner
    rcases (World.did_moves hx).heap_of_some hst' with
      ⟨st, hst, hcase⟩ | ⟨rfl, _, sid, host, v, token, key, admission, rfl, rfl, _⟩
    · left
      rcases hcase with rfl | ⟨op, _, rfl⟩
      · simp [Server.ownerOf, hst]
      · simp [Server.ownerOf, hst, (RoomOp.run_change _ st op).ownerIpKey]
    · exact Or.inr ⟨rfl, sid, host, v, token, admission, rfl⟩
  · rintro (howner | ⟨rfl, sid, host, v, token, admission, rfl⟩)
    · exact ownerOf_next (.act hx) howner
    · obtain ⟨_, _, hs⟩ := World.did_newRoom hx
      simp [Server.ownerOf, hs, RoomState.newRoom]

/-- An event that removes a room found it registered. -/
theorem removes_spec (hb : Base w) (hx : Did t a e w x w')
    (h : Event.removes r ⟨t, a, x⟩ = true) :
    (∃ sid, w.server.rooms.lookup sid = some r) ∧ ∀ sid, w'.server.rooms.lookup sid ≠ some r := by
  cases a with
  | removeRoom sid =>
      obtain ⟨_, rfl, hs⟩ := World.did_removeRoom hx
      have hr : w.server.rooms.lookup sid = some r := beq_iff_eq.mp h
      exact ⟨⟨sid, hr⟩, hb.gone_of_erase hr (by rw [hs])⟩
  | removeIfCurrent r' | removeEnded r' =>
      obtain ⟨s', hs, rfl⟩ := World.did_iff.mp hx
      simp only [Event.removes, Bool.and_eq_true, beq_iff_eq] at h
      obtain ⟨rfl, rfl⟩ := h
      obtain ⟨_, st, _, ⟨_, hr, rfl⟩ | ⟨hb', _⟩⟩ := Server.removeIfCurrent_cases hs
      · exact ⟨⟨_, hr⟩, hb.gone_of_erase hr rfl⟩
      · cases hb'
  | _ => cases h

namespace Slots

theorem did_gone (h : Slots w) (hb : Base w) (hx : Did t a e w x w') {u : Tid}
    (hr : RemovedBy w'.history u r) :
    Present w' r ∧ ∀ sid, w'.server.rooms.lookup sid ≠ some r := by
  rw [World.did_history hx, removedBy_cons] at hr
  rcases hr with ⟨_, hremoves⟩ | hold
  · obtain ⟨⟨sid, hsid⟩, hgone⟩ := removes_spec hb hx hremoves
    obtain ⟨st, hst, _⟩ := hb.registered hsid
    exact ⟨(World.Next.act hx).present ⟨st, hst⟩, hgone⟩
  · obtain ⟨⟨st, hst⟩, hgone⟩ := h.gone hold
    refine ⟨(World.Next.act hx).present ⟨st, hst⟩, fun sid hsid => ?_⟩
    rcases registered_of_did hx hsid with hsid | rfl
    · exact hgone sid hsid
    · exact lt_irrefl _ (List.getElem?_eq_some_iff.mp hst).1

/-- A room that an event removes has not been removed before. -/
theorem fresh_removes (h : Slots w) (hb : Base w) (hx : Did t a e w x w')
    (hremoves : Event.removes r ⟨t, a, x⟩ = true) (u : Tid) : ¬RemovedBy w.history u r := by
  intro hold
  obtain ⟨⟨sid, hsid⟩, _⟩ := removes_spec hb hx hremoves
  exact (h.gone hold).2 sid hsid

theorem did_remover (h : Slots w) (hb : Base w) (hx : Did t a e w x w') {u v : Tid}
    (hu : RemovedBy w'.history u r) (hv : RemovedBy w'.history v r) : u = v := by
  rw [World.did_history hx, removedBy_cons] at hu hv
  rcases hu with ⟨rfl, hremoves⟩ | hu
  · rcases hv with ⟨rfl, _⟩ | hv
    · rfl
    · exact (h.fresh_removes hb hx hremoves v hv).elim
  · rcases hv with ⟨rfl, hremoves⟩ | hv
    · exact (h.fresh_removes hb hx hremoves u hu).elim
    · exact h.remover hu hv

theorem did_released (h : Slots w) (hpre : SlotLegal t a w) (hx : Did t a e w x w')
    (hr : 0 < releases w'.history r) : ∃ u, RemovedBy w'.history u r := by
  rw [World.did_history hx] at hr ⊢
  have hold : (∃ u, RemovedBy w.history u r) → ∃ u, RemovedBy (⟨t, a, x⟩ :: w.history) u r :=
    fun ⟨u, hu⟩ => ⟨u, removedBy_cons.mpr (Or.inr hu)⟩
  by_cases hreleases : Event.releases r ⟨t, a, x⟩ = true
  · obtain ⟨key, rfl⟩ := releases_iff.mp hreleases
    exact hold ⟨t, hpre.1.1⟩
  · rw [releases_cons, if_neg hreleases] at hr
    exact hold (h.released hr)

theorem did_once (h : Slots w) (hpre : SlotLegal t a w) (hx : Did t a e w x w') (r : RoomId) :
    releases w'.history r ≤ 1 := by
  rw [World.did_history hx, releases_cons]
  split
  · rename_i hreleases
    obtain ⟨key, rfl⟩ := releases_iff.mp hreleases
    rw [hpre.1.2]
  · exact h.once r

theorem did_owner (h : Slots w) (hpre : SlotLegal t a w) (hx : Did t a e w x w') {u : Tid}
    (hev : ⟨u, .releaseRoomQuota key r, ()⟩ ∈ w'.history) : w'.server.ownerOf r = some key := by
  refine ownerOf_next (.act hx) ?_
  rw [World.did_history hx] at hev
  rcases List.mem_cons.mp hev with heq | hev
  · cases heq
    exact hpre.2
  · exact h.owner hev

theorem did_foreign (h : Slots w) (hx : Did t a e w x w')
    (howner : w'.server.ownerOf r = some key) (hkey : key ≠ "") :
    MadeByCreate w'.history r := by
  rw [World.did_history hx, madeByCreate_cons]
  rcases (ownerOf_did hx).mp howner with howner | ⟨rfl, _, _, _, _, _, rfl⟩
  · exact Or.inr (h.foreign howner hkey)
  · obtain ⟨_, rfl, _⟩ := World.did_newRoom hx
    exact Or.inl (beq_self_eq_true _)

/-- An action other than on slots changes neither the slots nor the counters. -/
theorem did_counts_other (h : Slots w) (hx : Did t a e w x w') (ha : a.keepsSlots = true)
    (key : String) :
    w'.server.quota key = (slotsOf w' key).card + claimedFor w'.history key ∧
      (createdSlots w' key).card + claimedFor w'.history key ≤ MAX_ROOMS_PER_IP := by
  obtain ⟨hreleases, hcreates, hclaimed⟩ := keepsSlots_spec (t := t) x ha w.history
  have howner : ∀ r, w'.server.ownerOf r = some key ↔ w.server.ownerOf r = some key := by
    intro r
    rw [ownerOf_did hx, or_iff_left]
    rintro ⟨_, _, _, _, _, _, rfl⟩
    cases ha
  have hhistory := World.did_history hx
  have hquota : w'.server.quota key = w.server.quota key := by
    have hmoves := World.did_moves hx
    generalize w'.server = s' at hmoves ⊢
    cases hmoves with
    | claim | release => cases ha
    | _ => rfl
  have hslots : slotsOf w' key = slotsOf w key := by
    ext r
    simp [mem_slotsOf, howner, hhistory, releases_cons, hreleases]
  have hcreated : createdSlots w' key = createdSlots w key := by
    ext r
    simp [mem_createdSlots, howner, hhistory, releases_cons, hreleases, madeByCreate_cons, hcreates]
  rw [hquota, hslots, hcreated, hhistory, claimedFor, hclaimed]
  exact ⟨h.balance key, h.limit key⟩

/-- Giving a slot back takes its room from the slots of its owner. -/
theorem did_counts_release (h : Slots w) {y : Unit} {key₀ : String} {r₀ : RoomId}
    (hpre : SlotLegal t (.releaseRoomQuota key₀ r₀) w)
    (hx : Did t (.releaseRoomQuota key₀ r₀) e w y w') (key : String) :
    w'.server.quota key = (slotsOf w' key).card + claimedFor w'.history key ∧
      (createdSlots w' key).card + claimedFor w'.history key ≤ MAX_ROOMS_PER_IP := by
  have howner : ∀ r, w'.server.ownerOf r = some key ↔ w.server.ownerOf r = some key := by
    intro r
    rw [ownerOf_did hx, or_iff_left]
    rintro ⟨_, _, _, _, _, _, heq⟩
    cases heq
  have hhistory := World.did_history hx
  have hreleases : ∀ r, releases w'.history r = 0 ↔ r ≠ r₀ ∧ releases w.history r = 0 := by
    intro r
    rw [hhistory, releases_cons]
    by_cases hr : r = r₀
    · subst hr
      simp [Event.releases]
    · have hne : ¬r₀ = r := fun h => hr h.symm
      simp [Event.releases, hr, hne]
  have hslots : slotsOf w' key = (slotsOf w key).erase r₀ := by
    ext r
    rw [Finset.mem_erase, mem_slotsOf, mem_slotsOf, howner, hreleases]
    tauto
  have hcreated : createdSlots w' key = (createdSlots w key).erase r₀ := by
    ext r
    rw [Finset.mem_erase, mem_createdSlots, mem_createdSlots, howner, hreleases, hhistory,
      madeByCreate_cons]
    have hno : Event.creates r ⟨t, .releaseRoomQuota key₀ r₀, y⟩ = false := rfl
    rw [hno]
    tauto
  have hclaimed : claimedFor w'.history key = claimedFor w.history key := by rw [hhistory]; rfl
  have hquota : w'.server.quota key =
      if key = key₀ then w.server.quota key - 1 else w.server.quota key := by
    obtain ⟨s', hs, rfl⟩ := World.did_iff.mp hx
    cases hs
    exact Server.quota_releaseRoomQuota _ _ _
  have hbalance := h.balance key
  rw [hslots, hcreated, hclaimed, hquota]
  constructor
  · by_cases hkey : key = key₀
    · subst hkey
      have hmem : r₀ ∈ slotsOf w key := mem_slotsOf.mpr ⟨hpre.2, hpre.1.2⟩
      have hpos := Finset.card_pos.mpr ⟨r₀, hmem⟩
      rw [if_pos rfl, Finset.card_erase_of_mem hmem]
      omega
    · rw [if_neg hkey, Finset.erase_eq_of_notMem, hbalance]
      intro hmem
      exact hkey (Option.some.inj ((mem_slotsOf.mp hmem).1.symm.trans hpre.2))
  · exact le_trans (Nat.add_le_add_right (Finset.card_erase_le) _) (h.limit key)

/-- A granted claim counts until the room is made. -/
theorem did_counts_claim (h : Slots w) {b : Bool} {key₀ : String}
    (hpre : SlotLegal t (.tryClaimRoomQuota key₀) w)
    (hx : Did t (.tryClaimRoomQuota key₀) e w b w') (key : String) :
    w'.server.quota key = (slotsOf w' key).card + claimedFor w'.history key ∧
      (createdSlots w' key).card + claimedFor w'.history key ≤ MAX_ROOMS_PER_IP := by
  have hpre : claimed w.history = none := hpre
  obtain ⟨s', hs, rfl⟩ := World.did_iff.mp hx
  have hb : (w.server.tryClaimRoomQuota key₀).1 = b := congrArg Prod.fst (Option.some.inj hs)
  obtain rfl := congrArg Prod.snd (Option.some.inj hs)
  rw [Server.tryClaimRoomQuota_fst] at hb
  have howner : ∀ r, (w.server.tryClaimRoomQuota key₀).2.ownerOf r = w.server.ownerOf r := by
    intro r
    rw [Server.tryClaimRoomQuota_eq]
    rfl
  have hslots : slotsOf ⟨(w.server.tryClaimRoomQuota key₀).2,
      ⟨t, .tryClaimRoomQuota key₀, b⟩ :: w.history⟩ key = slotsOf w key := by
    ext r
    rw [mem_slotsOf, mem_slotsOf, howner, releases_cons]
    rfl
  have hcreated : createdSlots ⟨(w.server.tryClaimRoomQuota key₀).2,
      ⟨t, .tryClaimRoomQuota key₀, b⟩ :: w.history⟩ key = createdSlots w key := by
    ext r
    rw [mem_createdSlots, mem_createdSlots, howner, releases_cons, madeByCreate_cons]
    simp [Event.releases, Event.creates]
  have hbalance := h.balance key
  have hlimit := h.limit key
  have hle : (createdSlots w key).card ≤ (slotsOf w key).card :=
    Finset.card_le_card (Finset.filter_subset _ _)
  dsimp only at hslots hcreated ⊢
  rw [hslots, hcreated, Server.quota_tryClaimRoomQuota]
  have hnone : claimedFor w.history key = 0 := by simp [claimedFor, hpre]
  rw [hnone] at hbalance hlimit
  cases b with
  | false =>
      have hclaimed : claimedFor (⟨t, .tryClaimRoomQuota key₀, false⟩ :: w.history) key = 0 := hnone
      have hfull : ¬(key = key₀ ∧ w.server.quota key₀ < MAX_ROOMS_PER_IP) :=
        fun hlt => of_decide_eq_false hb hlt.2
      rw [hclaimed, if_neg hfull]
      exact ⟨hbalance, hlimit⟩
  | true =>
      have hroom := of_decide_eq_true hb
      by_cases hkey : key = key₀
      · subst hkey
        have hclaimed : claimedFor (⟨t, .tryClaimRoomQuota key, true⟩ :: w.history) key = 1 := by
          simp [claimedFor, claimed]
        rw [hclaimed, if_pos ⟨rfl, hroom⟩]
        omega
      · have hclaimed : claimedFor (⟨t, .tryClaimRoomQuota key₀, true⟩ :: w.history) key = 0 := by
          simp [claimedFor, claimed, Ne.symm hkey]
        rw [hclaimed, if_neg fun hlt => hkey hlt.1]
        exact ⟨hbalance, hlimit⟩

omit [TokenCodec] in
/-- A room that is not there yet has no slot to give back. -/
theorem unreleased_new (h : Slots w) : releases w.history w.server.heap.length = 0 := by
  by_contra hne
  obtain ⟨u, hu⟩ := h.released (Nat.pos_of_ne_zero hne)
  obtain ⟨⟨st, hst⟩, _⟩ := h.gone hu
  exact lt_irrefl _ (List.getElem?_eq_some_iff.mp hst).1

/-- The new room takes over the claimed slot. -/
theorem did_counts_newRoom (h : Slots w) {sid host : String} {v : Verifier} {token key₀ : String}
    {admission : Admission} {y : RoomId × Effects}
    (hpre : SlotLegal t (.newRoom sid host v token key₀ admission) w)
    (hx : Did t (.newRoom sid host v token key₀ admission) e w y w') (key : String) :
    w'.server.quota key = (slotsOf w' key).card + claimedFor w'.history key ∧
      (createdSlots w' key).card + claimedFor w'.history key ≤ MAX_ROOMS_PER_IP := by
  have hpre : claimed w.history = some key₀ := hpre
  have hhistory := World.did_history hx
  obtain ⟨_, rfl, hs⟩ := World.did_newRoom hx
  have howner : ∀ r, w'.server.ownerOf r = some key ↔
      w.server.ownerOf r = some key ∨ (r = w.server.heap.length ∧ key = key₀) := by
    intro r
    rw [ownerOf_did hx]
    refine or_congr_right (and_congr_right fun _ => ⟨?_, ?_⟩)
    · rintro ⟨_, _, _, _, _, heq⟩
      cases heq
      rfl
    · rintro rfl
      exact ⟨sid, host, v, token, admission, rfl⟩
  have hreleases : ∀ r, releases w'.history r = releases w.history r := by
    intro r
    rw [hhistory, releases_cons]
    rfl
  have hmade : ∀ r, MadeByCreate w'.history r ↔
      w.server.heap.length = r ∨ MadeByCreate w.history r := by
    intro r
    rw [hhistory, madeByCreate_cons]
    exact or_congr_left beq_iff_eq
  have hnew : w.server.heap.length ∉ slotsOf w key := by
    simp [mem_slotsOf, Server.ownerOf]
  have hslots : ∀ r, r ∈ slotsOf w' key ↔
      r ∈ slotsOf w key ∨ (r = w.server.heap.length ∧ key = key₀) := by
    intro r
    rw [mem_slotsOf, mem_slotsOf, howner, hreleases, or_and_right]
    refine or_congr_right (and_iff_left_of_imp ?_)
    rintro ⟨rfl, _⟩
    exact h.unreleased_new
  have hcreated : ∀ r, r ∈ createdSlots w' key ↔
      r ∈ createdSlots w key ∨ (r = w.server.heap.length ∧ key = key₀) := by
    intro r
    rw [createdSlots, createdSlots, Finset.mem_filter, Finset.mem_filter, hslots, hmade]
    constructor
    · rintro ⟨hmem | hmem, rfl | hm⟩
      · exact (hnew hmem).elim
      · exact Or.inl ⟨hmem, hm⟩
      · exact Or.inr hmem
      · exact Or.inr hmem
    · rintro (⟨hmem, hm⟩ | hmem)
      · exact ⟨Or.inl hmem, Or.inr hm⟩
      · exact ⟨Or.inr hmem, Or.inl hmem.1.symm⟩
  have hclaimed : claimedFor w.history key = if key = key₀ then 1 else 0 := by
    simp [claimedFor, hpre, eq_comm]
  have hclaimed' : claimedFor w'.history key = 0 := by
    rw [hhistory]
    rfl
  have hquota : w'.server.quota key = w.server.quota key := by rw [hs]; rfl
  have hbalance := h.balance key
  have hlimit := h.limit key
  rw [hclaimed] at hbalance hlimit
  rw [hquota, hclaimed', card_of_mem_iff hnew hslots,
    card_of_mem_iff (fun hmem => hnew (Finset.mem_of_mem_filter _ hmem)) hcreated]
  exact ⟨hbalance, hlimit⟩

theorem did_counts (h : Slots w) (hpre : SlotLegal t a w) (hx : Did t a e w x w') (key : String) :
    w'.server.quota key = (slotsOf w' key).card + claimedFor w'.history key ∧
      (createdSlots w' key).card + claimedFor w'.history key ≤ MAX_ROOMS_PER_IP := by
  cases a with
  | releaseRoomQuota key₀ r₀ => exact h.did_counts_release hpre hx key
  | tryClaimRoomQuota key₀ => exact h.did_counts_claim hpre hx key
  | newRoom => exact h.did_counts_newRoom hpre hx key
  | _ => exact h.did_counts_other hx rfl key

/-- The lock is given up without a pending claim. -/
theorem did_unclaimed (h : Slots w) (hlegal : Legal t a w) (hpre : SlotLegal t a w)
    (hx : Did t a e w x w') (hlock : w'.server.writeLock = none) : claimed w'.history = none := by
  have hsame : a.keepsLock = true → w.server.writeLock = none := fun ha =>
    ((World.did_moves hx).lock_same ha).symm.trans hlock
  rw [World.did_history hx]
  cases a with
  | tryClaimRoomQuota key => cases (hsame rfl).symm.trans hlegal
  | newRoom => rfl
  | unlockRooms => exact hpre
  | lockRooms sid =>
      rw [(World.did_lockRooms hx).2.2] at hlock
      cases hlock
  | _ => exact h.unclaimed (hsame rfl)

theorem did (h : Slots w) (hb : Base w) (hlegal : Legal t a w) (hpre : SlotLegal t a w)
    (hx : Did t a e w x w') : Slots w' where
  gone := h.did_gone hb hx
  remover := h.did_remover hb hx
  released := h.did_released hpre hx
  once := h.did_once hpre hx
  owner := h.did_owner hpre hx
  foreign := h.did_foreign hx
  balance key := (h.did_counts hpre hx key).1
  limit key := (h.did_counts hpre hx key).2
  unclaimed := h.did_unclaimed hlegal hpre hx

end Slots

end Step

/-! ### Startup -/

omit [TokenCodec] in
/-- Restored rooms are counted under the empty key. -/
theorem Server.quota_restore (s : Server) (restored : List RestoredRoom) (key : String) :
    (s.restore restored).quota key = s.quota key + if key = "" then restored.length else 0 := by
  induction restored generalizing s with
  | nil => simp [Server.restore]
  | cons r rest ih =>
      refine (ih _).trans ?_
      simp only [Server.quota, AList.lookup_insert_eq, List.length_cons]
      by_cases hkey : key = ""
      · subst hkey
        simp only [if_true, Option.getD_some]
        omega
      · simp only [hkey, if_false]

theorem Slots.startup {sys : RelaySys} (h : Startup sys) : Slots sys.shared := by
  obtain ⟨file, now, clock, rfl⟩ := h
  generalize loadSnapshot file now clock = restored
  have hheap : (initially restored).shared.server.heap = restored.map (·.state) :=
    Server.restore_heap {} restored
  have hslots : ∀ key, (slotsOf (initially restored).shared key).card =
      if key = "" then restored.length else 0 := by
    intro key
    have hset : slotsOf (initially restored).shared key =
        if key = "" then Finset.range restored.length else ∅ := by
      ext r
      simp only [mem_slotsOf, Server.ownerOf, hheap, List.getElem?_map, Option.map_map]
      split
      · rename_i hkey
        subst hkey
        rw [Finset.mem_range, and_iff_left (by rfl)]
        rcases hr : restored[r]? with _ | room
        · simpa using hr
        · simpa [RestoredRoom.state, RoomState.restore] using (List.getElem?_eq_some_iff.mp hr).1
      · rename_i hkey
        rcases restored[r]? with _ | room
        · simp
        · simp [RestoredRoom.state, RoomState.restore, Ne.symm hkey]
    rw [hset]
    split <;> simp
  have hcreated : ∀ key, createdSlots (initially restored).shared key = ∅ := by
    intro key
    refine Finset.filter_eq_empty_iff.mpr fun r _ hmade => ?_
    obtain ⟨_, hev, _⟩ := hmade
    cases hev
  refine ⟨?_, ?_, ?_, fun _ => Nat.zero_le 1, ?_, fun howner hkey => ?_, fun key => ?_, fun key => ?_,
    fun _ => rfl⟩
  · rintro _ _ ⟨_, hev, _⟩
    cases hev
  · rintro _ _ _ ⟨_, hev, _⟩
    cases hev
  · intro _ hpos
    cases hpos
  · intro _ _ _ hev
    cases hev
  · obtain ⟨st, hst, rfl⟩ := Option.map_eq_some_iff.mp howner
    rw [hheap] at hst
    obtain ⟨room, _, rfl⟩ := List.mem_map.mp (List.mem_of_getElem? hst)
    exact (hkey rfl).elim
  · rw [hslots]
    exact (Server.quota_restore {} restored key).trans (Nat.zero_add _)
  · rw [hcreated]
    exact Nat.zero_le _

theorem Slots.writer {w w' : World} (h : Slots w) {m : WriterStep}
    (hm : w.writerStep m = some w') : Slots w' := by
  obtain ⟨hs, hh⟩ := World.writerStep_iff.mp hm
  obtain ⟨hheap, hrooms, hquota, hlock, _⟩ := Server.writerStep_frame hs
  have hslots : ∀ key, slotsOf w' key = slotsOf w key := by
    intro key
    ext r
    simp only [mem_slotsOf, Server.ownerOf, hheap, hh]
  refine ⟨fun hr => ?_, ?_, ?_, ?_, fun hev => ?_, fun howner => ?_, fun key => ?_, fun key => ?_,
    ?_⟩
  · rw [hh] at hr
    simpa only [Present, hheap, hrooms] using h.gone hr
  · rw [hh]
    exact h.remover
  · rw [hh]
    exact h.released
  · rw [hh]
    exact h.once
  · rw [hh] at hev
    simpa only [Server.ownerOf, hheap] using h.owner hev
  · rw [hh]
    exact h.foreign (by simpa only [Server.ownerOf, hheap] using howner)
  · rw [hslots, hh, Server.quota, hquota]
    exact h.balance key
  · rw [createdSlots, hslots, hh]
    exact h.limit key
  · rw [hh, hlock]
    exact h.unclaimed

/-! ### The programs -/

/-- Runs in which an end of session finds its room in the table; that steps are legal is
    known. -/
def releasing : relay.Logic where
  inv w := Base w ∧ Slots w
  assume t a w := Legal t a w ∧ StillListed t a w
  pre := SlotLegal

section Programs

variable {t : Tid} {w w' : World} {r : RoomId} {α : Type} {Q : α → World → Prop}

/-- Nobody else gives back the slot of a room that this task has removed. -/
theorem stable_owes : releasing.Stable t (Owes t r) := by
  rintro w w' ⟨_, hslots⟩ _ hint ⟨hremoved, hreleases⟩
  rcases interferes_cases hint with ⟨u, a, e, x, hne, _, hpre, hx⟩ | ⟨m, hm⟩
  · rw [Owes, World.did_history hx, removedBy_cons, releases_cons, hreleases, if_neg]
    · exact ⟨Or.inr hremoved, rfl⟩
    · intro hev
      obtain ⟨key, rfl⟩ := releases_iff.mp hev
      exact hne (hslots.remover hpre.1.1 hremoved)
  · rw [Owes, (World.writerStep_iff.mp hm).2]
    exact ⟨hremoved, hreleases⟩

theorem stable_ownerOf {key : String} :
    releasing.Stable t fun w => w.server.ownerOf r = some key :=
  stable_of_next fun _ _ h => ownerOf_next h

/-- The task holds the registry's lock, and what is claimed is `c`. -/
def Bidding (t : Tid) (P : AssocMap String RoomId → Prop) (c : Option String) (w : World) : Prop :=
  Holds t P w ∧ claimed w.history = c

/-- Slots are claimed and rooms made only by the task that holds the lock. -/
theorem stable_bidding {P : AssocMap String RoomId → Prop} {c : Option String} :
    releasing.Stable t (Bidding t P c) := by
  intro w w' hinv hinv' hint hbid
  refine ⟨stable_holds P w w' hinv hinv' hint hbid.1, ?_⟩
  rcases interferes_cases hint with ⟨u, a, e, x, hne, hlegal, hpre, hx⟩ | ⟨m, hm⟩
  · have hother : w.server.writeLock ≠ some u := fun hlock =>
      hne (Option.some.inj (hlock.symm.trans hbid.1.1))
    rw [World.did_history hx]
    cases a with
    | tryClaimRoomQuota key => exact (hother hlegal.1).elim
    | newRoom => exact (hother (World.did_newRoom hx).1).elim
    | _ => exact hbid.2
  · rw [(World.writerStep_iff.mp hm).2]
    exact hbid.2

/-- The actions that need nothing to be known of the slots. -/
def Act.isSlotFree (a : Act) : Bool := a.keepsSlots && a.keepsLock

omit [TokenCodec] in
theorem slotLegal_of_isSlotFree {a : Act} (h : a.isSlotFree = true) : SlotLegal t a w := by
  cases a <;> trivial

theorem slots_act {a : Act} {k : a.Resp → Task α} (ha : a.isSlotFree = true)
    (hk : ∀ e x w w', Did t a e w x w' → releasing.inv w → releasing.Safe t Q (k x) w') :
    releasing.Safe t Q (.act a k) w :=
  safe_act (fun _ => True) trivial (Logic.Stable.const True) fun w hinv _ _ =>
    ⟨slotLegal_of_isSlotFree ha, fun e x w' hx _ => hk e x w w' hx hinv⟩

theorem slots_of_all {p : Task α} {P : Act → Prop} (hp : p.All P)
    (hP : ∀ a, P a → a.isSlotFree = true) : releasing.Safe t (fun _ _ => True) p w :=
  Logic.Safe.of_all hp trivial (Logic.Stable.const True)
    (fun a _ ha _ _ _ => slotLegal_of_isSlotFree (hP a ha)) fun _ _ _ _ _ _ _ _ _ _ _ => trivial

/-- A step of `create` that neither claims nor makes a room. -/
theorem bidding_act {P : AssocMap String RoomId → Prop} {c : Option String} {a : Act}
    {k : a.Resp → Task α} (h : Bidding t P c w) (ha : a.isSlotFree = true)
    (hrooms : a.keepsRooms = true)
    (hk : ∀ e x w w', Did t a e w x w' → Bidding t P c w' → releasing.Safe t Q (k x) w') :
    releasing.Safe t Q (.act a k) w := by
  refine safe_act _ h stable_bidding fun w _ h _ => ⟨slotLegal_of_isSlotFree ha, ?_⟩
  intro e x w' hx _
  obtain ⟨hslots, hlock⟩ := Bool.and_eq_true_iff.mp ha
  refine hk e x w w' hx ⟨h.1.own hx hlock hrooms, ?_⟩
  rw [World.did_history hx, (keepsSlots_spec x hslots w.history).2.2]
  exact h.2

/-- A room that the task takes out of the table still has its slot. -/
theorem owes_of_removes {a : Act} {e : Env} {x : a.Resp} (hinv : releasing.inv w)
    (hx : Did t a e w x w') (hremoves : Event.removes r ⟨t, a, x⟩ = true) : Owes t r w' := by
  obtain ⟨⟨sid, hsid⟩, _⟩ := removes_spec hinv.1 hx hremoves
  have hnot : ¬Event.releases r ⟨t, a, x⟩ = true := by
    intro h
    obtain ⟨key, rfl⟩ := releases_iff.mp h
    cases hremoves
  rw [Owes, World.did_history hx, removedBy_cons, releases_cons, if_neg hnot]
  exact ⟨Or.inl ⟨rfl, hremoves⟩, hinv.2.unreleased hsid⟩

/-- Reading the owner key. -/
theorem ownerOf_of_ownerIpKey {e : Env} {key : String}
    (hx : Did t (.room r .ownerIpKey) e w key w') : w'.server.ownerOf r = some key := by
  obtain ⟨st, _, hrun, hst'⟩ := World.did_room hx
  obtain rfl : st.ownerIpKey = key := congrArg Prod.snd hrun
  simp only [Server.ownerOf, hst']
  rfl

theorem slots_release {key : String} {k : Unit → Task α} (howes : Owes t r w)
    (howner : w.server.ownerOf r = some key)
    (hk : ∀ w, releasing.Safe t Q (k ()) w) :
    releasing.Safe t Q (.act (.releaseRoomQuota key r) k) w :=
  safe_act (fun w => Owes t r w ∧ w.server.ownerOf r = some key) ⟨howes, howner⟩
    (stable_owes.and stable_ownerOf) fun _ _ h _ => ⟨h, fun _ _ w' _ _ => hk w'⟩

theorem slots_removeIfCurrent :
    releasing.Safe t (fun _ _ => True) (Registry.removeIfCurrent r) w := by
  refine slots_act rfl fun e current w w' hx hinv => ?_
  cases current with
  | false => trivial
  | true =>
      have howes : Owes t r w' := owes_of_removes hinv hx (by simp [Event.removes])
      refine safe_act _ howes stable_owes fun w _ howes _ => ⟨trivial, fun e key w' hx _ => ?_⟩
      refine slots_release ?_ (ownerOf_of_ownerIpKey hx) fun _ => trivial
      rw [Owes, World.did_history hx, removedBy_cons, releases_cons]
      exact ⟨Or.inr howes.1, howes.2⟩

theorem slots_sweep (now : SystemTime) :
    releasing.Safe t (fun _ _ => True) (sweep now) w := by
  refine slots_act rfl fun e rooms w w' _ _ => ?_
  refine Logic.Safe.forEach (fun r _ w _ => ?_) trivial
  apply safe_sweepOne (V := fun _ _ => True) (R := fun _ _ _ => True) (E := fun _ _ => True)
  · exact slots_act rfl fun _ _ _ _ _ _ => trivial
  · exact fun _ _ _ _ => trivial
  · exact fun _ _ _ _ => slots_removeIfCurrent
  · exact fun _ _ _ => trivial
  · exact fun _ _ _ => slots_act rfl fun _ _ _ _ _ _ => trivial
  · intro evict w _
    have hcancel : (Proc.forEach (fun token => perform (.cancel token)) evict).All
        fun a => a.isOutput = true := .forEach fun _ _ => ⟨rfl, fun _ => trivial⟩
    exact slots_of_all hcancel fun a ha => by cases a <;> trivial

/-- Unlocking without a pending claim. -/
theorem bidding_unlock {P : AssocMap String RoomId → Prop} {k : Unit → Task α}
    (h : Bidding t P none w) (hk : ∀ w, releasing.Safe t Q (k ()) w) :
    releasing.Safe t Q (.act .unlockRooms k) w :=
  safe_act _ h stable_bidding fun _ _ h _ => ⟨h.2, fun _ _ w' _ _ => hk w'⟩

theorem slots_createFresh (sid host : String) (v : Verifier) (token key : String)
    (admission : Admission) {P : AssocMap String RoomId → Prop} (h : Bidding t P none w) :
    releasing.Safe t (fun _ _ => True)
      (Registry.createFresh sid host v token key admission) w := by
  refine bidding_act h rfl rfl fun e n _ w' _ h => ?_
  rw [Proc.ret_bind]
  split
  · exact bidding_unlock h fun _ => trivial
  · refine safe_act _ h stable_bidding fun w _ h _ => ⟨h.2, fun e granted w' hx _ => ?_⟩
    have hheld := h.1.own hx rfl rfl
    cases granted with
    | false =>
        refine bidding_unlock ⟨hheld, ?_⟩ fun _ => trivial
        rw [World.did_history hx]
        exact h.2
    | true =>
        have hbid : Bidding t P (some key) w' := ⟨hheld, by rw [World.did_history hx]; rfl⟩
        refine safe_act _ hbid stable_bidding fun w _ h _ => ⟨h.2, fun e x w' hx _ => ?_⟩
        have hbid : Bidding t (fun _ => True) none w' := by
          obtain ⟨hlock, _, hs⟩ := World.did_newRoom hx
          exact ⟨⟨by rw [hs]; exact hlock, trivial⟩, by rw [World.did_history hx]; rfl⟩
        refine bidding_unlock hbid fun _ => ?_
        exact slots_act rfl fun _ _ _ _ _ _ => trivial

theorem slots_createReclaim (existing : RoomId) (sid host : String) (v : Verifier)
    (token key : String) (admission : Admission)
    (h : Bidding t (fun rooms => rooms.lookup sid = some existing) none w) :
    releasing.Safe t (fun _ _ => True)
      (Registry.createReclaim existing sid host v token key admission) w := by
  refine bidding_act h rfl rfl fun e oldOwner _ w' hx h => ?_
  have howner := ownerOf_of_ownerIpKey hx
  -- the owner that was read stays the owner up to the release
  refine safe_act _ ⟨h, howner⟩ (stable_bidding.and stable_ownerOf) fun w _ h _ =>
    ⟨trivial, fun e _ w' hx _ => ?_⟩
  have hmarked : Bidding t (fun rooms => rooms.lookup sid = some existing) none w' :=
    ⟨h.1.1.own hx rfl rfl, by rw [World.did_history hx]; exact h.1.2⟩
  refine safe_act _ ⟨hmarked, ownerOf_next (.act hx) h.2⟩ (stable_bidding.and stable_ownerOf)
    fun w hinv h _ => ⟨trivial, fun e found w' hx _ => ?_⟩
  obtain ⟨hlock, rfl, hs⟩ := World.did_removeRoom hx
  have howes : Owes t existing w' :=
    owes_of_removes hinv hx (beq_iff_eq.mpr h.1.1.2)
  have hfree : Bidding t (fun _ => True) none w' :=
    ⟨⟨by rw [hs]; exact hlock, trivial⟩, by rw [World.did_history hx]; exact h.1.2⟩
  refine safe_act _ ⟨hfree, howes, ownerOf_next (.act hx) h.2⟩
    (stable_bidding.and (stable_owes.and stable_ownerOf)) fun w _ h _ =>
      ⟨h.2, fun e _ w' hx _ => ?_⟩
  refine slots_createFresh sid host v token key admission ⟨h.1.1.own hx rfl rfl, ?_⟩
  rw [World.did_history hx]
  exact h.1.2

theorem slots_create (sid host token key : String) (admission : Admission) :
    releasing.Safe t (fun _ _ => True) (Registry.create sid host token key admission) w := by
  unfold Registry.create
  split
  · trivial
  · rename_i v _
    refine safe_act (fun _ => True) trivial (Logic.Stable.const True) fun w hinv _ _ =>
      ⟨trivial, fun e found w' hx _ => ?_⟩
    obtain ⟨hfree, rfl, hs⟩ := World.did_lockRooms hx
    have hbid : Bidding t (fun rooms => rooms.lookup sid = w.server.rooms.lookup sid) none w' := by
      refine ⟨⟨by rw [hs], by rw [hs]⟩, ?_⟩
      rw [World.did_history hx]
      exact hinv.2.unclaimed hfree
    rcases hfound : w.server.rooms.lookup sid with _ | existing
    · exact slots_createFresh sid host v token key admission hbid
    · rw [hfound] at hbid
      refine bidding_act hbid rfl rfl fun _ idempotent _ w _ hbid => ?_
      cases idempotent with
      | true =>
          refine bidding_act hbid rfl rfl fun _ _ _ w _ hbid => ?_
          refine bidding_unlock hbid fun _ => ?_
          exact slots_act rfl fun _ _ _ _ _ _ => trivial
      | false =>
          refine bidding_act hbid rfl rfl fun _ reclaimable _ w _ hbid => ?_
          cases reclaimable with
          | true => exact slots_createReclaim existing sid host v token key admission hbid
          | false => exact bidding_unlock hbid fun _ => trivial

/-- Where the condition is used: the end of session has itself removed the room whose slot
    it gives back. -/
theorem slots_endSession (peerId : String) (c : Nat) (token : String) (version : Nat) :
    releasing.Safe t (fun _ _ => True) (Registry.endSession r peerId c token version) w := by
  refine slots_act rfl fun e begun w w' hx _ => ?_
  obtain ⟨st, _, hrun, hst'⟩ := World.did_room hx
  rcases RoomState.beginEndSession_cases hrun with ⟨_, rfl⟩ | ⟨_, _, _, _, hst, guests, rfl⟩
  · trivial
  · have howner : w'.server.ownerOf r = some st.ownerIpKey := by
      simp only [Server.ownerOf, hst', Option.map_some]
      rw [hst]
    refine safe_act _ howner stable_ownerOf fun w hinv howner hassume =>
      ⟨trivial, fun e current w' hx _ => ?_⟩
    obtain ⟨st₀, hst₀, _⟩ := hassume.1
    have hcurrent : current = true := by
      obtain ⟨s', hs, _⟩ := World.did_iff.mp hx
      obtain ⟨_, st₁, hst₁, ⟨hb, _⟩ | ⟨_, hne, _⟩⟩ := Server.removeIfCurrent_cases hs
      · exact hb
      · exact (hne (hassume.2 st₁ hst₁)).elim
    subst hcurrent
    refine slots_release (owes_of_removes hinv hx (by simp [Event.removes]))
      (ownerOf_next (.act hx) howner) fun w => ?_
    have hwait : recordTerminalMutation.All fun a => a.isSnapshot = true :=
      recordTerminalMutation_all
    refine (slots_of_all hwait fun a ha => by cases a <;> trivial).bind fun _ w _ => ?_
    exact slots_act rfl fun _ _ _ _ _ _ => trivial

theorem slots_leave (peerId : String) (c : Nat) (token : String) (version : Nat) :
    releasing.Safe t (fun _ _ => True) (Room.leave r peerId c token version) w :=
  slots_of_all (leave_all r peerId c token version) fun a ha => by
    cases a with
    | room => rfl
    | _ => first | rfl | cases ha

theorem slots_programs : Programs releasing t fun _ _ => True := by
  refine Programs.of_plain (A := fun _ => True) (Logic.Stable.const True)
    (fun a w ha _ _ _ => slotLegal_of_isSlotFree ?_) (fun _ _ _ _ _ _ _ _ _ _ _ => trivial)
    (fun _ _ _ _ _ _ => slots_create ..) (fun _ _ _ _ _ _ _ => slots_leave ..)
    (fun _ _ _ _ _ _ _ => slots_endSession ..) fun _ _ _ => slots_sweep _
  cases a with
  | room => rfl
  | _ => first | rfl | cases ha

end Programs

theorem relay_slots {sys : RelaySys} (h : Reaches (When StillListed) sys) :
    Base sys.shared ∧ Slots sys.shared := by
  refine (Logic.Safe.adequate (L := releasing) (Q := fun _ _ _ => True)
    ?_ ?_ ?_ ?_ ?_ ?_ h).1
  · intro sys hsys
    refine ⟨⟨Base.startup hsys, Slots.startup hsys⟩, fun t => ?_⟩
    obtain ⟨file, now, clock, rfl⟩ := hsys
    cases t <;> trivial
  · exact fun t q l p w _ h hp => slots_programs.start h hp
  · intro sys t e a k hreach hc ht
    exact ⟨relay_legal hreach ht, hc a (by rw [ht]; rfl)⟩
  · exact fun t a e w x w' hinv hD hpre hx =>
      ⟨Base.did hinv.1 hD.1 hx, hinv.2.did hinv.1 hD.1 hpre hx⟩
  · exact fun m w w' hinv hm => ⟨Base.writer hinv.1 hm, hinv.2.writer hm⟩
  · exact fun _ _ => Logic.Stable.const True

/-- The registered rooms with the owner key. -/
def registeredOf (s : Server) (key : String) : Finset RoomId :=
  s.rooms.values.toFinset.filter fun r => s.ownerOf r = some key

/-- **A slot is given back at most once.**  In every run in which an end of session always
    finds its room still in the table: the slot of a room is given back at most once, only
    under the key of its owner, and only after the room was taken out of the table, where
    it never is again.  So no owner key has more than three registered rooms that `create`
    made; these are all its registered rooms, unless it is the empty key of restored ones. -/
theorem slot_released_once {sys : RelaySys} (h : Reaches (When StillListed) sys) :
    (∀ r, releases sys.shared.history r ≤ 1) ∧
    (∀ t key r, ⟨t, .releaseRoomQuota key r, ()⟩ ∈ sys.shared.history →
      sys.shared.server.ownerOf r = some key ∧
      (∃ u, RemovedBy sys.shared.history u r) ∧
      ∀ sid, sys.shared.server.rooms.lookup sid ≠ some r) ∧
    (∀ key, ((registeredOf sys.shared.server key).filter
      (MadeByCreate sys.shared.history)).card ≤ MAX_ROOMS_PER_IP) ∧
    (∀ key, key ≠ "" → (registeredOf sys.shared.server key).card ≤ MAX_ROOMS_PER_IP) := by
  obtain ⟨_, hslots⟩ := relay_slots h
  have hlimit : ∀ key, ((registeredOf sys.shared.server key).filter
      (MadeByCreate sys.shared.history)).card ≤ MAX_ROOMS_PER_IP := by
    intro key
    refine le_trans (Finset.card_le_card fun r hr => ?_) ((Nat.le_add_right _ _).trans (hslots.limit key))
    obtain ⟨hr, hmade⟩ := Finset.mem_filter.mp hr
    obtain ⟨hr, howner⟩ := Finset.mem_filter.mp hr
    obtain ⟨sid, hsid⟩ := AList.mem_values.mp (List.mem_toFinset.mp hr)
    exact mem_createdSlots.mpr ⟨⟨howner, hslots.unreleased hsid⟩, hmade⟩
  refine ⟨hslots.once, fun t key r hev => ?_, hlimit, fun key hkey => ?_⟩
  · have hpos : 0 < releases sys.shared.history r :=
      List.countP_pos_iff.mpr ⟨_, hev, by simp [Event.releases]⟩
    obtain ⟨u, hu⟩ := hslots.released hpos
    exact ⟨hslots.owner hev, ⟨u, hu⟩, (hslots.gone hu).2⟩
  · have hall : (registeredOf sys.shared.server key).filter (MadeByCreate sys.shared.history) =
        registeredOf sys.shared.server key :=
      Finset.filter_true_of_mem fun r hr => hslots.foreign (Finset.mem_filter.mp hr).2 hkey
    rw [← hall]
    exact hlimit key

omit [TokenCodec] in
/-- A run it speaks about: a room is made and its session ended. -/
theorem slot_released_once_after_end : letI : TokenCodec := sampleCodec
    ∃ sys : RelaySys, Reaches (When StillListed) sys ∧ releases sys.shared.history 0 = 1 ∧
      (∀ sid, sys.shared.server.rooms.lookup sid ≠ some 0) ∧
      (registeredOf sys.shared.server "ip").card ≤ MAX_ROOMS_PER_IP := by
  let _ : TokenCodec := sampleCodec
  obtain ⟨sys, hreach, hpos⟩ := reaches_of_run (C := When StillListed)
    (P := fun sys => 0 < releases sys.shared.history 0)
    (.start (.conn 0) (.connect "ip") :: handles 0 (message .create "s" "a" tokenOnes) 8 ++
      handles 0 (message .endSession "s" "a" tokenOnes) 3)
    (by decide +kernel)
  obtain ⟨honce, hreleased, _, hlimit⟩ := slot_released_once hreach
  obtain ⟨⟨t, a, x⟩, hev, hreleases⟩ := List.countP_pos_iff.mp hpos
  obtain ⟨key, rfl⟩ := releases_iff.mp hreleases
  exact ⟨sys, hreach, le_antisymm (honce 0) hpos, (hreleased t key 0 hev).2.2,
    hlimit "ip" (by decide)⟩

omit [TokenCodec] in
/-- `a` ends the session of its room; between the two sections of the call the sweep finds
    the room too old, removes it and gives its slot back.  The end of session gives it back
    once more, and the owner, who has made three other rooms meanwhile, gets a fourth. -/
theorem slot_released_twice : letI : TokenCodec := sampleCodec
    ∃ sys : RelaySys, Reaches Always sys ∧ MadeByCreate sys.shared.history 0 ∧
      releases sys.shared.history 0 = 2 ∧
      (registeredOf sys.shared.server "ip").card = MAX_ROOMS_PER_IP + 1 := by
  let _ : TokenCodec := sampleCodec
  exact reaches_of_run
    ((List.range 5).map (fun k => .start (.conn k) (.connect "ip")) ++
      handles 0 (message .create "s" "a" tokenOnes) 8 ++
      handles 0 (message .endSession "s" "a" tokenOnes) 1 ++
      .start (.sweeper 0) (.tick (ROOM_MAX_AGE + 1)) :: acts (.sweeper 0) 5 ++
      handles 1 (message .create "t" "a" tokenOnes) 8 ++
      handles 2 (message .create "u" "a" tokenOnes) 8 ++
      handles 3 (message .create "v" "a" tokenOnes) 8 ++ acts (.conn 0) 2 ++
      handles 4 (message .create "x" "a" tokenOnes) 8)
    (by decide +kernel)

end PlezyRelay
