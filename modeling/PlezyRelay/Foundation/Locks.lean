/-
  PlezyRelay/Foundation/Locks.lean
  ================================
  **Locks that are taken in order do not block each other.**

  A lock has holders and a queue, serves the queue in order and lets readers share.
  `RwLock.exists_unblocked` is the argument from ranks: if whoever holds a lock can move,
  or is in the queue of a lock of higher rank, then behind every queued agent there is
  one that can move.
-/
import Mathlib.Logic.Relation

/-! ### Locks -/

/-- How a lock is taken. -/
inductive Access where
  | shared
  | exclusive
deriving DecidableEq

/-- A readers–writer lock that serves its queue in order. -/
structure RwLock (κ : Type) where
  holders : List (κ × Access) := []
  queue : List (κ × Access) := []

namespace RwLock

variable {κ Λ : Type}

/-- The holders leave room for one more. -/
def admits (lock : RwLock κ) : Access → Bool
  | .shared => lock.holders.all fun h => h.2 == .shared
  | .exclusive => lock.holders.isEmpty

def request (lock : RwLock κ) (x : κ) (access : Access) : RwLock κ :=
  { lock with queue := lock.queue ++ [(x, access)] }

/-- The first in the queue is let in as soon as the holders allow it. -/
def grant (lock : RwLock κ) : Option ((κ × Access) × RwLock κ) :=
  match lock.queue with
  | [] => none
  | first :: rest =>
      if lock.admits first.2 then some (first, ⟨first :: lock.holders, rest⟩) else none

def release [DecidableEq κ] (lock : RwLock κ) (x : κ) : RwLock κ :=
  { lock with holders := lock.holders.filter fun h => h.1 ≠ x }

theorem grant_eq_some {lock lock' : RwLock κ} {first : κ × Access}
    (h : lock.grant = some (first, lock')) :
    ∃ rest, lock.queue = first :: rest ∧ lock.admits first.2 = true ∧
      lock' = ⟨first :: lock.holders, rest⟩ := by
  unfold grant at h
  split at h
  · cases h
  · rename_i y rest hqueue
    split at h
    · rename_i hadmits
      cases h
      exact ⟨rest, hqueue, hadmits, rfl⟩
    · cases h

/-- Whoever is not let in finds somebody inside. -/
theorem exists_holder {lock : RwLock κ} {access : Access} (h : lock.admits access = false) :
    ∃ y, y ∈ lock.holders := by
  cases hholders : lock.holders with
  | nil => cases access <;> simp [admits, hholders] at h
  | cons y ys => exact ⟨y, List.mem_cons_self⟩

/-- An exclusive holder is the only one. -/
def Exclusive (lock : RwLock κ) : Prop :=
  ∀ x, (x, Access.exclusive) ∈ lock.holders → ∀ y ∈ lock.holders, y = (x, .exclusive)

theorem exclusive_of_grant {lock lock' : RwLock κ} {first : κ × Access}
    (hgrant : lock.grant = some (first, lock')) : lock'.Exclusive := by
  obtain ⟨rest, -, hadmits, rfl⟩ := grant_eq_some hgrant
  obtain ⟨y, access⟩ := first
  cases access with
  | shared =>
      simp only [admits, List.all_eq_true, beq_iff_eq] at hadmits
      intro x hx
      rcases List.mem_cons.mp hx with heq | hx
      · cases heq
      · cases hadmits _ hx
  | exclusive =>
      simp only [admits, List.isEmpty_iff] at hadmits
      intro x hx z hz
      simp only [hadmits, List.mem_singleton] at hx hz
      rw [hz, hx]

theorem Exclusive.release [DecidableEq κ] {lock : RwLock κ} (h : lock.Exclusive) (x : κ) :
    (lock.release x).Exclusive := by
  intro y hy z hz
  exact h y (List.mem_filter.mp hy).1 z (List.mem_filter.mp hz).1

/-! ### Ranks -/

/-- `x` is in a queue that waits for `y`: the first in it, or a holder of the lock. -/
def Blocks (locks : Λ → RwLock κ) (x y : κ) : Prop :=
  ∃ l access, (x, access) ∈ (locks l).queue ∧
    ((∃ access', (locks l).queue.head? = some (y, access')) ∨
      ∃ access', (y, access') ∈ (locks l).holders)

/-- If every holder can move or is queued for a lock of higher rank, then behind whoever
    is queued there is one that can move. -/
theorem exists_unblocked {locks : Λ → RwLock κ} {rank : Λ → Nat} {bound : Nat} {can : κ → Prop}
    (hbound : ∀ l, rank l ≤ bound)
    (hgrant : ∀ l first lock, (locks l).grant = some (first, lock) → can first.1)
    (hholder : ∀ l y, y ∈ (locks l).holders →
      can y.1 ∨ ∃ l' access, (y.1, access) ∈ (locks l').queue ∧ rank l < rank l')
    {l : Λ} {x : κ} {access : Access} (hx : (x, access) ∈ (locks l).queue) :
    ∃ y, Relation.ReflTransGen (Blocks locks) x y ∧ can y := by
  -- the rank of the lock goes up along the way, and it is bounded
  induction hn : bound - rank l using Nat.strongRecOn generalizing l x access with
  | _ n ih =>
      cases hqueue : (locks l).queue with
      | nil =>
          rw [hqueue] at hx
          cases hx
      | cons first rest =>
          have hfirst : Blocks locks x first.1 :=
            ⟨l, access, hx, Or.inl ⟨first.2, by rw [hqueue]; rfl⟩⟩
          cases hadmits : (locks l).admits first.2 with
          | true =>
              refine ⟨first.1, .single hfirst, hgrant l first ⟨first :: (locks l).holders, rest⟩ ?_⟩
              simp only [grant, hqueue, hadmits, if_true]
          | false =>
              obtain ⟨y, hy⟩ := exists_holder hadmits
              have hblocks : Blocks locks x y.1 := ⟨l, access, hx, Or.inr ⟨y.2, hy⟩⟩
              rcases hholder l y hy with hcan | ⟨l', access', hqueued, hrank⟩
              · exact ⟨y.1, .single hblocks, hcan⟩
              · have hl' := hbound l'
                obtain ⟨z, hreach, hcan⟩ := ih (bound - rank l') (by omega) hqueued rfl
                exact ⟨z, .head hblocks hreach, hcan⟩

end RwLock
