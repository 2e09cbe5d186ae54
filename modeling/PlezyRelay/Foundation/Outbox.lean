/-
  PlezyRelay/Foundation/Outbox.lean
  =================================
  **A bounded queue with one writer behind it.**

  Senders offer items and do not wait: an item that finds the queue full, or the writer
  gone, is refused.  The writer takes the items one at a time and writes them, with
  keepalives of its own in between; it can fail, or be stopped, at any point.

  The outbox keeps a record of the offers, each with the length of the queue it met and
  whether it was taken, so that what was sent is told apart into what was taken and what
  was refused.  `Outbox.Carries` is what holds of any sequence of steps: what has been
  written, is being written and is queued are, in this order, a sublist of what was taken,
  so nothing is reordered, repeated or made up; the queue is bounded; and as long as the
  writer runs, they are all of what was taken, and whatever was refused met a full queue.
-/
import Mathlib.Data.List.ReduceOption

structure Outbox.Offer (α : Type) where
  item : α
  /-- How many items were in the queue. -/
  depth : Nat
  taken : Bool

structure Outbox (α : Type) where
  queue : List α := []
  /-- Taken by the writer, and not written yet. -/
  inFlight : Option α := none
  /-- The writer is running; without it nothing can be queued. -/
  running : Bool := true
  /-- What has been written, oldest first; `none` is a keepalive. -/
  written : List (Option α) := []
  /-- What has been offered, oldest first. -/
  offers : List (Outbox.Offer α) := []

namespace Outbox

variable {α : Type}

section Steps

variable (o : Outbox α)

/-- A sender offers an item. -/
def offer (capacity : Nat) (x : α) : Outbox α :=
  if o.running ∧ o.queue.length < capacity then
    { o with queue := o.queue ++ [x], offers := o.offers ++ [⟨x, o.queue.length, true⟩] }
  else { o with offers := o.offers ++ [⟨x, o.queue.length, false⟩] }

/-- The writer takes the next item. -/
def take : Option (Outbox α) :=
  match o.running, o.inFlight, o.queue with
  | true, none, x :: queue => some { o with inFlight := some x, queue := queue }
  | _, _, _ => none

/-- The writer has written the item, or has failed and stops. -/
def finish (ok : Bool) : Option (Outbox α) :=
  match o.running, o.inFlight with
  | true, some x =>
      if ok then some { o with inFlight := none, written := o.written ++ [some x] }
      else some { o with inFlight := none, running := false }
  | _, _ => none

/-- The writer writes a keepalive, or has failed and stops. -/
def beat (ok : Bool) : Option (Outbox α) :=
  match o.running, o.inFlight with
  | true, none =>
      if ok then some { o with written := o.written ++ [none] }
      else some { o with running := false }
  | _, _ => none

/-- The writer is stopped, wherever it is. -/
def stop : Outbox α := { o with inFlight := none, running := false }

/-- What has been written, is being written, and is queued. -/
def carried : List α := o.written.reduceOption ++ (o.inFlight.toList ++ o.queue)

/-- What was taken of what was offered. -/
def taken : List α := (o.offers.filter Offer.taken).map Offer.item

end Steps

structure Carries (capacity : Nat) (offered : List α) (o : Outbox α) : Prop where
  offered : o.offers.map Offer.item = offered
  order : o.carried.Sublist o.taken
  bounded : o.queue.length ≤ capacity
  complete : o.running = true → o.carried = o.taken
  refused : o.running = true → ∀ x ∈ o.offers, x.taken = false → x.depth = capacity

namespace Carries

variable {capacity : Nat} {offered : List α} {o o' : Outbox α}

theorem empty (capacity : Nat) : Carries capacity [] ({} : Outbox α) where
  offered := rfl
  order := List.Sublist.refl _
  bounded := Nat.zero_le _
  complete _ := rfl
  refused _ x hx := by cases hx

theorem offer (h : Carries capacity offered o) (x : α) :
    Carries capacity (offered ++ [x]) (o.offer capacity x) := by
  unfold Outbox.offer
  split
  · rename_i hroom
    have hcarried : ∀ offers, carried { o with queue := o.queue ++ [x], offers := offers } =
        o.carried ++ [x] := by
      intro offers
      simp [carried]
    have htaken : taken { o with queue := o.queue ++ [x], offers := o.offers ++
        [⟨x, o.queue.length, true⟩] } = o.taken ++ [x] := by
      simp [taken]
    refine ⟨by simp [h.offered], ?_, ?_, ?_, ?_⟩
    · rw [hcarried, htaken]
      exact h.order.append (List.Sublist.refl _)
    · simp only [List.length_append, List.length_singleton]
      exact hroom.2
    · intro hrunning
      rw [hcarried, htaken, h.complete hrunning]
    · intro hrunning y hy hrefused
      rcases List.mem_append.mp hy with hold | hnew
      · exact h.refused hrunning y hold hrefused
      · rw [List.mem_singleton.mp hnew] at hrefused
        cases hrefused
  · rename_i hfull
    have htaken : taken { o with offers := o.offers ++ [⟨x, o.queue.length, false⟩] } = o.taken := by
      simp [taken]
    refine ⟨by simp [h.offered], ?_, h.bounded, ?_, ?_⟩
    · rw [htaken]
      exact h.order
    · intro hrunning
      rw [htaken]
      exact h.complete hrunning
    · intro hrunning y hy hrefused
      rcases List.mem_append.mp hy with hold | hnew
      · exact h.refused hrunning y hold hrefused
      · -- the writer runs, so it was the length of the queue
        rw [List.mem_singleton.mp hnew]
        have hlong : ¬o.queue.length < capacity := fun hlt => hfull ⟨hrunning, hlt⟩
        exact Nat.le_antisymm h.bounded (Nat.not_lt.mp hlong)

/-- A step of the writer that loses nothing. -/
theorem of_carried (h : Carries capacity offered o) (hcarried : o'.carried = o.carried)
    (hqueue : o'.queue.length ≤ o.queue.length) (hoffers : o'.offers = o.offers)
    (hrunning : o.running = true) : Carries capacity offered o' := by
  have htaken : o'.taken = o.taken := by rw [taken, taken, hoffers]
  refine ⟨hoffers ▸ h.offered, ?_, Nat.le_trans hqueue h.bounded, ?_, ?_⟩
  · rw [hcarried, htaken]
    exact h.order
  · intro _
    rw [hcarried, htaken]
    exact h.complete hrunning
  · intro _
    rw [hoffers]
    exact h.refused hrunning

/-- The writer stops. -/
theorem of_stopped (h : Carries capacity offered o) (hwritten : o'.written = o.written)
    (hinFlight : o'.inFlight = none) (hqueue : o'.queue = o.queue) (hoffers : o'.offers = o.offers)
    (hstopped : o'.running = false) : Carries capacity offered o' := by
  have hnot : o'.running ≠ true := by simp [hstopped]
  refine ⟨hoffers ▸ h.offered, ?_, hqueue ▸ h.bounded, fun hr => absurd hr hnot,
    fun hr => absurd hr hnot⟩
  have htaken : o'.taken = o.taken := by rw [taken, taken, hoffers]
  rw [htaken]
  apply List.Sublist.trans ?_ h.order
  rw [carried, carried, hwritten, hinFlight, hqueue]
  exact (List.Sublist.refl _).append (List.sublist_append_right _ _)

theorem stop (h : Carries capacity offered o) : Carries capacity offered o.stop :=
  h.of_stopped rfl rfl rfl rfl rfl

theorem take (h : Carries capacity offered o) (htake : o.take = some o') :
    Carries capacity offered o' := by
  unfold Outbox.take at htake
  split at htake
  · rename_i x queue hrunning hinFlight hqueue
    obtain rfl := Option.some.inj htake
    refine h.of_carried ?_ ?_ rfl hrunning
    · simp [carried, hinFlight, hqueue]
    · simp [hqueue]
  · cases htake

theorem finish (h : Carries capacity offered o) {ok : Bool} (hfinish : o.finish ok = some o') :
    Carries capacity offered o' := by
  unfold Outbox.finish at hfinish
  split at hfinish
  · rename_i x hrunning hinFlight
    cases ok with
    | true =>
        obtain rfl := Option.some.inj hfinish
        refine h.of_carried ?_ (Nat.le_refl _) rfl hrunning
        simp [carried, hinFlight, List.reduceOption_append]
    | false =>
        obtain rfl := Option.some.inj hfinish
        exact h.of_stopped rfl rfl rfl rfl rfl
  · cases hfinish

theorem beat (h : Carries capacity offered o) {ok : Bool} (hbeat : o.beat ok = some o') :
    Carries capacity offered o' := by
  unfold Outbox.beat at hbeat
  split at hbeat
  · rename_i hrunning hinFlight
    cases ok with
    | true =>
        obtain rfl := Option.some.inj hbeat
        refine h.of_carried ?_ (Nat.le_refl _) rfl hrunning
        simp [carried, List.reduceOption_append]
    | false =>
        obtain rfl := Option.some.inj hbeat
        exact h.of_stopped rfl hinFlight rfl rfl rfl
  · cases hbeat

/-- What was taken was offered, in this order. -/
theorem taken_sublist (h : Carries capacity offered o) : o.taken.Sublist offered := by
  rw [← h.offered]
  exact List.filter_sublist.map _

/-- What has been written was offered, in this order. -/
theorem written (h : Carries capacity offered o) : o.written.reduceOption.Sublist offered :=
  ((List.sublist_append_left _ _).trans h.order).trans h.taken_sublist

end Carries

end Outbox
