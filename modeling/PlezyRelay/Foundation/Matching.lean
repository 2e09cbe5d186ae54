/-
  PlezyRelay/Foundation/Matching.lean
  ===================================
  **Which event asked for what an event carries out.**

  Events belong to owners.  An event may bring duties to its owner, and may carry out
  duties its owner has; both are lists, and duties may look alike.  If every owner carries
  out its duties in the order in which they came (`Punctual`), the `n`-th duty carried out
  is the `n`-th one brought, so that each is `matched` with the event it comes from.

  Events are numbered from the start of the history.  `Match.InTurn` is what can be said of
  two duties of which one was carried out before the other: they came in this order too, or
  they have different owners and the one carried out first came while the other was waiting.
-/
import Mathlib.Data.List.Basic
import PlezyRelay.Foundation.Discipline

/-- Who an event belongs to, which duties it brings and which it carries out. -/
structure Book (ε κ ω : Type) where
  owner : ε → κ
  asks : ε → List ω
  pays : ε → List ω

/-- A duty that was carried out, with the numbers of the event it came from and of the event
    that carried it out. -/
structure Match (κ ω : Type) where
  owner : κ
  asked : ℕ
  paid : ℕ
  duty : ω

/-- Of two duties, carried out in this order. -/
def Match.InTurn {κ ω : Type} (a b : Match κ ω) : Prop :=
  a.asked ≤ b.asked ∨ a.owner ≠ b.owner ∧ b.asked < a.asked ∧ a.asked < b.paid

namespace Book

variable {ε κ ω : Type} [DecidableEq κ] (B : Book ε κ ω)

/-- The duties of an owner with the numbers of the events that brought them, oldest first. -/
def asked (k : κ) : List ε → List (ℕ × ω)
  | [] => []
  | e :: past => asked k past ++ if B.owner e = k then (B.asks e).map (past.length, ·) else []

def paid (k : κ) : List ε → List ω
  | [] => []
  | e :: past => paid k past ++ if B.owner e = k then B.pays e else []

/-- The duties of its owner that an event has come to, as many as it carries out. -/
def next (e : ε) (past : List ε) : List (ℕ × ω) :=
  ((B.asked (B.owner e) past).drop (B.paid (B.owner e) past).length).take (B.pays e).length

/-- What all owners have carried out, oldest first. -/
def matched : List ε → List (Match κ ω)
  | [] => []
  | e :: past => matched past ++
      (B.next e past).map fun ask => ⟨B.owner e, ask.1, past.length, ask.2⟩

/-- Every event carries out what is next in line for its owner. -/
def Punctual : List ε → Prop :=
  EachAfter fun past e =>
    B.paid (B.owner e) past ++ B.pays e <+: (B.asked (B.owner e) past).map Prod.snd

variable {B}

/-! ### The duties of an owner -/

theorem asked_lt {k : κ} {h : List ε} {ask : ℕ × ω} (hask : ask ∈ B.asked k h) :
    ask.1 < h.length := by
  induction h with
  | nil => cases hask
  | cons e past ih =>
      rw [asked, List.mem_append] at hask
      rw [List.length_cons]
      rcases hask with hold | hnew
      · exact Nat.lt_succ_of_lt (ih hold)
      · split at hnew
        · obtain ⟨d, _, rfl⟩ := List.mem_map.mp hnew
          exact Nat.lt_succ_self _
        · cases hnew

theorem asked_sorted (k : κ) (h : List ε) : (B.asked k h).Pairwise fun a b => a.1 ≤ b.1 := by
  induction h with
  | nil => exact List.Pairwise.nil
  | cons e past ih =>
      rw [asked, List.pairwise_append]
      refine ⟨ih, ?_, ?_⟩
      · split
        · exact List.pairwise_map.mpr (List.pairwise_of_forall fun _ _ => Nat.le_refl _)
        · exact List.Pairwise.nil
      · intro a ha b hb
        split at hb
        · obtain ⟨d, _, rfl⟩ := List.mem_map.mp hb
          exact Nat.le_of_lt (asked_lt ha)
        · cases hb

theorem event_of_asked {k : κ} {h : List ε} {ask : ℕ × ω} (hask : ask ∈ B.asked k h) :
    ∃ e, h.reverse[ask.1]? = some e ∧ B.owner e = k ∧ ask.2 ∈ B.asks e := by
  induction h with
  | nil => cases hask
  | cons e past ih =>
      rw [asked, List.mem_append] at hask
      rw [List.reverse_cons]
      rcases hask with hold | hnew
      · obtain ⟨e', he', hrest⟩ := ih hold
        refine ⟨e', ?_, hrest⟩
        rw [List.getElem?_append_left (by simpa using asked_lt hold)]
        exact he'
      · split at hnew
        · rename_i howner
          obtain ⟨d, hd, rfl⟩ := List.mem_map.mp hnew
          exact ⟨e, by simp, howner, hd⟩
        · cases hnew

/-! ### What is matched -/

theorem Punctual.next_duty {e : ε} {past : List ε} (hp : B.Punctual (e :: past)) :
    (B.next e past).map Prod.snd = B.pays e := by
  obtain ⟨rest, hrest⟩ := hp.1
  rw [next, List.map_take, List.map_drop, ← hrest, List.append_assoc, List.drop_left,
    List.take_left]

theorem Punctual.matched_duty {h : List ε} (hp : B.Punctual h) :
    (B.matched h).map Match.duty = h.reverse.flatMap B.pays := by
  induction h with
  | nil => rfl
  | cons e past ih =>
      rw [matched, List.map_append, ih hp.2, List.reverse_cons, List.flatMap_append,
        List.flatMap_singleton, List.map_map]
      congr 1
      exact hp.next_duty

theorem next_sublist (e : ε) (past : List ε) :
    (B.next e past).Sublist (B.asked (B.owner e) past) :=
  (List.take_sublist _ _).trans (List.drop_sublist _ _)

theorem place_of_next {e : ε} {past : List ε} {ask : ℕ × ω} (h : ask ∈ B.next e past) :
    ∃ j < (B.pays e).length,
      (B.asked (B.owner e) past)[(B.paid (B.owner e) past).length + j]? = some ask := by
  obtain ⟨j, hj⟩ := List.mem_iff_getElem?.mp h
  rw [next, List.getElem?_take, List.getElem?_drop] at hj
  split at hj
  · rename_i hlt
    exact ⟨j, hlt, hj⟩
  · cases hj

/-- A match is about an earlier event of its owner, and its duty has a place in line among
    those that have been carried out. -/
theorem placed_of_matched {h : List ε} {m : Match κ ω} (hm : m ∈ B.matched h) :
    m.asked < m.paid ∧ m.paid < h.length ∧
      ∃ i < (B.paid m.owner h).length, (B.asked m.owner h)[i]? = some (m.asked, m.duty) := by
  induction h with
  | nil => cases hm
  | cons e past ih =>
      simp only [paid, asked, List.length_append, List.length_cons]
      rcases List.mem_append.mp hm with hold | hnew
      · obtain ⟨hasked, hpaid, i, hi, hask⟩ := ih hold
        refine ⟨hasked, Nat.lt_succ_of_lt hpaid, i, Nat.lt_add_right _ hi, ?_⟩
        rw [List.getElem?_append_left (List.getElem?_eq_some_iff.mp hask).1]
        exact hask
      · obtain ⟨ask, hnext, rfl⟩ := List.mem_map.mp hnew
        obtain ⟨j, hj, hask⟩ := place_of_next hnext
        refine ⟨asked_lt ((next_sublist e past).subset hnext), Nat.lt_succ_self _,
          (B.paid (B.owner e) past).length + j, ?_, ?_⟩
        · rw [if_pos rfl]
          exact Nat.add_lt_add_left hj _
        · rw [List.getElem?_append_left (List.getElem?_eq_some_iff.mp hask).1]
          exact hask

theorem event_of_matched {h : List ε} {m : Match κ ω} (hm : m ∈ B.matched h) :
    ∃ e, h.reverse[m.asked]? = some e ∧ B.owner e = m.owner ∧ m.duty ∈ B.asks e := by
  obtain ⟨_, _, i, _, hask⟩ := placed_of_matched hm
  exact event_of_asked (List.mem_of_getElem? hask)

/-- Owners carry out their duties in the order in which they came, and nobody else's duties
    are passed over but those that came earlier and are still waiting. -/
theorem matched_inTurn (h : List ε) : (B.matched h).Pairwise Match.InTurn := by
  induction h with
  | nil => exact List.Pairwise.nil
  | cons e past ih =>
      rw [matched, List.pairwise_append]
      refine ⟨ih, ?_, ?_⟩
      · -- the duties of one event
        apply List.pairwise_map.mpr
        exact ((asked_sorted _ _).sublist (next_sublist e past)).imp Or.inl
      · intro a ha b hb
        obtain ⟨ask, hnext, rfl⟩ := List.mem_map.mp hb
        obtain ⟨j, _, hask⟩ := place_of_next hnext
        obtain ⟨hasked, hpaid, i, hi, hplace⟩ := placed_of_matched ha
        by_cases hle : a.asked ≤ ask.1
        · exact Or.inl hle
        · refine Or.inr ⟨?_, Nat.lt_of_not_le hle, Nat.lt_trans hasked hpaid⟩
          intro howner
          -- one owner: the place of the first is before that of the second
          apply hle
          dsimp only at howner
          rw [howner] at hi hplace
          obtain ⟨hi', hieq⟩ := List.getElem?_eq_some_iff.mp hplace
          obtain ⟨hj', hjeq⟩ := List.getElem?_eq_some_iff.mp hask
          have hsorted := List.pairwise_iff_getElem.mp (asked_sorted (B := B) (B.owner e) past)
            i _ hi' hj' (Nat.lt_of_lt_of_le hi (Nat.le_add_right _ _))
          rw [hieq, hjeq] at hsorted
          exact hsorted

end Book
