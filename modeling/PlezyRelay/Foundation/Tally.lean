/-
  PlezyRelay/Foundation/Tally.lean
  ================================
  **Maps of counts.**

  A program that keeps one count per key, and no entry for a count of zero, keeps a
  multiset of keys: a key is in it as often as its count says.  `Tallies m bag` is that
  reading of a map.  One more or one fewer of a key is then a change of one entry, and
  the counts always add up to the size of the multiset (`Tallies.sum_values`), with
  no need to follow the sum through the operations.
-/
import Mathlib.Algebra.BigOperators.Group.Finset.Basic
import Mathlib.Algebra.Ring.Nat
import PlezyRelay.Foundation.AssocMap

universe u

namespace AList

variable {κ : Type u} [DecidableEq κ]

/-- The entry for a count: there is none for zero. -/
def entryOf (n : Nat) : Option Nat := if n = 0 then none else some n

/-- The map has for every key the entry of its multiplicity. -/
def Tallies (m : AssocMap κ Nat) (bag : Multiset κ) : Prop :=
  ∀ a, m.lookup a = entryOf (bag.count a)

@[simp] theorem entryOf_zero : entryOf 0 = none := rfl

@[simp] theorem entryOf_succ (n : Nat) : entryOf (n + 1) = some (n + 1) := rfl

theorem entryOf_eq_some {n k : Nat} : entryOf n = some k ↔ n = k ∧ 0 < k := by
  cases n with
  | zero =>
      simp only [entryOf_zero]
      constructor
      · intro h
        cases h
      · rintro ⟨rfl, h⟩
        omega
  | succ n =>
      simp only [entryOf_succ, Option.some.injEq]
      constructor
      · rintro rfl
        exact ⟨rfl, Nat.succ_pos n⟩
      · rintro ⟨h, _⟩
        exact h

@[simp] theorem getD_entryOf (n : Nat) : (entryOf n).getD 0 = n := by
  cases n <;> simp

theorem tallies_empty : Tallies (∅ : AssocMap κ Nat) 0 := by
  intro a
  simp

namespace Tallies

variable {m m' : AssocMap κ Nat} {bag : Multiset κ} {a : κ}

theorem getD_lookup (h : Tallies m bag) (a : κ) : (m.lookup a).getD 0 = bag.count a := by
  rw [h a, getD_entryOf]

theorem lookup_eq_some (h : Tallies m bag) {n : Nat} :
    m.lookup a = some n ↔ bag.count a = n ∧ 0 < n := by
  rw [h a, entryOf_eq_some]

theorem lookup_eq_none (h : Tallies m bag) (ha : a ∉ bag) : m.lookup a = none := by
  rw [h a, Multiset.count_eq_zero.mpr ha, entryOf_zero]

theorem mem_iff (h : Tallies m bag) : a ∈ m ↔ a ∈ bag := by
  rw [mem_iff_lookup, ← Multiset.count_pos]
  constructor
  · rintro ⟨n, hn⟩
    obtain ⟨hcount, hpos⟩ := h.lookup_eq_some.mp hn
    omega
  · intro hpos
    exact ⟨bag.count a, h.lookup_eq_some.mpr ⟨rfl, hpos⟩⟩

/-- One more of a key. -/
theorem cons (h : Tallies m bag) (a : κ) :
    Tallies (m.insert a (bag.count a + 1)) (a ::ₘ bag) := by
  intro b
  rw [lookup_insert_eq]
  by_cases hb : b = a
  · rw [if_pos hb, hb, Multiset.count_cons_self, entryOf_succ]
  · rw [if_neg hb, Multiset.count_cons_of_ne hb, h b]

/-- One fewer of a key, however its entry is changed to that. -/
theorem erase (h : Tallies m bag)
    (hlookup : ∀ b, m'.lookup b = if b = a then entryOf (bag.count a - 1) else m.lookup b) :
    Tallies m' (bag.erase a) := by
  intro b
  rw [hlookup b]
  by_cases hb : b = a
  · rw [if_pos hb, hb, Multiset.count_erase_self]
  · rw [if_neg hb, Multiset.count_erase_of_ne hb, h b]

/-- The values are the multiplicities of the keys. -/
theorem values_eq (h : Tallies m bag) : m.values = m.keys.map fun a => bag.count a := by
  simp only [values, keys, List.keys, List.map_map]
  apply List.map_congr_left
  rintro ⟨a, n⟩ hmem
  exact (h.lookup_eq_some.mp (mem_entries_iff.mp hmem)).1.symm

/-- The counts add up to the number of members. -/
theorem sum_values (h : Tallies m bag) : m.values.sum = bag.card := by
  rw [h.values_eq, ← List.sum_toFinset _ m.keys_nodup]
  apply Multiset.sum_count_eq_card
  intro a ha
  exact List.mem_toFinset.mpr (mem_keys.mp (h.mem_iff.mpr ha))

end Tallies

end AList
