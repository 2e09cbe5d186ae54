/-
  PlezyRelay/Foundation/Envelope.lean
  ===================================
  **Draws from a capped supply, and the envelope they stay in.**

  A store of capacity `burst` starts full.  Between two draws it is topped up by what
  the cumulative `supply` has grown by, and it never holds more than its capacity; a
  draw takes one.  `level j` is what is there just before draw `j`.

  The running level forgets the past except for one number.  `le_level_iff` says what
  that number is: the least, over all earlier `i`, of what a store filled up at `i`
  would have left.  So a draw is covered exactly if it fits the envelope over every
  window that ends with it, and draws that are all covered stay in the envelope over
  every window (`drawn_le`).
-/
import Mathlib.Algebra.Order.Ring.Defs
import Mathlib.Algebra.Order.Ring.Cast
import Mathlib.Order.Interval.Finset.Nat
import Mathlib.Tactic.Linarith

namespace Envelope

variable {K : Type*} [CommRing K] [LinearOrder K] [IsStrictOrderedRing K]

/-- The number of draws among `i, …, j - 1`. -/
def drawn (draws : ℕ → Bool) (i j : ℕ) : ℕ := ((Finset.Ico i j).filter (draws · = true)).card

/-- What is there just before draw `j`. -/
def level (burst : K) (supply : ℕ → K) (draws : ℕ → Bool) : ℕ → K
  | 0 => burst
  | j + 1 =>
      min (level burst supply draws j - (if draws j then 1 else 0) + (supply (j + 1) - supply j))
        burst

section Counting

variable {draws : ℕ → Bool} {i j : ℕ}

@[simp] theorem drawn_self : drawn draws j j = 0 := by simp [drawn]

theorem drawn_succ (h : i ≤ j) :
    drawn draws i (j + 1) = drawn draws i j + if draws j then 1 else 0 := by
  have hnew : j ∉ Finset.Ico i j := by simp
  rw [drawn, Nat.Ico_succ_right_eq_insert_Ico h, Finset.filter_insert]
  split
  · rw [Finset.card_insert_of_notMem fun hmem => hnew (Finset.mem_of_mem_filter j hmem), drawn]
  · simp [drawn]

end Counting

variable {burst : K} {supply : ℕ → K} {draws : ℕ → Bool}

/-- The level is the least of what the windows that end here have left. -/
theorem le_level_iff {j : ℕ} {x : K} :
    x ≤ level burst supply draws j ↔
      ∀ i ≤ j, x + drawn draws i j ≤ burst + (supply j - supply i) := by
  induction j generalizing x with
  | zero => simp [level]
  | succ j ih =>
      -- the windows from `i ≤ j` on are those that ended at `j`, one step longer
      have hsplit : x ≤ level burst supply draws j - (if draws j then 1 else 0) +
            (supply (j + 1) - supply j) ↔
          x + (if draws j then 1 else 0) - (supply (j + 1) - supply j) ≤
            level burst supply draws j := by
        constructor <;> intro h <;> linarith
      rw [level, le_min_iff, hsplit, ih]
      constructor
      · rintro ⟨hearlier, hcap⟩ i hi
        rcases Nat.le_succ_iff.mp hi with hi | rfl
        · have hwindow := hearlier i hi
          rw [drawn_succ hi]
          push_cast
          linarith
        · simpa using hcap
      · intro h
        constructor
        · intro i hi
          have hwindow := h i (Nat.le_succ_of_le hi)
          rw [drawn_succ hi] at hwindow
          push_cast at hwindow
          linarith
        · simpa using h (j + 1) le_rfl

/-- Draws that are all covered stay in the envelope over every window. -/
theorem drawn_le (hburst : 0 ≤ burst) (hsupply : Monotone supply)
    (hcovered : ∀ j, draws j = true → 1 ≤ level burst supply draws j) {i j : ℕ} (h : i ≤ j) :
    (drawn draws i (j + 1) : K) ≤ burst + (supply j - supply i) := by
  induction j, h using Nat.le_induction with
  | base =>
      rw [drawn_succ le_rfl, drawn_self]
      cases hdraw : draws i with
      | false => simpa using hburst
      | true =>
          have hfits := le_level_iff.mp (hcovered i hdraw) i le_rfl
          simpa using hfits
  | succ j hj ih =>
      rw [drawn_succ (Nat.le_succ_of_le hj)]
      cases hdraw : draws (j + 1) with
      | false =>
          have hgrows : supply j ≤ supply (j + 1) := hsupply (Nat.le_succ j)
          simp only [Bool.false_eq_true, if_false, add_zero]
          linarith
      | true =>
          have hfits := le_level_iff.mp (hcovered (j + 1) hdraw) i (Nat.le_succ_of_le hj)
          simp only [if_true]
          push_cast
          linarith

end Envelope
