/-
  PlezyRelay/Foundation/Permits.lean
  ==================================
  **Permits that tasks take and give back.**

  A counting semaphore knows how many permits are free and not who has the others.  That
  none is lost, or given back twice, is a matter of the programs: each of them gives back
  what it has taken, on every path, before it returns.

  `Permits` says which responses hand out a permit and which actions give one back;
  `Permits.Scoped` is the rule for a task that has at most one at a time, to be checked on
  the text of the programs.  `Permits.Counts.accounted` then says that, in any interleaving, the
  free permits and the tasks that have one make up all there are.
-/
import Mathlib.Data.Finset.Card
import PlezyRelay.Foundation.Discipline

/-- How permits are taken and given back. -/
structure Permits (Act : Type) (Resp : Act → Type) where
  takes : (a : Act) → Resp a → Bool
  gives : Act → Bool

namespace Permits

variable {ι Act : Type} {Resp : Act → Type} {σ ε Req Amb Loc : Type} (S : Permits Act Resp)

def holds : List (Proc.Done Act Resp) → Bool
  | [] => false
  | ⟨a, r⟩ :: past => !S.gives a && (S.takes a r || holds past)

/-- A task gives back only what it has, and does not ask for a second permit. -/
def Scoped (past : List (Proc.Done Act Resp)) (a : Act) : Prop :=
  (S.gives a = true → S.holds past = true) ∧ ∀ r, S.takes a r = true → S.holds past = false

structure Counts (M : Machine ι Act Resp σ ε Req Amb Loc) (free : σ → Nat) : Prop where
  exec : ∀ {t a e s r s'}, M.exec t a e s = some (r, s') →
    free s' + (if S.takes a r = true ∧ S.gives a = false then 1 else 0) =
      free s + if S.gives a = true then 1 else 0
  ambient : ∀ {m s s'}, M.ambient m s = some s' → free s' = free s

variable {S} {M : Machine ι Act Resp σ ε Req Amb Loc} {free : σ → Nat}
  {trace : ι → σ → List (Proc.Done Act Resp)}

/-- The free permits and the tasks that have one are all there are, if no task that moves
    breaks the rule. -/
theorem Counts.accounted [DecidableEq ι] (hS : S.Counts M free) (hM : M.Traced trace)
    {Init : Sys ι Act Resp σ Loc → Prop} {C : Sys ι Act Resp σ Loc → Label ι ε Req Amb → Prop}
    {total : Nat}
    (hinit : ∀ sys, Init sys → free sys.shared = total ∧ ∀ t, S.holds (trace t sys.shared) = false)
    (hscoped : ∀ {sys}, M.Reachable Init C sys → ∀ t a k, sys.threads t = .act a k →
      S.Scoped (trace t sys.shared) a)
    {sys : Sys ι Act Resp σ Loc} (h : M.Reachable Init C sys) :
    ∃ holders : Finset ι, free sys.shared + holders.card = total ∧
      ∀ t, t ∈ holders ↔ S.holds (trace t sys.shared) = true := by
  induction h with
  | init h =>
      obtain ⟨hfree, hnone⟩ := hinit _ h
      refine ⟨∅, hfree, ?_⟩
      intro t
      simp [hnone t]
  | @step sys sys' l h _ hstep ih =>
      obtain ⟨holders, hcard, hholders⟩ := ih
      rcases M.step_cases hstep with ⟨t, q, loc, p, rfl, _, _, rfl⟩ |
        ⟨t, e, a, k, r, s, rfl, ht, hx, rfl⟩ | ⟨m, s, rfl, hm, rfl⟩
      · exact ⟨holders, hcard, hholders⟩
      · obtain ⟨hgives, htakes⟩ := hscoped h t a k ht
        have hcount := hS.exec hx
        -- the permits of the others stay where they are
        have hothers : ∀ u, u ≠ t → (u ∈ holders ↔ S.holds (trace u s) = true) := by
          intro u hu
          rw [hM.other hx hu]
          exact hholders u
        have hself : S.holds (trace t s) =
            (!S.gives a && (S.takes a r || S.holds (trace t sys.shared))) := by
          rw [hM.own hx]
          rfl
        by_cases hgiven : S.gives a = true
        · have hmem : t ∈ holders := (hholders t).mpr (hgives hgiven)
          refine ⟨holders.erase t, ?_, ?_⟩
          · have hpos := Finset.card_pos.mpr ⟨t, hmem⟩
            rw [Finset.card_erase_of_mem hmem]
            simp only [hgiven, Bool.true_eq_false, and_false, if_false, if_true] at hcount
            dsimp only
            omega
          · intro u
            by_cases hu : u = t
            · subst hu
              simp [hself, hgiven]
            · rw [Finset.mem_erase, ← hothers u hu]
              simp [hu]
        · have hkept : S.gives a = false := Bool.not_eq_true _ ▸ hgiven
          by_cases htaken : S.takes a r = true
          · have hnot : t ∉ holders := by
              rw [hholders t, htakes r htaken]
              simp
            refine ⟨insert t holders, ?_, ?_⟩
            · rw [Finset.card_insert_of_notMem hnot]
              simp only [htaken, hkept, and_self, if_true, Bool.false_eq_true, if_false] at hcount
              dsimp only
              omega
            · intro u
              by_cases hu : u = t
              · subst hu
                simp [hself, hkept, htaken]
              · rw [Finset.mem_insert, ← hothers u hu]
                simp [hu]
          · refine ⟨holders, ?_, ?_⟩
            · simp only [htaken, hkept, false_and, if_false, Bool.false_eq_true] at hcount
              dsimp only
              omega
            · intro u
              by_cases hu : u = t
              · subst hu
                rw [hholders u, hself]
                simp [hkept, htaken]
              · exact hothers u hu
      · refine ⟨holders, ?_, ?_⟩
        · rw [← hcard, hS.ambient hm]
        · intro t
          rw [hholders t, hM.ambient hm t]

end Permits
