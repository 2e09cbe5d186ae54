/-
  PlezyRelay/Foundation/Discipline.lean
  =====================================
  **Rules a task keeps by its own record, whatever the others do.**

  Some things a task may do only because of what it has done before: close what it has
  opened, pass on what it was given.  Such a rule reads the actions and responses of the
  task itself and nothing of the shared state, so it is checked on the text of the program
  alone: `Proc.Obeys P Q p past` says that `p`, run after `past`, performs each action under
  the rule `P` and ends in `Q`, for every response it can get.

  No interference enters here.  If the shared state of a machine carries a record for each
  thread (`Machine.Traced`), the rule holds of the records of every reachable state
  (`Machine.Traced.obeys`), for any number of threads and any interleaving.
-/
import PlezyRelay.Foundation.Threads

/-- Every element of a history, latest first, satisfies `P` given what came before it. -/
def EachAfter {α : Type} (P : List α → α → Prop) : List α → Prop
  | [] => True
  | x :: earlier => P earlier x ∧ EachAfter P earlier

namespace EachAfter

variable {α : Type} {P : List α → α → Prop} {earlier later : List α} {x : α}

theorem suffix (h : EachAfter P (later ++ earlier)) : EachAfter P earlier := by
  induction later with
  | nil => exact h
  | cons y later ih => exact ih h.2

theorem of_append (h : EachAfter P (later ++ x :: earlier)) : P earlier x := h.suffix.1

end EachAfter

/-- An action that has been performed, with its response. -/
abbrev Proc.Done (Act : Type) (Resp : Act → Type) := (a : Act) × Resp a

namespace Proc

variable {Act : Type} {Resp : Act → Type} {α β : Type}

/-- Run after `past`, the program performs each action under the rule `P` and ends in `Q`. -/
def Obeys (P : List (Done Act Resp) → Act → Prop) (Q : List (Done Act Resp) → α → Prop) :
    Proc Act Resp α → List (Done Act Resp) → Prop
  | ret x, past => Q past x
  | act a k, past => P past a ∧ ∀ r, (k r).Obeys P Q (⟨a, r⟩ :: past)

namespace Obeys

variable {P : List (Done Act Resp) → Act → Prop} {Q : List (Done Act Resp) → α → Prop}
  {past : List (Done Act Resp)}

theorem bind {R : List (Done Act Resp) → β → Prop} {p : Proc Act Resp α}
    {f : α → Proc Act Resp β} (h : p.Obeys P Q past)
    (hf : ∀ x past', Q past' x → (f x).Obeys P R past') : (p.bind f).Obeys P R past := by
  induction p generalizing past with
  | ret x => exact hf x past h
  | act a k ih => exact ⟨h.1, fun r => ih r (h.2 r)⟩

/-- A fact about the past that no further action can undo goes along. -/
theorem frame {F : List (Done Act Resp) → Prop} {p : Proc Act Resp α} (h : p.Obeys P Q past)
    (hF : F past) (hcons : ∀ d past, F past → F (d :: past)) :
    p.Obeys P (fun past x => Q past x ∧ F past) past := by
  induction p generalizing past with
  | ret x => exact ⟨h, hF⟩
  | act a k ih => exact ⟨h.1, fun r => ih r (h.2 r) (hcons _ _ hF)⟩

/-- A program whose actions are all within the rule while `F` holds, and which keeps `F`. -/
theorem of_all {A : Act → Prop} {F : List (Done Act Resp) → Prop} {p : Proc Act Resp α}
    (hp : p.All A) (hF : F past) (hP : ∀ past a, F past → A a → P past a)
    (hcons : ∀ d past, F past → F (d :: past)) : p.Obeys P (fun past _ => F past) past := by
  induction p generalizing past with
  | ret x => exact hF
  | act a k ih => exact ⟨hP past a hF hp.1, fun r => ih r (hp.2 r) (hcons _ _ hF)⟩

theorem forEach {F : List (Done Act Resp) → Prop} {f : α → Proc Act Resp Unit} {xs : List α}
    (hf : ∀ x ∈ xs, ∀ past, F past → (f x).Obeys P (fun past _ => F past) past) (hF : F past) :
    (Proc.forEach f xs).Obeys P (fun past _ => F past) past := by
  induction xs generalizing past with
  | nil => exact hF
  | cons x xs ih =>
      apply bind (hf x List.mem_cons_self past hF)
      intro _ past' hF'
      exact ih (fun y hy => hf y (List.mem_cons_of_mem x hy)) hF'

end Obeys

end Proc

namespace Machine

variable {ι Act : Type} {Resp : Act → Type} {σ ε Req Amb Loc : Type}

/-- The shared state records, for each thread, what it has done. -/
structure Traced (M : Machine ι Act Resp σ ε Req Amb Loc)
    (trace : ι → σ → List (Proc.Done Act Resp)) : Prop where
  own : ∀ {t a e s r s'}, M.exec t a e s = some (r, s') → trace t s' = ⟨a, r⟩ :: trace t s
  other : ∀ {t u a e s r s'}, M.exec t a e s = some (r, s') → u ≠ t → trace u s' = trace u s
  ambient : ∀ {m s s'}, M.ambient m s = some s' → ∀ t, trace t s' = trace t s

variable {M : Machine ι Act Resp σ ε Req Amb Loc} {trace : ι → σ → List (Proc.Done Act Resp)}

/-- The record is in order so far, and the rest of the program will keep it so. -/
def Orderly (P : List (Proc.Done Act Resp) → Act → Prop)
    (Q : List (Proc.Done Act Resp) → Loc → Prop) (p : Proc Act Resp Loc)
    (past : List (Proc.Done Act Resp)) : Prop :=
  EachAfter (fun earlier d => P earlier d.1) past ∧ p.Obeys P Q past

/-- If every program a thread can start obeys its rule, so do the records of all runs. -/
theorem Traced.obeys [DecidableEq ι] (hM : M.Traced trace)
    {Init : Sys ι Act Resp σ Loc → Prop} {C : Sys ι Act Resp σ Loc → Label ι ε Req Amb → Prop}
    {P : ι → List (Proc.Done Act Resp) → Act → Prop}
    {Q : ι → List (Proc.Done Act Resp) → Loc → Prop}
    (hinit : ∀ sys, Init sys → ∀ t, Orderly (P t) (Q t) (sys.threads t) (trace t sys.shared))
    (hstart : ∀ sys t q l p past, C sys (.start t q) → Q t past l → M.start t q l = some p →
      p.Obeys (P t) (Q t) past)
    {sys : Sys ι Act Resp σ Loc} (h : M.Reachable Init C sys) (t : ι) :
    Orderly (P t) (Q t) (sys.threads t) (trace t sys.shared) := by
  induction h with
  | init h => exact hinit _ h t
  | step _ hc hstep ih =>
      rcases M.step_cases hstep with ⟨u, q, loc, p, rfl, hu, hp, rfl⟩ |
        ⟨u, e, a, k, r, s, rfl, hu, hx, rfl⟩ | ⟨m, s, rfl, hm, rfl⟩
      · by_cases htu : t = u
        · subst htu
          rw [hu] at ih
          dsimp only
          rw [Function.update_self]
          exact ⟨ih.1, hstart _ t q loc p _ hc ih.2 hp⟩
        · dsimp only
          rw [Function.update_of_ne htu]
          exact ih
      · by_cases htu : t = u
        · subst htu
          rw [hu] at ih
          dsimp only
          rw [Function.update_self, hM.own hx]
          exact ⟨⟨ih.2.1, ih.1⟩, ih.2.2 r⟩
        · dsimp only
          rw [Function.update_of_ne htu, hM.other hx htu]
          exact ih
      · dsimp only
        rw [hM.ambient hm t]
        exact ih

end Machine
