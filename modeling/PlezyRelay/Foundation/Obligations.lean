/-
  PlezyRelay/Foundation/Obligations.lean
  ======================================
  **Duties that tasks take on and carry out.**

  Some responses tell a task to do something later: to pass a message on, to wake somebody
  up.  `Obligations` say which duties a response brings and which an action carries out.
  The rule `Due` is that a task carries out nothing but what is next in line; it is checked
  on the text of the programs, where `Owes todo` says which duties are still open.

  Of all runs it follows (`Machine.Traced.dutiful`, `Machine.Orderly.settled`) that what a
  task has carried out is, in order and with nothing left out or repeated, the beginning of
  what it was asked, and all of it once the task has come to an end.
  `List.Subperm.of_owners` puts the tasks together: what holds of the part of a history that
  belongs to each task holds of all of it.
-/
import Mathlib.Data.List.Perm.Subperm
import PlezyRelay.Foundation.Discipline

section Owners

variable {α κ ω : Type} [DecidableEq κ] (owner : α → κ)

theorem List.filter_owner_of_ne (l : List α) (j k : κ) :
    ((l.filter fun x => !decide (owner x = k)).filter fun x => decide (owner x = j)) =
      if j = k then [] else l.filter fun x => decide (owner x = j) := by
  rw [List.filter_filter]
  split
  · rename_i hjk
    simp [hjk]
  · rename_i hjk
    apply List.filter_congr
    intro x _
    by_cases hx : owner x = j <;> simp [hx, hjk]

/-- Two ways to read a list compare as they do on the elements of each owner. -/
theorem List.Subperm.of_owners {f g : α → List ω} (l : List α)
    (h : ∀ k, ((l.filter fun x => decide (owner x = k)).flatMap f).Subperm
      ((l.filter fun x => decide (owner x = k)).flatMap g)) :
    (l.flatMap f).Subperm (l.flatMap g) := by
  -- the elements of one owner are split off, and what is left is shorter
  induction hn : l.length using Nat.strongRecOn generalizing l with
  | ind n ih =>
      cases l with
      | nil => exact List.Subperm.refl _
      | cons x xs =>
          have hshorter : ((x :: xs).filter fun y => !decide (owner y = owner x)).length < n := by
            rw [← hn, List.length_filter_lt_length_iff_exists]
            exact ⟨x, List.mem_cons_self, by simp⟩
          have hrest := ih _ hshorter _ (fun j => by
            rw [List.filter_owner_of_ne]
            split
            · exact List.Subperm.refl _
            · exact h j) rfl
          have hboth := (h (owner x)).append hrest
          rw [← List.flatMap_append, ← List.flatMap_append] at hboth
          have hsplit := List.filter_append_perm (fun y => decide (owner y = owner x)) (x :: xs)
          exact ((hsplit.flatMap_right f).symm.subperm.trans hboth).trans
            (hsplit.flatMap_right g).subperm

end Owners

/-- Which duties a response brings, and which an action carries out. -/
structure Obligations (Act : Type) (Resp : Act → Type) (ω : Type) where
  asks : (a : Act) → Resp a → List ω
  pays : Act → List ω

namespace Obligations

variable {Act : Type} {Resp : Act → Type} {ω α : Type} (L : Obligations Act Resp ω)

/-- The duties so far, oldest first. -/
def asked : List (Proc.Done Act Resp) → List ω
  | [] => []
  | ⟨a, r⟩ :: past => asked past ++ L.asks a r

/-- What has been carried out, oldest first. -/
def paid : List (Proc.Done Act Resp) → List ω
  | [] => []
  | ⟨a, _⟩ :: past => paid past ++ L.pays a

theorem asked_perm (past : List (Proc.Done Act Resp)) :
    (L.asked past).Perm (past.flatMap fun d => L.asks d.1 d.2) := by
  induction past with
  | nil => exact List.Perm.refl _
  | cons d past ih => exact (ih.append_right _).trans List.perm_append_comm

theorem paid_perm (past : List (Proc.Done Act Resp)) :
    (L.paid past).Perm (past.flatMap fun d => L.pays d.1) := by
  induction past with
  | nil => exact List.Perm.refl _
  | cons d past ih => exact (ih.append_right _).trans List.perm_append_comm

/-- What the action carries out is next in line. -/
def Due (past : List (Proc.Done Act Resp)) (a : Act) : Prop :=
  L.paid past ++ L.pays a <+: L.asked past

/-- These duties are still open. -/
def Owes (todo : List ω) (past : List (Proc.Done Act Resp)) : Prop :=
  L.asked past = L.paid past ++ todo

/-- The action has to do with no duties. -/
structure Idle (a : Act) : Prop where
  pays : L.pays a = []
  asks : ∀ r, L.asks a r = []

variable {L}

/-- What has been carried out is the beginning of what was asked. -/
theorem paid_prefix {past : List (Proc.Done Act Resp)}
    (h : EachAfter (fun earlier d => L.Due earlier d.1) past) : L.paid past <+: L.asked past := by
  cases past with
  | nil => exact List.prefix_rfl
  | cons d past =>
      obtain ⟨a, r⟩ := d
      exact h.1.trans (List.prefix_append _ _)

variable {past : List (Proc.Done Act Resp)} {todo : List ω} {a : Act}

theorem Owes.due (h : L.Owes (L.pays a ++ todo) past) : L.Due past a := by
  rw [Due, h, ← List.append_assoc]
  exact List.prefix_append _ _

theorem Owes.pay (h : L.Owes (L.pays a ++ todo) past) {r : Resp a} (hasks : L.asks a r = []) :
    L.Owes todo (⟨a, r⟩ :: past) := by
  rw [Owes, asked, paid, hasks, h, List.append_nil, List.append_assoc]

theorem Owes.ask (h : L.Owes todo past) (hpays : L.pays a = []) (r : Resp a) :
    L.Owes (todo ++ L.asks a r) (⟨a, r⟩ :: past) := by
  rw [Owes, asked, paid, hpays, h, List.append_nil, List.append_assoc]

theorem Owes.due_of_idle (h : L.Owes todo past) (hpays : L.pays a = []) : L.Due past a := by
  have hnext : L.Owes (L.pays a ++ todo) past := by
    rw [hpays]
    exact h
  exact hnext.due

theorem Owes.idle (h : L.Owes todo past) (hidle : L.Idle a) (r : Resp a) :
    L.Owes todo (⟨a, r⟩ :: past) := by
  have hask := h.ask hidle.pays r
  rwa [hidle.asks r, List.append_nil] at hask

variable {Q : List (Proc.Done Act Resp) → α → Prop}

theorem obeys_idle {k : Resp a → Proc Act Resp α} (hidle : L.Idle a) (h : L.Owes todo past)
    (hk : ∀ r past, L.Owes todo past → (k r).Obeys L.Due Q past) :
    (Proc.act a k).Obeys L.Due Q past := by
  refine ⟨h.due_of_idle hidle.pays, ?_⟩
  intro r
  exact hk r _ (h.idle hidle r)

theorem obeys_ask {k : Resp a → Proc Act Resp α} (hpays : L.pays a = []) (h : L.Owes [] past)
    (hk : ∀ r past, L.Owes (L.asks a r) past → (k r).Obeys L.Due Q past) :
    (Proc.act a k).Obeys L.Due Q past := by
  refine ⟨h.due_of_idle hpays, ?_⟩
  intro r
  exact hk r _ (h.ask hpays r)

theorem obeys_of_idle {p : Proc Act Resp α} (hp : p.All L.Idle) (h : L.Owes todo past) :
    p.Obeys L.Due (fun past _ => L.Owes todo past) past := by
  induction p generalizing past with
  | ret x => exact h
  | act a k ih =>
      apply obeys_idle hp.1 h
      intro r past' h'
      exact ih r (hp.2 r) h'

theorem obeys_perform (hasks : ∀ r, L.asks a r = []) (h : L.Owes (L.pays a ++ todo) past) :
    (Proc.perform a : Proc Act Resp _).Obeys L.Due (fun past _ => L.Owes todo past) past :=
  ⟨h.due, fun r => h.pay (hasks r)⟩

/-- A loop whose rounds carry out their duties one after the other. -/
theorem obeys_forEach {β : Type} {f : β → Proc Act Resp Unit} {duties : β → List ω}
    {xs : List β}
    (hf : ∀ x todo past, L.Owes (duties x ++ todo) past →
      (f x).Obeys L.Due (fun past _ => L.Owes todo past) past)
    (h : L.Owes (xs.flatMap duties ++ todo) past) :
    (Proc.forEach f xs).Obeys L.Due (fun past _ => L.Owes todo past) past := by
  induction xs generalizing past with
  | nil => exact h
  | cons x xs ih =>
      rw [List.flatMap_cons, List.append_assoc] at h
      apply Proc.Obeys.bind (hf x _ past h)
      intro _ past' h'
      exact ih h'

end Obligations

namespace Machine

variable {ι Act : Type} {Resp : Act → Type} {σ ε Req Amb Loc ω : Type} [DecidableEq ι]
  {M : Machine ι Act Resp σ ε Req Amb Loc} {trace : ι → σ → List (Proc.Done Act Resp)}

/-- If every program carries out its duties before it ends, so do the threads of all runs. -/
theorem Traced.dutiful (hM : M.Traced trace) {Init : Sys ι Act Resp σ Loc → Prop}
    {C : Sys ι Act Resp σ Loc → Label ι ε Req Amb → Prop} {L : ι → Obligations Act Resp ω}
    {Q : ι → List (Proc.Done Act Resp) → Loc → Prop}
    (hinit : ∀ sys, Init sys → ∀ t, Orderly (L t).Due
      (fun past l => (L t).Owes [] past ∧ Q t past l) (sys.threads t) (trace t sys.shared))
    (hstart : ∀ t q l p past, (L t).Owes [] past → Q t past l → M.start t q l = some p →
      p.Obeys (L t).Due (fun past l => (L t).Owes [] past ∧ Q t past l) past)
    {sys : Sys ι Act Resp σ Loc} (h : M.Reachable Init C sys) (t : ι) :
    Orderly (L t).Due (fun past l => (L t).Owes [] past ∧ Q t past l) (sys.threads t)
      (trace t sys.shared) :=
  hM.obeys hinit (fun _ t q l p past _ hl => hstart t q l p past hl.1 hl.2) h t

/-- Such a thread has carried out a beginning of its duties, and all of them at rest. -/
theorem Orderly.settled {L : Obligations Act Resp ω} {Q : List (Proc.Done Act Resp) → Loc → Prop}
    {p : Proc Act Resp Loc} {past : List (Proc.Done Act Resp)}
    (h : Orderly L.Due (fun past l => L.Owes [] past ∧ Q past l) p past) :
    L.paid past <+: L.asked past ∧ ∀ l, p = .ret l → L.paid past = L.asked past := by
  refine ⟨Obligations.paid_prefix h.1, ?_⟩
  rintro l rfl
  have howes : L.Owes [] past := h.2.1
  rw [Obligations.Owes, List.append_nil] at howes
  exact howes.symm

end Machine
