/-
  PlezyRelay/Foundation/Threads.lean
  ==================================
  **Programs of atomic actions, and machines that interleave them.**

  A `Proc` is the text of a sequential task seen from the shared state: a tree of
  atomic actions, each continuing with the response it gets.  Local variables and
  control flow are Lean's own, so a task is written in `do` notation.

  A `Machine` says what an action does to the shared state (`none` where it has to
  wait), which program a thread starts on a request, and which steps the
  environment takes by itself.  `Machine.step` is executable: a label says who moves
  and with which outside readings, so a concrete schedule can be run.  `Reachable`
  collects the states of all schedules whose steps meet a given condition.
-/
import Mathlib.Logic.Function.Basic

/-- A task: it returns, or performs one atomic action and goes on with its response. -/
inductive Proc (Act : Type) (Resp : Act → Type) (α : Type) where
  | ret (x : α) : Proc Act Resp α
  | act (a : Act) (k : Resp a → Proc Act Resp α) : Proc Act Resp α

namespace Proc

variable {Act : Type} {Resp : Act → Type} {α β : Type}

def bind : Proc Act Resp α → (α → Proc Act Resp β) → Proc Act Resp β
  | ret x, f => f x
  | act a k, f => act a fun r => (k r).bind f

instance : Monad (Proc Act Resp) where
  pure := ret
  bind := bind

/-- The task that performs `a` and returns its response. -/
def perform (a : Act) : Proc Act Resp (Resp a) := act a ret

/-- `p` if the flag is set. -/
def when (b : Bool) (p : Proc Act Resp Unit) : Proc Act Resp Unit := if b then p else ret ()

/-- `f` for each element, in order. -/
def forEach (f : α → Proc Act Resp Unit) : List α → Proc Act Resp Unit
  | [] => ret ()
  | x :: xs => (f x).bind fun _ => forEach f xs

/-- The action the program performs next. -/
def next : Proc Act Resp α → Option Act
  | ret _ => none
  | act a _ => some a

theorem eq_act_of_next {p : Proc Act Resp α} {a : Act} (h : p.next = some a) :
    ∃ k, p = act a k := by
  cases p with
  | ret x => cases h
  | act b k => cases h; exact ⟨k, rfl⟩

/-- What the program has returned. -/
def result : Proc Act Resp α → Option α
  | ret x => some x
  | act _ _ => none

theorem eq_ret_of_result {p : Proc Act Resp α} {x : α} (h : p.result = some x) : p = ret x := by
  cases p with
  | ret y => cases h; rfl
  | act a k => cases h

/-- Every action the program can come to satisfies `P`. -/
def All (P : Act → Prop) : Proc Act Resp α → Prop
  | ret _ => True
  | act a k => P a ∧ ∀ r, (k r).All P

@[simp] theorem pure_eq (x : α) : (pure x : Proc Act Resp α) = ret x := rfl

@[simp] theorem bind_eq (p : Proc Act Resp α) (f : α → Proc Act Resp β) :
    p >>= f = p.bind f := rfl

@[simp] theorem ret_bind (x : α) (f : α → Proc Act Resp β) : (ret x).bind f = f x := rfl

@[simp] theorem act_bind (a : Act) (k : Resp a → Proc Act Resp α) (f : α → Proc Act Resp β) :
    (act a k).bind f = act a fun r => (k r).bind f := rfl

@[simp] theorem perform_bind (a : Act) (f : Resp a → Proc Act Resp β) :
    (perform a).bind f = act a f := rfl

section All

variable {P : Act → Prop}

theorem All.bind {p : Proc Act Resp α} {f : α → Proc Act Resp β} (hp : p.All P)
    (hf : ∀ x, (f x).All P) : (p.bind f).All P := by
  induction p with
  | ret x => exact hf x
  | act a k ih => exact ⟨hp.1, fun r => ih r (hp.2 r)⟩

theorem All.forEach {f : α → Proc Act Resp Unit} {xs : List α} (hf : ∀ x ∈ xs, (f x).All P) :
    (Proc.forEach f xs).All P := by
  induction xs with
  | nil => trivial
  | cons x xs ih =>
      exact (hf x List.mem_cons_self).bind fun _ => ih fun y hy => hf y (List.mem_cons_of_mem x hy)

theorem All.when {b : Bool} {p : Proc Act Resp Unit} (hp : p.All P) : (Proc.when b p).All P := by
  cases b with
  | true => exact hp
  | false => trivial

theorem All.mono {P' : Act → Prop} {p : Proc Act Resp α} (hp : p.All P) (h : ∀ a, P a → P' a) :
    p.All P' := by
  induction p with
  | ret x => trivial
  | act a k ih => exact ⟨h a hp.1, fun r => ih r (hp.2 r)⟩

theorem all_true (p : Proc Act Resp α) : p.All fun _ => True := by
  induction p with
  | ret x => trivial
  | act a k ih => exact ⟨trivial, ih⟩

end All

end Proc

/-- What the actions, the requests and the environment do. -/
structure Machine (ι Act : Type) (Resp : Act → Type) (σ ε Req Amb Loc : Type) where
  /-- One action of a thread, given the outside readings; `none` while it waits. -/
  exec : ι → (a : Act) → ε → σ → Option (Resp a × σ)
  /-- The program an idle thread runs on a request. -/
  start : ι → Req → Loc → Option (Proc Act Resp Loc)
  /-- One step the environment takes by itself. -/
  ambient : Amb → σ → Option σ

/-- The shared state and what every thread has left to do; an idle thread has
    returned its local state. -/
structure Sys (ι Act : Type) (Resp : Act → Type) (σ Loc : Type) where
  shared : σ
  threads : ι → Proc Act Resp Loc

/-- Who moves next. -/
inductive Label (ι ε Req Amb : Type) where
  | start (t : ι) (q : Req)
  | act (t : ι) (e : ε)
  | ambient (m : Amb)

/-- The thread that moves. -/
def Label.thread {ι ε Req Amb : Type} : Label ι ε Req Amb → Option ι
  | .start t _ | .act t _ => some t
  | .ambient _ => none

namespace Machine

variable {ι Act : Type} {Resp : Act → Type} {σ ε Req Amb Loc α β : Type}
  (M : Machine ι Act Resp σ ε Req Amb Loc)

section Steps

variable [DecidableEq ι]

def step (sys : Sys ι Act Resp σ Loc) : Label ι ε Req Amb → Option (Sys ι Act Resp σ Loc)
  | .start t q =>
      match sys.threads t with
      | .ret l => (M.start t q l).map fun p => ⟨sys.shared, Function.update sys.threads t p⟩
      | .act _ _ => none
  | .act t e =>
      match sys.threads t with
      | .ret _ => none
      | .act a k => (M.exec t a e sys.shared).map fun x =>
          ⟨x.2, Function.update sys.threads t (k x.1)⟩
  | .ambient m => (M.ambient m sys.shared).map fun s => ⟨s, sys.threads⟩

/-- A whole schedule; `none` if one of its steps is not enabled or does not meet `C`. -/
def run (C : Sys ι Act Resp σ Loc → Label ι ε Req Amb → Prop) [∀ sys l, Decidable (C sys l)]
    (sys : Sys ι Act Resp σ Loc) : List (Label ι ε Req Amb) → Option (Sys ι Act Resp σ Loc)
  | [] => some sys
  | l :: ls => if C sys l then (M.step sys l).bind fun sys' => run C sys' ls else none

/-- A thread starts a program. -/
theorem step_start {sys sys' : Sys ι Act Resp σ Loc} {t : ι} {q : Req}
    (h : M.step sys (.start t q) = some sys') :
    ∃ loc p, sys.threads t = .ret loc ∧ M.start t q loc = some p ∧
      sys' = ⟨sys.shared, Function.update sys.threads t p⟩ := by
  cases ht : sys.threads t with
  | act a k => simp [step, ht] at h
  | ret loc =>
      simp only [step, ht, Option.map_eq_some_iff] at h
      obtain ⟨p, hp, rfl⟩ := h
      exact ⟨loc, p, rfl, hp, rfl⟩

/-- A thread performs its next action. -/
theorem step_act {sys sys' : Sys ι Act Resp σ Loc} {t : ι} {e : ε}
    (h : M.step sys (.act t e) = some sys') :
    ∃ a k r s, sys.threads t = .act a k ∧ M.exec t a e sys.shared = some (r, s) ∧
      sys' = ⟨s, Function.update sys.threads t (k r)⟩ := by
  cases ht : sys.threads t with
  | ret loc => simp [step, ht] at h
  | act a k =>
      simp only [step, ht, Option.map_eq_some_iff] at h
      obtain ⟨⟨r, s⟩, hx, rfl⟩ := h
      exact ⟨a, k, r, s, rfl, hx, rfl⟩

/-- The environment takes a step. -/
theorem step_ambient {sys sys' : Sys ι Act Resp σ Loc} {m : Amb}
    (h : M.step sys (.ambient m) = some sys') :
    ∃ s, M.ambient m sys.shared = some s ∧ sys' = ⟨s, sys.threads⟩ := by
  simp only [step, Option.map_eq_some_iff] at h
  obtain ⟨s, hs, rfl⟩ := h
  exact ⟨s, hs, rfl⟩

/-- The three kinds of steps. -/
theorem step_cases {sys sys' : Sys ι Act Resp σ Loc} {l : Label ι ε Req Amb}
    (h : M.step sys l = some sys') :
    (∃ t q loc p, l = .start t q ∧ sys.threads t = .ret loc ∧ M.start t q loc = some p ∧
      sys' = ⟨sys.shared, Function.update sys.threads t p⟩) ∨
    (∃ t e a k r s, l = .act t e ∧ sys.threads t = .act a k ∧
      M.exec t a e sys.shared = some (r, s) ∧
      sys' = ⟨s, Function.update sys.threads t (k r)⟩) ∨
    (∃ m s, l = .ambient m ∧ M.ambient m sys.shared = some s ∧ sys' = ⟨s, sys.threads⟩) := by
  cases l with
  | start t q =>
      obtain ⟨loc, p, hstep⟩ := M.step_start h
      exact Or.inl ⟨t, q, loc, p, rfl, hstep⟩
  | act t e =>
      obtain ⟨a, k, r, s, hstep⟩ := M.step_act h
      exact Or.inr (Or.inl ⟨t, e, a, k, r, s, rfl, hstep⟩)
  | ambient m =>
      obtain ⟨s, hstep⟩ := M.step_ambient h
      exact Or.inr (Or.inr ⟨m, s, rfl, hstep⟩)

/-- The states of all runs from `Init` whose steps meet `C`. -/
inductive Reachable (Init : Sys ι Act Resp σ Loc → Prop)
    (C : Sys ι Act Resp σ Loc → Label ι ε Req Amb → Prop) : Sys ι Act Resp σ Loc → Prop where
  | init {sys : Sys ι Act Resp σ Loc} (h : Init sys) : Reachable Init C sys
  | step {sys sys' : Sys ι Act Resp σ Loc} {l : Label ι ε Req Amb} (h : Reachable Init C sys)
      (hc : C sys l) (hstep : M.step sys l = some sys') : Reachable Init C sys'

variable {M}

theorem Reachable.mono {Init : Sys ι Act Resp σ Loc → Prop}
    {C C' : Sys ι Act Resp σ Loc → Label ι ε Req Amb → Prop} (hC : ∀ sys l, C sys l → C' sys l)
    {sys : Sys ι Act Resp σ Loc} (h : M.Reachable Init C sys) : M.Reachable Init C' sys := by
  induction h with
  | init h => exact .init h
  | step _ hc hstep ih => exact .step ih (hC _ _ hc) hstep

/-- Every run starts somewhere. -/
theorem Reachable.exists_init {Init : Sys ι Act Resp σ Loc → Prop}
    {C : Sys ι Act Resp σ Loc → Label ι ε Req Amb → Prop} {sys : Sys ι Act Resp σ Loc}
    (h : M.Reachable Init C sys) : ∃ sys₀, Init sys₀ ∧ M.Reachable (· = sys₀) C sys := by
  induction h with
  | init h => exact ⟨_, h, .init rfl⟩
  | step _ hc hstep ih =>
      obtain ⟨sys₀, hinit, hreach⟩ := ih
      exact ⟨sys₀, hinit, .step hreach hc hstep⟩

/-- A run from one start is a run from any set of starts with it. -/
theorem Reachable.of_init {Init : Sys ι Act Resp σ Loc → Prop}
    {C : Sys ι Act Resp σ Loc → Label ι ε Req Amb → Prop} {sys₀ sys : Sys ι Act Resp σ Loc}
    (h : M.Reachable (· = sys₀) C sys) (hinit : Init sys₀) : M.Reachable Init C sys := by
  induction h with
  | init h => exact .init (h ▸ hinit)
  | step _ hc hstep ih => exact .step ih hc hstep

/-- A run that goes on where another has ended. -/
theorem Reachable.trans {Init : Sys ι Act Resp σ Loc → Prop}
    {C : Sys ι Act Resp σ Loc → Label ι ε Req Amb → Prop} {sys sys' : Sys ι Act Resp σ Loc}
    (h : M.Reachable Init C sys) (h' : M.Reachable (· = sys) C sys') : M.Reachable Init C sys' := by
  induction h' with
  | init heq => exact heq ▸ h
  | step _ hc hstep ih => exact .step ih hc hstep

/-- A schedule that runs leads to a reachable state. -/
theorem Reachable.run {Init : Sys ι Act Resp σ Loc → Prop}
    {C : Sys ι Act Resp σ Loc → Label ι ε Req Amb → Prop} [∀ sys l, Decidable (C sys l)]
    {sys sys' : Sys ι Act Resp σ Loc} (h : M.Reachable Init C sys)
    (ls : List (Label ι ε Req Amb)) (hrun : M.run C sys ls = some sys') :
    M.Reachable Init C sys' := by
  induction ls generalizing sys with
  | nil => cases hrun; exact h
  | cons l ls ih =>
      simp only [Machine.run] at hrun
      split at hrun
      · rename_i hc
        obtain ⟨mid, hmid, hrest⟩ := Option.bind_eq_some_iff.mp hrun
        exact ih (.step h hc hmid) hrest
      · cases hrun

/-- A thread that does not move stays as it is. -/
theorem step_threads {sys sys' : Sys ι Act Resp σ Loc} {l : Label ι ε Req Amb} {t : ι}
    (h : M.step sys l = some sys') (ht : l.thread ≠ some t) :
    sys'.threads t = sys.threads t := by
  rcases M.step_cases h with ⟨u, q, loc, p, rfl, _, _, rfl⟩ | ⟨u, e, a, k, r, s, rfl, _, _, rfl⟩ |
    ⟨m, s, rfl, _, rfl⟩
  · exact Function.update_of_ne (fun heq => ht (by rw [heq]; rfl)) _ _
  · exact Function.update_of_ne (fun heq => ht (by rw [heq]; rfl)) _ _
  · rfl

theorem run_threads {C : Sys ι Act Resp σ Loc → Label ι ε Req Amb → Prop}
    [∀ sys l, Decidable (C sys l)] {sys sys' : Sys ι Act Resp σ Loc}
    {ls : List (Label ι ε Req Amb)} {t : ι} (h : M.run C sys ls = some sys')
    (ht : ∀ l ∈ ls, l.thread ≠ some t) : sys'.threads t = sys.threads t := by
  induction ls generalizing sys with
  | nil => cases h; rfl
  | cons l ls ih =>
      simp only [Machine.run] at h
      split at h
      · obtain ⟨mid, hmid, hrest⟩ := Option.bind_eq_some_iff.mp h
        rw [ih hrest fun l' hl' => ht l' (List.mem_cons_of_mem l hl')]
        exact step_threads hmid (ht l List.mem_cons_self)
      · cases h

/-- What a concrete schedule leads to. -/
theorem Reachable.exists_of_run {Init : Sys ι Act Resp σ Loc → Prop}
    {C : Sys ι Act Resp σ Loc → Label ι ε Req Amb → Prop} [∀ sys l, Decidable (C sys l)]
    {P : Sys ι Act Resp σ Loc → Prop} [DecidablePred P] {sys : Sys ι Act Resp σ Loc}
    (h : M.Reachable Init C sys) {ls : List (Label ι ε Req Amb)}
    (hrun : ((M.run C sys ls).any fun sys' => decide (P sys')) = true) :
    ∃ sys', M.Reachable Init C sys' ∧ P sys' := by
  obtain ⟨sys', hsys', hP⟩ := (Option.any_eq_true _ _).mp hrun
  exact ⟨sys', h.run ls hsys', of_decide_eq_true hP⟩

/-- As `exists_of_run`, where every label meets the condition in any state. -/
theorem Reachable.exists_of_labels {Init : Sys ι Act Resp σ Loc → Prop}
    {C : Sys ι Act Resp σ Loc → Label ι ε Req Amb → Prop} {P : Sys ι Act Resp σ Loc → Prop}
    [DecidablePred P] {sys : Sys ι Act Resp σ Loc} (h : M.Reachable Init C sys)
    {ls : List (Label ι ε Req Amb)} (hls : ∀ l ∈ ls, ∀ sys, C sys l)
    (hrun : ((M.run (fun _ _ => True) sys ls).any fun sys' => decide (P sys')) = true) :
    ∃ sys', M.Reachable Init C sys' ∧ P sys' := by
  obtain ⟨sys', hsys', hP⟩ := (Option.any_eq_true _ _).mp hrun
  refine ⟨sys', ?_, of_decide_eq_true hP⟩
  clear hrun hP
  induction ls generalizing sys with
  | nil => cases hsys'; exact h
  | cons l ls ih =>
      simp only [Machine.run, if_true] at hsys'
      obtain ⟨mid, hmid, hrest⟩ := Option.bind_eq_some_iff.mp hsys'
      exact ih (.step h (hls l List.mem_cons_self sys) hmid)
        (fun l' hl' => hls l' (List.mem_cons_of_mem l hl')) hrest

end Steps

/-- One thread runs a program to its end; only the environment moves in between. -/
inductive Runs (t : ι) : Proc Act Resp α → σ → α → σ → Prop where
  | ret (x : α) (s : σ) : Runs t (.ret x) s x s
  | act {a : Act} {k : Resp a → Proc Act Resp α} {e : ε} {s s' s'' : σ} {r : Resp a} {x : α}
      (hexec : M.exec t a e s = some (r, s')) (h : Runs t (k r) s' x s'') :
      Runs t (.act a k) s x s''
  | ambient {p : Proc Act Resp α} {m : Amb} {s s' s'' : σ} {x : α}
      (hamb : M.ambient m s = some s') (h : Runs t p s' x s'') : Runs t p s x s''

variable {M} in
/-- A program runs to its end if its actions are enabled under `A` and keep it. -/
theorem runs_of_all {t : ι} {P : Act → Prop} {A : σ → Prop} {p : Proc Act Resp α} {s : σ}
    (hp : p.All P) (hA : A s)
    (hexec : ∀ a s, P a → A s → ∃ e r s', M.exec t a e s = some (r, s') ∧ A s') :
    ∃ x s', M.Runs t p s x s' := by
  induction p generalizing s with
  | ret x => exact ⟨x, s, .ret x s⟩
  | act a k ih =>
      obtain ⟨e, r, s₁, hstep, hA₁⟩ := hexec a s hp.1 hA
      obtain ⟨x, s', hruns⟩ := ih r (hp.2 r) hA₁
      exact ⟨x, s', .act hstep hruns⟩

variable {M} in
/-- A program that runs to its end alone does so as part of a run of the machine. -/
theorem Runs.reachable [DecidableEq ι] {t : ι} {p : Proc Act Resp Loc} {s s' : σ} {x : Loc}
    {threads : ι → Proc Act Resp Loc} {C : Sys ι Act Resp σ Loc → Label ι ε Req Amb → Prop}
    (hact : ∀ sys e, C sys (.act t e)) (hambient : ∀ sys m, C sys (.ambient m))
    (h : M.Runs t p s x s') (hp : threads t = p) :
    ∃ threads', M.Reachable (· = ⟨s, threads⟩) C ⟨s', threads'⟩ ∧ threads' t = .ret x := by
  induction h generalizing threads with
  | ret x s => exact ⟨threads, .init rfl, hp⟩
  | @act a k e s s₁ s₂ r x hexec _ ih =>
      obtain ⟨threads', hreach, hend⟩ :=
        ih (Function.update_self t (k r) threads : Function.update threads t (k r) t = k r)
      have hstep : M.step ⟨s, threads⟩ (.act t e) =
          some ⟨s₁, Function.update threads t (k r)⟩ := by
        simp [step, hp, hexec]
      have hfirst : M.Reachable (· = ⟨s, threads⟩) C ⟨s₁, Function.update threads t (k r)⟩ :=
        .step (.init rfl) (hact _ e) hstep
      exact ⟨threads', hfirst.trans hreach, hend⟩
  | @ambient p m s s₁ s₂ x hamb _ ih =>
      obtain ⟨threads', hreach, hend⟩ := ih hp
      have hstep : M.step ⟨s, threads⟩ (.ambient m) = some ⟨s₁, threads⟩ := by
        simp [step, hamb]
      have hfirst : M.Reachable (· = ⟨s, threads⟩) C ⟨s₁, threads⟩ :=
        .step (.init rfl) (hambient _ m) hstep
      exact ⟨threads', hfirst.trans hreach, hend⟩

/-- Running a program alone with the same outside readings throughout; `none` if it has
    to wait. -/
def runAlone (t : ι) (e : ε) : Proc Act Resp α → σ → Option (α × σ)
  | .ret x, s => some (x, s)
  | .act a k, s => (M.exec t a e s).bind fun r => runAlone t e (k r.1) r.2

variable {M} in
theorem runs_of_runAlone {t : ι} {e : ε} {p : Proc Act Resp α} {s s' : σ} {x : α}
    (h : M.runAlone t e p s = some (x, s')) : M.Runs t p s x s' := by
  induction p generalizing s with
  | ret y => cases h; exact .ret _ _
  | act a k ih =>
      obtain ⟨⟨r, s₁⟩, hexec, hrest⟩ := Option.bind_eq_some_iff.mp h
      exact .act hexec (ih r hrest)

end Machine
