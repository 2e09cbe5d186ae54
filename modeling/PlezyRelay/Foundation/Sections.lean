/-
  PlezyRelay/Foundation/Sections.lean
  ===================================
  **Atomic sections made of locks.**

  A machine whose actions are atomic says nothing about how long an action waits.
  `Sections` assigns to its actions the locks the code takes for them; the locked machine
  then runs the same programs with a step for every request, every grant, every action
  and every release.  What it reaches, the machine with atomic actions reaches too, so
  the invariants of that machine carry over.
-/
import PlezyRelay.Foundation.Locks
import PlezyRelay.Foundation.Threads

/-! ### The locked machine -/

/-- The locks that actions and steps of the environment take. -/
structure Sections (Act σ Λ : Type) where
  /-- What an action takes before it acts. -/
  takes : Act → Option (Λ × Access)
  /-- Whether it stays taken after the action. -/
  keeps : Act → Bool
  /-- What an action gives back that was kept. -/
  gives : Act → Option Λ
  /-- What the next step of the environment takes for itself. -/
  ambient : σ → Option (Λ × Access)

/-- Where an agent is with the lock of its next step. -/
inductive LockStage (Λ : Type) where
  | ready
  | queued (l : Λ) (access : Access)
  | granted (l : Λ) (access : Access)
  | leaving (l : Λ)
deriving DecidableEq

/-- A system with its locks; the agents are the threads and, as `none`, the environment. -/
structure LockedSys (ι Act : Type) (Resp : Act → Type) (σ Loc Λ : Type) where
  sys : Sys ι Act Resp σ Loc
  locks : Λ → RwLock (Option ι) := fun _ => {}
  stage : Option ι → LockStage Λ := fun _ => .ready

inductive LockedLabel (ι ε Req Amb Λ : Type) where
  | start (t : ι) (q : Req)
  | request (x : Option ι)
  | grant (l : Λ)
  | act (t : ι) (e : ε)
  | ambient (m : Amb)
  | release (x : Option ι)

namespace Sections

variable {ι Act : Type} {Resp : Act → Type} {σ ε Req Amb Loc Λ : Type} [DecidableEq ι]
  [DecidableEq Λ] (S : Sections Act σ Λ) (M : Machine ι Act Resp σ ε Req Amb Loc)

/-- The lock of an agent's next step. -/
def needs (s : LockedSys ι Act Resp σ Loc Λ) : Option ι → Option (Λ × Access)
  | some t => (s.sys.threads t).next.bind S.takes
  | none => S.ambient s.sys.shared

/-- The stage in which an agent may take its next step. -/
def entry (s : LockedSys ι Act Resp σ Loc Λ) (x : Option ι) : LockStage Λ :=
  match S.needs s x with
  | none => .ready
  | some (l, access) => .granted l access

/-- The locks after an action. -/
def afterAct (s : LockedSys ι Act Resp σ Loc Λ) (t : ι) (a : Act) (sys : Sys ι Act Resp σ Loc) :
    LockedSys ι Act Resp σ Loc Λ :=
  match S.takes a, S.gives a with
  | some (l, _), _ =>
      { s with
        sys := sys
        stage := Function.update s.stage (some t) (if S.keeps a then .ready else .leaving l) }
  | none, some l =>
      { s with sys := sys, locks := Function.update s.locks l ((s.locks l).release (some t)) }
  | none, none => { s with sys := sys }

/-- The locks after a step of the environment. -/
def afterAmbient (s : LockedSys ι Act Resp σ Loc Λ) (sys : Sys ι Act Resp σ Loc) :
    LockedSys ι Act Resp σ Loc Λ :=
  match S.ambient s.sys.shared with
  | some (l, _) => { s with sys := sys, stage := Function.update s.stage none (.leaving l) }
  | none => { s with sys := sys }

def step (s : LockedSys ι Act Resp σ Loc Λ) :
    LockedLabel ι ε Req Amb Λ → Option (LockedSys ι Act Resp σ Loc Λ)
  | .start t q =>
      if s.stage (some t) = .ready then
        (M.step s.sys (.start t q)).map fun sys => { s with sys := sys }
      else none
  | .request x =>
      match s.stage x, S.needs s x with
      | .ready, some (l, access) =>
          some
            { s with
              locks := Function.update s.locks l ((s.locks l).request x access)
              stage := Function.update s.stage x (.queued l access) }
      | _, _ => none
  | .grant l =>
      (s.locks l).grant.map fun g =>
        { s with
          locks := Function.update s.locks l g.2
          stage := Function.update s.stage g.1.1 (.granted l g.1.2) }
  | .act t e =>
      match (s.sys.threads t).next with
      | none => none
      | some a =>
          if s.stage (some t) = S.entry s (some t) then
            (M.step s.sys (.act t e)).map (S.afterAct s t a)
          else none
  | .ambient m =>
      if s.stage none = S.entry s none then
        (M.step s.sys (.ambient m)).map (S.afterAmbient s)
      else none
  | .release x =>
      match s.stage x with
      | .leaving l =>
          some
            { s with
              locks := Function.update s.locks l ((s.locks l).release x)
              stage := Function.update s.stage x .ready }
      | _ => none

/-- A whole schedule; `none` if one of its steps is not enabled. -/
def run (s : LockedSys ι Act Resp σ Loc Λ) :
    List (LockedLabel ι ε Req Amb Λ) → Option (LockedSys ι Act Resp σ Loc Λ)
  | [] => some s
  | l :: ls => (S.step M s l).bind fun s' => run s' ls

/-- The states of all runs that start with free locks. -/
inductive Reachable (Init : Sys ι Act Resp σ Loc → Prop) : LockedSys ι Act Resp σ Loc Λ → Prop where
  | init {sys : Sys ι Act Resp σ Loc} (h : Init sys) : Reachable Init { sys := sys }
  | step {s s' : LockedSys ι Act Resp σ Loc Λ} {l : LockedLabel ι ε Req Amb Λ}
      (h : Reachable Init s) (hstep : S.step M s l = some s') : Reachable Init s'

/-- The kinds of steps, and what each of them does. -/
inductive Stepped (s : LockedSys ι Act Resp σ Loc Λ) : LockedSys ι Act Resp σ Loc Λ → Prop where
  | start {t : ι} {q : Req} {sys : Sys ι Act Resp σ Loc} (hstage : s.stage (some t) = .ready)
      (hsys : M.step s.sys (.start t q) = some sys) : Stepped s { s with sys := sys }
  | request {x : Option ι} {l : Λ} {access : Access} (hstage : s.stage x = .ready)
      (hneeds : S.needs s x = some (l, access)) :
      Stepped s
        { s with
          locks := Function.update s.locks l ((s.locks l).request x access)
          stage := Function.update s.stage x (.queued l access) }
  | grant {l : Λ} {first : Option ι × Access} {lock : RwLock (Option ι)}
      (hgrant : (s.locks l).grant = some (first, lock)) :
      Stepped s
        { s with
          locks := Function.update s.locks l lock
          stage := Function.update s.stage first.1 (.granted l first.2) }
  | act {t : ι} {e : ε} {a : Act} {l : Λ} {access : Access} {sys : Sys ι Act Resp σ Loc}
      (hnext : (s.sys.threads t).next = some a) (htakes : S.takes a = some (l, access))
      (hstage : s.stage (some t) = .granted l access)
      (hsys : M.step s.sys (.act t e) = some sys) :
      Stepped s
        { s with
          sys := sys
          stage := Function.update s.stage (some t) (if S.keeps a then .ready else .leaving l) }
  | give {t : ι} {e : ε} {a : Act} {l : Λ} {sys : Sys ι Act Resp σ Loc}
      (hnext : (s.sys.threads t).next = some a) (htakes : S.takes a = none)
      (hgives : S.gives a = some l) (hstage : s.stage (some t) = .ready)
      (hsys : M.step s.sys (.act t e) = some sys) :
      Stepped s
        { s with sys := sys, locks := Function.update s.locks l ((s.locks l).release (some t)) }
  | plain {t : ι} {e : ε} {a : Act} {sys : Sys ι Act Resp σ Loc}
      (hnext : (s.sys.threads t).next = some a) (htakes : S.takes a = none)
      (hgives : S.gives a = none) (hstage : s.stage (some t) = .ready)
      (hsys : M.step s.sys (.act t e) = some sys) : Stepped s { s with sys := sys }
  | ambient {m : Amb} {l : Λ} {access : Access} {sys : Sys ι Act Resp σ Loc}
      (hneeds : S.ambient s.sys.shared = some (l, access))
      (hstage : s.stage none = .granted l access)
      (hsys : M.step s.sys (.ambient m) = some sys) :
      Stepped s { s with sys := sys, stage := Function.update s.stage none (.leaving l) }
  | ambientPlain {m : Amb} {sys : Sys ι Act Resp σ Loc} (hneeds : S.ambient s.sys.shared = none)
      (hstage : s.stage none = .ready) (hsys : M.step s.sys (.ambient m) = some sys) :
      Stepped s { s with sys := sys }
  | release {x : Option ι} {l : Λ} (hstage : s.stage x = .leaving l) :
      Stepped s
        { s with
          locks := Function.update s.locks l ((s.locks l).release x)
          stage := Function.update s.stage x .ready }

variable {S M} {s s' : LockedSys ι Act Resp σ Loc Λ}

omit [DecidableEq ι] [DecidableEq Λ] in
theorem needs_of_next {t : ι} {a : Act} (hnext : (s.sys.threads t).next = some a) :
    S.needs s (some t) = S.takes a := by
  simp only [needs, hnext, Option.bind_some]

theorem stepped_of_step {l : LockedLabel ι ε Req Amb Λ} (h : S.step M s l = some s') :
    S.Stepped M s s' := by
  cases l with
  | start t q =>
      simp only [step] at h
      split at h
      · rename_i hstage
        obtain ⟨sys, hsys, rfl⟩ := Option.map_eq_some_iff.mp h
        exact .start hstage hsys
      · cases h
  | request x =>
      simp only [step] at h
      split at h
      · rename_i hstage hneeds
        cases h
        exact .request hstage hneeds
      · cases h
  | grant l =>
      simp only [step] at h
      obtain ⟨⟨first, lock⟩, hgrant, rfl⟩ := Option.map_eq_some_iff.mp h
      exact .grant hgrant
  | act t e =>
      simp only [step] at h
      split at h
      · cases h
      · rename_i a hnext
        split at h
        · rename_i hstage
          obtain ⟨sys, hsys, rfl⟩ := Option.map_eq_some_iff.mp h
          rw [entry, needs_of_next hnext] at hstage
          unfold afterAct
          split
          · rename_i htakes
            rw [htakes] at hstage
            exact .act hnext htakes hstage hsys
          · rename_i htakes hgives
            rw [htakes] at hstage
            exact .give hnext htakes hgives hstage hsys
          · rename_i htakes hgives
            rw [htakes] at hstage
            exact .plain hnext htakes hgives hstage hsys
        · cases h
  | ambient m =>
      simp only [step] at h
      split at h
      · rename_i hstage
        obtain ⟨sys, hsys, rfl⟩ := Option.map_eq_some_iff.mp h
        rw [entry, needs] at hstage
        unfold afterAmbient
        split
        · rename_i hneeds
          rw [hneeds] at hstage
          exact .ambient hneeds hstage hsys
        · rename_i hneeds
          rw [hneeds] at hstage
          exact .ambientPlain hneeds hstage hsys
      · cases h
  | release x =>
      simp only [step] at h
      split at h
      · rename_i hstage
        cases h
        exact .release hstage
      · cases h

theorem Reachable.run {Init : Sys ι Act Resp σ Loc → Prop} (h : S.Reachable M Init s)
    {ls : List (LockedLabel ι ε Req Amb Λ)} (hrun : S.run M s ls = some s') :
    S.Reachable M Init s' := by
  induction ls generalizing s with
  | nil => cases hrun; exact h
  | cons l ls ih =>
      obtain ⟨mid, hmid, hrest⟩ := Option.bind_eq_some_iff.mp hrun
      exact ih (.step h hmid) hrest

/-- What a concrete schedule leads to. -/
theorem Reachable.exists_of_run {Init : Sys ι Act Resp σ Loc → Prop}
    {P : LockedSys ι Act Resp σ Loc Λ → Prop} [DecidablePred P] (h : S.Reachable M Init s)
    (ls : List (LockedLabel ι ε Req Amb Λ))
    (hrun : ((S.run M s ls).any fun s' => decide (P s')) = true) :
    ∃ s', S.Reachable M Init s' ∧ P s' := by
  obtain ⟨s', hs', hP⟩ := (Option.any_eq_true _ _).mp hrun
  exact ⟨s', h.run hs', of_decide_eq_true hP⟩

/-- **The locked machine refines the one with atomic actions.** -/
theorem Reachable.atomic {Init : Sys ι Act Resp σ Loc → Prop} (h : S.Reachable M Init s) :
    M.Reachable Init (fun _ _ => True) s.sys := by
  induction h with
  | init h => exact .init h
  | step _ hstep ih =>
      cases stepped_of_step hstep with
      | start _ hsys => exact .step ih trivial hsys
      | act _ _ _ hsys => exact .step ih trivial hsys
      | give _ _ _ _ hsys => exact .step ih trivial hsys
      | plain _ _ _ _ hsys => exact .step ih trivial hsys
      | ambient _ _ hsys => exact .step ih trivial hsys
      | ambientPlain _ _ hsys => exact .step ih trivial hsys
      | request | grant | release => exact ih

/-! ### What the locks keep -/

/-- The queues and the holders agree with the stages. -/
structure Wf (S : Sections Act σ Λ) (s : LockedSys ι Act Resp σ Loc Λ) : Prop where
  queued : ∀ l x access, (x, access) ∈ (s.locks l).queue ↔ s.stage x = .queued l access
  nodup : ∀ l, (s.locks l).queue.Nodup
  granted : ∀ l x access, s.stage x = .granted l access → (x, access) ∈ (s.locks l).holders
  needs : ∀ l x access, s.stage x = .queued l access ∨ s.stage x = .granted l access →
    S.needs s x = some (l, access)
  exclusive : ∀ l, (s.locks l).Exclusive

omit [DecidableEq ι] [DecidableEq Λ] in
/-- A step of one agent: it leaves a stage without a place in a queue for one without a
    lock to wait for, and what it gives up is its own. -/
theorem Wf.own (h : S.Wf s) {x : Option ι} (hbefore : ∀ l access, s.stage x ≠ .queued l access)
    (hafter : s'.stage x = .ready ∨ ∃ l, s'.stage x = .leaving l)
    (hothers : ∀ y, y ≠ x → s'.stage y = s.stage y ∧ S.needs s' y = S.needs s y)
    (hqueue : ∀ l, (s'.locks l).queue = (s.locks l).queue)
    (hholders : ∀ l y, y.1 ≠ x → y ∈ (s.locks l).holders → y ∈ (s'.locks l).holders)
    (hexclusive : ∀ l, (s'.locks l).Exclusive) : S.Wf s' where
  queued l y access := by
    rw [hqueue, h.queued]
    by_cases hy : y = x
    · subst hy
      constructor
      · exact fun heq => (hbefore l access heq).elim
      · intro heq
        rcases hafter with hready | ⟨l', hleaving⟩
        · cases hready.symm.trans heq
        · cases hleaving.symm.trans heq
    · rw [(hothers y hy).1]
  nodup l := by
    rw [hqueue]
    exact h.nodup l
  granted l y access heq := by
    by_cases hy : y = x
    · subst hy
      rcases hafter with hready | ⟨l', hleaving⟩
      · cases hready.symm.trans heq
      · cases hleaving.symm.trans heq
    · rw [(hothers y hy).1] at heq
      exact hholders l _ hy (h.granted l y access heq)
  needs l y access heq := by
    by_cases hy : y = x
    · subst hy
      rcases hafter with hready | ⟨l', hleaving⟩
      · rw [hready] at heq
        rcases heq with heq | heq <;> cases heq
      · rw [hleaving] at heq
        rcases heq with heq | heq <;> cases heq
    · rw [(hothers y hy).1] at heq
      rw [(hothers y hy).2]
      exact h.needs l y access heq
  exclusive := hexclusive

omit [DecidableEq ι] [DecidableEq Λ] in
/-- A step of an agent that has no lock and wants none. -/
theorem Wf.unlocked (h : S.Wf s) {x : Option ι} {sys : Sys ι Act Resp σ Loc}
    (hstage : s.stage x = .ready)
    (hneeds : ∀ y, y ≠ x → S.needs { s with sys := sys } y = S.needs s y) :
    S.Wf { s with sys := sys } := by
  apply h.own (x := x)
  · simp [hstage]
  · exact Or.inl hstage
  · intro y hy
    exact ⟨rfl, hneeds y hy⟩
  · intro l
    rfl
  · intro l y _ hmem
    exact hmem
  · exact h.exclusive

theorem Wf.request (h : S.Wf s) {x : Option ι} {l : Λ} {access : Access}
    (hstage : s.stage x = .ready) (hneeds : S.needs s x = some (l, access)) :
    S.Wf
      { s with
        locks := Function.update s.locks l ((s.locks l).request x access)
        stage := Function.update s.stage x (.queued l access) } where
  queued l' y access' := by
    have hold : (y, access') ∈ (s.locks l').queue → y ≠ x := by
      rintro hmem rfl
      cases hstage.symm.trans ((h.queued l' y access').mp hmem)
    by_cases hy : y = x
    · subst hy
      have hnot : (y, access') ∉ (s.locks l').queue := fun hmem => hold hmem rfl
      by_cases hl : l' = l
      · subst hl
        simp [RwLock.request, hnot, eq_comm]
      · simp [hl, hnot, Ne.symm hl]
    · by_cases hl : l' = l
      · subst hl
        simp [RwLock.request, hy, h.queued]
      · simp [hl, hy, h.queued]
  nodup := by
    apply (Function.forall_update_iff s.locks fun _ lock => lock.queue.Nodup).mpr
    refine ⟨?_, fun l' _ => h.nodup l'⟩
    have hnot : (x, access) ∉ (s.locks l).queue := by
      intro hmem
      cases hstage.symm.trans ((h.queued l x access).mp hmem)
    rw [RwLock.request, List.nodup_append]
    refine ⟨h.nodup l, by simp, fun y hy z hz heq => hnot ?_⟩
    rw [← List.mem_singleton.mp hz, ← heq]
    exact hy
  granted l' y access' heq := by
    have hy : y ≠ x := by
      rintro rfl
      simp at heq
    simp only [Function.update_of_ne hy] at heq
    have hmem := h.granted l' y access' heq
    by_cases hl : l' = l
    · subst hl
      simpa [RwLock.request] using hmem
    · simpa [hl] using hmem
  needs l' y access' heq := by
    by_cases hy : y = x
    · subst hy
      simp only [Function.update_self, reduceCtorEq, or_false, LockStage.queued.injEq] at heq
      rw [← heq.1, ← heq.2]
      exact hneeds
    · simp only [Function.update_of_ne hy] at heq
      exact h.needs l' y access' heq
  exclusive := by
    apply (Function.forall_update_iff s.locks fun _ lock => lock.Exclusive).mpr
    exact ⟨h.exclusive l, fun l' _ => h.exclusive l'⟩

theorem Wf.grant (h : S.Wf s) {l : Λ} {first : Option ι × Access} {lock : RwLock (Option ι)}
    (hgrant : (s.locks l).grant = some (first, lock)) :
    S.Wf
      { s with
        locks := Function.update s.locks l lock
        stage := Function.update s.stage first.1 (.granted l first.2) } := by
  obtain ⟨rest, hqueue, -, hlock⟩ := RwLock.grant_eq_some hgrant
  obtain ⟨x, access⟩ := first
  have hfirst : s.stage x = .queued l access := by
    rw [← h.queued, hqueue]
    exact List.mem_cons_self
  have hnodup := h.nodup l
  rw [hqueue, List.nodup_cons] at hnodup
  constructor
  case queued =>
    intro l' y access'
    have hiff := h.queued l' y access'
    by_cases hl : l' = l
    · subst hl
      rw [hqueue, List.mem_cons] at hiff
      by_cases hy : y = x
      · subst hy
        have hrest : (y, access') ∉ rest := by
          intro hmem
          have hsame := hiff.mp (Or.inr hmem)
          rw [hfirst] at hsame
          cases hsame
          exact hnodup.1 hmem
        simp [hlock, hrest]
      · simp only [Prod.mk.injEq, hy, false_and, false_or] at hiff
        simp [hlock, hy, hiff]
    · by_cases hy : y = x
      · subst hy
        have hnot : (y, access') ∉ (s.locks l').queue := by
          intro hmem
          have hsame := hiff.mp hmem
          rw [hfirst] at hsame
          cases hsame
          exact hl rfl
        simp [hl, hnot]
      · simp [hl, hy, hiff]
  case nodup =>
    apply (Function.forall_update_iff s.locks fun _ lock => lock.queue.Nodup).mpr
    refine ⟨?_, fun l' _ => h.nodup l'⟩
    rw [hlock]
    exact hnodup.2
  case granted =>
    intro l' y access' heq
    by_cases hy : y = x
    · subst hy
      simp only [Function.update_self, LockStage.granted.injEq] at heq
      obtain ⟨rfl, rfl⟩ := heq
      simp [hlock]
    · simp only [Function.update_of_ne hy] at heq
      have hmem := h.granted l' y access' heq
      by_cases hl : l' = l
      · subst hl
        simp only [Function.update_self, hlock]
        exact List.mem_cons_of_mem _ hmem
      · simp only [Function.update_of_ne hl]
        exact hmem
  case needs =>
    intro l' y access' heq
    by_cases hy : y = x
    · subst hy
      simp only [Function.update_self, reduceCtorEq, false_or, LockStage.granted.injEq] at heq
      rw [← heq.1, ← heq.2]
      exact h.needs l y access (Or.inl hfirst)
    · simp only [Function.update_of_ne hy] at heq
      exact h.needs l' y access' heq
  case exclusive =>
    apply (Function.forall_update_iff s.locks fun _ lock => lock.Exclusive).mpr
    exact ⟨RwLock.exclusive_of_grant hgrant, fun l' _ => h.exclusive l'⟩

/-- What a release of `x` leaves. -/
theorem release_queue (locks : Λ → RwLock (Option ι)) (l l' : Λ) (x : Option ι) :
    (Function.update locks l ((locks l).release x) l').queue = (locks l').queue := by
  by_cases hl : l' = l
  · subst hl
    simp [RwLock.release]
  · simp [hl]

theorem mem_release_holders (locks : Λ → RwLock (Option ι)) (l l' : Λ) {x : Option ι}
    {y : Option ι × Access} (hy : y.1 ≠ x) (hmem : y ∈ (locks l').holders) :
    y ∈ (Function.update locks l ((locks l).release x) l').holders := by
  by_cases hl : l' = l
  · subst hl
    simp [RwLock.release, hmem, hy]
  · simp [hl, hmem]

theorem release_exclusive {locks : Λ → RwLock (Option ι)} (h : ∀ l, (locks l).Exclusive)
    (l : Λ) (x : Option ι) :
    ∀ l', (Function.update locks l ((locks l).release x) l').Exclusive := by
  apply (Function.forall_update_iff locks fun _ lock => lock.Exclusive).mpr
  exact ⟨(h l).release x, fun l' _ => h l'⟩

omit [DecidableEq Λ] in
/-- The needs of the others after a step of one thread. -/
theorem needs_of_step {sys : Sys ι Act Resp σ Loc} {label : Label ι ε Req Amb} {t : ι}
    (hamb : S.ambient sys.shared = S.ambient s.sys.shared)
    (hsys : M.step s.sys label = some sys) (ht : label.thread = some t)
    (y : Option ι) (hy : y ≠ some t) (locks : Λ → RwLock (Option ι))
    (stage : Option ι → LockStage Λ) : S.needs ⟨sys, locks, stage⟩ y = S.needs s y := by
  cases y with
  | none => exact hamb
  | some u =>
      have hthread : sys.threads u = s.sys.threads u := by
        refine Machine.step_threads hsys ?_
        rw [ht]
        exact fun heq => hy heq.symm
      simp only [needs, hthread]

omit [DecidableEq Λ] in
/-- The needs of the threads after a step of the environment. -/
theorem needs_of_ambient {sys : Sys ι Act Resp σ Loc} {m : Amb}
    (hsys : M.step s.sys (.ambient m) = some sys) (y : Option ι) (hy : y ≠ none)
    (locks : Λ → RwLock (Option ι)) (stage : Option ι → LockStage Λ) :
    S.needs ⟨sys, locks, stage⟩ y = S.needs s y := by
  cases y with
  | none => exact (hy rfl).elim
  | some u =>
      have hthread : sys.threads u = s.sys.threads u := Machine.step_threads hsys (by simp [Label.thread])
      simp only [needs, hthread]

theorem Wf.step (h : S.Wf s)
    (hamb : ∀ t e sys sys', M.step sys (.act t e) = some sys' →
      S.ambient sys'.shared = S.ambient sys.shared)
    (hstep : S.Stepped M s s') : S.Wf s' := by
  cases hstep with
  | request hstage hneeds => exact h.request hstage hneeds
  | grant hgrant => exact h.grant hgrant
  | start hstage hsys =>
      refine h.unlocked hstage fun y hy => needs_of_step ?_ hsys rfl y hy _ _
      obtain ⟨_, _, _, _, rfl⟩ := M.step_start hsys
      rfl
  | @act t _ _ _ _ _ hnext htakes hstage hsys =>
      refine h.own (x := some t) (by simp [hstage]) ?_ (fun y hy => ⟨?_, ?_⟩) (fun _ => rfl)
        (fun _ _ _ hmem => hmem) h.exclusive
      · simp only [Function.update_self]
        split
        · exact Or.inl rfl
        · exact Or.inr ⟨_, rfl⟩
      · simp [hy]
      · exact needs_of_step (hamb _ _ _ _ hsys) hsys rfl y hy _ _
  | give hnext htakes hgives hstage hsys =>
      refine h.own (by simp [hstage]) (Or.inl hstage) (fun y hy => ⟨rfl, ?_⟩)
        (release_queue _ _ · _) (fun l' y => mem_release_holders _ _ l')
        (release_exclusive h.exclusive _ _)
      exact needs_of_step (hamb _ _ _ _ hsys) hsys rfl y hy _ _
  | plain hnext htakes hgives hstage hsys =>
      exact h.unlocked hstage fun y hy => needs_of_step (hamb _ _ _ _ hsys) hsys rfl y hy _ _
  | ambient hneeds hstage hsys =>
      refine h.own (x := none) (by simp [hstage]) ?_ (fun y hy => ⟨?_, ?_⟩) (fun _ => rfl)
        (fun _ _ _ hmem => hmem) h.exclusive
      · simp only [Function.update_self]
        exact Or.inr ⟨_, rfl⟩
      · simp [hy]
      · exact needs_of_ambient hsys y hy _ _
  | ambientPlain hneeds hstage hsys =>
      exact h.unlocked hstage fun y hy => needs_of_ambient hsys y hy _ _
  | release hstage =>
      refine h.own (by simp [hstage]) (Or.inl (Function.update_self _ _ _))
        (fun y hy => ⟨by simp [hy], ?_⟩) (release_queue _ _ · _)
        (fun l' y => mem_release_holders _ _ l') (release_exclusive h.exclusive _ _)
      cases y <;> rfl

omit [DecidableEq ι] [DecidableEq Λ] in
theorem Wf.init (sys : Sys ι Act Resp σ Loc) : S.Wf { sys := sys } where
  queued _ _ _ := by simp
  nodup _ := List.nodup_nil
  granted _ _ _ heq := by cases heq
  needs _ _ _ heq := by rcases heq with heq | heq <;> cases heq
  exclusive _ _ hx := by cases hx

/-! ### Who can move -/

/-- The agent that a step belongs to; a request from outside belongs to none. -/
def mover (s : LockedSys ι Act Resp σ Loc Λ) : LockedLabel ι ε Req Amb Λ → Option (Option ι)
  | .start .. => none
  | .request x | .release x => some x
  | .grant l => (s.locks l).queue.head?.map (·.1)
  | .act t _ => some (some t)
  | .ambient _ => some none

/-- The outside readings of a step are among `P`. -/
def Reads (P : ε → Prop) : LockedLabel ι ε Req Amb Λ → Prop
  | .act _ e => P e
  | _ => True

variable (S M) in
/-- `x` has a step, with readings among `P`. -/
def CanMove (P : ε → Prop) (s : LockedSys ι Act Resp σ Loc Λ) (x : Option ι) : Prop :=
  ∃ l : LockedLabel ι ε Req Amb Λ, mover s l = some x ∧ Reads P l ∧ (S.step M s l).isSome = true

variable {P : ε → Prop} {x : Option ι} {l : Λ} {access : Access}

theorem canMove_of_grant {first : Option ι × Access} {lock : RwLock (Option ι)}
    (h : (s.locks l).grant = some (first, lock)) : S.CanMove M P s first.1 := by
  refine ⟨.grant l, ?_, trivial, ?_⟩
  · obtain ⟨rest, hqueue, -, -⟩ := RwLock.grant_eq_some h
    simp [mover, hqueue]
  · simp [step, h]

theorem canMove_of_leaving (h : s.stage x = .leaving l) : S.CanMove M P s x :=
  ⟨.release x, rfl, trivial, by simp [step, h]⟩

theorem canMove_of_ready (hstage : s.stage x = .ready) (hneeds : S.needs s x = some (l, access)) :
    S.CanMove M P s x :=
  ⟨.request x, rfl, trivial, by simp [step, hstage, hneeds]⟩

theorem canMove_of_act {t : ι} {a : Act} {k : Resp a → Proc Act Resp Loc} {e : ε}
    (hthread : s.sys.threads t = .act a k) (hstage : s.stage (some t) = S.entry s (some t))
    (he : P e) (hexec : (M.exec t a e s.sys.shared).isSome = true) : S.CanMove M P s (some t) := by
  refine ⟨.act t e, rfl, he, ?_⟩
  simp only [step, hthread, Proc.next, hstage, if_true, Option.isSome_map, Machine.step]
  exact hexec

theorem canMove_of_ambient {m : Amb} (hstage : s.stage none = S.entry s none)
    (hambient : (M.ambient m s.sys.shared).isSome = true) : S.CanMove M P s none := by
  refine ⟨.ambient m, rfl, trivial, ?_⟩
  simp only [step, hstage, if_true, Option.isSome_map, Machine.step]
  exact hambient

/-- Behind every queued agent there is one that can move, if the holders can move or are
    queued for locks of higher rank. -/
theorem Wf.exists_unblocked (h : S.Wf s) {rank : Λ → Nat} {bound : Nat}
    (hbound : ∀ l, rank l ≤ bound)
    (hrank : ∀ l y, y ∈ (s.locks l).holders → ∀ l' access, s.stage y.1 = .queued l' access →
      rank l < rank l')
    (hable : ∀ l y, y ∈ (s.locks l).holders → (∀ l' access, s.stage y.1 ≠ .queued l' access) →
      S.CanMove M P s y.1)
    (hx : s.stage x = .queued l access) :
    ∃ y, Relation.ReflTransGen (RwLock.Blocks s.locks) x y ∧ S.CanMove M P s y := by
  refine RwLock.exists_unblocked hbound (fun _ _ _ => canMove_of_grant) (fun l y hy => ?_)
    ((h.queued l x access).mpr hx)
  by_cases hqueued : ∃ l' access, s.stage y.1 = .queued l' access
  · obtain ⟨l', access', hstage⟩ := hqueued
    exact Or.inr ⟨l', access', (h.queued l' y.1 access').mpr hstage,
      hrank l y hy l' access' hstage⟩
  · simp only [not_exists] at hqueued
    exact Or.inl (hable l y hy hqueued)

end Sections
