/-
  PlezyRelay/Foundation/RelyGuarantee.lean
  ========================================
  **Rely–guarantee reasoning about interleaved programs.**

  A `Logic` fixes what a proof is about: an invariant of the shared state, what the
  run is assumed to satisfy at each action (`assume`), and what the programs have to
  establish before each action (`pre`).

  `Safe t Q p s` says that thread `t` may run `p` from `s`: before every action there
  is an assertion that the other threads cannot break and that makes the action
  legal and the rest of the program safe; at the end `Q` holds.  The assertions are
  chosen step by step in the proof that a program is safe; `Safe.adequate` turns the
  proofs for the single programs into a statement about every reachable state.

  Running alone is the special case in which only the environment moves in between
  (`Safe.runs`).
-/
import PlezyRelay.Foundation.Threads

namespace Machine

variable {ι Act : Type} {Resp : Act → Type} {σ ε Req Amb Loc α β : Type}

/-- What a proof about the programs of `M` assumes and shows. -/
structure Logic (M : Machine ι Act Resp σ ε Req Amb Loc) where
  inv : σ → Prop
  assume : ι → Act → σ → Prop := fun _ _ _ => True
  pre : ι → Act → σ → Prop := fun _ _ _ => True

namespace Logic

variable {M : Machine ι Act Resp σ ε Req Amb Loc} (L : M.Logic)

/-- A step that thread `t` may see happen between two of its own. -/
inductive Interferes (t : ι) : σ → σ → Prop where
  | act {u : ι} {a : Act} {e : ε} {s s' : σ} {r : Resp a} (hne : u ≠ t)
      (hassume : L.assume u a s) (hpre : L.pre u a s) (hexec : M.exec u a e s = some (r, s')) :
      Interferes t s s'
  | ambient {m : Amb} {s s' : σ} (hamb : M.ambient m s = some s') : Interferes t s s'

/-- The other threads and the environment cannot break `A`. -/
def Stable (t : ι) (A : σ → Prop) : Prop :=
  ∀ s s', L.inv s → L.inv s' → L.Interferes t s s' → A s → A s'

def Safe (t : ι) (Q : α → σ → Prop) : Proc Act Resp α → σ → Prop
  | .ret x, s => Q x s
  | .act a k, s => ∃ A : σ → Prop, A s ∧ L.Stable t A ∧
      ∀ s, L.inv s → A s → L.assume t a s → L.pre t a s ∧
        ∀ e r s', M.exec t a e s = some (r, s') → L.inv s' → Safe t Q (k r) s'

variable {L} {t : ι}

theorem Stable.and {A B : σ → Prop} (hA : L.Stable t A) (hB : L.Stable t B) :
    L.Stable t fun s => A s ∧ B s :=
  fun s s' hs hs' h hAB => ⟨hA s s' hs hs' h hAB.1, hB s s' hs hs' h hAB.2⟩

theorem Stable.const (P : Prop) : L.Stable t fun _ => P := fun _ _ _ _ _ h => h

theorem Stable.imp {P : Prop} {A : σ → Prop} (hA : P → L.Stable t A) :
    L.Stable t fun s => P → A s :=
  fun s s' hs hs' h hPA hP => hA hP s s' hs hs' h (hPA hP)

/-- One action, with the stable assertion that carries it. -/
theorem Safe.act {Q : α → σ → Prop} {a : Act} {k : Resp a → Proc Act Resp α} {s : σ}
    (A : σ → Prop) (hA : A s) (hstable : L.Stable t A)
    (hstep : ∀ s, L.inv s → A s → L.assume t a s → L.pre t a s ∧
      ∀ e r s', M.exec t a e s = some (r, s') → L.inv s' → L.Safe t Q (k r) s') :
    L.Safe t Q (.act a k) s :=
  ⟨A, hA, hstable, hstep⟩

theorem Safe.mono {Q Q' : α → σ → Prop} {p : Proc Act Resp α} {s : σ} (h : L.Safe t Q p s)
    (hQ : ∀ x s, Q x s → Q' x s) : L.Safe t Q' p s := by
  induction p generalizing s with
  | ret x => exact hQ x s h
  | act a k ih =>
      obtain ⟨A, hA, hstable, hstep⟩ := h
      refine ⟨A, hA, hstable, fun s hs hAs has => ?_⟩
      obtain ⟨hpre, hpost⟩ := hstep s hs hAs has
      exact ⟨hpre, fun e r s' hx hs' => ih r (hpost e r s' hx hs')⟩

theorem Safe.bind {Q : α → σ → Prop} {Q' : β → σ → Prop} {p : Proc Act Resp α}
    {f : α → Proc Act Resp β} {s : σ} (h : L.Safe t Q p s)
    (hf : ∀ x s, Q x s → L.Safe t Q' (f x) s) : L.Safe t Q' (p.bind f) s := by
  induction p generalizing s with
  | ret x => exact hf x s h
  | act a k ih =>
      obtain ⟨A, hA, hstable, hstep⟩ := h
      refine ⟨A, hA, hstable, fun s hs hAs has => ?_⟩
      obtain ⟨hpre, hpost⟩ := hstep s hs hAs has
      exact ⟨hpre, fun e r s' hx hs' => ih r (hpost e r s' hx hs')⟩

/-- A fact that no step can break goes along. -/
theorem Safe.frame {Q : α → σ → Prop} {F : σ → Prop} {p : Proc Act Resp α} {s : σ}
    (h : L.Safe t Q p s) (hF : F s) (hstable : L.Stable t F)
    (hkeep : ∀ a e s r s', M.exec t a e s = some (r, s') → F s → F s') :
    L.Safe t (fun x s => Q x s ∧ F s) p s := by
  induction p generalizing s with
  | ret x => exact ⟨h, hF⟩
  | act a k ih =>
      obtain ⟨A, hA, hA', hstep⟩ := h
      refine ⟨fun s => A s ∧ F s, ⟨hA, hF⟩, hA'.and hstable, fun s hs hAs has => ?_⟩
      obtain ⟨hpre, hpost⟩ := hstep s hs hAs.1 has
      exact ⟨hpre, fun e r s' hx hs' => ih r (hpost e r s' hx hs') (hkeep a e s r s' hx hAs.2)⟩

theorem Safe.forEach {I : σ → Prop} {f : α → Proc Act Resp Unit} {xs : List α} {s : σ}
    (hf : ∀ x ∈ xs, ∀ s, I s → L.Safe t (fun _ s => I s) (f x) s) (h : I s) :
    L.Safe t (fun _ s => I s) (Proc.forEach f xs) s := by
  induction xs generalizing s with
  | nil => exact h
  | cons x xs ih =>
      refine Safe.bind (hf x List.mem_cons_self s h) fun _ s' h' => ?_
      exact ih (fun y hy => hf y (List.mem_cons_of_mem x hy)) h'

/-- A program whose actions are all legal under `A` and keep it. -/
theorem Safe.of_all {A : σ → Prop} {P : Act → Prop} {p : Proc Act Resp α} {s : σ}
    (hp : p.All P) (hA : A s) (hstable : L.Stable t A)
    (hpre : ∀ a s, P a → L.inv s → A s → L.assume t a s → L.pre t a s)
    (hkeep : ∀ a e s r s', P a → L.inv s → L.inv s' → L.assume t a s → A s →
      M.exec t a e s = some (r, s') → A s') : L.Safe t (fun _ s => A s) p s := by
  induction p generalizing s with
  | ret x => exact hA
  | act a k ih =>
      refine Safe.act A hA hstable fun s hs hAs has => ⟨hpre a s hp.1 hs hAs has, ?_⟩
      intro e r s' hx hs'
      exact ih r (hp.2 r) (hkeep a e s r s' hp.1 hs hs' has hAs hx)

theorem Safe.interference {Q : α → σ → Prop} {p : Proc Act Resp α} {s s' : σ}
    (h : L.Safe t Q p s) (hs : L.inv s) (hs' : L.inv s') (hint : L.Interferes t s s')
    (hQ : ∀ x, L.Stable t (Q x)) : L.Safe t Q p s' := by
  cases p with
  | ret x => exact hQ x s s' hs hs' hint h
  | act a k =>
      obtain ⟨A, hA, hstable, hstep⟩ := h
      exact ⟨A, hstable s s' hs hs' hint hA, hstable, hstep⟩

/-- Running alone to the end establishes the postcondition. -/
theorem Safe.runs {Q : α → σ → Prop} {p : Proc Act Resp α} {s s' : σ} {x : α}
    (h : L.Safe t Q p s) (hs : L.inv s) (hrun : M.Runs t p s x s')
    (hassume : ∀ a s, L.inv s → L.assume t a s)
    (hinv : ∀ a e s r s', L.inv s → L.assume t a s → L.pre t a s →
      M.exec t a e s = some (r, s') → L.inv s')
    (hamb : ∀ m s s', L.inv s → M.ambient m s = some s' → L.inv s')
    (hQ : ∀ x, L.Stable t (Q x)) : L.inv s' ∧ Q x s' := by
  induction hrun with
  | ret x s => exact ⟨hs, h⟩
  | act hexec _ ih =>
      obtain ⟨A, hA, _, hstep⟩ := h
      obtain ⟨hpre, hpost⟩ := hstep _ hs hA (hassume _ _ hs)
      have hs' := hinv _ _ _ _ _ hs (hassume _ _ hs) hpre hexec
      exact ih (hpost _ _ _ hexec hs') hs'
  | ambient hstep _ ih =>
      have hs' := hamb _ _ _ hs hstep
      refine ih ?_ hs'
      exact h.interference hs hs' (.ambient hstep) hQ

section Adequacy

variable [DecidableEq ι] {Init : Sys ι Act Resp σ Loc → Prop}
  {C : Sys ι Act Resp σ Loc → Label ι ε Req Amb → Prop} {Q : ι → Loc → σ → Prop}

/-- If every program is safe, every reachable state satisfies the invariant and every
    thread is safe in it. -/
theorem Safe.adequate
    (hinit : ∀ sys, Init sys → L.inv sys.shared ∧ ∀ t, L.Safe t (Q t) (sys.threads t) sys.shared)
    (hstart : ∀ t q l p s, L.inv s → Q t l s → M.start t q l = some p → L.Safe t (Q t) p s)
    (hassume : ∀ sys t e a k, M.Reachable Init C sys → C sys (.act t e) →
      sys.threads t = .act a k → L.assume t a sys.shared)
    (hinv : ∀ t a e s r s', L.inv s → L.assume t a s → L.pre t a s →
      M.exec t a e s = some (r, s') → L.inv s')
    (hamb : ∀ m s s', L.inv s → M.ambient m s = some s' → L.inv s')
    (hQ : ∀ t l, L.Stable t (Q t l))
    {sys : Sys ι Act Resp σ Loc} (h : M.Reachable Init C sys) :
    L.inv sys.shared ∧ ∀ t, L.Safe t (Q t) (sys.threads t) sys.shared := by
  induction h with
  | init h => exact hinit _ h
  | step hreach hc hstep ih =>
      obtain ⟨hs, hsafe⟩ := ih
      rcases M.step_cases hstep with ⟨t, q, loc, p, rfl, ht, hp, rfl⟩ |
        ⟨t, e, a, k, r, s, rfl, ht, hx, rfl⟩ | ⟨m, s, rfl, hm, rfl⟩
      · refine ⟨hs, fun u => ?_⟩
        dsimp only
        by_cases hu : u = t
        · subst hu
          have hq := hsafe u
          rw [ht] at hq
          rw [Function.update_self]
          exact hstart u q loc p _ hs hq hp
        · rw [Function.update_of_ne hu]
          exact hsafe u
      · have hself := hsafe t
        rw [ht] at hself
        obtain ⟨A, hA, _, hsteps⟩ := hself
        have has := hassume _ t e a k hreach hc ht
        obtain ⟨hpre, hpost⟩ := hsteps _ hs hA has
        have hs' := hinv t a e _ r s hs has hpre hx
        refine ⟨hs', fun u => ?_⟩
        dsimp only
        by_cases hu : u = t
        · subst hu
          rw [Function.update_self]
          exact hpost e r s hx hs'
        · rw [Function.update_of_ne hu]
          exact (hsafe u).interference hs hs' (.act (Ne.symm hu) has hpre hx) (hQ u)
      · have hs' := hamb m _ _ hs hm
        exact ⟨hs', fun u => (hsafe u).interference hs hs' (.ambient hm) (hQ u)⟩

end Adequacy

end Logic

end Machine
