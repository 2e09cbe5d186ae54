/-
  PlezyRelay/DeadlockFreedom.lean
  ===============================
  **Whoever waits, waits for somebody who can move.**

  The locked relay reaches no state in which a task is stuck: behind every task that is
  queued for a lock or waits for the writer's reply there is a task, or the writer, with
  a step of its own, and no message from a client and no timeout is needed for it.

  `Held` ties the locks to the model with atomic actions: the registry's lock outlives an
  action in the hands of the task that `writeLock` names and of nobody else.
-/
import PlezyRelay.LockOrder

namespace PlezyRelay

open Machine

variable [TokenCodec]

/-! ### The locks and the atomic actions -/

/-- Who holds a lock, and why. -/
structure Held (s : LockedRelay) : Prop where
  holder : ∀ l y, y ∈ (s.locks l).holders →
    s.stage y.1 = .granted l y.2 ∨ s.stage y.1 = .leaving l ∨
      (l = .registry ∧ ∃ t, y = (some t, .exclusive) ∧ s.sys.shared.server.writeLock = some t)
  lock : ∀ t, s.sys.shared.server.writeLock = some t →
    (some t, .exclusive) ∈ (s.locks .registry).holders
  leaving : ∀ t, s.stage (some t) = .leaving .registry → Free t s.sys.shared

section Locks

variable {s s' : LockedRelay} {t : Tid} {a : Act} {e : Env}

theorem did_of_step {sys : RelaySys} (hnext : (s.sys.threads t).next = some a)
    (hsys : relay.step s.sys (.act t e) = some sys) :
    ∃ x, Did t a e s.sys.shared x sys.shared := by
  obtain ⟨b, k, x, w, hthread, hx, rfl⟩ := relay.step_act hsys
  rw [hthread] at hnext
  cases hnext
  exact ⟨x, hx⟩

theorem writer_of_step {sys : RelaySys} {m : WriterStep}
    (hsys : relay.step s.sys (.ambient m) = some sys) :
    s.sys.shared.writerStep m = some sys.shared := by
  obtain ⟨w, hm, rfl⟩ := relay.step_ambient hsys
  exact hm

theorem ambient_of_act {sys sys' : RelaySys} (hsys : relay.step sys (.act t e) = some sys') :
    relaySections.ambient sys'.shared = relaySections.ambient sys.shared := by
  obtain ⟨_, _, _, _, _, hx, rfl⟩ := relay.step_act hsys
  simp only [relaySections, (World.did_moves hx).writer.1]

theorem start_shared {q : Request} {sys : RelaySys}
    (hsys : relay.step s.sys (.start t q) = some sys) : sys.shared = s.sys.shared := by
  obtain ⟨_, _, _, _, rfl⟩ := relay.step_start hsys
  rfl

theorem LockedReaches.wf (h : LockedReaches s) : relaySections.Wf s := by
  induction h with
  | init => exact Sections.Wf.init _
  | step _ hstep ih =>
      exact ih.step (fun _ _ _ _ => ambient_of_act) (Sections.stepped_of_step hstep)

omit [TokenCodec] in
/-- The actions with a lock of their own leave the registry's write lock alone. -/
theorem keepsLock_of_takes {l : LockId} {access : Access}
    (htakes : relaySections.takes a = some (l, access)) :
    a.keepsLock = true ∨ (relaySections.keeps a = true ∧ l = .registry ∧ access = .exclusive) := by
  cases a with
  | lockRooms sid =>
      cases htakes
      exact Or.inr ⟨rfl, rfl, rfl⟩
  | unlockRooms => cases htakes
  | _ => exact Or.inl rfl

omit [TokenCodec] in
theorem keeps_of_keepsLock (h : a.keepsLock = true) : relaySections.keeps a = false := by
  cases a with
  | lockRooms sid => cases h
  | _ => rfl

omit [TokenCodec] in
theorem keepsLock_of_plain (htakes : relaySections.takes a = none)
    (hgives : relaySections.gives a = none) : a.keepsLock = true := by
  cases a with
  | lockRooms sid => cases htakes
  | unlockRooms => cases hgives
  | _ => rfl

omit [TokenCodec] in
theorem eq_unlock_of_gives {l : LockId} (hgives : relaySections.gives a = some l) :
    a = .unlockRooms ∧ l = .registry := by
  cases a with
  | unlockRooms =>
      cases hgives
      exact ⟨rfl, rfl⟩
  | _ => cases hgives

omit [TokenCodec] in
/-- A step of the agent `x` that leaves the registry's write lock as it was. -/
theorem Held.keep (h : Held s) (x : Option Tid)
    (hlock : s'.sys.shared.server.writeLock = s.sys.shared.server.writeLock)
    (hstage : ∀ y, y ≠ x → s'.stage y = s.stage y)
    (hholders : ∀ l y, y ∈ (s'.locks l).holders →
      s'.stage y.1 = .granted l y.2 ∨ y ∈ (s.locks l).holders)
    (hown : ∀ l access, (x, access) ∈ (s'.locks l).holders →
      s.stage x = .granted l access ∨ s.stage x = .leaving l → s'.stage x = .leaving l)
    (hstay : ∀ t, s.sys.shared.server.writeLock = some t →
      (some t, .exclusive) ∈ (s.locks .registry).holders →
        (some t, .exclusive) ∈ (s'.locks .registry).holders)
    (hleaving : ∀ t, x = some t → s'.stage x = .leaving .registry → Free t s.sys.shared) :
    Held s' where
  holder l y hy := by
    rcases hholders l y hy with hgranted | hmem
    · exact Or.inl hgranted
    · rw [hlock]
      rw [← or_assoc]
      rcases or_assoc.mpr (h.holder l y hmem) with hold | hkept
      · left
        by_cases hyx : y.1 = x
        · right
          rw [hyx] at hold ⊢
          exact hown l y.2 (by rw [← hyx]; exact hy) hold
        · rw [hstage y.1 hyx]
          exact hold
      · exact Or.inr hkept
  lock t ht := by
    rw [hlock] at ht
    exact hstay t ht (h.lock t ht)
  leaving t ht := by
    rw [Free, hlock]
    by_cases hx : some t = x
    · exact hleaving t hx.symm (by rw [← hx]; exact ht)
    · rw [hstage _ hx] at ht
      exact h.leaving t ht

omit [TokenCodec] in
/-- A step of an agent that had no business with a lock of its own. -/
theorem Held.ready (h : Held s) (x : Option Tid)
    (hlock : s'.sys.shared.server.writeLock = s.sys.shared.server.writeLock)
    (hready : s.stage x = .ready) (hstage : ∀ y, y ≠ x → s'.stage y = s.stage y)
    (hnot : ∀ l, s'.stage x ≠ .leaving l)
    (hholders : ∀ l, (s'.locks l).holders = (s.locks l).holders) : Held s' := by
  refine h.keep x hlock hstage (fun l y hy => Or.inr (by rw [← hholders]; exact hy)) ?_ ?_ ?_
  · intro l access _ hold
    rw [hready] at hold
    rcases hold with hold | hold <;> cases hold
  · intro t _ hmem
    rw [hholders]
    exact hmem
  · exact fun t _ hleaving => (hnot _ hleaving).elim

omit [TokenCodec] in
theorem mem_of_mem_release {locks : LockId → RwLock (Option Tid)} {l l' : LockId} {x : Option Tid}
    {y : Option Tid × Access}
    (hy : y ∈ (Function.update locks l ((locks l).release x) l').holders) :
    y ∈ (locks l').holders ∧ (l' = l → y.1 ≠ x) := by
  by_cases hl : l' = l
  · subst hl
    rw [Function.update_self] at hy
    obtain ⟨hmem, hne⟩ := List.mem_filter.mp hy
    exact ⟨hmem, fun _ => of_decide_eq_true hne⟩
  · rw [Function.update_of_ne hl] at hy
    exact ⟨hy, fun heq => (hl heq).elim⟩

theorem Held.lockRooms (h : Held s) (hwf : relaySections.Wf s) {sid : String}
    {x : Option RoomId} {sys : RelaySys} (hx : Did t (.lockRooms sid) e s.sys.shared x sys.shared)
    (hgranted : s.stage (some t) = .granted .registry .exclusive) :
    Held { s with sys := sys, stage := Function.update s.stage (some t) .ready } := by
  obtain ⟨hfree, -, hserver⟩ := World.did_lockRooms hx
  have hlock : sys.shared.server.writeLock = some t := by rw [hserver]
  refine ⟨fun l y hy => ?_, fun u hu => ?_, fun u hu => ?_⟩
  · rcases h.holder l y hy with hold | hold | ⟨-, u, -, hu⟩
    · by_cases hy : y.1 = some t
      · right; right
        rw [hy, hgranted, LockStage.granted.injEq] at hold
        exact ⟨hold.1.symm, t, Prod.ext hy hold.2.symm, hlock⟩
      · left
        simpa [hy] using hold
    · right; left
      have hy : y.1 ≠ some t := by
        intro hy
        rw [hy, hgranted] at hold
        cases hold
      simpa [hy] using hold
    · cases hfree.symm.trans hu
  · cases hlock.symm.trans hu
    exact hwf.granted _ _ _ hgranted
  · by_cases hut : u = t
    · subst hut
      simp at hu
    · rw [Free, hlock]
      exact fun heq => hut (Option.some.inj heq).symm

theorem Held.unlockRooms (h : Held s) {x : Unit} {sys : RelaySys}
    (hx : Did t .unlockRooms e s.sys.shared x sys.shared) :
    Held
      { s with
        sys := sys
        locks := Function.update s.locks .registry ((s.locks .registry).release (some t)) } := by
  obtain ⟨hheld, hserver⟩ := World.did_unlockRooms hx
  have hlock : sys.shared.server.writeLock = none := by rw [hserver]
  refine ⟨fun l y hy => ?_, fun u hu => ?_, fun u hu => ?_⟩
  · obtain ⟨hmem, hne⟩ := mem_of_mem_release hy
    rcases h.holder l y hmem with hold | hold | ⟨hl, u, rfl, hu⟩
    · exact Or.inl hold
    · exact Or.inr (Or.inl hold)
    · -- the only one who kept it is the task that gives it back
      cases hheld.symm.trans hu
      exact (hne hl rfl).elim
  · cases hlock.symm.trans hu
  · rw [Free, hlock]
    intro hnone
    cases hnone

theorem Held.section (h : Held s) (hreach : Reaches Always s.sys) {l : LockId} {access : Access}
    {x : a.Resp} {sys : RelaySys} (hnext : (s.sys.threads t).next = some a)
    (htakes : relaySections.takes a = some (l, access)) (hkeeps : a.keepsLock = true)
    (hgranted : s.stage (some t) = .granted l access)
    (hx : Did t a e s.sys.shared x sys.shared) :
    Held { s with sys := sys, stage := Function.update s.stage (some t) (.leaving l) } := by
  refine h.keep (some t) ((World.did_moves hx).lock_same hkeeps) (fun y hy => by simp [hy])
    (fun _ _ hy => Or.inr hy) ?_ (fun _ _ hmem => hmem) ?_
  · intro l' access' _ hold
    rw [hgranted, LockStage.granted.injEq] at hold
    rcases hold with ⟨rfl, -⟩ | hold
    · exact Function.update_self ..
    · cases hold
  · rintro u ⟨⟩ hleaving
    simp only [Function.update_self, LockStage.leaving.injEq] at hleaving
    subst hleaving
    -- only a task without the write lock asks for the registry
    obtain ⟨k, hthread⟩ := Proc.eq_act_of_next hnext
    have hdisciplined := relay_disciplined hreach hthread
    cases a <;> first | exact hdisciplined | cases htakes

theorem Held.step (h : Held s) (hwf : relaySections.Wf s) (hreach : Reaches Always s.sys)
    (hstep : relaySections.Stepped relay s s') : Held s' := by
  cases hstep with
  | @start t q sys hstage hsys =>
      exact h.ready (some t) (by rw [start_shared hsys]) hstage (fun _ _ => rfl)
        (by simp [hstage]) fun _ => rfl
  | @request x l access hstage hneeds =>
      refine h.ready x rfl hstage (fun y hy => by simp [hy]) (by simp) fun l' => ?_
      by_cases hl : l' = l
      · subst hl
        simp [RwLock.request]
      · simp [hl]
  | @grant l first lock hgrant =>
      obtain ⟨rest, hqueue, -, rfl⟩ := RwLock.grant_eq_some hgrant
      have hfirst : s.stage first.1 = .queued l first.2 := by
        rw [← hwf.queued, hqueue]
        exact List.mem_cons_self
      refine h.keep first.1 rfl (fun y hy => by simp [hy]) (fun l' y hy => ?_) ?_ ?_ (by simp)
      · by_cases hl : l' = l
        · subst hl
          simp only [Function.update_self] at hy
          rcases List.mem_cons.mp hy with rfl | hy
          · exact Or.inl (Function.update_self ..)
          · exact Or.inr hy
        · simp only [Function.update_of_ne hl] at hy
          exact Or.inr hy
      · intro l' access _ hold
        rw [hfirst] at hold
        rcases hold with hold | hold <;> cases hold
      · intro t _ hmem
        by_cases hl : LockId.registry = l
        · subst hl
          simp only [Function.update_self]
          exact List.mem_cons_of_mem _ hmem
        · simp only [Function.update_of_ne hl]
          exact hmem
  | @act t e a l access sys hnext htakes hstage hsys =>
      obtain ⟨x, hx⟩ := did_of_step hnext hsys
      rcases keepsLock_of_takes htakes with hkeeps | ⟨hkeeps, rfl, rfl⟩
      · rw [keeps_of_keepsLock hkeeps]
        exact h.section hreach hnext htakes hkeeps hstage hx
      · rw [if_pos hkeeps]
        cases a with
        | lockRooms sid => exact h.lockRooms hwf hx hstage
        | _ => cases hkeeps
  | give hnext htakes hgives hstage hsys =>
      obtain ⟨x, hx⟩ := did_of_step hnext hsys
      obtain ⟨rfl, rfl⟩ := eq_unlock_of_gives hgives
      exact h.unlockRooms hx
  | @plain t e a sys hnext htakes hgives hstage hsys =>
      obtain ⟨x, hx⟩ := did_of_step hnext hsys
      have hlock := (World.did_moves hx).lock_same (keepsLock_of_plain htakes hgives)
      exact h.ready (some t) hlock hstage (fun _ _ => rfl) (by simp [hstage]) fun _ => rfl
  | @ambient m l access sys hneeds hstage hsys =>
      have hframe := Server.writerStep_frame (World.writerStep_iff.mp (writer_of_step hsys)).1
      refine h.keep none hframe.2.2.2.1 (fun y hy => by simp [hy]) (fun _ _ hy => Or.inr hy) ?_
        (fun _ _ hmem => hmem) (by simp)
      intro l' access' _ hold
      rw [hstage, LockStage.granted.injEq] at hold
      rcases hold with ⟨rfl, -⟩ | hold
      · simp
      · cases hold
  | @ambientPlain m sys hneeds hstage hsys =>
      have hframe := Server.writerStep_frame (World.writerStep_iff.mp (writer_of_step hsys)).1
      exact h.ready none hframe.2.2.2.1 hstage (fun _ _ => rfl) (by simp [hstage])
        fun _ => rfl
  | @release x l hstage =>
      refine h.keep x rfl (fun y hy => by simp [hy])
        (fun _ _ hy => Or.inr (mem_of_mem_release hy).1) ?_ ?_ (by simp)
      · intro l' access hmem hold
        rw [hstage] at hold
        rcases hold with hold | hold
        · cases hold
        · cases hold
          exact ((mem_of_mem_release hmem).2 rfl rfl).elim
      · intro t ht hmem
        by_cases hl : LockId.registry = l
        · subst hl
          refine Sections.mem_release_holders _ _ _ ?_ hmem
          rintro rfl
          exact h.leaving t hstage ht
        · simp only [Function.update_of_ne hl]
          exact hmem

theorem LockedReaches.held (h : LockedReaches s) : Held s := by
  induction h with
  | init hinit =>
      obtain ⟨_, _, _, hshared⟩ := hinit.shared_eq
      refine ⟨fun _ _ => nofun, fun t ht => ?_, fun _ => nofun⟩
      rw [hshared] at ht
      cases ht
  | step hreach hstep ih =>
      exact ih.step (LockedReaches.wf hreach) hreach.atomic (Sections.stepped_of_step hstep)

end Locks

/-! ### What can be done with the locks in hand -/

/-- The rooms the writer is still to visit. -/
def Phase.todo : Phase → List RoomId
  | .building todo _ _ => todo
  | _ => []

theorem relay_todo {C : RelaySys → RelayLabel → Prop} {sys : RelaySys} (h : Reaches C sys) :
    ∀ r ∈ sys.shared.server.writer.phase.todo, Present sys.shared r := by
  apply relay_invariant (P := fun w => ∀ r ∈ w.server.writer.phase.todo, Present w r) h
  · intro sys hsys
    obtain ⟨_, _, _, hshared⟩ := hsys.shared_eq
    rw [hshared]
    exact nofun
  · intro sys w' hreach ih hnext r hr
    refine hnext.present ?_
    cases hnext with
    | act hx =>
        rw [(World.did_moves hx).writer.1] at hr
        exact ih r hr
    | writer hm =>
        have hmoves := Server.writerStep_moves (World.writerStep_iff.mp hm).1
        generalize w'.server = s' at hmoves hr
        cases hmoves with
        | mutate => exact ih r hr
        | collect =>
            obtain ⟨sid, hsid⟩ := AList.mem_values.mp hr
            obtain ⟨st, hst, -⟩ := (relay_base hreach).1.registered hsid
            exact ⟨st, hst⟩
        | capture _ _ _ _ _ _ hphase =>
            refine ih r ?_
            rw [hphase]
            exact List.mem_cons_of_mem _ hr
        | _ => cases hr

/-- A step that waits for nothing but the outside world's clocks. -/
abbrev Prompt (e : Env) : Prop := e.timedOut = false

/-- The request whose reply an action waits for. -/
def Act.awaited : Act → Option Ticket
  | .awaitReply reply | .awaitFlush reply => some reply
  | _ => none

section Enabled

variable {s : LockedRelay} {t : Tid} {a : Act} {w : World}

/-- A disciplined action is enabled once its lock is free or its own, unless it waits for
    the writer. -/
theorem exec_isSome (hlegal : Legal t a w) (hdisciplined : Disciplined t a w)
    (hfree : ∀ access, relaySections.takes a = some (.registry, access) →
      w.server.writeLock = none) (hwait : a.awaited = none) :
    (relay.exec t a {} w).isSome = true := by
  change ((w.server.exec t a {}).map _).isSome = true
  rw [Option.isSome_map]
  have hremove : ∀ r, IsClosing w r → w.server.writeLock = none →
      (w.server.removeIfCurrent r).isSome = true := by
    rintro r ⟨st, hst, -⟩ hlock
    simp only [Server.removeIfCurrent, hlock, hst, if_true]
    split <;> rfl
  cases a with
  | room r op =>
      obtain ⟨⟨st, hst⟩, -⟩ := hlegal
      simp [Server.exec, Server.room, hst]
  | lockRooms sid => simp [Server.exec, hfree _ rfl]
  | getRoom sid => simp [Server.exec, hfree _ rfl]
  | allRooms => simp [Server.exec, hfree _ rfl]
  | removeIfCurrent r => exact hremove r hlegal (hfree _ rfl)
  | removeEnded r => exact hremove r hlegal (hfree _ rfl)
  | unlockRooms => simp [Server.exec, show w.server.writeLock = some t from hdisciplined]
  | removeRoom sid => simp [Server.exec, show w.server.writeLock = some t from hdisciplined]
  | roomsLen => simp [Server.exec, show w.server.writeLock = some t from hdisciplined]
  | newRoom => simp [Server.exec, show w.server.writeLock = some t from hdisciplined]
  | awaitReply reply => cases hwait
  | awaitFlush reply => cases hwait
  | _ => rfl

omit [TokenCodec] in
/-- Whoever has been let in to the table finds no `create` at work. -/
theorem Held.registry_free (h : Held s) (hwf : relaySections.Wf s) {x : Option Tid}
    {access : Access} (hgranted : s.stage x = .granted .registry access)
    (hfree : ∀ t, x = some t → Free t s.sys.shared) : s.sys.shared.server.writeLock = none := by
  cases hlock : s.sys.shared.server.writeLock with
  | none => rfl
  | some u =>
      have hmem := hwf.granted _ _ _ hgranted
      have heq := hwf.exclusive _ _ (h.lock u hlock) _ hmem
      cases heq
      exact (hfree u rfl hlock).elim

omit [TokenCodec] in
/-- An agent that is not queued gives a lock back, asks for one, or is ready to act. -/
theorem stage_cases (hwf : relaySections.Wf s) (x : Option Tid)
    (hqueued : ∀ l access, s.stage x ≠ .queued l access) :
    (∃ l, s.stage x = .leaving l) ∨
    (s.stage x = .ready ∧ ∃ l access, relaySections.needs s x = some (l, access)) ∨
    s.stage x = relaySections.entry s x := by
  cases hstage : s.stage x with
  | leaving l => exact Or.inl ⟨l, rfl⟩
  | queued l access => exact (hqueued l access hstage).elim
  | granted l access =>
      right; right
      rw [Sections.entry, hwf.needs l x access (Or.inr hstage)]
  | ready =>
      right
      cases hneeds : relaySections.needs s x with
      | none =>
          right
          rw [Sections.entry, hneeds]
      | some need => exact Or.inl ⟨rfl, need.1, need.2, rfl⟩

/-- A task in the middle of a program can move, if it is neither queued nor waiting for
    the writer. -/
theorem LockedReaches.canMove_task (h : LockedReaches s)
    {k : a.Resp → Task Local} (hthread : s.sys.threads t = .act a k)
    (hqueued : ∀ l access, s.stage (some t) ≠ .queued l access) (hwait : a.awaited = none) :
    relaySections.CanMove relay Prompt s (some t) := by
  rcases stage_cases h.wf (some t) hqueued with ⟨l, hleaving⟩ | ⟨hready, l, access, hneeds⟩ | hentry
  · exact Sections.canMove_of_leaving hleaving
  · exact Sections.canMove_of_ready hready hneeds
  · have hdisciplined := relay_disciplined h.atomic hthread
    refine Sections.canMove_of_act hthread hentry rfl
      (exec_isSome (relay_legal h.atomic hthread) hdisciplined ?_ hwait)
    intro access htakes
    have hgranted : s.stage (some t) = .granted .registry access := by
      rw [hentry, Sections.entry, Sections.needs_of_next (by rw [hthread]; rfl), htakes]
    refine h.held.registry_free h.wf hgranted ?_
    rintro u ⟨⟩
    cases a <;> first | exact hdisciplined | cases htakes

/-- The writer can move, if it is in the middle of an iteration and not queued. -/
theorem LockedReaches.canMove_writer (h : LockedReaches s)
    (hqueued : ∀ l access, s.stage none ≠ .queued l access)
    (hbusy : s.sys.shared.server.writer.phase ≠ .idle ∨ s.sys.shared.server.queue ≠ [])
    (hlive : s.sys.shared.server.writer.phase.isStopped = false) :
    relaySections.CanMove relay Prompt s none := by
  rcases stage_cases h.wf none hqueued with ⟨l, hleaving⟩ | ⟨hready, l, access, hneeds⟩ | hentry
  · exact Sections.canMove_of_leaving hleaving
  · exact Sections.canMove_of_ready hready hneeds
  · have hstep : ∀ m, (s.sys.shared.server.writerStep m).isSome = true →
        relaySections.CanMove relay Prompt s none := by
      intro m hm
      refine Sections.canMove_of_ambient (m := m) hentry ?_
      change ((s.sys.shared.server.writerStep m).map _).isSome = true
      rw [Option.isSome_map]
      exact hm
    have htodo := relay_todo h.atomic
    cases hphase : s.sys.shared.server.writer.phase with
    | stopped =>
        rw [hphase] at hlive
        cases hlive
    | idle =>
        refine hstep .recv ?_
        have hqueue := hbusy.resolve_left (by rw [hphase]; exact fun hne => hne rfl)
        simp only [Server.writerStep, hphase, Server.recv]
        split
        · rename_i hempty
          exact (hqueue hempty).elim
        · rfl
        · rfl
        · split <;> rfl
    | collecting next =>
        refine hstep .collect ?_
        have hgranted : s.stage none = .granted .registry .shared := by
          rw [hentry]
          simp only [Sections.entry, Sections.needs, relaySections, hphase]
        have hfree := h.held.registry_free h.wf hgranted (by simp)
        simp [Server.writerStep, hphase, hfree]
    | building todo dtos next =>
        cases todo with
        | nil =>
            refine hstep (.persist true) ?_
            simp [Server.writerStep, hphase]
        | cons r todo =>
            refine hstep (.capture fun _ => (0, 0)) ?_
            rw [hphase] at htodo
            obtain ⟨st, hst⟩ := htodo r List.mem_cons_self
            simp [Server.writerStep, hphase, hst]
    | resolving ok todo next =>
        refine hstep .resolve ?_
        cases todo <;> simp [Server.writerStep, hphase]

/-! ### Nobody is stuck -/

/-- The locks are taken in the order of their ranks. -/
theorem LockedReaches.rank_lt (h : LockedReaches s) {l l' : LockId} {y : Option Tid × Access}
    {access : Access} (hy : y ∈ (s.locks l).holders) (hqueued : s.stage y.1 = .queued l' access) :
    l.rank < l'.rank := by
  rcases h.held.holder l y hy with hold | hold | ⟨rfl, t, rfl, hlock⟩
  · cases hqueued.symm.trans hold
  · cases hqueued.symm.trans hold
  · have hneeds := h.wf.needs l' _ access (Or.inl hqueued)
    rw [Sections.needs, Option.bind_eq_some_iff] at hneeds
    obtain ⟨a, hnext, htakes⟩ := hneeds
    obtain ⟨k, hthread⟩ := Proc.eq_act_of_next hnext
    have hdisciplined := relay_disciplined h.atomic hthread
    -- with the write lock in hand a task asks for a room or for the quotas
    cases a <;> cases htakes <;> first | exact (hdisciplined hlock).elim | exact Nat.zero_lt_succ _

omit [TokenCodec] in
theorem writing_of_needs {need : LockId × Access}
    (hneeds : relaySections.needs s none = some need) :
    s.sys.shared.server.writer.phase.writing = true := by
  simp only [Sections.needs, relaySections] at hneeds
  split at hneeds
  · rename_i hphase
    rw [hphase]
    rfl
  · rename_i hphase
    rw [hphase]
    rfl
  · cases hneeds

omit [TokenCodec] in
theorem awaited_of_takes {need : LockId × Access} (htakes : relaySections.takes a = some need) :
    a.awaited = none := by
  cases a <;> first | rfl | cases htakes

theorem LockedReaches.canMove_holder (h : LockedReaches s) {l : LockId} {y : Option Tid × Access}
    (hy : y ∈ (s.locks l).holders) (hqueued : ∀ l' access, s.stage y.1 ≠ .queued l' access) :
    relaySections.CanMove relay Prompt s y.1 := by
  rcases h.held.holder l y hy with hgranted | hleaving | ⟨rfl, t, rfl, hlock⟩
  · have hneeds := h.wf.needs l y.1 y.2 (Or.inr hgranted)
    cases hx : y.1 with
    | none =>
        rw [hx] at hneeds hqueued
        have hwriting := writing_of_needs hneeds
        refine h.canMove_writer hqueued (Or.inl ?_) ?_ <;>
          cases hphase : s.sys.shared.server.writer.phase <;> simp_all [Phase.writing, Phase.isStopped]
    | some t =>
        rw [hx, Sections.needs, Option.bind_eq_some_iff] at hneeds
        rw [hx] at hqueued
        obtain ⟨a, hnext, htakes⟩ := hneeds
        obtain ⟨k, hthread⟩ := Proc.eq_act_of_next hnext
        exact h.canMove_task hthread hqueued (awaited_of_takes htakes)
  · exact Sections.canMove_of_leaving hleaving
  · -- the task is in the middle of `create`
    cases hthread : s.sys.threads t with
    | ret loc => exact (relay_rest h.atomic hthread hlock).elim
    | act a k =>
        have hdisciplined := relay_disciplined h.atomic hthread
        refine h.canMove_task hthread hqueued ?_
        cases a <;> first | rfl | exact (hdisciplined.1 hlock).elim

/-- Behind whoever is queued for a lock somebody can move. -/
theorem LockedReaches.exists_unblocked (h : LockedReaches s) {x : Option Tid} {l : LockId}
    {access : Access} (hx : s.stage x = .queued l access) :
    ∃ y, Relation.ReflTransGen (RwLock.Blocks s.locks) x y ∧
      relaySections.CanMove relay Prompt s y :=
  h.wf.exists_unblocked LockId.rank_le (fun _ _ hy _ _ => h.rank_lt hy)
    (fun _ _ hy => h.canMove_holder hy) hx

/-- `x` waits for `y`: in a queue that `y` holds up, or for the writer's reply. -/
def WaitsFor (s : LockedRelay) (x y : Option Tid) : Prop :=
  RwLock.Blocks s.locks x y ∨
    ∃ t a, x = some t ∧ y = none ∧ (s.sys.threads t).next = some a ∧ a.awaited ≠ none

/-- A task, or the writer, that waits for a lock, or a task that waits for the reply to a
    request. -/
def Waiting (s : LockedRelay) (x : Option Tid) : Prop :=
  (∃ l access, s.stage x = .queued l access) ∨
    ∃ t a, x = some t ∧ (s.sys.threads t).next = some a ∧ a.awaited ≠ none

omit [TokenCodec] in
theorem blocks_waitsFor {x y : Option Tid} (h : Relation.ReflTransGen (RwLock.Blocks s.locks) x y) :
    Relation.ReflTransGen (WaitsFor s) x y :=
  Relation.ReflTransGen.mono (fun _ _ => Or.inl) x y h

/-- A wait ends when the reply is there or the writer is gone. -/
theorem exec_await {reply : Ticket} (hawaited : a.awaited = some reply)
    (hdone : w.server.replies.lookup reply ≠ none ∨ w.server.writer.phase.isStopped = true) :
    (relay.exec t a {} w).isSome = true := by
  change ((w.server.exec t a {}).map _).isSome = true
  rw [Option.isSome_map]
  cases a with
  | awaitReply reply | awaitFlush reply =>
      cases hawaited
      simp only [Server.exec, Bool.false_eq_true, if_false]
      split
      · rfl
      · rename_i hnone
        rw [if_pos (hdone.resolve_left fun hne => hne hnone)]
        rfl
  | _ => cases hawaited

/-- A ticket without a reply keeps the writer busy. -/
theorem LockedReaches.busy (h : LockedReaches s) {reply : Ticket}
    (hwith : WithWriter reply s.sys.shared.server)
    (hnone : s.sys.shared.server.replies.lookup reply = none)
    (hlive : s.sys.shared.server.writer.phase.isStopped = false) :
    s.sys.shared.server.writer.phase ≠ .idle ∨ s.sys.shared.server.queue ≠ [] := by
  by_contra hidle
  rw [not_or, not_not, not_not] at hidle
  have hwaiters := (relay_writerWf h.atomic).waiters_writing (by rw [hidle.1]; rfl)
  rcases hwith with hmem | hstopped
  · simp only [Server.tickets, hidle.1, hidle.2, hwaiters, Phase.answering, Phase.after,
      After.tickets, List.filterMap_nil, List.map_nil, List.append_nil, List.nil_append] at hmem
    exact AList.lookup_eq_none.mp hnone (AList.mem_keys.mpr hmem)
  · rw [hlive] at hstopped
    cases hstopped

/-- **No circle of waiting tasks.**  In every state the relay reaches with its locks,
    whoever waits for a lock or for the writer's reply can move, or waits, directly or
    through others, for a task or for the writer that can; and the step needs neither a
    message from a client nor a timeout. -/
theorem relay_deadlock_free (h : LockedReaches s) {x : Option Tid} (hwaiting : Waiting s x) :
    ∃ y, Relation.ReflTransGen (WaitsFor s) x y ∧ relaySections.CanMove relay Prompt s y := by
  have hqueued : ∀ {x l access}, s.stage x = .queued l access →
      ∃ y, Relation.ReflTransGen (WaitsFor s) x y ∧ relaySections.CanMove relay Prompt s y := by
    intro x l access hx
    obtain ⟨y, hblocks, hcan⟩ := h.exists_unblocked hx
    exact ⟨y, blocks_waitsFor hblocks, hcan⟩
  rcases hwaiting with ⟨l, access, hx⟩ | ⟨t, a, rfl, hnext, hawaits⟩
  · exact hqueued hx
  · obtain ⟨k, hthread⟩ := Proc.eq_act_of_next hnext
    obtain ⟨reply, hawaited⟩ := Option.ne_none_iff_exists'.mp hawaits
    have hself : Relation.ReflTransGen (WaitsFor s) (some t) (some t) := .refl
    have hwriter : WaitsFor s (some t) none := Or.inr ⟨t, a, rfl, rfl, hnext, hawaits⟩
    by_cases hin : ∃ l access, s.stage (some t) = .queued l access
    · obtain ⟨l, access, hx⟩ := hin
      exact hqueued hx
    simp only [not_exists] at hin
    rcases stage_cases h.wf (some t) hin with ⟨l, hleaving⟩ | ⟨hready, l, access, hneeds⟩ | hentry
    · exact ⟨_, hself, Sections.canMove_of_leaving hleaving⟩
    · exact ⟨_, hself, Sections.canMove_of_ready hready hneeds⟩
    by_cases hdone : s.sys.shared.server.replies.lookup reply ≠ none ∨
        s.sys.shared.server.writer.phase.isStopped = true
    · exact ⟨_, hself, Sections.canMove_of_act hthread hentry rfl (exec_await hawaited hdone)⟩
    · -- the ticket is with the writer, which moves or is queued for a lock itself
      rw [not_or, not_not, Bool.not_eq_true] at hdone
      have hwith : WithWriter reply s.sys.shared.server := by
        have hdisciplined := relay_disciplined h.atomic hthread
        cases a <;> cases hawaited <;> exact hdisciplined.2
      by_cases hin : ∃ l access, s.stage none = .queued l access
      · obtain ⟨l, access, hx⟩ := hin
        obtain ⟨y, hreach, hcan⟩ := hqueued hx
        exact ⟨y, .head hwriter hreach, hcan⟩
      · simp only [not_exists] at hin
        exact ⟨none, .single hwriter, h.canMove_writer hin (h.busy hwith hdone.1 hdone.2) hdone.2⟩

omit [TokenCodec] in
/-- A `create` has the table, a second connection is queued for it, and a third behind
    that. -/
theorem relay_deadlock_free_behind_create : letI : TokenCodec := sampleCodec
    ∃ s : LockedRelay, LockedReaches s ∧ Waiting s (some (.conn 2)) ∧
      ∃ y, Relation.ReflTransGen (WaitsFor s) (some (.conn 2)) y ∧
        relaySections.CanMove relay Prompt s y := by
  let _ : TokenCodec := sampleCodec
  let enter (k : Nat) (msg : ClientMessage) :
      List (LockedLabel Tid Env Request WriterStep LockId) :=
    [.start (.conn k) (.connect "ip"), .start (.conn k) (.frame (.message msg)),
      .request (some (.conn k))]
  have hinit : LockedReaches { sys := initially [] } := .init startup_empty
  obtain ⟨s, hreach, hstage⟩ := hinit.exists_of_run
    (P := fun s => s.stage (some (.conn 2)) = .queued .registry .exclusive)
    (enter 0 (message .create "s" "a" tokenOnes) ++ [.grant .registry, .act (.conn 0) {}] ++
      enter 1 (message .join "s" "b" tokenTwos) ++ enter 2 (message .create "t" "c" tokenTwos))
    (by decide +kernel)
  have hwaiting : Waiting s (some (.conn 2)) := Or.inl ⟨_, _, hstage⟩
  exact ⟨s, hreach, hwaiting, relay_deadlock_free hreach hwaiting⟩

end Enabled

end PlezyRelay
