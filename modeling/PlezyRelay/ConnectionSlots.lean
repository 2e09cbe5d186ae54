/-
  PlezyRelay/ConnectionSlots.lean
  ===============================
  **Connection slots and live sockets** (`ws.rs`).

  `ws_handler` takes a slot in the connection quota before it answers the upgrade, and
  the callback it hands to `on_upgrade` gives the slot back after `connection::run`.
  What becomes of a request after that is up to the peer: the upgrade completes and the
  callback runs to its end, or it fails and the callback is dropped without having
  run.  `State` has every request admitted so far with where it is.

  A dropped callback keeps its slot for good.  `run_accounted` says that the counters
  are exactly the requests that are pending, running or failed, so they agree with the
  live ones exactly as long as no upgrade has failed (`slots_match_iff`).
-/
import PlezyRelay.Quotas

namespace PlezyRelay

namespace Ws

/-! ### The handler -/

/-- What `ws_handler` answers. -/
inductive Response where
  /-- A status code with a body. -/
  | refused (status : Nat) (body : String)
  /-- The upgrade is offered, with the callback for this address. -/
  | onUpgrade (ip : IpAddr)
deriving DecidableEq

/-- `ws_handler`, given what `resolve` and the limiter of connection attempts say. -/
def wsHandler (connections : ConnectionQuota) (resolved : Except ClientIpError IpAddr)
    (limiterAllows : Bool) : ConnectionQuota × Response :=
  match resolved with
  | .error _ => (connections, .refused 400 "Invalid client address")
  | .ok ip =>
      if !limiterAllows then (connections, .refused 429 "Too many connection attempts")
      else
        let (connections, admitted) := connections.tryConnect ip
        if !admitted then (connections, .refused 429 "Too many connections")
        else (connections, .onUpgrade ip)

/-- Where an admitted request is. -/
inductive Stage where
  /-- The upgrade has been offered and is not settled. -/
  | pending
  /-- The callback is in `connection::run`. -/
  | running
  /-- The callback has run to its end. -/
  | ended
  /-- The upgrade has failed and the callback has been dropped. -/
  | failed
deriving DecidableEq

structure Request where
  ip : IpAddr
  stage : Stage
deriving DecidableEq

/-- The quota and every request admitted so far. -/
structure State where
  connections : ConnectionQuota := {}
  admitted : List Request := []

inductive Event where
  | request (resolved : Except ClientIpError IpAddr) (limiterAllows : Bool)
  | upgradeCompletes (i : Nat)
  | upgradeFails (i : Nat)
  /-- `connection::run` returns, and `disconnect` is called. -/
  | connectionEnds (i : Nat)
deriving DecidableEq

/-- One event; `none` where it cannot happen. -/
def step (s : State) : Event → Option State
  | .request resolved limiterAllows =>
      match wsHandler s.connections resolved limiterAllows with
      | (connections, .refused ..) => some { s with connections := connections }
      | (connections, .onUpgrade ip) =>
          some { connections := connections, admitted := s.admitted ++ [⟨ip, .pending⟩] }
  | .upgradeCompletes i =>
      match s.admitted[i]? with
      | some ⟨ip, .pending⟩ => some { s with admitted := s.admitted.set i ⟨ip, .running⟩ }
      | _ => none
  | .upgradeFails i =>
      match s.admitted[i]? with
      | some ⟨ip, .pending⟩ => some { s with admitted := s.admitted.set i ⟨ip, .failed⟩ }
      | _ => none
  | .connectionEnds i =>
      match s.admitted[i]? with
      | some ⟨ip, .running⟩ =>
          some
            { connections := s.connections.disconnect ip
              admitted := s.admitted.set i ⟨ip, .ended⟩ }
      | _ => none

def run (events : List Event) : Option State := events.foldlM step {}

/-! ### Live sockets and held slots -/

/-- The upgrade is pending or the connection is open. -/
def Request.live (r : Request) : Bool := r.stage == .pending || r.stage == .running

def Request.holds (r : Request) : Bool := r.stage != .ended

def Request.dropped (r : Request) : Bool := r.stage == .failed

/-- The requests of an address that satisfy `p`. -/
def State.ofIp (s : State) (ip : IpAddr) (p : Request → Bool) : Nat :=
  s.admitted.countP fun r => decide (r.ip = ip) && p r

/-- The counters agree with the live requests, in total and for every address. -/
def State.Matches (s : State) : Prop :=
  s.connections.globalCount = s.admitted.countP Request.live ∧
    ∀ ip, s.connections.count ip = s.ofIp ip Request.live

/-- The counters agree with the slots that have not been given back. -/
structure Accounted (s : State) : Prop where
  globalCount : s.connections.globalCount = s.admitted.countP Request.holds
  count : ∀ ip, s.connections.count ip = s.ofIp ip Request.holds

section Counting

variable {α : Type} {p : α → Bool} {l : List α} {i : Nat} {a b : α}

theorem countP_set_getElem? (h : l[i]? = some a) :
    (l.set i b).countP p = l.countP p - (if p a then 1 else 0) + if p b then 1 else 0 := by
  obtain ⟨hi, rfl⟩ := List.getElem?_eq_some_iff.mp h
  exact List.countP_set hi

theorem countP_set_of_eq (h : l[i]? = some a) (hp : p b = p a) :
    (l.set i b).countP p = l.countP p := by
  have hle : (if p a = true then 1 else 0) ≤ l.countP p := by
    split
    · exact List.countP_pos_iff.mpr ⟨a, List.mem_of_getElem? h, ‹_›⟩
    · exact Nat.zero_le _
  rw [countP_set_getElem? h, hp]
  omega

theorem countP_concat (l : List α) (a : α) :
    (l ++ [a]).countP p = l.countP p + if p a then 1 else 0 := by
  rw [List.countP_append]
  cases hp : p a <;> simp [hp]

end Counting

variable {s s' : State}

theorem Accounted.settled (h : Accounted s) {i : Nat} {ip : IpAddr} {stage : Stage}
    (hi : s.admitted[i]? = some ⟨ip, .pending⟩) (hstage : stage ≠ .ended) :
    Accounted { s with admitted := s.admitted.set i ⟨ip, stage⟩ } := by
  have hholds : Request.holds ⟨ip, stage⟩ = Request.holds ⟨ip, .pending⟩ :=
    bne_iff_ne.mpr hstage
  constructor
  · rw [countP_set_of_eq hi hholds]
    exact h.globalCount
  · intro other
    rw [State.ofIp, countP_set_of_eq hi (by rw [hholds])]
    exact h.count other

theorem Accounted.step (h : Accounted s) {event : Event} (hstep : step s event = some s') :
    Accounted s' := by
  cases event with
  | request resolved limiterAllows =>
      cases resolved with
      | error err =>
          cases hstep
          exact h
      | ok ip =>
          cases limiterAllows with
          | false =>
              cases hstep
              exact h
          | true =>
              rcases htry : s.connections.tryConnect ip with ⟨connections, admitted⟩
              rcases ConnectionQuota.tryConnect_cases htry with
                ⟨rfl, hglobal, hcount⟩ | ⟨rfl, hglobal, hcount⟩
              · simp only [Ws.step, wsHandler, htry] at hstep
                cases hstep
                constructor
                · rw [countP_concat, hglobal, h.globalCount]
                  rfl
                · intro other
                  rw [State.ofIp, countP_concat, hcount other, h.count other, State.ofIp]
                  by_cases hother : other = ip
                  · simp [hother, Request.holds]
                  · simp [hother, Ne.symm hother]
              · simp only [Ws.step, wsHandler, htry] at hstep
                cases hstep
                constructor
                · rw [hglobal]
                  exact h.globalCount
                · intro other
                  rw [hcount other]
                  exact h.count other
  | upgradeCompletes i =>
      simp only [Ws.step] at hstep
      split at hstep
      · rename_i ip hi
        cases hstep
        exact h.settled hi nofun
      · cases hstep
  | upgradeFails i =>
      simp only [Ws.step] at hstep
      split at hstep
      · rename_i ip hi
        cases hstep
        exact h.settled hi nofun
      · cases hstep
  | connectionEnds i =>
      simp only [Ws.step] at hstep
      split at hstep
      · rename_i ip hi
        cases hstep
        -- the connection that ends is counted
        have hcounted : 0 < s.connections.count ip := by
          rw [h.count ip, State.ofIp, List.countP_pos_iff]
          exact ⟨_, List.mem_of_getElem? hi, by simp [Request.holds]⟩
        obtain ⟨hglobal, hcount⟩ := ConnectionQuota.disconnect_of_pos hcounted
        constructor
        · rw [countP_set_getElem? hi, hglobal, h.globalCount]
          rfl
        · intro other
          rw [State.ofIp, countP_set_getElem? hi, hcount other, h.count other, State.ofIp]
          by_cases hother : other = ip
          · simp [hother, Request.holds]
          · simp [hother, Ne.symm hother]
      · cases hstep

theorem countP_holds (l : List Request) (p : Request → Bool) :
    l.countP (fun r => p r && r.holds) =
      l.countP (fun r => p r && r.live) + l.countP (fun r => p r && r.dropped) := by
  induction l with
  | nil => rfl
  | cons r l ih =>
      obtain ⟨ip, stage⟩ := r
      simp only [List.countP_cons, ih]
      cases hp : p ⟨ip, stage⟩ <;> cases stage <;>
        simp [Request.holds, Request.live, Request.dropped] <;> omega

/-- The counters agree with the live requests if no callback was dropped. -/
theorem Accounted.matches_iff (h : Accounted s) :
    s.Matches ↔ ∀ r ∈ s.admitted, r.stage ≠ .failed := by
  have htotal : s.admitted.countP Request.holds =
      s.admitted.countP Request.live + s.admitted.countP Request.dropped := by
    simpa using countP_holds s.admitted fun _ => true
  constructor
  · rintro ⟨hglobal, _⟩ r hr hfailed
    have hdropped : 0 < s.admitted.countP Request.dropped :=
      List.countP_pos_iff.mpr ⟨r, hr, by simp [Request.dropped, hfailed]⟩
    rw [h.globalCount] at hglobal
    omega
  · intro hnone
    constructor
    · have hdropped : s.admitted.countP Request.dropped = 0 := by
        rw [List.countP_eq_zero]
        intro r hr
        simp [Request.dropped, hnone r hr]
      rw [h.globalCount, htotal, hdropped, Nat.add_zero]
    · intro ip
      have hdropped : s.ofIp ip Request.dropped = 0 := by
        rw [State.ofIp, List.countP_eq_zero]
        intro r hr
        simp [Request.dropped, hnone r hr]
      have hofIp := countP_holds s.admitted fun r => decide (r.ip = ip)
      rw [h.count ip]
      simp only [State.ofIp] at hdropped ⊢
      omega

/-- The event drops a callback. -/
def Event.fails : Event → Bool
  | .upgradeFails _ => true
  | _ => false

/-- Callbacks are dropped by upgrades that fail, and stay dropped. -/
theorem countP_dropped_step {event : Event} (hstep : step s event = some s') :
    s'.admitted.countP Request.dropped =
      s.admitted.countP Request.dropped + if event.fails then 1 else 0 := by
  cases event with
  | request resolved limiterAllows =>
      simp only [step] at hstep
      split at hstep
      · cases hstep
        rfl
      · cases hstep
        rw [countP_concat]
        rfl
  | upgradeCompletes i | upgradeFails i | connectionEnds i =>
      simp only [step] at hstep
      split at hstep
      · rename_i ip hi
        cases hstep
        rw [countP_set_getElem? hi]
        rfl
      · cases hstep

/-! ### Whole runs -/

/-- Induction over the events of a run, latest last. -/
theorem run_induction {P : List Event → State → Prop} (hinit : P [] {})
    (hstep : ∀ events s event s', P events s → step s event = some s' → P (events ++ [event]) s')
    {events : List Event} (h : run events = some s) : P events s := by
  induction events using List.reverseRecOn generalizing s with
  | nil =>
      cases h
      exact hinit
  | append_singleton events event ih =>
      rw [run, List.foldlM_append] at h
      obtain ⟨s₁, hs₁, hlast⟩ := Option.bind_eq_some_iff.mp h
      rw [List.foldlM_cons] at hlast
      obtain ⟨s₂, hs₂, hnil⟩ := Option.bind_eq_some_iff.mp hlast
      cases hnil
      exact hstep events s₁ event _ (ih hs₁) hs₂

theorem run_accounted {events : List Event} (h : run events = some s) : Accounted s := by
  refine run_induction (P := fun _ s => Accounted s) ⟨rfl, fun _ => rfl⟩ ?_ h
  exact fun _ _ _ _ hs hstep => hs.step hstep

theorem run_countP_dropped {events : List Event} (h : run events = some s) :
    s.admitted.countP Request.dropped = events.countP Event.fails := by
  refine run_induction
    (P := fun events s => s.admitted.countP Request.dropped = events.countP Event.fails) rfl ?_ h
  intro events s event s' hs hstep
  rw [countP_dropped_step hstep, countP_concat, hs]

/-- The counters match exactly as long as no upgrade has failed. -/
theorem run_matches_iff {events : List Event} (h : run events = some s) :
    s.Matches ↔ ∀ i, .upgradeFails i ∉ events := by
  have hdropped : (∀ r ∈ s.admitted, r.stage ≠ .failed) ↔
      s.admitted.countP Request.dropped = 0 := by
    simp [List.countP_eq_zero, Request.dropped]
  rw [(run_accounted h).matches_iff, hdropped, run_countP_dropped h, List.countP_eq_zero]
  constructor
  · intro hnone i hi
    exact hnone _ hi rfl
  · intro hnone event hevent hfails
    cases event with
    | upgradeFails i => exact hnone i hevent
    | _ => cases hfails

/-- **Connection slots match live sockets** at all times of a run exactly if no upgrade
    fails in it.  In such a run all counts are zero once no upgrade is pending and no
    connection is open. -/
theorem slots_match_iff {events : List Event} (h : run events = some s) :
    ((∀ before after s₁, events = before ++ after → run before = some s₁ → s₁.Matches) ↔
      ∀ i, .upgradeFails i ∉ events) ∧
    ((∀ i, .upgradeFails i ∉ events) → (∀ r ∈ s.admitted, r.live = false) →
      s.connections.globalCount = 0 ∧ ∀ ip, s.connections.count ip = 0) := by
  constructor
  · constructor
    · intro hmatches
      exact (run_matches_iff h).mp (hmatches events [] s (List.append_nil events).symm h)
    · intro hnone before after s₁ hevents hbefore
      rw [run_matches_iff hbefore]
      intro i hi
      apply hnone i
      rw [hevents]
      exact List.mem_append_left after hi
  · intro hnone hidle
    obtain ⟨hglobal, hcount⟩ := (run_matches_iff h).mpr hnone
    constructor
    · rw [hglobal, List.countP_eq_zero]
      intro r hr
      simp [hidle r hr]
    · intro ip
      rw [hcount ip, State.ofIp, List.countP_eq_zero]
      intro r hr
      simp [hidle r hr]

def admitted (ip : IpAddr) : Event := .request (.ok ip) true

/-- Two sockets of one address are opened and closed. -/
theorem slots_match_after_two_sockets :
    let ip := IpAddr.v4 #v[203, 0, 113, 9]
    let events := [admitted ip, .upgradeCompletes 0, admitted ip, .connectionEnds 0, .upgradeCompletes 1,
      .connectionEnds 1]
    ∃ s, run events = some s ∧ s.admitted.length = 2 ∧ s.connections.globalCount = 0 ∧
      ∀ ip, s.connections.count ip = 0 := by
  intro ip events
  obtain ⟨s, hs⟩ : ∃ s, run events = some s := Option.isSome_iff_exists.mp (by decide +kernel)
  have hfacts : ∀ s ∈ run events, s.admitted.length = 2 ∧ ∀ r ∈ s.admitted, r.live = false := by
    decide +kernel
  obtain ⟨hlength, hidle⟩ := hfacts s hs
  have hnone : ∀ i, .upgradeFails i ∉ events := by
    intro i hi
    simp [events, admitted] at hi
  obtain ⟨hglobal, hcount⟩ := (slots_match_iff hs).2 hnone hidle
  exact ⟨s, hs, hlength, hglobal, hcount⟩

/-- Five upgrades of one address fail.  Nothing is pending and no socket is open, but the
    sixth request is refused for too many connections. -/
theorem failed_upgrades_keep_slots :
    let ip := IpAddr.v4 #v[203, 0, 113, 9]
    ∃ s ∈ run ((List.range 5).flatMap fun i => [admitted ip, .upgradeFails i]),
      (∀ r ∈ s.admitted, r.live = false) ∧ s.connections.globalCount = 5 ∧
      s.connections.count ip = 5 ∧
      (wsHandler s.connections (.ok ip) true).2 = .refused 429 "Too many connections" := by
  decide +kernel

end Ws

end PlezyRelay
