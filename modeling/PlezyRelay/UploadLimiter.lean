/-
  PlezyRelay/UploadLimiter.lean
  =============================
  **The limiter of log uploads, with and without cleanup** (`quotas.rs`).

  `LastTimestampLimiter` lets an address through once per interval.  `cleanup`, which
  the sweep calls through `LogStore::cleanup`, removes the very timestamps `allow`
  decides by.  It is harmless because both compare with the interval in the same
  direction: an entry is removed exactly when it would not block a call any more, and
  from then on, as long as the clock does not run backwards, it never would again.

  So the answers are what an observer of the whole history would give, whatever has
  been cleaned up (`history_eq_replay`).
-/
import PlezyRelay.Foundation.Cooldown
import PlezyRelay.Quotas

namespace PlezyRelay

namespace LastTimestampLimiter

open Cooldown

inductive Call where
  | allow (ip : IpAddr)
  | cleanup
deriving DecidableEq

/-- The `allow` calls among the calls, with their answers; every call comes with the
    clock reading it takes. -/
def history (self : LastTimestampLimiter) : List (Instant × Call) → List (Attempt IpAddr Instant)
  | [] => []
  | (now, .allow ip) :: calls =>
      let (self, granted) := self.allow ip now
      ⟨now, ip, granted⟩ :: self.history calls
  | (now, .cleanup) :: calls => (self.cleanup now).history calls

/-- The `allow` calls without their answers. -/
def attempts : List (Instant × Call) → List (Instant × IpAddr)
  | [] => []
  | (now, .allow ip) :: calls => (now, ip) :: attempts calls
  | (_, .cleanup) :: calls => attempts calls

/-- The calls with every `cleanup` left out. -/
def withoutCleanup (calls : List (Instant × Call)) : List (Instant × Call) :=
  calls.filter fun call => decide (call.2 ≠ .cleanup)

/-- Less than `interval` has passed. -/
def Within (interval : Duration) (last now : Instant) : Prop :=
  now.saturatingDurationSince last < interval

instance (interval : Duration) : DecidableRel (Within interval) := fun last now =>
  inferInstanceAs (Decidable (now.saturatingDurationSince last < interval))

theorem fading_within (interval : Duration) : Fading (Within interval) := by
  intro last now later hle hlater
  have hmono : now - last ≤ later - last := Nat.sub_le_sub_right hle last
  exact Nat.lt_of_le_of_lt hmono hlater

/-! ### What a call does -/

variable {self : LastTimestampLimiter} {ip : IpAddr} {now : Instant}

/-- The limiter has a timestamp for the address that is less than an interval old. -/
def Blocked (self : LastTimestampLimiter) (ip : IpAddr) (now : Instant) : Prop :=
  ∃ last, self.last.lookup ip = some last ∧ Within self.interval last now

theorem allow_of_blocked (h : self.Blocked ip now) : self.allow ip now = (self, false) := by
  obtain ⟨last, hlookup, hwithin⟩ := h
  have hlt : now.saturatingDurationSince last < self.interval := hwithin
  simp [allow, hlookup, hlt]

theorem allow_of_not_blocked (h : ¬ self.Blocked ip now) :
    self.allow ip now = ({ self with last := self.last.insert ip now }, true) := by
  cases hlookup : self.last.lookup ip with
  | none => simp [allow, hlookup]
  | some last =>
      have hnot : ¬ now.saturatingDurationSince last < self.interval := by
        intro hlt
        exact h ⟨last, hlookup, hlt⟩
      simp [allow, hlookup, hnot]

theorem lookup_cleanup {last : Instant} :
    (self.cleanup now).last.lookup ip = some last ↔
      self.last.lookup ip = some last ∧ Within self.interval last now := by
  simp [cleanup, AList.lookup_retain, Option.filter_eq_some_iff, Within]

/-! ### Answers over a whole run -/

variable {clock : Instant} {past : List (Attempt IpAddr Instant)} {calls : List (Instant × Call)}

/-- The limiter blocks from now on what the past does. -/
def Recalls (self : LastTimestampLimiter) (clock : Instant)
    (past : List (Attempt IpAddr Instant)) : Prop :=
  Remembers (Within self.interval) clock self.last.lookup past

theorem Recalls.blocked_iff (h : self.Recalls now past) (ip : IpAddr) :
    self.Blocked ip now ↔ Shut (Within self.interval) past ip now :=
  h ip now (le_refl now)

theorem recalls_new (interval : Duration) (clock : Instant) : (new interval).Recalls clock [] := by
  have hlast : (new interval).last.lookup = fun _ => none := funext AList.lookup_empty
  rw [Recalls, hlast]
  exact remembers_nil clock

theorem Recalls.cleanup (h : self.Recalls now past) : (self.cleanup now).Recalls now past := by
  apply Remembers.forget (fading_within _) h
  · intro ip last hlast
    exact (lookup_cleanup.mp hlast).1
  · intro ip last hlast hwithin
    exact lookup_cleanup.mpr ⟨hlast, hwithin⟩

/-- `allow` gives the answer of the past, and then goes by the past with that answer. -/
theorem Recalls.allow (h : self.Recalls now past) (ip : IpAddr) :
    ∃ next, self.allow ip now = (next, !decide (Shut (Within self.interval) past ip now)) ∧
      next.interval = self.interval ∧
      next.Recalls now (past ++ [⟨now, ip, !decide (Shut (Within self.interval) past ip now)⟩]) := by
  have hblocked := h.blocked_iff ip
  by_cases hshut : Shut (Within self.interval) past ip now
  · refine ⟨self, ?_, rfl, ?_⟩
    · rw [allow_of_blocked (hblocked.mpr hshut)]
      simp [hshut]
    · simp only [hshut, decide_true, Bool.not_true]
      exact Remembers.refused h
  · refine ⟨{ self with last := self.last.insert ip now }, ?_, rfl, ?_⟩
    · rw [allow_of_not_blocked (hblocked.not.mpr hshut)]
      simp [hshut]
    · simp only [hshut, decide_false, Bool.not_false]
      apply Remembers.granted (fading_within _) h hshut
      · exact AList.lookup_insert _
      · intro other hother
        exact AList.lookup_insert_ne hother

/-- The answers are those of an observer who forgets nothing. -/
theorem history_eq_replay (h : self.Recalls clock past)
    (hclock : ∀ call ∈ calls, clock ≤ call.1)
    (hordered : calls.Pairwise fun earlier later => earlier.1 ≤ later.1) :
    self.history calls = replay (Within self.interval) past (attempts calls) := by
  induction calls generalizing self clock past with
  | nil => rfl
  | cons call calls ih =>
      obtain ⟨now, call⟩ := call
      obtain ⟨hnow, hrest⟩ := List.pairwise_cons.mp hordered
      have hrecalls : self.Recalls now past :=
        Remembers.later h (hclock _ List.mem_cons_self)
      cases call with
      | allow ip =>
          obtain ⟨next, hallow, hinterval, hnext⟩ := hrecalls.allow ip
          simp only [history, attempts, replay, hallow]
          rw [ih hnext hnow hrest, hinterval]
      | cleanup => exact ih hrecalls.cleanup hnow hrest

theorem attempts_withoutCleanup (calls : List (Instant × Call)) :
    attempts (withoutCleanup calls) = attempts calls := by
  induction calls with
  | nil => rfl
  | cons call calls ih =>
      obtain ⟨now, call⟩ := call
      cases call with
      | allow ip => exact congrArg ((now, ip) :: ·) ih
      | cleanup => exact ih

theorem history_new (interval : Duration)
    (hordered : calls.Pairwise fun earlier later => earlier.1 ≤ later.1) :
    (new interval).history calls = replay (Within interval) [] (attempts calls) :=
  history_eq_replay (recalls_new interval 0) (fun _ _ => Nat.zero_le _) hordered

/-- **Cleaning up cannot be observed, and the spacing is exact.**  As long as the clock
    does not run backwards, the answers of all `allow` calls are those given without
    any `cleanup`, and a call is granted if and only if none was granted to the same
    address less than the interval before it. -/
theorem cleanup_unobservable_spacing_exact (interval : Duration) (calls : List (Instant × Call))
    (hordered : calls.Pairwise fun earlier later => earlier.1 ≤ later.1) :
    (new interval).history calls = (new interval).history (withoutCleanup calls) ∧
    ∀ before attempt after, (new interval).history calls = before ++ attempt :: after →
      (attempt.granted = true ↔
        ¬ ∃ earlier ∈ before, earlier.key = attempt.key ∧ earlier.granted = true ∧
          attempt.time - earlier.time < interval) := by
  constructor
  · have hfiltered : (withoutCleanup calls).Pairwise fun earlier later => earlier.1 ≤ later.1 :=
      hordered.filter _
    rw [history_new interval hordered, history_new interval hfiltered, attempts_withoutCleanup]
  · intro before attempt after hsplit
    rw [history_new interval hordered] at hsplit
    have hspaced : Spaced (Within interval) (replay (Within interval) [] (attempts calls)) :=
      spaced_replay spaced_nil (attempts calls)
    exact hspaced before attempt after hsplit

/-- An upload, another just before the interval is over and one when it is, with a sweep
    before each of the later two. -/
theorem cleanup_unobservable_spacing_exact_at_boundary :
    let ip := IpAddr.v4 #v[10, 0, 0, 2]
    let calls : List (Instant × Call) :=
      [(secs 0, .allow ip), (secs 30, .cleanup), (secs 59, .allow ip), (secs 60, .cleanup),
        (secs 60, .allow ip)]
    let history := (new LOG_UPLOAD_INTERVAL).history calls
    calls.Pairwise (fun earlier later => earlier.1 ≤ later.1) ∧
    history.map (·.granted) = [true, false, true] ∧
    history = (new LOG_UPLOAD_INTERVAL).history (withoutCleanup calls) ∧
    ∀ before attempt after, history = before ++ attempt :: after →
      (attempt.granted = true ↔
        ¬ ∃ earlier ∈ before, earlier.key = attempt.key ∧ earlier.granted = true ∧
          attempt.time - earlier.time < LOG_UPLOAD_INTERVAL) := by
  intro ip calls history
  have hordered : calls.Pairwise fun earlier later => earlier.1 ≤ later.1 := by decide
  have hanswers : history.map (·.granted) = [true, false, true] := by decide +kernel
  exact ⟨hordered, hanswers, cleanup_unobservable_spacing_exact LOG_UPLOAD_INTERVAL calls hordered⟩

end LastTimestampLimiter

end PlezyRelay
