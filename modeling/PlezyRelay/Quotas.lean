/-
  PlezyRelay/Quotas.lean
  ======================
  **Rate limits and connection quotas** (`quotas.rs`).

  `TokenBucket` is the limiter of inbound messages.  Its `f64` fields are read as exact
  rationals; instants are nanoseconds as everywhere, so an elapsed time in seconds is a
  rational too.  The bucket keeps one running level that is refilled, capped and
  drained per call.  `after_eq` identifies it with the level of a capped supply that
  grows with the clock, and what is known about those says when a call is allowed in
  terms of all the windows that end with it (`token_bucket_conformance`).

  `LastTimestampLimiter` remembers when each address was last let through, and
  `cleanup` drops what it does not need any more; `UploadLimiter.lean` has what follows.

  `ConnectionQuota` counts the connections in use, in total and by address.
  `tryConnect_eq`, `disconnect_of_none` and `disconnect_of_some` say what a call does to
  the total and to the entries of the map, and everything else is derived from these.

  `IpRateLimiter` is `governor`'s and not modelled.
-/
import Mathlib.Algebra.Order.Ring.Rat
import Mathlib.Data.Finset.Max
import Mathlib.Tactic.Ring
import PlezyRelay.Foundation.Envelope
import PlezyRelay.Foundation.Tally
import PlezyRelay.ClientIp

namespace PlezyRelay

/-! ### The token bucket -/

/-- `Duration::as_secs_f64`. -/
def Duration.asSecs (d : Duration) : ℚ := d / 1000000000

structure TokenBucket where
  tokens : ℚ
  maxTokens : ℚ
  refillPerSec : ℚ
  last : Instant
deriving DecidableEq

namespace TokenBucket

def new (burst sustainedPerSec : ℚ) (now : Instant) : TokenBucket :=
  { tokens := burst, maxTokens := burst, refillPerSec := sustainedPerSec, last := now }

def refill (self : TokenBucket) (now : Instant) : TokenBucket :=
  if now < self.last then self
  else
    let elapsed := Duration.asSecs (now.saturatingDurationSince self.last)
    { self with
      last := now
      tokens := min (self.tokens + elapsed * self.refillPerSec) self.maxTokens }

/-- The bucket after the call, and whether the call is allowed. -/
def allowAt (self : TokenBucket) (now : Instant) : TokenBucket × Bool :=
  let self := self.refill now
  if 1 ≤ self.tokens then ({ self with tokens := self.tokens - 1 }, true) else (self, false)

/-! ### A bucket in use -/

variable (burst rate : ℚ) (t : ℕ → Instant)

/-- A bucket made at `t 0`, after the calls at `t 1`, …, `t j`. -/
def after : ℕ → TokenBucket
  | 0 => new burst rate (t 0)
  | j + 1 => ((after j).allowAt (t (j + 1))).1

/-- Whether call `j` is allowed; making the bucket, call zero, draws nothing. -/
def allowed : ℕ → Bool
  | 0 => false
  | j + 1 => ((after burst rate t j).allowAt (t (j + 1))).2

/-- What the refills add up to. -/
def supply (j : ℕ) : ℚ := rate * Duration.asSecs (t j)

/-- The level the bucket has when it decides on call `j`. -/
def level (j : ℕ) : ℚ := Envelope.level burst (supply rate t) (allowed burst rate t) j

variable {burst rate t}

theorem supply_sub {i j : ℕ} (h : t i ≤ t j) :
    supply rate t j - supply rate t i = rate * Duration.asSecs (t j - t i) := by
  simp only [supply, Duration.asSecs]
  rw [Nat.cast_sub h]
  ring

theorem supply_mono (ht : Monotone t) (hrate : 0 ≤ rate) : Monotone (supply rate t) := by
  intro i j hij
  have htimes : (t i : ℚ) ≤ t j := Nat.cast_le.mpr (ht hij)
  simp only [supply, Duration.asSecs]
  gcongr

/-- A refill adds what the supply has grown by since the last call, up to the cap. -/
theorem refill_eq {i j : ℕ} (h : t i ≤ t j) (x : ℚ) :
    refill { tokens := x, maxTokens := burst, refillPerSec := rate, last := t i } (t j) =
      { tokens := min (x + (supply rate t j - supply rate t i)) burst
        maxTokens := burst
        refillPerSec := rate
        last := t j } := by
  rw [refill, if_neg (Nat.not_lt.mpr h), supply_sub h, mul_comm rate]
  rfl

/-- The bucket holds what the capped supply has left. -/
theorem after_eq (ht : Monotone t) (j : ℕ) :
    after burst rate t j =
      { tokens := level burst rate t j - if allowed burst rate t j then 1 else 0
        maxTokens := burst
        refillPerSec := rate
        last := t j } := by
  induction j with
  | zero => simp [after, new, level, Envelope.level, allowed]
  | succ j ih =>
      have hrefill : (after burst rate t j).refill (t (j + 1)) =
          { tokens := level burst rate t (j + 1)
            maxTokens := burst
            refillPerSec := rate
            last := t (j + 1) } := by
        rw [ih, refill_eq (ht (Nat.le_succ j))]
        rfl
      rw [after, allowed, allowAt, hrefill]
      by_cases henough : 1 ≤ level burst rate t (j + 1)
      · simp [henough]
      · simp [henough]

/-- A call is allowed if the level covers it. -/
theorem allowed_iff (ht : Monotone t) (j : ℕ) :
    allowed burst rate t (j + 1) = true ↔ 1 ≤ level burst rate t (j + 1) := by
  have hlevel : ((after burst rate t j).refill (t (j + 1))).tokens = level burst rate t (j + 1) := by
    rw [after_eq ht, refill_eq (ht (Nat.le_succ j))]
    rfl
  rw [allowed, allowAt, hlevel]
  split <;> simp_all

/-- The calls that are allowed are covered. -/
theorem covered (ht : Monotone t) (j : ℕ) (h : allowed burst rate t j = true) :
    1 ≤ level burst rate t j := by
  cases j with
  | zero => cases h
  | succ j => exact (allowed_iff ht j).mp h

/-- The calls allowed from `a` to `b`, among the first `n`. -/
def allowedBetween (burst rate : ℚ) (t : ℕ → Instant) (a b : Instant) (n : ℕ) : Finset ℕ :=
  (Finset.range n).filter fun j => allowed burst rate t j = true ∧ a ≤ t j ∧ t j ≤ b

/-- No window of time has more allowed calls than the burst and what is refilled in it. -/
theorem card_allowedBetween_le (ht : Monotone t) (hburst : 0 ≤ burst) (hrate : 0 ≤ rate)
    (a b : Instant) (n : ℕ) :
    ((allowedBetween burst rate t a b n).card : ℚ) ≤ burst + rate * Duration.asSecs (b - a) := by
  have hwidth : 0 ≤ rate * Duration.asSecs (b - a) :=
    mul_nonneg hrate (div_nonneg (Nat.cast_nonneg _) (by norm_num))
  rcases (allowedBetween burst rate t a b n).eq_empty_or_nonempty with hnone | hsome
  · rw [hnone, Finset.card_empty, Nat.cast_zero]
    linarith
  · -- from the first to the last of them it is a window of calls
    let i := (allowedBetween burst rate t a b n).min' hsome
    let j := (allowedBetween burst rate t a b n).max' hsome
    have hmem : ∀ {k}, k ∈ allowedBetween burst rate t a b n →
        allowed burst rate t k = true ∧ a ≤ t k ∧ t k ≤ b := fun hk => (Finset.mem_filter.mp hk).2
    have hi := hmem (Finset.min'_mem _ hsome)
    have hj := hmem (Finset.max'_mem _ hsome)
    have hij : i ≤ j := Finset.min'_le_max' _ hsome
    have hsub : allowedBetween burst rate t a b n ⊆
        (Finset.Ico i (j + 1)).filter (allowed burst rate t · = true) := by
      intro k hk
      rw [Finset.mem_filter, Finset.mem_Ico]
      exact ⟨⟨Finset.min'_le _ k hk, Nat.lt_succ_of_le (Finset.le_max' _ k hk)⟩, (hmem hk).1⟩
    calc ((allowedBetween burst rate t a b n).card : ℚ)
        ≤ Envelope.drawn (allowed burst rate t) i (j + 1) := by
          exact_mod_cast Finset.card_le_card hsub
      _ ≤ burst + (supply rate t j - supply rate t i) :=
          Envelope.drawn_le hburst (supply_mono ht hrate) (covered ht) hij
      _ = burst + rate * Duration.asSecs (t j - t i) := by rw [supply_sub (ht hij)]
      _ ≤ burst + rate * Duration.asSecs (b - a) := by
          have hshort : t j - t i ≤ b - a := tsub_le_tsub hj.2.2 hi.2.1
          simp only [Duration.asSecs]
          gcongr

/-- **Token bucket conformance.**  For a bucket made at `t 0` and called at `t 1 ≤ t 2 ≤ …`,
    call `j` is allowed exactly if it fits the envelope over every window of calls that ends
    with it.  So no window of time has more allowed calls than the burst and what is refilled
    in it. -/
theorem token_bucket_conformance (ht : Monotone t) (hburst : 0 ≤ burst) (hrate : 0 ≤ rate) :
    (∀ j, 1 ≤ j → (allowed burst rate t j = true ↔
      ∀ i ≤ j, 1 + (Envelope.drawn (allowed burst rate t) i j : ℚ) ≤
        burst + rate * Duration.asSecs (t j - t i))) ∧
    ∀ a b n, ((allowedBetween burst rate t a b n).card : ℚ) ≤
      burst + rate * Duration.asSecs (b - a) := by
  constructor
  · intro j hj
    obtain ⟨j, rfl⟩ := Nat.exists_eq_add_of_le' hj
    rw [allowed_iff ht, level, Envelope.le_level_iff]
    constructor
    · intro h i hi
      rw [← supply_sub (ht hi)]
      exact h i hi
    · intro h i hi
      rw [supply_sub (ht hi)]
      exact h i hi
  · intro a b n
    exact card_allowedBetween_le ht hburst hrate a b n

/-- A bucket of two tokens that gains one a second: two calls in the first second and one in
    the next are allowed. -/
theorem token_bucket_conformance_of_two :
    let t : ℕ → Instant := fun j => j / 4 * 1000000000
    (List.range 6).map (allowed 2 1 t) = [false, true, true, false, true, false] ∧
    (allowed 2 1 t 4 = true ↔
      ∀ i ≤ 4, 1 + (Envelope.drawn (allowed 2 1 t) i 4 : ℚ) ≤
        2 + 1 * Duration.asSecs (t 4 - t i)) := by
  intro t
  have ht : Monotone t := fun i j hij => Nat.mul_le_mul_right _ (Nat.div_le_div_right hij)
  refine ⟨by decide +kernel, ?_⟩
  exact (token_bucket_conformance ht (by norm_num) (by norm_num)).1 4 (by norm_num)

end TokenBucket

/-! ### One action per interval -/

def LOG_UPLOAD_INTERVAL : Duration := secs 60

structure LastTimestampLimiter where
  interval : Duration
  last : AssocMap IpAddr Instant
deriving DecidableEq

namespace LastTimestampLimiter

def new (interval : Duration) : LastTimestampLimiter := { interval := interval, last := ∅ }

/-- The limiter after the call, and whether the action is allowed. -/
def allow (self : LastTimestampLimiter) (ip : IpAddr) (now : Instant) :
    LastTimestampLimiter × Bool :=
  let blocked :=
    match self.last.lookup ip with
    | some last => decide (now.saturatingDurationSince last < self.interval)
    | none => false
  if blocked then (self, false) else ({ self with last := self.last.insert ip now }, true)

def cleanup (self : LastTimestampLimiter) (now : Instant) : LastTimestampLimiter :=
  let cutoff := self.interval
  { self with
    last := self.last.retain fun _ last => decide (now.saturatingDurationSince last < cutoff) }

end LastTimestampLimiter

/-! ### Connection counters -/

def MAX_GLOBAL_CONNS : Nat := 100
def MAX_CONNS_PER_IP : Nat := 5

structure ConnectionQuota where
  globalCount : Nat := 0
  perIp : AssocMap IpAddr Nat := ∅

namespace ConnectionQuota

variable (self : ConnectionQuota) (ip : IpAddr)

/-- The quota after the call, and whether a slot was taken. -/
def tryConnect : ConnectionQuota × Bool :=
  if MAX_GLOBAL_CONNS ≤ self.globalCount then (self, false)
  else
    -- `entry(ip).or_insert(0)`
    let perIp :=
      match self.perIp.lookup ip with
      | some _ => self.perIp
      | none => self.perIp.insert ip 0
    let count := (perIp.lookup ip).getD 0
    if MAX_CONNS_PER_IP ≤ count then ({ self with perIp := perIp }, false)
    else
      ({ globalCount := self.globalCount + 1, perIp := perIp.insert ip (count + 1) }, true)

def disconnect : ConnectionQuota :=
  match self.perIp.lookup ip with
  | none => self
  | some count =>
      let decremented := decide (0 < count)
      let count := if decremented then count - 1 else count
      let perIp := self.perIp.insert ip count
      { globalCount := if decremented then self.globalCount - 1 else self.globalCount
        perIp := if count = 0 then perIp.erase ip else perIp }

/-- The connections counted for an address. -/
def count : Nat := (self.perIp.lookup ip).getD 0

variable {self ip}

/-- The entry made before the test of the limit is never left behind: with no slot
    taken the quota is as it was. -/
theorem tryConnect_eq (self : ConnectionQuota) (ip : IpAddr) :
    self.tryConnect ip =
      if self.globalCount < MAX_GLOBAL_CONNS ∧ self.count ip < MAX_CONNS_PER_IP then
        ({ globalCount := self.globalCount + 1
           perIp := self.perIp.insert ip (self.count ip + 1) }, true)
      else (self, false) := by
  unfold tryConnect
  by_cases hfull : MAX_GLOBAL_CONNS ≤ self.globalCount
  · rw [if_pos hfull, if_neg]
    omega
  · rw [if_neg hfull]
    have hroom : self.globalCount < MAX_GLOBAL_CONNS := Nat.lt_of_not_le hfull
    cases hlookup : self.perIp.lookup ip with
    | some n =>
        by_cases hn : n < MAX_CONNS_PER_IP
        · simp [count, hlookup, hroom, hn, Nat.not_le.mpr hn]
        · simp [count, hlookup, hn, Nat.not_lt.mp hn]
    | none =>
        -- a new entry is below the limit, and `insert` writes over it
        simp [count, hlookup, hroom, MAX_CONNS_PER_IP]

/-- A slot is taken in both counters, or neither counter changes. -/
theorem tryConnect_cases {q : ConnectionQuota} {ok : Bool} (h : self.tryConnect ip = (q, ok)) :
    (ok = true ∧ q.globalCount = self.globalCount + 1 ∧
      ∀ other, q.count other = self.count other + if other = ip then 1 else 0) ∨
    (ok = false ∧ q.globalCount = self.globalCount ∧ ∀ other, q.count other = self.count other) := by
  rw [tryConnect_eq] at h
  split at h
  · cases h
    refine Or.inl ⟨rfl, rfl, ?_⟩
    intro other
    by_cases hother : other = ip
    · subst hother
      simp [count]
    · simp [count, hother]
  · cases h
    exact Or.inr ⟨rfl, rfl, fun _ => rfl⟩

/-- Without an entry there is nothing to give back. -/
theorem disconnect_of_none (h : self.perIp.lookup ip = none) : self.disconnect ip = self := by
  simp [disconnect, h]

/-- A counted connection is taken off both counters, and the last one of an address
    takes the entry with it. -/
theorem disconnect_of_some {n : Nat} (h : self.perIp.lookup ip = some (n + 1)) :
    (self.disconnect ip).globalCount = self.globalCount - 1 ∧
      ∀ other, (self.disconnect ip).perIp.lookup other =
        if other = ip then AList.entryOf n else self.perIp.lookup other := by
  constructor
  · simp [disconnect, h]
  · intro other
    cases n with
    | zero =>
        simp only [disconnect, h, Nat.zero_add, Nat.zero_lt_one, decide_true, if_true,
          Nat.sub_self, AList.lookup_erase_eq, AList.lookup_insert_eq, AList.entryOf_zero]
        by_cases hother : other = ip
        · simp [hother]
        · simp [hother]
    | succ n => simp [disconnect, h, AList.lookup_insert_eq]

/-- The same for the counts. -/
theorem disconnect_of_pos (h : 0 < self.count ip) :
    (self.disconnect ip).globalCount = self.globalCount - 1 ∧
      ∀ other, (self.disconnect ip).count other =
        self.count other - if other = ip then 1 else 0 := by
  obtain ⟨n, hlookup⟩ : ∃ n, self.perIp.lookup ip = some (n + 1) := by
    cases hlookup : self.perIp.lookup ip with
    | none => simp [count, hlookup] at h
    | some n =>
        have hn : 0 < n := by simpa [count, hlookup] using h
        exact ⟨n - 1, by rw [Nat.sub_add_cancel hn]⟩
  obtain ⟨hglobal, hcounts⟩ := disconnect_of_some hlookup
  refine ⟨hglobal, ?_⟩
  intro other
  rw [count, hcounts other]
  by_cases hother : other = ip
  · subst hother
    simp [count, hlookup]
  · simp [count, hother]

end ConnectionQuota

end PlezyRelay
