/-
  PlezyRelay/ConnectionCounters.lean
  ==================================
  **The connection counters over any sequence of calls** (`quotas.rs`).

  `ConnectionQuota` holds the same information twice, a total and a count per address,
  and updates the two under conditions of their own.  What they are both meant to
  describe is the multiset of the connections that were granted and not given back.
  `Ledger` keeps that multiset beside the quota: a granted `try_connect` puts its
  address in, a `disconnect` takes one out if there is one.  Nobody has to call
  `disconnect` only for connections they have, so one that finds nothing to take out
  is unmatched.

  `Ledger.after_balanced` says that after any calls the total is the size of the
  multiset and the map its tally, within the two limits.  That the counters agree with
  each other, and what refused and unmatched calls do, is read off from there
  (`connection_counters_consistent`).
-/
import PlezyRelay.Quotas

namespace PlezyRelay

namespace ConnectionQuota

inductive Call where
  | tryConnect (ip : IpAddr)
  | disconnect (ip : IpAddr)
deriving DecidableEq

/-- A quota and the connections it has granted that have not been given back. -/
structure Ledger where
  quota : ConnectionQuota := {}
  held : Multiset IpAddr := 0

namespace Ledger

def call (l : Ledger) : Call → Ledger
  | .tryConnect ip =>
      let (quota, granted) := l.quota.tryConnect ip
      { quota := quota, held := if granted then ip ::ₘ l.held else l.held }
  | .disconnect ip => { quota := l.quota.disconnect ip, held := l.held.erase ip }

/-- A new quota after the calls. -/
def after (calls : List Call) : Ledger := calls.foldl call {}

/-- The quota counts what is held, within its limits. -/
structure Balanced (l : Ledger) : Prop where
  tallies : l.quota.perIp.Tallies l.held
  globalCount : l.quota.globalCount = l.held.card
  card_le : l.held.card ≤ MAX_GLOBAL_CONNS
  count_le : ∀ ip, l.held.count ip ≤ MAX_CONNS_PER_IP

variable {l : Ledger} {ip : IpAddr}

theorem Balanced.count_eq (h : l.Balanced) (ip : IpAddr) : l.quota.count ip = l.held.count ip :=
  h.tallies.getD_lookup ip

theorem Balanced.tryConnect (h : l.Balanced) (ip : IpAddr) :
    (l.call (.tryConnect ip)).Balanced := by
  simp only [call, tryConnect_eq, h.globalCount, h.count_eq]
  split
  case isFalse => exact h
  case isTrue hroom =>
    constructor
    · exact h.tallies.cons ip
    · simp
    · simp only [if_true, Multiset.card_cons]
      exact hroom.1
    · intro other
      simp only [if_true, Multiset.count_cons]
      by_cases hother : other = ip
      · rw [if_pos hother, hother]
        exact hroom.2
      · rw [if_neg hother]
        exact h.count_le other

/-- A connection that is not held has no entry. -/
theorem Balanced.disconnect_eq_self (h : l.Balanced) (hip : ip ∉ l.held) :
    l.quota.disconnect ip = l.quota :=
  disconnect_of_none (h.tallies.lookup_eq_none hip)

theorem Balanced.disconnect (h : l.Balanced) (ip : IpAddr) :
    (l.call (.disconnect ip)).Balanced := by
  by_cases hip : ip ∈ l.held
  · have hcount : 0 < l.held.count ip := Multiset.count_pos.mpr hip
    have hlookup : l.quota.perIp.lookup ip = some (l.held.count ip - 1 + 1) := by
      apply h.tallies.lookup_eq_some.mpr
      omega
    obtain ⟨hglobal, hlookups⟩ := disconnect_of_some hlookup
    constructor
    · exact h.tallies.erase hlookups
    · simp only [call, hglobal, h.globalCount, Multiset.card_erase_of_mem hip, Nat.pred_eq_sub_one]
    · exact (Multiset.card_le_card (Multiset.erase_le ip l.held)).trans h.card_le
    · intro other
      exact (Multiset.count_le_of_le other (Multiset.erase_le ip l.held)).trans (h.count_le other)
  · -- nothing is held for the address, and the call changes nothing
    have hcall : l.call (.disconnect ip) = l := by
      simp only [call, h.disconnect_eq_self hip, Multiset.erase_of_notMem hip]
    rw [hcall]
    exact h

theorem Balanced.call (h : l.Balanced) (c : Call) : (l.call c).Balanced := by
  cases c with
  | tryConnect ip => exact h.tryConnect ip
  | disconnect ip => exact h.disconnect ip

theorem Balanced.calls (h : l.Balanced) (calls : List Call) :
    (calls.foldl Ledger.call l).Balanced := by
  induction calls generalizing l with
  | nil => exact h
  | cons c calls ih => exact ih (h.call c)

theorem balanced_new : Balanced {} := by
  constructor
  · exact AList.tallies_empty
  · rfl
  · simp
  · simp

/-- Whatever has been called, the quota counts what is held. -/
theorem after_balanced (calls : List Call) : (after calls).Balanced :=
  balanced_new.calls calls

end Ledger

/-- **The two counters agree and stay within their limits**, after any calls for any
    addresses, and a call that grants or gives back nothing changes neither. -/
theorem connection_counters_consistent (calls : List Call) :
    let l := Ledger.after calls
    l.quota.globalCount = l.quota.perIp.values.sum ∧
    (∀ ip n, l.quota.perIp.lookup ip = some n → 1 ≤ n ∧ n ≤ MAX_CONNS_PER_IP) ∧
    l.quota.globalCount ≤ MAX_GLOBAL_CONNS ∧
    (∀ ip, (l.quota.tryConnect ip).2 = false → (l.quota.tryConnect ip).1 = l.quota) ∧
    ∀ ip, ip ∉ l.held → l.quota.disconnect ip = l.quota := by
  intro l
  have h : l.Balanced := Ledger.after_balanced calls
  refine ⟨?_, ?_, ?_, ?_, ?_⟩
  · rw [h.globalCount, h.tallies.sum_values]
  · intro ip n hlookup
    obtain ⟨hcount, hpos⟩ := h.tallies.lookup_eq_some.mp hlookup
    have hle := h.count_le ip
    omega
  · rw [h.globalCount]
    exact h.card_le
  · intro ip hrefused
    rw [tryConnect_eq] at hrefused ⊢
    split
    case isTrue hroom => simp [hroom] at hrefused
    case isFalse => rfl
  · intro ip hip
    exact h.disconnect_eq_self hip

/-- The sixth connection of an address is refused, and a slot given back is free again. -/
example :
    let ip := IpAddr.v4 #v[10, 0, 0, 1]
    let connects := List.replicate 6 (Call.tryConnect ip)
    let full := (Ledger.after connects).quota
    let freed := (Ledger.after (connects ++ [.disconnect ip])).quota
    full.globalCount = 5 ∧ (full.tryConnect ip).2 = false ∧ (freed.tryConnect ip).2 = true := by
  decide +kernel

end ConnectionQuota

end PlezyRelay
