/-
  PlezyRelay/HostTransfer.lean
  ============================
  **Host-transfer eligibility** (`host_transfer.rs`).

  The gating is all-or-nothing: a room offers host transfer only once every
  connected peer at the host's sync-protocol version has declared the capability,
  and every connected peer has a positive version.  The roster is a list because
  the source collects it from the peer map in iteration order.
-/
import PlezyRelay.Protocol

namespace PlezyRelay.HostTransfer

/-- A connected peer's transfer-relevant admission metadata. -/
structure PeerInfo where
  peerId : String
  syncProtocolVersion : Int
  hostTransferCapable : Bool
deriving DecidableEq

def findPeer (peers : List PeerInfo) (peerId : String) : Option PeerInfo :=
  peers.find? fun p => p.peerId == peerId

/-- The connected host declared the capability at a positive version, every peer
    has a positive version, and nobody at the host's version lacks the capability. -/
def eligibleHost (hostPeerId : String) (peers : List PeerInfo) : Bool :=
  match findPeer peers hostPeerId with
  | none => false
  | some host =>
      if host.syncProtocolVersion ≤ 0 || !host.hostTransferCapable then false
      else peers.all fun p =>
        decide (0 < p.syncProtocolVersion) &&
          !(p.syncProtocolVersion == host.syncProtocolVersion && !p.hostTransferCapable)

/-- `targetPeerId` is a legal transfer target given an eligible host. -/
def isValidTarget (hostPeerId : String) (peers : List PeerInfo) (isReserved : String → Bool)
    (targetPeerId : String) : Bool :=
  if targetPeerId = hostPeerId then false
  else if !eligibleHost hostPeerId peers then false
  else
    match findPeer peers hostPeerId, findPeer peers targetPeerId with
    | some host, some target =>
        isReserved targetPeerId && target.hostTransferCapable &&
          target.syncProtocolVersion == host.syncProtocolVersion
    | _, _ => false

/-- The recipients and the targets of the `hostTransferEligibility` broadcast, or
    `none` when no connected peer declared the capability. -/
def computeEligibility (hostPeerId : String) (peers : List PeerInfo)
    (isReserved : String → Bool) : Option (List String × List String) :=
  let recipients := (peers.filter (·.hostTransferCapable)).map (·.peerId)
  if recipients.isEmpty then none
  else some (recipients,
    (peers.filter fun p => isValidTarget hostPeerId peers isReserved p.peerId).map (·.peerId))

/-! ### What the targets are -/

variable {hostPeerId x : String} {peers : List PeerInfo} {isReserved : String → Bool}

theorem mem_of_findPeer {p : PeerInfo} (h : findPeer peers x = some p) :
    p ∈ peers ∧ p.peerId = x := by
  refine ⟨List.mem_of_find?_eq_some h, ?_⟩
  simpa using List.find?_some h

/-- A legal target is reserved; everything else about it is the roster's. -/
theorem isValidTarget_iff : isValidTarget hostPeerId peers isReserved x = true ↔
    isReserved x = true ∧ isValidTarget hostPeerId peers (fun _ => true) x = true := by
  unfold isValidTarget
  split_ifs
  · simp
  · simp
  · split
    · simp only [Bool.and_eq_true, true_and, and_assoc]
    · simp

/-- A legal target is connected, and so is the host, who is somebody else. -/
theorem connected_of_isValidTarget (h : isValidTarget hostPeerId peers isReserved x = true) :
    x ≠ hostPeerId ∧ (∃ p ∈ peers, p.peerId = x) ∧ ∃ p ∈ peers, p.peerId = hostPeerId := by
  unfold isValidTarget at h
  split_ifs at h with hne hhost
  split at h
  · rename_i host target hfound htarget
    exact ⟨hne, ⟨target, mem_of_findPeer htarget⟩, ⟨host, mem_of_findPeer hfound⟩⟩
  · cases h

theorem mem_targets :
    x ∈ (peers.filter fun p => isValidTarget hostPeerId peers isReserved p.peerId).map (·.peerId) ↔
      isValidTarget hostPeerId peers isReserved x = true := by
  simp only [List.mem_map, List.mem_filter]
  constructor
  · rintro ⟨p, ⟨_, hvalid⟩, rfl⟩
    exact hvalid
  · intro hvalid
    obtain ⟨_, ⟨p, hp, rfl⟩, _⟩ := connected_of_isValidTarget hvalid
    exact ⟨p, ⟨hp, hvalid⟩, rfl⟩

theorem computeEligibility_isSome {p : PeerInfo} (hp : p ∈ peers)
    (hcapable : p.hostTransferCapable = true) :
    computeEligibility hostPeerId peers isReserved =
      some ((peers.filter (·.hostTransferCapable)).map (·.peerId),
        (peers.filter fun p => isValidTarget hostPeerId peers isReserved p.peerId).map (·.peerId)) := by
  have hmem : p ∈ peers.filter (·.hostTransferCapable) := List.mem_filter.mpr ⟨hp, hcapable⟩
  have hne : (peers.filter (·.hostTransferCapable)).map (·.peerId) ≠ [] := by
    intro hnil
    rw [List.map_eq_nil_iff] at hnil
    rw [hnil] at hmem
    cases hmem
  rw [computeEligibility, if_neg (by simpa using hne)]

theorem eligibleHost_iff {host : PeerInfo} (hhost : findPeer peers hostPeerId = some host) :
    eligibleHost hostPeerId peers = true ↔
      0 < host.syncProtocolVersion ∧ host.hostTransferCapable = true ∧
      ∀ p ∈ peers, 0 < p.syncProtocolVersion ∧
        (p.syncProtocolVersion = host.syncProtocolVersion → p.hostTransferCapable = true) := by
  simp only [eligibleHost, hhost]
  split_ifs with hguard
  · simp only [Bool.or_eq_true, decide_eq_true_eq, Bool.not_eq_true'] at hguard
    simp only [false_iff, not_and]
    intro hpos hcapable
    rcases hguard with hle | hnot
    · omega
    · rw [hcapable] at hnot
      cases hnot
  · simp only [Bool.or_eq_true, decide_eq_true_eq, Bool.not_eq_true', not_or,
      Bool.not_eq_false, Int.not_le] at hguard
    simp only [List.all_eq_true, Bool.and_eq_true, decide_eq_true_eq, Bool.not_eq_true',
      Bool.and_eq_false_iff, beq_eq_false_iff_ne, ne_eq, Bool.not_eq_false', hguard, true_and]
    simp only [imp_iff_not_or]

theorem isValidTarget_eq_true :
    isValidTarget hostPeerId peers isReserved x = true ↔
      x ≠ hostPeerId ∧ eligibleHost hostPeerId peers = true ∧
      ∃ host target, findPeer peers hostPeerId = some host ∧ findPeer peers x = some target ∧
        isReserved x = true ∧ target.hostTransferCapable = true ∧
        target.syncProtocolVersion = host.syncProtocolVersion := by
  unfold isValidTarget
  split_ifs with heq helig
  · simp [heq]
  · simp only [Bool.not_eq_true'] at helig
    simp [helig]
  · simp only [Bool.not_eq_true', Bool.not_eq_false] at helig
    cases hhost : findPeer peers hostPeerId <;> cases htarget : findPeer peers x <;>
      simp [heq, helig, and_assoc]

/-- The rule is symmetric in host and target. -/
theorem isValidTarget_symm {isReserved' : String → Bool}
    (h : isValidTarget hostPeerId peers isReserved x = true)
    (hreserved : isReserved' hostPeerId = true) :
    isValidTarget x peers isReserved' hostPeerId = true := by
  obtain ⟨hne, helig, host, target, hhost, htarget, _, hcapable, hversion⟩ :=
    isValidTarget_eq_true.mp h
  obtain ⟨hpos, hhostCapable, hall⟩ := (eligibleHost_iff hhost).mp helig
  refine isValidTarget_eq_true.mpr
    ⟨Ne.symm hne, ?_, target, host, htarget, hhost, hreserved, hhostCapable, hversion.symm⟩
  rw [eligibleHost_iff htarget, hversion]
  exact ⟨hpos, hcapable, hall⟩

/-- Two rosters with the same peers, in which each id is found alike, have the same targets. -/
theorem isValidTarget_congr {peers' : List PeerInfo} (hmem : ∀ p, p ∈ peers ↔ p ∈ peers')
    (hfind : ∀ y, findPeer peers y = findPeer peers' y) :
    isValidTarget hostPeerId peers isReserved x = isValidTarget hostPeerId peers' isReserved x := by
  have helig : eligibleHost hostPeerId peers = eligibleHost hostPeerId peers' := by
    cases hhost : findPeer peers hostPeerId with
    | none => simp only [eligibleHost, hhost, ← hfind]
    | some host =>
        rw [Bool.eq_iff_iff, eligibleHost_iff hhost, eligibleHost_iff ((hfind _).symm.trans hhost)]
        simp only [hmem]
  simp only [isValidTarget, helig, hfind]

end PlezyRelay.HostTransfer
