import PlezyRelay.Foundation.AssocMap
import PlezyRelay.Foundation.Threads
import PlezyRelay.Foundation.RelyGuarantee
import PlezyRelay.Foundation.Locks
import PlezyRelay.Foundation.Sections
import PlezyRelay.Foundation.Splitting
import PlezyRelay.Foundation.Envelope
import PlezyRelay.Foundation.Tally
import PlezyRelay.Foundation.Cooldown
import PlezyRelay.Foundation.Discipline
import PlezyRelay.Foundation.Permits
import PlezyRelay.Foundation.Outbox
import PlezyRelay.Foundation.Obligations
import PlezyRelay.Foundation.Matching
import PlezyRelay.Foundation.Files
import PlezyRelay.Protocol
import PlezyRelay.ClientIp
import PlezyRelay.Quotas
import PlezyRelay.ConnectionCounters
import PlezyRelay.ConnectionSlots
import PlezyRelay.UploadLimiter
import PlezyRelay.HostTransfer
import PlezyRelay.Room
import PlezyRelay.RoomOp
import PlezyRelay.RoomInvariant
import PlezyRelay.Snapshot
import PlezyRelay.IdentityBinding
import PlezyRelay.Connections
import PlezyRelay.FailedLeave
import PlezyRelay.Server
import PlezyRelay.Tasks
import PlezyRelay.ServerFrame
import PlezyRelay.SnapshotWriter
import PlezyRelay.Relay
import PlezyRelay.ClientViews
import PlezyRelay.TransferEligibility
import PlezyRelay.HostHandover
import PlezyRelay.RelayBase
import PlezyRelay.RelaySafe
import PlezyRelay.GhostMembers
import PlezyRelay.CreateAdmission
import PlezyRelay.StrandedMembers
import PlezyRelay.SnapshotRoundTrip
import PlezyRelay.TerminalDurability
import PlezyRelay.WriterLog
import PlezyRelay.WriterBookkeeping
import PlezyRelay.LockOrder
import PlezyRelay.DeadlockFreedom
import PlezyRelay.RestoredAbsences
import PlezyRelay.PendingReleases
import PlezyRelay.RegistryCalls
import PlezyRelay.CreateAtomicity
import PlezyRelay.RoomQuota
import PlezyRelay.QuotaRelease
import PlezyRelay.RecordedMutations
import PlezyRelay.SnapshotAgreement
import PlezyRelay.GracefulRestart
import PlezyRelay.DefensiveLoading
import PlezyRelay.TaskRecords
import PlezyRelay.Routing
import PlezyRelay.PersistAtomic
import PlezyRelay.ReconnectTokens
import PlezyRelay.WirePayloads
import PlezyRelay.IdentityClaims
import PlezyRelay.Lives
import PlezyRelay.LogStore
import PlezyRelay.Sockets
import PlezyRelay.EffectDelivery
import PlezyRelay.DeliveryOrder
