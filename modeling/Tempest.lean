import Tempest.Terminal
import Tempest.DependencyOrder
import Tempest.StuckRuns
import Tempest.Retries
import Tempest.LostCompletion
import Tempest.AtMostOnce
import Tempest.TokenExpiry
import Tempest.Webhook
import Tempest.Admission
import Tempest.Reaper
import Tempest.Interchange
import Tempest.LeaseTokens
import Tempest.Retention
import Tempest.TokenIndex
import Tempest.Pages
import Tempest.CasGenerator
import Tempest.LeaseManager
import Tempest.StepDown
import Tempest.WalRecovery
import Tempest.RingCursor
import Tempest.Saga
import Tempest.CompactorMap
import Tempest.CronField
import Tempest.LaneFair
import Tempest.StreamEncoder
import Tempest.Binary
import Tempest.AllOrNothing
import Tempest.Lock
import Tempest.RWLock
import Tempest.Barrier
import Tempest.KeyRace
import Tempest.Ledger
import Tempest.CronEngine
import Tempest.Migration
import Tempest.Overlap
import Tempest.EventBusOnce
import Tempest.Containment
import Tempest.Masker
import Tempest.MaskingBridge
import Tempest.Stream
import Tempest.CachedProvider
import Tempest.TokenBucketLocks
import Tempest.WebhookSigner
import Tempest.Memoize
import Tempest.Injection
import Tempest.DagSort
import Tempest.ConsistentHash
import Tempest.DeadLetters
import Tempest.SlidingLog
import Tempest.ExprRoundTrip
import Tempest.GraphDiff
import Tempest.Handlers
import Tempest.Breaker
import Tempest.Escalation
import Tempest.Blobstore
import Tempest.Replay
import Tempest.Pagination
import Tempest.Finality
