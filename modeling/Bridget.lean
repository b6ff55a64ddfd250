import Bridget.Attach.CivilTime
import Bridget.Attach.InputRows
import Bridget.Attach.Overrun
import Bridget.Attach.Reassembly
import Bridget.Communication.CanonicalSend
import Bridget.Core.CircuitBreaker
import Bridget.Delegation.ChildRuns
import Bridget.Delegation.RemoteResults
import Bridget.Delegation.Retention
import Bridget.Execution.History
import Bridget.Execution.Quota
import Bridget.Execution.Recovery
import Bridget.Execution.Revisions
import Bridget.Fleet.Ancestry
import Bridget.Fleet.LeaseRuns
import Bridget.Guidance.Runs
import Bridget.Idempotency.EditRuns
import Bridget.Idempotency.KeyRuns
import Bridget.Idempotency.LinkRuns
import Bridget.Idempotency.SpawnSaga
import Bridget.Idempotency.WakePass
import Bridget.Journal.FeedRoom
import Bridget.Journal.FeedRuns
import Bridget.Mobile.Runs
import Bridget.Observation.PathMatches
import Bridget.Permissions.ChildPolicy
import Bridget.Receipts.Quarantine
import Bridget.Receipts.Quota
import Bridget.Schedules.Cadence
import Bridget.Specialists.TeamOrder
import Bridget.Threads.AlertRuns
import Bridget.Threads.Once
import Bridget.Threads.Replays
import Bridget.Transport.Jsonl
