import Bridget.Core.Message
import Bridget.Idempotency.SpawnCommands

/-!
# Delegated tasks

A task is the durable record of one delegation: who asked, which agent works on it, which
round it is in and what is still owed to the owner. The state is kept as a text, as the record
keeps it, so that a saved copy can hold any text.
-/

namespace Bridget.Delegation

open Foundation
open Idempotency (RemotePlacement)

/-! ## What a task records -/

structure RoundRecord where
  round : Nat
  (requestId digest : String)
  deriving DecidableEq

structure WorkspaceCommit where
  (sha subject : String)
  deriving DecidableEq

structure WorkspaceRecord where
  (path branch baseCommit : String)
  (headCommit branchCommit : Option String)
  headOnBranch : Option Bool
  commitCount : Option Nat
  commits : List WorkspaceCommit
  truncated : Bool
  dirty : Option Bool
  deriving DecidableEq

inductive QuotaWaitPhase where
  | waiting | relaunching | done
  deriving DecidableEq

structure WorkerIdentity where
  (machineId workerId : String)
  provisioningRevision : Nat
  deriving DecidableEq

structure WorkerCommandIdentity where
  (commandId taskId instanceId : String)
  generation : Nat
  deriving DecidableEq

structure WorkerResultIdentity where
  command : WorkerCommandIdentity
  missionId : String
  round : Nat
  executionId : String
  executionGeneration : Nat
  deriving DecidableEq

structure WorkerResultSlot where
  identity : WorkerResultIdentity
  admissionDigest : String
  deriving DecidableEq

structure RemoteResultEnvelope where
  worker : WorkerIdentity
  identity : WorkerResultIdentity
  (messageId body digest : String)

inductive RemoteResultDiscardReason where
  | cancelled | staleRound | obsoleteExecution | expired
  deriving DecidableEq

inductive RemoteResultDeferredReason where
  | quotaHold | executionSettlementPending
  deriving DecidableEq

inductive RemoteResultDisposition where
  | accepted
  | discardedTerminal (reason : RemoteResultDiscardReason)
  | rejectedConflict
  | deferred (reason : RemoteResultDeferredReason) (retryAfter : Int)
  deriving DecidableEq

def RemoteResultDisposition.isDeferred : RemoteResultDisposition → Bool
  | .deferred .. => true
  | .accepted | .discardedTerminal _ | .rejectedConflict => false

structure RemoteResultReceipt where
  worker : WorkerIdentity
  identity : WorkerResultIdentity
  (messageId digest : String)
  disposition : RemoteResultDisposition
  conflictSeen : Bool
  deriving DecidableEq

/-- The request of a task: a delegation, or one of the requests that never become a task. -/
inductive NativeDelegationRequest where
  | delegate (agentType model : String) (effort : Option String) (posture : Option SpawnPosture)
      (task : String)
  | other
  deriving DecidableEq

/-- A task as it is stored. -/
structure Task where
  taskId : String
  rootOwnerAgentId : String := ""
  parentTaskId : Option String := none
  updatedAt : Int := 0
  startedAt : Option Int := none
  completedAt : Option Int := none
  (owner ownerInstance : String)
  request : NativeDelegationRequest
  effectivePosture : Option SpawnPosture := none
  (protocol cwd : String)
  remotePlacement : Option RemotePlacement := none
  remotePrepared : Bool := false
  remoteResultSlots : List WorkerResultSlot := []
  remoteResultReceipts : List RemoteResultReceipt := []
  workspace : Option WorkspaceRecord := none
  workspaceReportMission : Option String := none
  child : String
  childInstance : Option String := none
  mission : String
  missionDeadlineAt : Option Int := none
  createdAt : Int
  state : String
  result : Option String := none
  error : Option String := none
  resultSent : Bool
  cleanupDone : Bool := false
  failureSent : Bool := false
  deliveryAcked : Bool := false
  acknowledgedAt : Option Int := none
  missionIssuedAt : Option Int := none
  quotaWaits : List QuotaWaitPhase := []
  round : Nat := 0
  idleDeadlineAt : Option Int := none
  roundBody : Option String := none
  rounds : List RoundRecord := []
  guarded : Bool := false
  guardReleased : Bool := false
  unackedRounds : List Nat := []
  /-- The other members as they are serialised. No call here reads them on their own, but a
  remote result is committed only over a record that is equal in all of them. -/
  rest : List UInt8 := []
  deriving DecidableEq

/-- What the records rely on from other components. -/
structure TaskEnvironment where
  /-- The text is a JSON object of exactly a code `usage_limit` and a reset time. -/
  isUsageLimit : String → Bool
  /-- `WorkerResultSlot::validate`. -/
  validSlot : WorkerResultSlot → Bool
  /-- `RemoteResultEnvelope::validate`. -/
  validResult : RemoteResultEnvelope → Bool

namespace Task

variable (task : Task)

def terminal : Bool :=
  task.state == "result_available" || task.state == "failed" || task.state == "cancelled"

def roundNo : Nat := max task.round 1

def rootOwner : String := if task.rootOwnerAgentId = "" then task.owner else task.rootOwnerAgentId

/-- The error that readers see: none while a quota wait is open, and the closed code of a
usage limit in place of its checkpoint. -/
def projectedError (env : TaskEnvironment) (task : Task) : Option String :=
  if task.state = "working" ∧ ∃ phase ∈ task.quotaWaits, phase ≠ .done then none
  else task.error.map fun error => if env.isUsageLimit error then "usage_limit" else error

/-- `NATIVE_HOLDS_SLOT_SQL`. -/
def holdsSlot (task : Task) : Bool :=
  ["queued", "starting", "mission_pending", "working", "waiting_for_children",
      "cancelling"].contains task.state ||
    (task.terminal && task.guarded && !task.cleanupDone)

/-- What `tree_settled` asks of each task. -/
def settled (task : Task) : Bool :=
  task.terminal && task.cleanupDone && task.idleDeadlineAt.isNone &&
    task.unackedRounds.isEmpty &&
    !task.remoteResultReceipts.any (·.disposition.isDeferred) &&
    (task.state == "cancelled" || task.deliveryAcked)

end Task

def treeSettled (tree : List Task) : Bool := tree.all Task.settled

def treeAge (tree : List Task) : Int :=
  ((tree.map fun task => task.completedAt.getD task.updatedAt).max?).getD 0

/-! ## Changes that readers see -/

section

variable (env : TaskEnvironment)

def visibleChanged (old new : Task) : Bool :=
  old.state != new.state || old.childInstance != new.childInstance || old.cwd != new.cwd ||
    old.remotePlacement != new.remotePlacement ||
    old.projectedError env != new.projectedError env ||
    (new.state == "result_available" && old.result != new.result)

def stamp (now : Int) (task : Task) (old : Option Task) : Task :=
  { task with
    updatedAt := match old with
      | none => max now task.createdAt
      | some old => if visibleChanged env old task then max now task.createdAt else old.updatedAt
    startedAt := ((old.bind Task.startedAt).or task.startedAt).or
      (task.missionDeadlineAt.map fun _ => now)
    completedAt := ((old.bind Task.completedAt).or task.completedAt).or
      (if task.terminal then some now else none) }

end

/-! ## The tables -/

inductive DelegationError where
  | code (text : String)
  | sqlite (cause : SqlError)

abbrev Result := Except DelegationError

instance : Coe String DelegationError := ⟨.code⟩

def sqlite {α : Type} (statement : Except SqlError α) : Result α :=
  statement.mapError .sqlite

@[simp] theorem sqlite_eq_ok {α : Type} {statement : Except SqlError α} {a : α} :
    sqlite statement = .ok a ↔ statement = .ok a := mapError_eq_ok

structure DelegationRow where
  (taskId ownerInstance requestId : String)
  canonical : List UInt8
  payload : Task

instance : UniqueKeys DelegationRow where
  conflicts a b :=
    a.taskId = b.taskId ∨ (a.ownerInstance = b.ownerInstance ∧ a.requestId = b.requestId) ∨
      a.payload.mission = b.payload.mission ∨
      (a.payload.owner = b.payload.owner ∧ a.requestId = b.requestId) ∨
      a.payload.child = b.payload.child

abbrev AdmissionKey := String × String

def DelegationRow.key (row : DelegationRow) : AdmissionKey := (row.payload.owner, row.requestId)

structure NativeRefusalRow where
  (owner requestId : String)
  canonical : List UInt8
  code : String
  refusedAt : Int

instance : UniqueKeys NativeRefusalRow where
  conflicts a b := a.owner = b.owner ∧ a.requestId = b.requestId

structure PastMissionRow where
  (mission taskId : String)

instance : UniqueKeys PastMissionRow where
  conflicts a b := a.mission = b.mission

structure TombstoneRow where
  (owner requestId : String)
  purgedAt : Int

instance : UniqueKeys TombstoneRow where
  conflicts a b := a.owner = b.owner ∧ a.requestId = b.requestId

inductive ChildRequestState where
  | open | answered | expired | cancelled | refused
  deriving DecidableEq

inductive ChildDeliveryState where
  | none | pending | sent | delivered | void | unknown
  deriving DecidableEq

structure ChildRequest where
  requestId : String
  (taskId childInstance providerSession turnId providerRequestId contentHash kind verdict : String)
  state : ChildRequestState
  outcome : Option String
  (summary factsJson modelText offeredJson : String)
  (createdAt deadlineAt : Int)
  (decision answerJson decidedBy : Option String)
  decidedAt : Option Int
  deliveryState : ChildDeliveryState
  voidReason : Option String
  (sentAt deliveredAt : Option Int)
  inboxItemId : Option String
  inboxSettled : Bool

def ChildRequest.origin (request : ChildRequest) : String × String × String × String × String :=
  (request.taskId, request.childInstance, request.providerSession, request.turnId,
    request.providerRequestId)

instance : UniqueKeys ChildRequest where
  conflicts a b := a.requestId = b.requestId ∨ a.origin = b.origin

inductive AutoAdmissionState where
  | pending | decisionStarted | chosen | admitted | refused
  deriving DecidableEq

/-- `AUTO_HOLDS_SLOT_SQL`. -/
def AutoAdmissionState.holdsSlot : AutoAdmissionState → Bool
  | .pending | .decisionStarted | .chosen => true
  | .admitted | .refused => false

inductive AutoAdmissionMode where
  | explicit | automatic | fallback
  deriving DecidableEq

inductive AutoAdmissionDecisionLevel where
  | decisionService | lightweightModel
  deriving DecidableEq

structure AutoAdmissionReceipt where
  (owner requestId : String)
  (canonical metadata : List UInt8)
  metadataVersion : Nat
  state : AutoAdmissionState
  (coordinatorEpoch revision policyRevision : Int)
  policyDigest : String
  candidateId : Option String
  delegateCanonical : Option (List UInt8)
  mode : Option AutoAdmissionMode
  (reason taskId refusalCode : Option String)
  (createdAt updatedAt : Int)
  deriving DecidableEq

def AutoAdmissionReceipt.key (receipt : AutoAdmissionReceipt) : AdmissionKey :=
  (receipt.owner, receipt.requestId)

instance : UniqueKeys AutoAdmissionReceipt where
  conflicts a b := a.key = b.key

structure ProjectionMutation where
  generation : String
  seq : Nat

structure DelegationStore where
  tasks : Table DelegationRow
  refusals : Table NativeRefusalRow
  pastMissions : Table PastMissionRow
  tombstones : Table TombstoneRow
  childRequests : Table ChildRequest
  receipts : Table AutoAdmissionReceipt
  projection : ProjectionMutation

namespace DelegationStore

def init (generation : String) : DelegationStore where
  tasks := .empty
  refusals := .empty
  pastMissions := .empty
  tombstones := .empty
  childRequests := .empty
  receipts := .empty
  projection := ⟨generation, 0⟩

end DelegationStore

end Bridget.Delegation
