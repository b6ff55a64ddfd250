import Bridget.Core.Execution
import Bridget.Core.Message
import Bridget.Foundation.Table
import Bridget.Foundation.Text

/-!
# The execution store

Submissions, executions and what is remembered about their interruption and recovery.
States are kept as texts, as the database keeps them, so that a message can write any text
into the column. Each operation is one transaction.
-/

namespace Bridget.Execution

open Foundation

abbrev Result := Except SqlError

structure SubmissionRow where
  (submissionId targetAgent : String)
  messageJson : Option String
  acceptedAt : Int
  deriving DecidableEq

instance : UniqueKeys SubmissionRow where
  conflicts a b := a.submissionId = b.submissionId

structure ExecutionRow where
  (executionId submissionId : String)
  (agentInstanceId projectId : Option String)
  bindingGeneration : Option Nat
  generation : Nat
  state : String
  revision : Nat
  reason : Option String
  (createdAt updatedAt : Int)
  deriving DecidableEq

instance : UniqueKeys ExecutionRow where
  conflicts a b := a.executionId = b.executionId

inductive ContinuationMode where
  | native | forked | reconstructed
  deriving DecidableEq

structure ContinuationRow where
  executionId : String
  generation : Nat
  parentExecutionId : String
  mode : ContinuationMode
  reason : Option String
  observedAt : Int

instance : UniqueKeys ContinuationRow where
  conflicts a b := a.executionId = b.executionId

/-- A row of `control_pause_interruptions`; it is pending until it is resumed. -/
structure PauseRow where
  (executionId targetAgent : String)
  controlGeneration : Nat
  requestedAt : Int
  resumedAt : Option Int
  resumeExecutionId : Option String

instance : UniqueKeys PauseRow where
  conflicts a b := a.executionId = b.executionId

structure QuotaRow where
  (executionId identity : String)
  (resetAt qualifiedAt : Int)
  resumeExecutionId : Option String

instance : UniqueKeys QuotaRow where
  conflicts a b := a.executionId = b.executionId ∨ a.identity = b.identity

/-- The tables of the execution store. -/
structure Store where
  submissions : Table SubmissionRow
  executions : Table ExecutionRow
  continuations : Table ContinuationRow
  pauses : Table PauseRow
  quotaResumes : Table QuotaRow

def Store.init : Store := ⟨.empty, .empty, .empty, .empty, .empty⟩

structure MessageJson where
  encode : BridgetMessage → String
  decode : String → Option BridgetMessage

structure ExecutionSnapshot where
  executionId : String
  project : Option ProjectReference
  state : String
  (generation revision : Nat)
  createdAt : Int

def projectReferenceFromParts (projectId : Option String) (bindingGeneration : Option Nat) :
    Result (Option ProjectReference) :=
  match projectId, bindingGeneration with
  | none, none => .ok none
  | some projectId, some bindingGeneration =>
    if 0 < bindingGeneration then .ok (some ⟨projectId, bindingGeneration⟩)
    else .error .conversion
  | _, _ => .error .conversion

def ExecutionRow.snapshot (row : ExecutionRow) : Result ExecutionSnapshot := do
  let project ← projectReferenceFromParts row.projectId row.bindingGeneration
  let generation ← sqlCounter row.generation
  let revision ← sqlCounter row.revision
  return { row with project, generation, revision }

def isActive (state : String) : Bool :=
  state = "queued" || state = "starting" || state = "running" || state = "waiting_approval" ||
    state = "waiting_user_input" || state = "interrupting"

inductive ConditionalTransition where
  | applied (snapshot : ExecutionSnapshot)
  | rejected (snapshot : ExecutionSnapshot)
  | missing

structure ReconstructedExecution where
  parentExecutionId : String
  snapshot : ExecutionSnapshot
  message : BridgetMessage

inductive ExecutionRecoveryOutcome where
  | none
  | reconstructed (execution : ReconstructedExecution)
  | payloadUnavailable (parentExecutionId : String)
  | ambiguous (executionIds : List String)

inductive QuotaRecoveryOutcome where
  | notQualified
  | notFailed
  | notLeaf
  | alreadyResumed (executionId : String)
  | reconstructed (execution : ReconstructedExecution)

namespace Store

variable (json : MessageJson) (s : Store)

def execution (executionId : String) : Option ExecutionRow :=
  s.executions.find? fun row => row.executionId = executionId

def submission (submissionId : String) : Option SubmissionRow :=
  s.submissions.find? fun row => row.submissionId = submissionId

def startingRow (executionId submissionId : String) (agentInstanceId : Option String)
    (project : Option ProjectReference) (generation : Nat) (reason : Option String)
    (observedAt : Int) : ExecutionRow :=
  { executionId, submissionId, agentInstanceId
    projectId := project.map ProjectReference.projectId
    bindingGeneration := project.map ProjectReference.bindingGeneration
    generation, state := "starting", revision := 0, reason
    createdAt := observedAt, updatedAt := observedAt }

def bindProject (project : Option ProjectReference) : Result Unit :=
  whenSome project () fun project => do
    let _ ← sqlCounter project.bindingGeneration
    return ()

def admitSubmission (submission : SubmissionRow) (executionId : String)
    (project : Option ProjectReference) (observedAt : Int) : Result (Bool × Store) :=
  let (submissions, inserted) := s.submissions.insertOrIgnore submission
  if inserted ≠ 1 then .ok (false, s)
  else do
    bindProject project
    let executions ← s.executions.insert
      (startingRow executionId submission.submissionId none project 1 none observedAt)
    return (true, { s with submissions, executions })

def admitStartingForProject (submissionId executionId targetAgent : String)
    (project : Option ProjectReference) (observedAt : Int) : Result (Bool × Store) :=
  s.admitSubmission ⟨submissionId, targetAgent, none, observedAt⟩ executionId project observedAt

def admitStartingMessageForProject (message : BridgetMessage) (executionId : String)
    (project : Option ProjectReference) (observedAt : Int) : Result (Bool × Store) :=
  s.admitSubmission ⟨message.id, message.toAgent, some (json.encode message), observedAt⟩
    executionId project
    observedAt

def transitionIfCurrent (executionId expectedState : String)
    (expectedRevision expectedGeneration : Nat) (nextState reason : String) (observedAt : Int) :
    Result (ConditionalTransition × Store) :=
  match s.execution executionId with
  | none => .ok (.missing, s)
  | some row => do
      let current ← row.snapshot
      if current.state ≠ expectedState ∨ current.revision ≠ expectedRevision ∨
          current.generation ≠ expectedGeneration then
        return (.rejected current, s)
      else
        let (executions, updated) ← s.executions.update
          (fun r => r.executionId = executionId ∧ r.state = expectedState ∧
            r.revision = expectedRevision ∧ r.generation = expectedGeneration)
          (fun r => { r with
            state := nextState, reason := some reason, revision := r.revision + 1
            updatedAt := observedAt })
        ensure (updated = 1) .noRows
        return (.applied { current with state := nextState, revision := expectedRevision + 1 },
          { s with executions })

def expireStartingBefore (cutoffAt observedAt : Int) : Result (Nat × Store) := do
  let (executions, updated) ← s.executions.update
    (fun r => r.state = "starting" ∧ r.updatedAt < cutoffAt)
    (fun r => { r with
      state := "unreachable", reason := some "provider_unavailable"
      revision := r.revision + 1, updatedAt := observedAt })
  return (updated, { s with executions })

/-! ## Pauses -/

def recordPauseInterruption (executionId targetAgent : String) (controlGeneration : Nat)
    (now : Int) : Result Store := do
  let controlGeneration ← sqlCounter controlGeneration
  let (pauses, inserted) := s.pauses.insertOrIgnore
    ⟨executionId, targetAgent, controlGeneration, now, none, none⟩
  -- the row is ignored when its key is taken, but never when the foreign key fails
  ensure (inserted = 0 ∨ (s.execution executionId).isSome) .constraint
  return { s with pauses }

def pauseOrder (a b : PauseRow) : Prop :=
  a.requestedAt < b.requestedAt ∨ a.requestedAt = b.requestedAt ∧ a.executionId ≤ b.executionId
  deriving Decidable

def pendingPauses : List PauseRow := s.pauses.select fun p => p.resumedAt = none

def pendingPauseInterruptions : List (String × String) :=
  (s.pendingPauses.insertionSort pauseOrder).map fun p => (p.executionId, p.targetAgent)

def abandonPauseInterruption (executionId : String) (now : Int) : Result (Bool × Store) := do
  let (pauses, changed) ← s.pauses.update
    (fun p => p.executionId = executionId ∧ p.resumedAt = none)
    (fun p => { p with resumedAt := some now, resumeExecutionId := none })
  return (changed ≠ 0, { s with pauses })

def isPaused (executionId : String) : Bool :=
  s.pendingPauses.any fun p => p.executionId = executionId

/-! ## Recovery -/

structure Candidate where
  row : ExecutionRow
  submission : SubmissionRow

def candidateOrder (a b : Candidate) : Prop :=
  a.row.createdAt < b.row.createdAt ∨
    a.row.createdAt = b.row.createdAt ∧ a.row.executionId ≤ b.row.executionId
  deriving Decidable

variable (targetAgent : String)

def recoverable : List Candidate :=
  s.executions.rows.filterMap fun row => do
    let submission ← s.submission row.submissionId
    if submission.targetAgent = targetAgent ∧ (isActive row.state ∨ s.isPaused row.executionId)
    then some ⟨row, submission⟩ else none

def candidates : List Candidate := ((s.recoverable targetAgent).insertionSort candidateOrder).take 2

def recoverableExecutionIdsForAgent : List String :=
  (s.candidates targetAgent).map fun candidate => candidate.row.executionId

variable (parent : ExecutionRow)

def closeUnreadable (observedAt : Int) : Result Store := do
  let (executions, _) ← s.executions.update
    (fun r => r.executionId = parent.executionId ∧ r.revision = parent.revision ∧ isActive r.state)
    (fun r => { r with
      state := "unreachable", reason := some "recovery_payload_unavailable"
      revision := r.revision + 1, updatedAt := observedAt })
  return { s with executions }

/-- The parent is closed, unless it was interrupted: then only its revision moves. -/
def closeParent (observedAt : Int) : Result Store := do
  let (executions, closed) ← s.executions.update
    (fun r => r.executionId = parent.executionId ∧ r.revision = parent.revision ∧
      (isActive r.state ∨ r.state = "interrupted" ∧ s.isPaused r.executionId))
    (fun r => { r with
      state := if r.state = "interrupted" then r.state else "unreachable"
      reason := some (if r.state = "interrupted" then "control_resume" else "daemon_restart")
      revision := r.revision + 1, updatedAt := observedAt })
  ensure (closed = 1) .noRows
  return { s with executions }

def insertChild (project : Option ProjectReference)
    (agentInstanceId childExecutionId : String) (observedAt : Int) : Result Store := do
  let generation ← sqlCounter (parent.generation + 1)
  let executions ← s.executions.insert
    (startingRow childExecutionId parent.submissionId (some agentInstanceId) project generation
      (some "accepted") observedAt)
  return { s with executions }

def insertContinuation (childExecutionId reason : String) (observedAt : Int) : Result Store := do
  let continuations ← s.continuations.insert
    ⟨childExecutionId, parent.generation + 1, parent.executionId, .reconstructed, some reason,
      observedAt⟩
  return { s with continuations }

def resumePause (executionId childExecutionId : String) (observedAt : Int) : Result Store := do
  let (pauses, _) ← s.pauses.update
    (fun p => p.executionId = executionId ∧ p.resumedAt = none)
    (fun p => { p with resumedAt := some observedAt, resumeExecutionId := some childExecutionId })
  return { s with pauses }

def reconstruction (parent : ExecutionRow) (project : Option ProjectReference)
    (childExecutionId : String) (message : BridgetMessage) (observedAt : Int) :
    ReconstructedExecution :=
  ⟨parent.executionId,
    ⟨childExecutionId, project, "starting", parent.generation + 1, 0, observedAt⟩, message⟩

def recoverCandidate (candidate : Candidate) (snapshot : ExecutionSnapshot)
    (agentInstanceId childExecutionId : String) (observedAt : Int) :
    Result (ExecutionRecoveryOutcome × Store) :=
  match candidate.submission.messageJson.bind json.decode with
  | none => do
      let s ← s.closeUnreadable candidate.row observedAt
      return (.payloadUnavailable candidate.row.executionId, s)
  | some message => do
      let s ← s.closeParent candidate.row observedAt
      let s ← s.insertChild candidate.row snapshot.project agentInstanceId childExecutionId
        observedAt
      let s ← s.resumePause candidate.row.executionId childExecutionId observedAt
      let s ← s.insertContinuation candidate.row childExecutionId "daemon_restart" observedAt
      return (.reconstructed
        (reconstruction candidate.row snapshot.project childExecutionId message observedAt), s)

def reconstructActiveForAgent (targetAgent agentInstanceId childExecutionId : String)
    (observedAt : Int) : Result (ExecutionRecoveryOutcome × Store) := do
  ensure (isBlank targetAgent = false ∧ isBlank agentInstanceId = false ∧
    isBlank childExecutionId = false ∧ 0 ≤ observedAt) .invalidParameter
  let snapshots ← (s.candidates targetAgent).mapM fun candidate => candidate.row.snapshot
  match s.candidates targetAgent, snapshots with
  | [], _ => return (.none, s)
  | [candidate], [snapshot] =>
    s.recoverCandidate json candidate snapshot agentInstanceId childExecutionId observedAt
  | found, _ => return (.ambiguous (found.map fun candidate => candidate.row.executionId), s)

/-! ## Quota failures -/

def quotaFailureFor (executionId : String) : Option QuotaRow :=
  s.quotaResumes.find? fun q => q.executionId = executionId

def qualifyQuotaFailure (executionId identity : String) (resetAt now : Int) :
    Result (Option QuotaRow × Store) := do
  ensure (isBlank executionId = false ∧ isBlank identity = false) .invalidParameter
  if ¬ s.executions.rows.any (fun r => r.executionId = executionId ∧ r.state = "failed") then
    return (none, s)
  else
    match s.quotaFailureFor executionId with
    | some stored => return (if stored.identity ≠ identity then none else some stored, s)
    | none =>
      if s.quotaResumes.rows.any (fun q => q.identity = identity) then return (none, s)
      else
        ensure (0 ≤ resetAt ∧ 0 ≤ now) .invalidParameter
        let row : QuotaRow := ⟨executionId, identity, resetAt, now, none⟩
        let quotaResumes ← s.quotaResumes.insert row
        return (some row, { s with quotaResumes })

/-- The message under which an execution was admitted; a missing text is an error. -/
def executionMessage (row : ExecutionRow) : Result (Option BridgetMessage) :=
  match s.submission row.submissionId with
  | none => .ok none
  | some submission => do
      let text ← orError submission.messageJson .conversion
      let message ← orError (json.decode text) .conversion
      return some message

def resumeQuota (parentExecutionId identity childExecutionId : String) : Result Store := do
  let (quotaResumes, resumed) ← s.quotaResumes.update
    (fun q => q.executionId = parentExecutionId ∧ q.identity = identity ∧
      q.resumeExecutionId = none)
    (fun q => { q with resumeExecutionId := some childExecutionId })
  ensure (resumed = 1) .noRows
  return { s with quotaResumes }

def reconstructQuotaFailed (parentExecutionId identity agentInstanceId childExecutionId : String)
    (observedAt : Int) : Result (QuotaRecoveryOutcome × Store) := do
  ensure (isBlank parentExecutionId = false ∧ isBlank identity = false ∧
    isBlank agentInstanceId = false ∧ isBlank childExecutionId = false ∧ 0 ≤ observedAt)
    .invalidParameter
  match s.quotaFailureFor parentExecutionId with
  | none => return (.notQualified, s)
  | some qualified =>
    if qualified.identity ≠ identity then return (.notQualified, s)
    else
      match qualified.resumeExecutionId, s.execution parentExecutionId with
      | some executionId, _ => return (.alreadyResumed executionId, s)
      | none, none => return (.notFailed, s)
      | none, some parent => do
          let snapshot ← parent.snapshot
          if snapshot.state ≠ "failed" then return (.notFailed, s)
          else if s.continuations.rows.any (fun c => c.parentExecutionId = parentExecutionId) then
            return (.notLeaf, s)
          else
            let message ← s.executionMessage json parent
            let message ← orError message .noRows
            let s ← s.insertChild parent snapshot.project agentInstanceId childExecutionId
              observedAt
            let s ← s.insertContinuation parent childExecutionId "usage_limit_reset" observedAt
            let s ← s.resumeQuota parentExecutionId identity childExecutionId
            return (.reconstructed
              (reconstruction parent snapshot.project childExecutionId message observedAt), s)

end Store

/-! ## Transitions reported by wrappers -/

structure ExecutionStateTransition where
  (executionId expectedState : String)
  (expectedRevision generation : Nat)
  (nextState reason : String)
  observedAt : Int

structure Nack where
  (id reason : String)

structure Connections where
  instanceOf : String → Option String
  connectionOf : String → Option String

/-- The agent that an execution was admitted for, with a readable execution. -/
def Store.executionControlTarget (s : Store) (executionId : String) :
    Result (Option (ExecutionSnapshot × String)) :=
  match s.execution executionId with
  | none => .ok none
  | some row =>
    match s.submission row.submissionId with
    | none => .ok none
    | some submission => do
        let snapshot ← row.snapshot
        return some (snapshot, submission.targetAgent)

def staleText (current : ExecutionSnapshot) : String :=
  "transition périmée: état=" ++ current.state ++ ", révision=" ++ toString current.revision ++
    ", génération=" ++ toString current.generation

/-- The handler of a reported transition; `describe` is how a failure of the database reads
in a refusal. -/
def handleExecutionTransition (describe : SqlError → String) (connections : Connections)
    (connId : String) (transition : ExecutionStateTransition) (s : Store) : Option Nack × Store :=
  let refuse (reason : String) : Option Nack × Store := (some ⟨transition.executionId, reason⟩, s)
  if (connections.instanceOf connId).isNone then
    refuse "transition d exécution émise par une instance inconnue"
  else
    match s.executionControlTarget transition.executionId with
    | .ok none => refuse "exécution inconnue"
    | .error error => refuse ("propriétaire d exécution illisible: " ++ describe error)
    | .ok (some (_, targetAgent)) =>
      if connections.connectionOf targetAgent ≠ some connId then
        refuse "transition d exécution émise par un wrapper non propriétaire"
      else
        match s.transitionIfCurrent transition.executionId transition.expectedState
            transition.expectedRevision transition.generation transition.nextState
            transition.reason transition.observedAt with
        | .ok (.applied _, s) => (none, s)
        | .ok (.rejected current, _) => refuse (staleText current)
        | .ok (.missing, _) => refuse "exécution inconnue"
        | .error error => refuse ("transition d exécution non persistée: " ++ describe error)

end Bridget.Execution
