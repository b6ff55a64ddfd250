import Bridget.Delegation.Task

/-!
# Writing tasks

Each write is one transaction that also moves the counter of the projection when readers can
see the change. The clock and the generation drawn for a full counter are arguments.
-/

namespace Bridget.Delegation

open Foundation

def maxRemoteResultSlots : Nat := 64

variable (env : TaskEnvironment)

/-- The record that a save writes: the place in the forest, the guard and the acknowledgement
stay as they are stored. -/
def savedTask (now : Int) (task old : Task) : Task :=
  let task := stamp env now task (some old)
  { task with
    rootOwnerAgentId := old.rootOwnerAgentId
    parentTaskId := old.parentTaskId
    guarded := old.guarded
    guardReleased := task.guardReleased || old.guardReleased
    idleDeadlineAt := if task.guardReleased || old.guardReleased then none else task.idleDeadlineAt
    acknowledgedAt := old.acknowledgedAt
    remotePrepared := task.remotePrepared || old.remotePrepared }

def slotsValid (task : Task) : Prop :=
  (∀ slot ∈ task.remoteResultSlots,
      env.validSlot slot = true ∧ slot.identity.command.taskId = task.taskId) ∧
    task.remoteResultSlots.Pairwise fun previous slot => previous.identity ≠ slot.identity
  deriving Decidable

def projectionChanged (env : TaskEnvironment) (old new : Task) : Bool :=
  visibleChanged env old new || old.startedAt != new.startedAt ||
    old.completedAt != new.completedAt

/-- The receipts of a task after a remote result was disposed of. A conflict never adds a
receipt, and a final disposition is never replaced. -/
def recordDisposition (receipts : List RemoteResultReceipt) (result : RemoteResultEnvelope)
    (disposition : RemoteResultDisposition) : Result (List RemoteResultReceipt) :=
  let same := fun receipt : RemoteResultReceipt => decide (receipt.identity = result.identity)
  match receipts.find? same with
  | some receipt =>
    if ¬ (receipt.worker = result.worker ∧ receipt.messageId = result.messageId ∧
        receipt.digest = result.digest) then
      if disposition ≠ .rejectedConflict then .error "remote_result_conflict"
      else .ok (receipts.modify (receipts.findIdx same) ({ · with conflictSeen := true }))
    else if receipt.disposition.isDeferred then
      .ok (receipts.modify (receipts.findIdx same) ({ · with disposition := disposition }))
    else if receipt.disposition ≠ disposition then .error "remote_result_final"
    else .ok receipts
  | none =>
    if maxRemoteResultSlots ≤ receipts.length then .error "remote_result_capacity"
    else .ok (receipts ++ [{ result with disposition, conflictSeen := false }])

def nextRound (env : TaskEnvironment) (now : Int) (old : Task) (record : RoundRecord)
    (mission roundBody : String) : Task :=
  let next := { old with
    round := old.roundNo + 1
    mission := mission
    roundBody := some roundBody
    rounds := old.rounds ++ [record]
    workspaceReportMission := none
    workspace := old.workspace.map fun workspace =>
      { workspace with
        headCommit := none
        branchCommit := none
        headOnBranch := none
        commitCount := none
        commits := []
        truncated := false
        dirty := none }
    unackedRounds :=
      if ¬ old.deliveryAcked ∧ old.roundNo ∉ old.unackedRounds then
        old.unackedRounds ++ [old.roundNo]
      else old.unackedRounds
    result := none
    resultSent := false
    deliveryAcked := false
    acknowledgedAt := none
    failureSent := false
    error := none
    missionDeadlineAt := none
    missionIssuedAt := none
    idleDeadlineAt := none
    cleanupDone := false
    state := "mission_pending" }
  { stamp env now next (some old) with completedAt := none }

namespace DelegationStore

def get (s : DelegationStore) (taskId : String) : Option Task :=
  (s.tasks.find? (·.taskId = taskId)).map DelegationRow.payload

def increment (s : DelegationStore) (fresh : String) : DelegationStore :=
  { s with
    projection :=
      if humanLineageMaxSeq ≤ s.projection.seq then ⟨fresh, 1⟩
      else ⟨s.projection.generation, s.projection.seq + 1⟩ }

variable (env : TaskEnvironment)

def insertedTask (now : Int) (task : Task) : Task :=
  { stamp env now task none with
    rootOwnerAgentId := if task.rootOwnerAgentId = "" then task.owner else task.rootOwnerAgentId }

variable (s : DelegationStore)

def insertProjectedIn (task : Task)
    (requestId : String) (canonical : List UInt8) (now : Int) (fresh : String) :
    Result (Task × DelegationStore) := do
  let task := insertedTask env now task
  let tasks ← sqlite
    (s.tasks.insert ⟨task.taskId, task.ownerInstance, requestId, canonical, task⟩)
  pure (task, { s with tasks }.increment fresh)

def insert (task : Task) (requestId : String)
    (canonical : List UInt8) (now : Int) (fresh : String) : Result DelegationStore :=
  (s.insertProjectedIn env task requestId canonical now fresh).map Prod.snd

def writeTask (old new : Task)
    (ownerInstance : String → String) (fresh : String) : Result DelegationStore := do
  let (tasks, _) ← sqlite (s.tasks.update (·.taskId = new.taskId) fun row =>
    { row with payload := new, ownerInstance := ownerInstance row.ownerInstance })
  let s := { s with tasks }
  pure (if projectionChanged env old new then s.increment fresh else s)

def save (task : Task) (now : Int) (fresh : String) : Result DelegationStore := do
  let old ← orError (s.get task.taskId) "task_unavailable"
  let new := savedTask env now task old
  ensure (new.remoteResultReceipts = old.remoteResultReceipts)
    "remote_result_receipt_stale"
  ensure (new.remoteResultSlots.length ≤ maxRemoteResultSlots ∧
    ∀ slot ∈ old.remoteResultSlots, slot ∈ new.remoteResultSlots)
    "remote_result_slots_stale"
  ensure (slotsValid env new) "remote_result_slot_invalid"
  s.writeTask env old new (fun _ => new.ownerInstance) fresh

def commitRemoteResult (expected next : Task)
    (result : RemoteResultEnvelope) (disposition : RemoteResultDisposition) (now : Int)
    (fresh : String) : Result DelegationStore := do
  ensure (env.validResult result = true) "remote_result_invalid"
  let old ← orError (s.get expected.taskId) (.sqlite .noRows)
  ensure (old = expected ∧ next.taskId = old.taskId ∧
    ∃ slot ∈ old.remoteResultSlots, slot.identity = result.identity)
    "remote_result_stale"
  let receipts ← recordDisposition old.remoteResultReceipts result disposition
  let next := stamp env now { next with remoteResultReceipts := receipts } (some old)
  s.writeTask env old next id fresh

/-- Open the next round of a guarded task. The deadline is compared with a later reading of
the clock than the one that stamps the record. -/
def beginRound (taskId : String)
    (expectedRound : Nat) (clock : Int) (record : RoundRecord) (mission roundBody : String)
    (now : Int) (fresh : String) : Result (Task × DelegationStore) := do
  let old ← orError (s.get taskId) "task_unavailable"
  ensure (old.roundNo = expectedRound) "round_in_progress"
  ensure (old.guarded = true) "keep_alive_not_enabled"
  ensure (old.guardReleased = false ∧ old.state ≠ "failed" ∧ old.state ≠ "cancelled")
    "keep_alive_ended"
  ensure (old.state = "result_available") "round_in_progress"
  ensure (old.resultSent = true) "result_delivery_pending"
  let idleDeadline ← orError old.idleDeadlineAt "keep_alive_ended"
  ensure (expectedRound < 8 ∧ old.rounds.length < 7) "round_limit"
  ensure (record.round = expectedRound + 1) "invalid_request"
  let next := nextRound env now old record mission roundBody
  ensure (clock < idleDeadline) "keep_alive_ended"
  let pastMissions ← sqlite (s.pastMissions.insert ⟨old.mission, taskId⟩)
  let (tasks, changed) ← sqlite (s.tasks.update
    (fun row => row.taskId = taskId && row.payload.roundNo = expectedRound &&
      row.payload.state = "result_available")
    fun row => { row with payload := next })
  ensure (changed = 1) "round_in_progress"
  pure (next, { s with pastMissions, tasks }.increment fresh)

end DelegationStore

def maxRetainedTasks : Nat := 4096

def retentionSecs : Int := 7 * 24 * 3600

namespace DelegationStore

/-- The loop of `parent_lineage`: every ancestor is stored under the same root owner, and
fewer than eight tasks are on the way. -/
def climb (s : DelegationStore) (root : String) :
    Nat → List String → Task → Result Unit
  | 0, _, _ => .error "task_depth_limit"
  | fuel + 1, visited, current =>
    if current.taskId ∈ visited ∨ 8 ≤ visited.length + 1 then
      .error "task_depth_limit"
    else
      match current.parentTaskId with
      | none => .ok ()
      | some id =>
        match s.get id with
        | none => .error "parent_task_unavailable"
        | some next =>
          if next.rootOwner ≠ root then .error "parent_task_unavailable"
          else s.climb root fuel (current.taskId :: visited) next

variable (s : DelegationStore)

def parentLineage (parent : Task) : Result (String × Option String) := do
  s.climb parent.rootOwner 8 [] parent
  pure (parent.rootOwner, some parent.taskId)

def childrenOf (taskId : String) : List DelegationRow :=
  s.tasks.select fun row => row.payload.parentTaskId = some taskId

def below (rows : List DelegationRow) : List DelegationRow :=
  rows.flatMap fun row => s.childrenOf row.taskId

def generations (s : DelegationStore) : Nat → List DelegationRow → List DelegationRow
  | 0, _ => []
  | depth + 1, rows =>
    rows.insertionSort (·.taskId ≤ ·.taskId) ++ s.generations depth (s.below rows)

variable (s : DelegationStore)

def descendants (taskId : String) : Result (List Task) := do
  let result := (s.generations 8 (s.childrenOf taskId)).take 4097
  ensure (result.length ≤ 4096) "descendant_limit"
  pure (result.map DelegationRow.payload)

def treeOf (root : Task) : Result (List Task) := do
  let below ←
    if s.tasks.rows.any fun row => row.payload.parentTaskId = some root.taskId then
      s.descendants root.taskId
    else pure []
  pure (root :: below)

def settledTrees : Result (List (List Task)) := do
  let roots := (s.tasks.select fun row =>
    row.payload.parentTaskId.isNone && row.payload.terminal).map DelegationRow.payload
  let trees ← roots.mapM s.treeOf
  pure (trees.filter treeSettled)

def deleteTask (now : Int) (task : Task) : DelegationStore :=
  let tombstones := (s.tasks.select (·.taskId = task.taskId)).foldl (fun tombstones row =>
    tombstones.insertOrReplace ⟨row.payload.owner, row.requestId, now⟩) s.tombstones
  { s with
    tombstones
    childRequests := s.childRequests.delete (·.taskId = task.taskId)
    pastMissions := s.pastMissions.delete (·.taskId = task.taskId)
    tasks := s.tasks.delete (·.taskId = task.taskId) }

def deleteTree (tree : List Task) (now : Int) (fresh : String) : DelegationStore :=
  { tree.foldl (fun s task => s.deleteTask now task) s with projection := ⟨fresh, 1⟩ }

def purgeOrder (a b : Int × List Task) : Prop :=
  a.1 < b.1 ∨ a.1 = b.1 ∧ (a.2.head?.map Task.taskId).getD "" ≤ (b.2.head?.map Task.taskId).getD ""
  deriving Decidable

/-- The parameters of a purge. The generations drawn for the deleted trees are given by
their number. -/
structure PurgeRequest where
  now : Int
  bound : Option Nat
  maxTrees : Nat
  releasable : List Task → Bool
  fresh : Nat → String

/-- The loop of `purge_trees`. Without a bound it stops at the first tree that is too young;
with one it stops as soon as fewer tasks than the bound are left. -/
def purgeLoop (request : PurgeRequest) :
    List (Int × List Task) → DelegationStore → Nat → Nat → Nat × DelegationStore
  | [], s, _, purged => (purged, s)
  | (age, tree) :: trees, s, total, purged =>
    if request.maxTrees ≤ purged ∨ ∃ bound ∈ request.bound, total < bound then (purged, s)
    else if request.bound = none ∧ saturatingSub request.now age ≤ retentionSecs then (purged, s)
    else if request.releasable tree then
      purgeLoop request trees (s.deleteTree tree request.now (request.fresh purged))
        (total - tree.length) (purged + 1)
    else purgeLoop request trees s total purged

def purgeTrees (s : DelegationStore) (request : PurgeRequest) : Result (Nat × DelegationStore) := do
  let trees ← s.settledTrees
  let aged := (trees.map fun tree => (treeAge tree, tree)).insertionSort purgeOrder
  pure (purgeLoop request aged s s.tasks.rows.length 0)

end DelegationStore

end Bridget.Delegation
