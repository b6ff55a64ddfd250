import Bridget.Execution.Store
import Bridget.Guidance.Journal
import Bridget.Idempotency.Record

/-!
# The idempotency store

The tables shared by the idempotency base and the deliveries built on it. Every
operation is one SQLite transaction: it returns the new store, or an error and no store
at all, which is the rollback.
-/

namespace Bridget.Idempotency

open Foundation
open Execution (PauseRow)
open Guidance (GuidanceEvents)

inductive DeliveryPhase where
  | dispatching | acked | indeterminate | orphaned | held | cancelled
  deriving DecidableEq

/-- The phases of a delivery that may still reach its recipient. -/
def DeliveryPhase.inFlight : DeliveryPhase → Bool
  | .dispatching | .held => true
  | _ => false

structure DeliveryRow where
  queueRank : Int
  (deliveryId issuerScope idempotencyKey recipientInstanceId : String)
  deliveryGeneration : Nat
  phase : DeliveryPhase
  expiresAt : Int
  messageBytes : Option Bytes
  recipientAgent : String
  turnGate : Bool
  ackedAt : Option Int

def DeliveryRow.key (d : DeliveryRow) : IdempotencyKey := ⟨d.issuerScope, .send, d.idempotencyKey⟩

instance : UniqueKeys DeliveryRow where
  conflicts a b := a.queueRank = b.queueRank ∨ a.deliveryId = b.deliveryId ∨ a.key = b.key

structure DeliveryExecutionLink where
  (deliveryId submissionId executionId : String)
  deriving DecidableEq

instance : UniqueKeys DeliveryExecutionLink where
  conflicts a b := a.deliveryId = b.deliveryId

inductive RequestState where
  | opened | answered | cancelled | timedOut
  deriving DecidableEq

structure TrackedRequest where
  (id sender target : String)
  state : RequestState
  (createdAt deadlineAt : Int)
  escalationLevel : Nat
  cancelReason : Option String
  completedAt : Option Int
  replySummary : Option String

instance : UniqueKeys TrackedRequest where
  conflicts a b := a.id = b.id

structure LedgerRow where
  id : String
  ts : Int
  (sender target body conversationKey : String)

instance : UniqueKeys LedgerRow where
  conflicts a b := a.id = b.id ∧ a.target = b.target

inductive QueueEditAction where
  | cancel | reorder | promote
  deriving DecidableEq

inductive QueueEditState where
  | applied | refused
  deriving DecidableEq

structure QueueEditRow where
  (issuerScope requestId : String)
  canonicalBytes : Bytes
  action : QueueEditAction
  actor : String
  (deliveryId beforeDeliveryId : Option String)
  state : QueueEditState
  refusal : Option String
  (createdAt expiresAt : Int)

instance : UniqueKeys QueueEditRow where
  conflicts a b := a.issuerScope = b.issuerScope ∧ a.requestId = b.requestId

structure OrphanEmitterNotice where
  (deliveryId sender body : String)
  createdAt : Int
  notifiedAt : Option Int

instance : UniqueKeys OrphanEmitterNotice where
  conflicts a b := a.deliveryId = b.deliveryId

structure GuichetRequest where
  depositedSequence : Nat
  (issuerScope requestId : String)
  linkedRequestId : Option String

inductive LifecycleState where
  | answered | cancelled | timedOut

structure LifecycleEvent where
  (issuerScope eventId requestId : String)
  state : LifecycleState
  observedAt : Int
  (inReplyTo responseMessageId : Option String)

instance : UniqueKeys LifecycleEvent where
  conflicts a b := a.eventId = b.eventId ∨ a.issuerScope = b.issuerScope ∧ a.requestId = b.requestId

/-- The tables of the idempotency store. -/
structure Store where
  records : Table RecordRow
  deliveries : Table DeliveryRow
  /-- The largest rank `AUTOINCREMENT` has given out. -/
  deliverySequence : Int
  executionLinks : Table DeliveryExecutionLink
  trackedRequests : Table TrackedRequest
  ledger : Table LedgerRow
  guidanceEvents : GuidanceEvents
  queueEdits : Table QueueEditRow
  orphanEmitterNotices : Table OrphanEmitterNotice
  guichetRequests : List GuichetRequest
  lifecycleEvents : Table LifecycleEvent
  /-- `paused` in the single row of `control_state`, when that row exists. -/
  controlPaused : Option Bool
  /-- The table `control_pause_interruptions`, which the execution store writes. -/
  pauseInterruptions : Table PauseRow

def Store.init : Store where
  records := .empty
  deliveries := .empty
  deliverySequence := 0
  executionLinks := .empty
  trackedRequests := .empty
  ledger := .empty
  guidanceEvents := ⟨[], 0⟩
  queueEdits := .empty
  orphanEmitterNotices := .empty
  guichetRequests := []
  lifecycleEvents := .empty
  controlPaused := some false
  pauseInterruptions := .empty

/-- A store whose two tables are empty; the tables of other owners are arbitrary. -/
structure Store.Empty (s : Store) : Prop where
  records : s.records = Table.empty
  deliveries : s.deliveries = Table.empty

theorem Store.init_empty : Store.init.Empty := ⟨rfl, rfl⟩

namespace Store

variable (s : Store) (key : IdempotencyKey)

def loadRecord : Option RecordRow := s.records.find? fun r => r.key = key

def storedSendDelivery : Option DeliveryRow :=
  s.deliveries.find? fun d => d.issuerScope = key.issuerScope ∧
    d.idempotencyKey = key.idempotencyKey

variable (canonicalBytes : Bytes)

def replayExisting (now : Int) : Result (Option Reservation) :=
  match s.loadRecord key with
  | none => .ok none
  | some record =>
    if record.expiresAt ≤ now then .ok (some .idempotencyExpired)
    else if record.canonicalBytes ≠ canonicalBytes then .ok (some .envelopeMismatch)
    else do
      let result ← record.lookupResult
      return some (.replayed result)

def preparedRow (issuedAt expiresAt : Int) : RecordRow :=
  { key, canonicalBytes, state := .prepared, result := .unset, issuedAt, expiresAt }

/-- The checks of `reserve` that read only its arguments, before its first statement. -/
def reserveGuard (issuedAt now issuedAtToleranceSecs : Int) : Result Unit := do
  validateCanonicalBytes canonicalBytes
  ensure (issuedAt ≤ saturatingAdd now (max issuedAtToleranceSecs 0)) .invalidIssuedAt

/-- The expiry that `reserve` computes once the key is known to be free. -/
def reserveExpiry (issuedAt horizonSecs : Int) : Result Int := do
  ensure (0 < horizonSecs) .invalidHorizon
  orError (checkedAdd issuedAt horizonSecs) .invalidHorizon

variable (key : IdempotencyKey)

def reserve (canonicalBytes : Bytes)
    (issuedAt horizonSecs now issuedAtToleranceSecs : Int) : Result (Reservation × Store) := do
  reserveGuard canonicalBytes issuedAt now issuedAtToleranceSecs
  match ← s.replayExisting key canonicalBytes now with
  | some replay => return (replay, s)
  | none =>
    let expiresAt ← reserveExpiry issuedAt horizonSecs
    if expiresAt ≤ now then return (.idempotencyExpired, s)
    else
      let (records, inserted) :=
        s.records.insertOrIgnore (preparedRow key canonicalBytes issuedAt expiresAt)
      if inserted = 1 then return (.prepared expiresAt, { s with records })
      else
        let replay ← s.replayExisting key canonicalBytes now
        let replay ← orError replay .missingRecord
        return (replay, s)

def lookup (now : Int) : Result LookupResult :=
  match s.loadRecord key with
  | none => .ok .idempotencyExpired
  | some record => if record.expiresAt ≤ now then .ok .idempotencyExpired else record.lookupResult

def preparedExpiry (now : Int) : Option Int :=
  match s.loadRecord key with
  | some record =>
    if record.state = .prepared ∧ now < record.expiresAt then some record.expiresAt else none
  | none => none

/-- The guarded update every change of a record's state goes through. -/
def updateRecord (state : RecordState) (f : RecordRow → RecordRow) :
    Except SqlError (Table RecordRow × Nat) :=
  s.records.update (fun r => r.key = key ∧ r.state = state) f

def transition (current target : RecordState) : Result Store := do
  ensure (current = .prepared ∧ target = .dispatching) (.invalidTransition current target)
  let (records, updated) ← sql (s.updateRecord key current fun r => { r with state := target })
  if updated = 1 then return { s with records }
  else if (s.loadRecord key).isSome then throw (.invalidTransition current target)
  else throw .missingRecord

def finalize (result : PublicResult) : Result Store := do
  let (records, updated) ← sql (s.updateRecord key .dispatching fun r =>
    { r with state := .terminal, result := result.columns })
  if updated = 1 then return { s with records }
  else
    match s.loadRecord key with
    | some record => throw (.invalidTransition record.state .terminal)
    | none => throw .missingRecord

/-- Deletion of records, with what references them: the foreign keys delete deliveries and
then their execution links in cascade. -/
def deleteRecords (p : RecordRow → Bool) : Store :=
  let records := s.records.delete p
  let deliveries := s.deliveries.delete fun d => s.records.rows.any fun r => r.key = d.key && p r
  { s with
    records
    deliveries
    executionLinks := s.executionLinks.delete fun link =>
      s.deliveries.rows.any fun d => d.deliveryId = link.deliveryId &&
        s.records.rows.any fun r => r.key = d.key && p r }

def purgeQueueEdits (now : Int) : Store :=
  { s with queueEdits := s.queueEdits.delete fun e => e.expiresAt < now }

def purgeExpired (now : Int) : Store :=
  (s.deleteRecords fun r => r.expiresAt ≤ now).purgeQueueEdits now

def purgeExpiredSends (now grace : Int) : Store :=
  s.deleteRecords fun r => r.key.operationKind = .send && r.expiresAt ≤ saturatingSub now grace

end Store

end Bridget.Idempotency
