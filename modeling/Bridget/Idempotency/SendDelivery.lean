import Bridget.Core.Message
import Bridget.Idempotency.Store

/-!
# Deliveries of idempotent sends

The operations that create a delivery from a prepared record, move it through its phases
and settle it together with the record. Clock readings and fresh identifiers are
arguments. What the message library and the database's JSON functions compute on an
envelope is a parameter.
-/

namespace Bridget.Idempotency

open Foundation
open Guidance (EventAction GuidancePath)

/-- What `serde_json` and the database read from the bytes of an envelope. -/
structure Envelopes where
  decode : Bytes → Option BridgetMessage
  jsonValid : Bytes → Bool
  extractId : Bytes → Option String
  threadNotice : Bytes → Bool
  replySummary : BridgetMessage → String

structure SendDelivery where
  (deliveryId recipientInstanceId : String)
  deliveryGeneration : Nat
  expiresAt : Int
  messageBytes : Bytes
  deriving DecidableEq

structure ReplyTracking where
  (requestId sender target : String)
  (createdAt deadlineAt : Int)

structure OrphanedDeliveryNotice where
  (deliveryId messageId sender target reason : String)
  deriving DecidableEq

def cliWakeScope : String := "bridget_internal_cli_wake158B_v1"

def scheduledWakeScope : String := "bridget_internal_scheduled_wake158B_v1"

def missedSummaryScope : String := "bridget_internal_missed_summary158B_v1"

namespace Store

variable (env : Envelopes) (s : Store)

/-- `record_lifecycle_event_in_transaction`: the first event of a deposit is kept. -/
def recordLifecycleEvent (issuerScope requestId : String) (state : LifecycleState)
    (observedAt : Int) (inReplyTo : Option String) (eventId : String) : Result Store := do
  if (s.lifecycleEvents.find? fun e =>
      e.issuerScope = issuerScope ∧ e.requestId = requestId).isSome then return s
  else
    let lifecycleEvents ← sql (s.lifecycleEvents.insert
      { issuerScope, eventId, requestId, state, observedAt, inReplyTo, responseMessageId := none })
    return { s with lifecycleEvents }

def recordLifecycleForLinkedRequest (linkedRequestId : String) (state : LifecycleState)
    (observedAt : Int) (eventIds : Nat → String) : Result Store :=
  let deposits := (s.guichetRequests.filter fun g =>
    g.linkedRequestId = some linkedRequestId).insertionSort
      fun a b => a.depositedSequence ≤ b.depositedSequence
  deposits.zipIdx.foldlM (fun s (deposit, i) =>
    s.recordLifecycleEvent deposit.issuerScope deposit.requestId state observedAt
      (some linkedRequestId) (eventIds i)) s

def requestOpen (message : BridgetMessage) (deadline : Int → Bool) : Bool :=
  (s.trackedRequests.find? fun q => q.id = message.id ∧ q.sender = message.fromAgent ∧
    q.target = message.toAgent ∧ q.state = .opened ∧ deadline q.deadlineAt).isSome

/-- Close a delivery and its record together: one row of each, or nothing. -/
def closeDelivery (deliveryId : String) (phases : DeliveryPhase → Bool)
    (close : DeliveryRow → DeliveryRow) (key : IdempotencyKey) (result : PublicResult) :
    Result Store := do
  let (deliveries, delivery) ← sql (s.deliveries.update
    (fun d => d.deliveryId = deliveryId ∧ phases d.phase) close)
  let (records, record) ← sql (s.updateRecord key .dispatching fun r =>
    { r with state := .terminal, result := result.columns })
  ensure (delivery = 1 ∧ record = 1) .dispatchUnavailable
  return { s with deliveries, records }

/-- `mark_answered_in_transaction`: whether an open request was answered. -/
def markAnswered (id responder recipient replySummary : String) (nowSecs : Int) :
    Result (Bool × Store) := do
  let (trackedRequests, changed) ← sql (s.trackedRequests.update
    (fun q => q.id = id ∧ q.sender = recipient ∧ q.target = responder ∧ q.state = .opened)
    (fun q => { q with state := .answered, completedAt := some nowSecs,
                       replySummary := some replySummary }))
  return (decide (changed = 1), { s with trackedRequests })

/-- The answer recorded when the acknowledged message replies to a request. -/
def answerRequest (message : Option BridgetMessage) (nowSecs : Int) :
    Result (Option String × Store) :=
  match message with
  | none => return (none, s)
  | some message =>
    match message.inReplyTo with
    | none => return (none, s)
    | some requestId => do
        let (changed, s) ← s.markAnswered requestId message.fromAgent message.toAgent
          (env.replySummary message) nowSecs
        return (if changed then some requestId else none, s)

def acknowledgeSendDeliveryAt (deliveryId recipientInstanceId : String) (deliveryGeneration : Nat)
    (now nowSecs : Int) : Result (Option String × Store) := do
  let row ← orError (s.deliveries.find? fun d => d.deliveryId = deliveryId) .invalidDelivery
  ensure (row.recipientInstanceId = recipientInstanceId ∧
    row.deliveryGeneration = deliveryGeneration) .invalidDelivery
  if row.phase = .acked then return (none, s)
  else
    ensure (row.phase = .dispatching) .invalidDelivery
    let s ← s.closeDelivery deliveryId (fun p => p = .dispatching)
      (fun d => { d with phase := .acked, ackedAt := some (d.ackedAt.getD now) })
      row.key (.accepted row.expiresAt)
    s.answerRequest env (row.messageBytes.bind env.decode) nowSecs

def markDeliveryIndeterminate (deliveryId recipientInstanceId : String)
    (deliveryGeneration : Nat) : Result Store := do
  let (deliveries, updated) ← sql (s.deliveries.update
    (fun d => d.deliveryId = deliveryId ∧ d.recipientInstanceId = recipientInstanceId ∧
      d.deliveryGeneration = deliveryGeneration ∧ d.phase = .dispatching)
    (fun d => { d with phase := .indeterminate, turnGate := false }))
  ensure (updated = 1) .invalidDelivery
  return { s with deliveries }

def settleExpiredDispatching (now : Int) : Result (Nat × Store) := do
  let (deliveries, updated) ← sql (s.deliveries.update
    (fun d => d.phase = .dispatching ∧ d.expiresAt ≤ now)
    (fun d => { d with phase := .indeterminate, turnGate := false }))
  return (updated, { s with deliveries })

def orphanBody (messageId target deliveryId reason : String) : String :=
  "ORPHELIN: le message " ++ messageId ++ " destiné à " ++ target ++
  " n'a pas été livré — présence purgée (delivery " ++ deliveryId ++ "). " ++ reason ++
  "\nLe rejeu à l'identique ne sert à rien — cette clé est close. " ++
  "Change de destinataire, ou attends son retour avec une clé neuve."

/-- One round of the loop of `orphan_dispatching_for_instance`. -/
def orphanDelivery (reason : String) (createdAt : Int)
    (acc : Store × List OrphanedDeliveryNotice) (row : DeliveryRow) :
    Result (Store × List OrphanedDeliveryNotice) := do
  let (messageId, sender, target) :=
    match env.decode (row.messageBytes.getD []) with
    | some message => (message.id, message.fromAgent, message.toAgent)
    | none => (row.deliveryId, "inconnu", "inconnu")
  let s ← acc.1.closeDelivery row.deliveryId DeliveryPhase.inFlight
    (fun d => { d with phase := .orphaned, turnGate := false }) row.key (.orphaned reason)
  let (orphanEmitterNotices, _) := s.orphanEmitterNotices.insertOrIgnore
    { deliveryId := row.deliveryId, sender
      body := orphanBody messageId target row.deliveryId reason, createdAt, notifiedAt := none }
  return ({ s with orphanEmitterNotices },
    acc.2 ++ [{ deliveryId := row.deliveryId, messageId, sender, target, reason }])

def orphanDispatchingForInstance (recipientInstanceId reason : String) (createdAt : Int) :
    Result (List OrphanedDeliveryNotice × Store) := do
  let rows := s.deliveries.select fun d =>
    d.recipientInstanceId = recipientInstanceId ∧ d.phase.inFlight
  let (s, notices) ← rows.foldlM (orphanDelivery env reason createdAt) (s, [])
  return (notices, s)

def heldWithRecord (deliveryId : String) : Option (DeliveryRow × RecordRow) := do
  let d ← s.deliveries.find? fun d => d.deliveryId = deliveryId ∧ d.phase = .held
  let r ← s.loadRecord d.key
  return (d, r)

def retiredBody (messageId target reason : String) : String :=
  "RETIRÉ DE LA FILE : votre message " ++ messageId ++ " pour " ++ target ++
  " a été retiré avant livraison (" ++ reason ++ "). Il ne sera pas livré."

/-- The tracked request of a message that leaves the queue is closed with it. -/
def closeRequest (message : BridgetMessage) (reason : String) (now : Int)
    (eventIds : Nat → String) : Result Store := do
  if message.reply then
    let expired := s.requestOpen message fun deadline => deadline ≤ now
    let (trackedRequests, changed) ← sql (s.trackedRequests.update
      (fun q => q.id = message.id ∧ q.sender = message.fromAgent ∧ q.target = message.toAgent ∧
        q.state = .opened)
      (fun q => { q with state := if expired then .timedOut else .cancelled
                         cancelReason := if expired then none else some reason
                         completedAt := some now }))
    let s := { s with trackedRequests }
    if changed = 1 then
      s.recordLifecycleForLinkedRequest message.id
        (if expired then .timedOut else .cancelled) now eventIds
    else return s
  else return s

def settleHeldInTransaction (id reason : String) (now : Int) (eventIds : Nat → String) :
    Result (Option OrphanedDeliveryNotice × Store) := do
  ensure (reason = "expired_in_queue" ∨ reason = "request_closed_in_queue" ∨
    reason = "cancelled_in_queue") .invalidDelivery
  match s.heldWithRecord id with
  | none => return (none, s)
  | some (d, r) =>
    let bytes ← orError d.messageBytes (.sqlite .conversion)
    if reason = "expired_in_queue" ∧ now < d.expiresAt ∧ now < r.expiresAt then return (none, s)
    else
      let message ← orError (env.decode bytes) (.corruptRecord "enveloppe retenue illisible")
      if reason = "request_closed_in_queue" ∧
          (!message.reply ∨ s.requestOpen message (fun deadline => now < deadline)) then
        return (none, s)
      else
        let body := retiredBody message.id message.toAgent reason
        let s ← s.closeDelivery id (fun p => p = .held)
          (fun d => { d with phase := .cancelled, turnGate := false }) d.key
          (.rejected reason body)
        let s ← s.closeRequest message reason now eventIds
        let (orphanEmitterNotices, _) := s.orphanEmitterNotices.insertOrIgnore
          { deliveryId := id, sender := message.fromAgent, body, createdAt := now
            notifiedAt := none }
        return (some { deliveryId := id, messageId := message.id, sender := message.fromAgent
                       target := message.toAgent, reason }, { s with orphanEmitterNotices })

def settleHeld (id reason : String) (now : Int) (eventIds : Nat → String) :
    Result (Option OrphanedDeliveryNotice × Store) :=
  s.settleHeldInTransaction env id reason now eventIds

variable (agent : String)

def clearHeldTurnGate : Result Store := do
  let (deliveries, _) ← sql (s.deliveries.update
    (fun d => d.recipientAgent = agent ∧ d.turnGate) (fun d => { d with turnGate := false }))
  return { s with deliveries }

/-- The held deliveries of an agent, in the order of their ranks. -/
def heldByRank : List DeliveryRow :=
  (s.deliveries.select fun d => d.recipientAgent = agent ∧ d.phase = .held).insertionSort
    fun a b => a.queueRank ≤ b.queueRank

def turnReserved : Bool :=
  (s.deliveries.find? fun d => d.recipientAgent = agent ∧ d.turnGate).isSome

def pausePending : Bool :=
  s.pauseInterruptions.rows.any fun p => p.targetAgent = agent ∧ p.resumedAt = none

def linked (deliveryId : String) : Bool :=
  (s.executionLinks.find? fun link => link.deliveryId = deliveryId).isSome

def settlementReason (d : DeliveryRow) (r : RecordRow) (message : BridgetMessage) (now : Int) :
    Option String :=
  if d.expiresAt ≤ now ∨ r.expiresAt ≤ now then some "expired_in_queue"
  else if message.reply ∧ !s.requestOpen message (fun deadline => now < deadline) then
    some "request_closed_in_queue"
  else none

def takeTurn (d : DeliveryRow) : DeliveryRow := { d with phase := .dispatching, turnGate := true }

def releaseNextHeld (agent : String) (now : Int) (eventIds : Nat → String) :
    Result ((Option SendDelivery × Option OrphanedDeliveryNotice) × Store) := do
  let paused ← orError s.controlPaused (.sqlite .noRows)
  if paused || s.pausePending agent then return ((none, none), s)
  else
    let (deliveries, _) ← sql (s.deliveries.update
      (fun d => d.recipientAgent = agent ∧ d.turnGate ∧ d.phase = .acked ∧
        ∃ ackedAt ∈ d.ackedAt, ackedAt < saturatingSub now 30)
      (fun d => { d with turnGate := false }))
    let opened := { s with deliveries }
    -- a reserved turn ends the transaction without a commit: the update above is undone
    if opened.turnReserved agent then return ((none, none), s)
    else
      match (opened.heldByRank agent).findSome? fun d =>
          (opened.loadRecord d.key).map fun r => (d, r) with
      | none => return ((none, none), opened)
      | some (d, r) =>
        let bytes ← orError d.messageBytes (.sqlite .conversion)
        ensure (!opened.linked d.deliveryId) .invalidDelivery
        let message ← orError (env.decode bytes) (.corruptRecord "enveloppe retenue illisible")
        match opened.settlementReason d r message now with
        | some reason =>
          let (notice, s) ← opened.settleHeldInTransaction env d.deliveryId reason now eventIds
          return ((none, notice), s)
        | none =>
          let (deliveries, updated) ← sql (opened.deliveries.update
            (fun x => x.deliveryId = d.deliveryId ∧ x.phase = .held ∧ !x.turnGate) takeTurn)
          ensure (updated = 1) .dispatchUnavailable
          return ((some { d with messageBytes := bytes }, none), { opened with deliveries })

/-- The event of a guided send, whose outcome is that it was admitted. -/
structure GuidanceContext where
  atSecs : Int
  (actor target : String)
  action : EventAction
  path : GuidancePath
  messageId : Option String

structure BeginRequest where
  delivery : SendDelivery
  reply : Option ReplyTracking
  executionLink : Option DeliveryExecutionLink
  guidance : Option GuidanceContext
  heldCapacity : Option Nat
  heldForAgent : Option String

def beginGuard (key : IdempotencyKey) (request : BeginRequest) : Result BridgetMessage := do
  let delivery := request.delivery
  ensure (key.operationKind = .send ∧ delivery.deliveryId ≠ "") .invalidDelivery
  ensure (delivery.messageBytes ≠ [] ∧ delivery.messageBytes.length ≤ maxCanonicalBytes)
    .invalidDelivery
  ensure (∀ link ∈ request.executionLink, link.deliveryId = delivery.deliveryId ∧
    link.submissionId ≠ "" ∧ link.executionId ≠ "") .invalidDelivery
  ensure (request.heldForAgent ≠ some "" ∧
    ¬ (request.heldForAgent.isSome ∧ request.executionLink.isSome)) .invalidDelivery
  orError (env.decode delivery.messageBytes) (.corruptRecord "enveloppe de remise illisible")

variable (request : BeginRequest)

def heldQueueFull : Bool :=
  match request.heldForAgent, request.heldCapacity with
  | some agent, some capacity =>
    capacity ≤ s.deliveries.count fun d => d.recipientAgent = agent ∧ d.phase = .held
  | _, _ => false

/-- A delivery that resumes a paused execution reserves the turn before the held ones. -/
def resumedGate (message : BridgetMessage) : Bool :=
  match request.executionLink with
  | some link =>
    (s.deliveries.find? fun d => d.recipientAgent = message.toAgent ∧ d.phase = .held).isSome &&
      s.pauseInterruptions.rows.any fun p =>
        p.resumeExecutionId = some link.executionId ∧ p.targetAgent = message.toAgent
  | none => false

def begunRow (key : IdempotencyKey) (request : BeginRequest) (message : BridgetMessage) :
    DeliveryRow :=
  { queueRank := s.deliverySequence + 1
    deliveryId := request.delivery.deliveryId
    issuerScope := key.issuerScope
    idempotencyKey := key.idempotencyKey
    recipientInstanceId := request.delivery.recipientInstanceId
    deliveryGeneration := request.delivery.deliveryGeneration
    phase := if request.heldForAgent.isSome then .held else .dispatching
    expiresAt := request.delivery.expiresAt
    messageBytes := some request.delivery.messageBytes
    recipientAgent := request.heldForAgent.getD message.toAgent
    turnGate := s.resumedGate request message
    ackedAt := none }

/-- The writes of a begun delivery to the tables beside the two it is about. -/
def recordEmission (request : BeginRequest) (message : BridgetMessage) (nowSecs : Int) :
    Result Store := do
  let executionLinks ← whenSome request.executionLink s.executionLinks fun link =>
    sql (s.executionLinks.insert link)
  let ledger := s.ledger.insertOrReplace
    { message with
      ts := nowSecs
      sender := message.fromAgent
      target := message.toAgent
      conversationKey := message.fromAgent ++ "|" ++ message.toAgent }
  let trackedRequests ← whenSome request.reply s.trackedRequests fun reply =>
    sql (s.trackedRequests.insert
      { reply with
        id := reply.requestId, state := .opened, escalationLevel := 0
        cancelReason := none, completedAt := none, replySummary := none })
  let guidanceEvents := request.guidance.elim s.guidanceEvents fun event =>
    s.guidanceEvents.recordGuidanceEvent event.atSecs event.actor event.target event.action
      event.path event.messageId .admitted
  return { s with executionLinks, ledger, trackedRequests, guidanceEvents }

def beginSendDeliveryWithGuidance (key : IdempotencyKey) (request : BeginRequest)
    (nowSecs : Int) : Result Store := do
  let message ← beginGuard env key request
  ensure (!s.heldQueueFull request) .heldQueueFull
  let (records, transitioned) ←
    sql (s.updateRecord key .prepared fun r => { r with state := .dispatching })
  ensure (transitioned = 1) .dispatchUnavailable
  -- the column is a positive 64-bit integer
  ensure ((request.delivery.deliveryGeneration : Int) ≤ i64Max) (.sqlite .conversion)
  ensure (0 < request.delivery.deliveryGeneration) (.sqlite .constraint)
  let deliveries ← sql (s.deliveries.insert (s.begunRow key request message))
  { s with records, deliveries, deliverySequence := s.deliverySequence + 1 }.recordEmission
    request message nowSecs

def carriesThreadNotice (d : DeliveryRow) : Bool :=
  match d.messageBytes with
  | some bytes => env.jsonValid bytes && env.threadNotice bytes
  | none => false

def reassignDispatchingDeliveries (fromInstanceId toInstanceId : String) (now : Int) :
    Result (Nat × Store) := do
  if fromInstanceId = "" ∨ toInstanceId = "" ∨ fromInstanceId = toInstanceId then return (0, s)
  else
    let (deliveries, updated) ← sql (s.deliveries.update
      (fun d => d.recipientInstanceId = fromInstanceId ∧ d.phase.inFlight ∧ now < d.expiresAt ∧
        !carriesThreadNotice env d)
      (fun d => { d with recipientInstanceId := toInstanceId }))
    return (updated, { s with deliveries })

def adoptHeldForAgent (agentId instanceId : String) (recoverDispatching : Bool) (now : Int) :
    Result (Nat × Store) := do
  ensure (agentId ≠ "" ∧ instanceId ≠ "") .invalidDelivery
  let (deliveries, updated) ← sql (s.deliveries.update
    (fun d => d.recipientAgent = agentId ∧ (d.phase = .held ∨
      recoverDispatching ∧ d.phase = .dispatching ∧ d.recipientInstanceId ≠ instanceId ∧
        now < d.expiresAt ∧ d.issuerScope ∉ [cliWakeScope, scheduledWakeScope, missedSummaryScope] ∧
        !carriesThreadNotice env d))
    (fun d => { d with recipientInstanceId := instanceId
                       turnGate := if d.phase = .dispatching then true else d.turnGate }))
  return (updated, { s with deliveries })

def rejectPrepared (key : IdempotencyKey) (category reason : String) : Result Store := do
  let (records, dispatched) ←
    sql (s.updateRecord key .prepared fun r => { r with state := .dispatching })
  ensure (dispatched = 1) .dispatchUnavailable
  let s := { s with records }
  let (records, terminal) ← sql (s.updateRecord key .dispatching fun r =>
    { r with state := .terminal, result := (PublicResult.rejected category reason).columns })
  ensure (terminal = 1) .dispatchUnavailable
  return { s with records }

end Store

end Bridget.Idempotency
