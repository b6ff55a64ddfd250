import Bridget.Idempotency.SendDelivery

/-!
# Edits of the held queue

A human or a parent may cancel, reorder or promote messages that are held for a busy
recipient. Each edit leaves a receipt under its request identifier, and the receipt is
what a replay of the request reads.
-/

namespace Bridget.Idempotency

open Foundation

inductive GuidanceAction where
  | steer | interrupt | midTurnDelivery | queueList | queueCancel | queueReorder | queuePromote
  deriving DecidableEq

inductive GuidanceActor where
  | attachedHuman
  | bareClient
  | agent (id : String)
  | internalPause
  deriving DecidableEq

structure GuidanceFacts where
  action : GuidanceAction
  actor : GuidanceActor
  identityAttested : Bool
  trustedOrigin : Option MessageOrigin
  (childProof actorIsTarget actorIsParent actorIsChild actorIsAuthor messageEditable : Bool)
  (recipientTurnActive carrierQueueFallback crossProject paused targetHasActiveNativeTask : Bool)
  (recentInterruptsPair recentInterruptsTarget : Nat)
  now : Int
  (lastInterruptPairAt thirdLatestInterruptTargetAt : Option Int)

inductive GuidanceRefusal where
  | intentNotPermitted (reason : String)
  | referentPaused
  | missionActive
  | notEditable
  | noActiveTurn
  | steerUnavailable
  | interruptRateLimited (retryAfterSecs : Nat)
  deriving DecidableEq

/-- Seconds left of a window that opened at `atSecs`. -/
def windowLeft (atSecs span now : Int) : Nat :=
  (max (saturatingSub (saturatingAdd atSecs span) now) 0).toNat

variable (facts : GuidanceFacts)

def interruptRetryAfter : Nat :=
  let pairRetry :=
    if facts.recentInterruptsPair = 0 then 0
    else (facts.lastInterruptPairAt.map fun last => windowLeft last 30 facts.now).getD 30
  let targetRetry :=
    if facts.recentInterruptsTarget < 3 then 0
    else (facts.thirdLatestInterruptTargetAt.map fun third =>
      windowLeft third 600 facts.now).getD 600
  max pairRetry targetRetry

/-- The rights of an agent, once it is neither a human nor a bare client. -/
def authorizeAgent : Except GuidanceRefusal Unit := do
  ensure (!facts.actorIsTarget) (.intentNotPermitted "self_target")
  ensure (!facts.crossProject) (.intentNotPermitted "cross_project")
  if facts.action = .queueCancel ∨ facts.action = .queueReorder then
    ensure (facts.actorIsParent ∨ facts.action = .queueCancel ∧ facts.actorIsAuthor)
      (.intentNotPermitted "not_parent")
  else
    ensure (facts.actorIsParent ∨ facts.action = .midTurnDelivery ∧ facts.actorIsChild)
      (.intentNotPermitted "not_parent")
    ensure (!facts.paused) .referentPaused
    if facts.action ≠ .interrupt then return
    else
      ensure (!facts.targetHasActiveNativeTask) .missionActive
      ensure (interruptRetryAfter facts = 0) (.interruptRateLimited (interruptRetryAfter facts))

/-- `authorize` past its special cases for queue edits. -/
def authorizeActor : Except GuidanceRefusal Unit := do
  if facts.actor = .internalPause then return
  else
    ensure (¬ (facts.childProof ∧ facts.action ≠ .midTurnDelivery))
      (.intentNotPermitted "identity_unattested")
    if facts.action = .queueList then return
    else if facts.action = .midTurnDelivery ∧ facts.trustedOrigin = some .system then return
    else
      ensure facts.identityAttested (.intentNotPermitted "identity_unattested")
      match facts.actor with
      | .attachedHuman => return
      | .bareClient =>
        ensure (facts.action = .midTurnDelivery ∧ facts.trustedOrigin = some .human)
          (.intentNotPermitted "identity_unattested")
      | _ => authorizeAgent facts

def authorize : Except GuidanceRefusal Unit := do
  ensure (¬ ((facts.action = .queueCancel ∨ facts.action = .queueReorder ∨
      facts.action = .queuePromote) ∧ facts.actor = .internalPause))
    (.intentNotPermitted "identity_unattested")
  if facts.action = .queuePromote then
    -- the rights of a steer; the pause is judged after the receipt
    authorizeActor { facts with action := .steer, paused := false }
  else authorizeActor facts

def authorizeQueueEdit : Except GuidanceRefusal Unit := do
  authorize facts
  ensure facts.messageEditable .notEditable
  if facts.action = .queuePromote then
    authorize { facts with action := .steer }
    ensure facts.recipientTurnActive .noActiveTurn
    ensure facts.carrierQueueFallback .steerUnavailable

inductive QueueEditEffect where
  | unconfirmed

structure QueueEditReceipt where
  state : QueueEditState
  refusal : Option String
  effect : Option QueueEditEffect

def queueEditRetentionSecs : Int := 7 * 86400

/-- The effect a receipt announces: only an applied promotion is left unconfirmed. -/
def QueueEditReceipt.effectOf (state : QueueEditState) (action : QueueEditAction) :
    Option QueueEditEffect :=
  if state = .applied ∧ action = .promote then some .unconfirmed else none

structure QueueEditRequest where
  (issuerScope requestId : String)
  canonicalBytes : Bytes
  actor : String

/-- What the body of an edit decides: the delivery it names, the one it is placed before,
and its effect or the reason it is refused. -/
structure QueueEditDecision (T : Type) where
  (deliveryId beforeDeliveryId : Option String)
  decision : Except (String × Option OrphanedDeliveryNotice) T

/-- A refusal without effect on the queue. -/
def QueueEditDecision.refused {T : Type} (deliveryId : Option String) (reason : String) :
    QueueEditDecision T :=
  { deliveryId, beforeDeliveryId := none, decision := .error (reason, none) }

namespace Store

variable (env : Envelopes) (s : Store)

/-- Settle the decision of an edit: an ordinary refusal undoes what the body wrote, and a
refusal that carries a notice keeps it. -/
def settleDecision {T : Type} (action : QueueEditAction) (edited : Store)
    (outcome : QueueEditDecision T) :
    Result ((QueueEditState × Option String × Option T × Option OrphanedDeliveryNotice) × Store) :=
  match outcome.decision with
  | .ok effect => return ((.applied, none, some effect, none), edited)
  | .error (refusal, none) => return ((.refused, some refusal, none, none), s)
  | .error (refusal, some notice) => do
      ensure (action = .promote ∧ refusal = "not_held" ∧
        outcome.deliveryId = some notice.deliveryId) .invalidDelivery
      return ((.refused, some refusal, none, some notice), edited)

def queueEditOnce {T : Type} (request : QueueEditRequest) (action : QueueEditAction) (now : Int)
    (apply : Store → Result (QueueEditDecision T × Store)) :
    Result ((QueueEditReceipt × Option T × Option OrphanedDeliveryNotice) × Store) := do
  validateIssuerScope request.issuerScope
  validateIdempotencyKey request.requestId
  validateCanonicalBytes request.canonicalBytes
  let expiresAt ← orError (checkedAdd now queueEditRetentionSecs) .invalidIssuedAt
  match s.queueEdits.find? fun e =>
      e.issuerScope = request.issuerScope ∧ e.requestId = request.requestId with
  | some previous =>
    if previous.canonicalBytes ≠ request.canonicalBytes ∨ previous.action ≠ action then
      return ((⟨.refused, some "envelope_mismatch", none⟩, none, none), s)
    else
      return ((⟨previous.state, previous.refusal,
        QueueEditReceipt.effectOf previous.state action⟩, none, none), s)
  | none =>
    let (outcome, edited) ← apply s
    let ((state, refusal, effect, notice), s) ← s.settleDecision action edited outcome
    let queueEdits ← sql (s.queueEdits.insert
      { request, outcome with action, state, refusal, createdAt := now, expiresAt })
    return ((⟨state, refusal, QueueEditReceipt.effectOf state action⟩, effect, notice),
      { s with queueEdits })

/-- The delivery that holds this public message for the agent, if it is the only one. -/
def uniqueHeldPublicId (recipientAgent messageId : String) : Result (Option String) := do
  let held := s.heldByRank recipientAgent
  ensure (∀ d ∈ held, ∀ bytes ∈ d.messageBytes, env.jsonValid bytes) (.sqlite .malformedJson)
  match held.filter fun d => d.messageBytes.bind env.extractId = some messageId with
  | [d] => return some d.deliveryId
  | _ => return none

def applyCancel (request : QueueEditRequest) (recipientAgent messageId : String) (now : Int)
    (eventIds : Nat → String) :
    Result ((QueueEditReceipt × Option OrphanedDeliveryNotice) × Store) := do
  let ((receipt, notice, _), s) ← s.queueEditOnce request .cancel now fun s => do
    match ← s.uniqueHeldPublicId env recipientAgent messageId with
    | none => return (.refused none "not_held", s)
    | some id =>
      let (notice, s) ← s.settleHeldInTransaction env id "cancelled_in_queue" now eventIds
      let notice ← orError notice .dispatchUnavailable
      return ({ deliveryId := some id, beforeDeliveryId := none, decision := .ok notice }, s)
  return ((receipt, notice), s)

def reordered (ids : List String) (id : String) (beforeId : Option String) :
    Result (List String) := do
  ensure (id ∈ ids) .dispatchUnavailable
  let rest := ids.erase id
  match beforeId with
  | none => return rest ++ [id]
  | some before =>
    ensure (before ∈ rest) .dispatchUnavailable
    return rest.insertIdx (rest.idxOf before) id

def setRank (recipientAgent id : String) (current : Int → Bool) (rank : Int) : Result Store := do
  let (deliveries, updated) ← sql (s.deliveries.update
    (fun d => d.deliveryId = id ∧ d.recipientAgent = recipientAgent ∧ d.phase = .held ∧
      current d.queueRank)
    (fun d => { d with queueRank := rank }))
  ensure (updated = 1) .dispatchUnavailable
  return { s with deliveries }

/-- The held rows take provisional negative ranks and then the ranks of the new order. -/
def renumber (recipientAgent : String) (rows : List (String × Int)) (ordered : List String) :
    Result Store := do
  let s ← rows.foldlM (fun s (id, rank) =>
    s.setRank recipientAgent id (fun current => current = rank) (-rank)) s
  (ordered.zip rows).foldlM (fun s (id, _, rank) =>
    s.setRank recipientAgent id (fun current => current < 0) rank) s

def moveHeld (recipientAgent id : String) (beforeId : Option String) :
    Result (QueueEditDecision Unit × Store) := do
  let rows := (s.heldByRank recipientAgent).map fun d => (d.deliveryId, d.queueRank)
  ensure (∀ row ∈ rows, 0 < row.2) (.corruptRecord "rang retenu non positif")
  let ids := rows.map Prod.fst
  ensure (id ∈ ids) .dispatchUnavailable
  let done : QueueEditDecision Unit :=
    { deliveryId := some id, beforeDeliveryId := beforeId, decision := .ok () }
  if beforeId = some id then return (done, s)
  else
    let ordered ← reordered ids id beforeId
    if ids = ordered then return (done, s)
    else
      let s ← s.renumber recipientAgent rows ordered
      return (done, s)

def applyReorder (request : QueueEditRequest) (recipientAgent messageId : String)
    (beforeMessageId : Option String) (now : Int) :
    Result ((QueueEditReceipt × Option Unit) × Store) := do
  let ((receipt, effect, _), s) ← s.queueEditOnce request .reorder now fun s => do
    match ← s.uniqueHeldPublicId env recipientAgent messageId with
    | none => return (.refused none "not_held", s)
    | some id =>
      match beforeMessageId with
      | none => s.moveHeld recipientAgent id none
      | some beforeMessage =>
        match ← s.uniqueHeldPublicId env recipientAgent beforeMessage with
        | none => return (.refused (some id) "not_held", s)
        | some before => s.moveHeld recipientAgent id (some before)
  return ((receipt, effect), s)

variable (rights : GuidanceFacts)

def promotionFacts (recipientAgent : String) (d : DeliveryRow)
    (r : RecordRow) (message : BridgetMessage) (now : Int) : Result GuidanceFacts := do
  let requestOpen := !message.reply || s.requestOpen message (fun deadline => now < deadline)
  let paused ← orError s.controlPaused (.sqlite .noRows)
  return { rights with
    messageEditable := now < d.expiresAt ∧ now < r.expiresAt ∧ r.state = .dispatching ∧
      !s.linked d.deliveryId ∧ !s.turnReserved recipientAgent ∧ requestOpen
    paused := paused || s.pausePending recipientAgent
    now }

def promoteHeld (refusalCode : GuidanceRefusal → String)
    (recipientAgent id : String) (now : Int) (eventIds : Nat → String) :
    Result (QueueEditDecision SendDelivery × Store) := do
  let (d, r) ← orError (s.heldWithRecord id) (.sqlite .noRows)
  let bytes ← orError d.messageBytes (.sqlite .conversion)
  let message ← orError (env.decode bytes) (.corruptRecord "enveloppe retenue illisible")
  match s.settlementReason d r message now with
  | some reason =>
    let (notice, s) ← s.settleHeldInTransaction env id reason now eventIds
    let notice ← orError notice .dispatchUnavailable
    return ({ deliveryId := some id, beforeDeliveryId := none
              decision := .error ("not_held", some notice) }, s)
  | none =>
    let fresh ← s.promotionFacts rights recipientAgent d r message now
    match authorizeQueueEdit fresh with
    | .error refusal => return (.refused (some id) (refusalCode refusal), s)
    | .ok _ =>
      let (deliveries, updated) ← sql (s.deliveries.update
        (fun x => x.deliveryId = id ∧ x.recipientAgent = recipientAgent ∧ x.phase = .held ∧
          !x.turnGate) takeTurn)
      ensure (updated = 1) .dispatchUnavailable
      return ({ deliveryId := some id, beforeDeliveryId := none
                decision := .ok { deliveryId := id
                                  recipientInstanceId := d.recipientInstanceId
                                  deliveryGeneration := d.deliveryGeneration
                                  expiresAt := d.expiresAt, messageBytes := bytes } },
        { s with deliveries })

def applyPromote (request : QueueEditRequest) (recipientAgent messageId : String)
    (facts : GuidanceFacts) (refusalCode : GuidanceRefusal → String) (now : Int)
    (eventIds : Nat → String) :
    Result ((QueueEditReceipt × Option SendDelivery × Option OrphanedDeliveryNotice) × Store) :=
  let rights := { facts with action := .queuePromote }
  match authorize rights with
  | .error refusal => return ((⟨.refused, some (refusalCode refusal), none⟩, none, none), s)
  | .ok _ => s.queueEditOnce request .promote now fun s => do
      match ← s.uniqueHeldPublicId env recipientAgent messageId with
      | none => return (.refused none "not_held", s)
      | some id => s.promoteHeld env rights refusalCode recipientAgent id now eventIds

end Store

end Bridget.Idempotency
