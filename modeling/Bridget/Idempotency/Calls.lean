import Bridget.Idempotency.Lifecycle
import Bridget.Idempotency.QueueEdit

/-!
# The operations of the store

`Op` collects the operations on records and deliveries and `Store.exec` runs one; `QueueOp`
adds the remaining writes to deliveries and keeps what is handed to an agent. Every operation
changes a delivery in one of a few ways: it is addressed anew, moved in the queue, handed out,
acknowledged, lost, orphaned or cancelled, or its turn is taken from it.
-/

namespace Bridget.Idempotency

open Foundation
open Execution (PauseRow)

inductive Op where
  | reserve (key : IdempotencyKey) (canonicalBytes : Bytes)
      (issuedAt horizonSecs now issuedAtToleranceSecs : Int)
  | beginSendDelivery (key : IdempotencyKey) (request : Store.BeginRequest) (nowSecs : Int)
  | rejectPrepared (key : IdempotencyKey) (category reason : String)
  | transition (key : IdempotencyKey) (current target : RecordState)
  | finalize (key : IdempotencyKey) (result : PublicResult)
  | reassignDispatching (fromInstanceId toInstanceId : String) (now : Int)
  | adoptHeld (agentId instanceId : String) (recoverDispatching : Bool) (now : Int)
  | releaseNextHeld (agent : String) (now : Int) (eventIds : Nat → String)
  | promote (request : QueueEditRequest) (recipientAgent messageId : String)
      (facts : GuidanceFacts) (refusalCode : GuidanceRefusal → String) (now : Int)
      (eventIds : Nat → String)
  | reorder (request : QueueEditRequest) (recipientAgent messageId : String)
      (beforeMessageId : Option String) (now : Int)
  | cancel (request : QueueEditRequest) (recipientAgent messageId : String) (now : Int)
      (eventIds : Nat → String)
  | settleHeld (id reason : String) (now : Int) (eventIds : Nat → String)
  | acknowledge (deliveryId recipientInstanceId : String) (deliveryGeneration : Nat)
      (now nowSecs : Int)
  | markIndeterminate (deliveryId recipientInstanceId : String) (deliveryGeneration : Nat)
  | settleExpired (now : Int)
  | orphan (recipientInstanceId reason : String) (createdAt : Int)
  | clearTurnGate (agent : String)
  | purgeExpired (now : Int)
  | purgeExpiredSends (now grace : Int)
  /-- Writes of their owners to the other tables the store reads. -/
  | others (controlPaused : Option Bool) (pauseInterruptions : Table PauseRow)
      (trackedRequests : Table TrackedRequest) (guichetRequests : List GuichetRequest)
      (lifecycleEvents : Table LifecycleEvent)

namespace Store

def exec (env : Envelopes) (s : Store) : Op → Result Store
  | .reserve key bytes issuedAt horizon now tolerance =>
    (s.reserve key bytes issuedAt horizon now tolerance).map Prod.snd
  | .beginSendDelivery key request nowSecs =>
    s.beginSendDeliveryWithGuidance env key request nowSecs
  | .rejectPrepared key category reason => s.rejectPrepared key category reason
  | .transition key current target => s.transition key current target
  | .finalize key result => s.finalize key result
  | .reassignDispatching fromId toId now =>
    (s.reassignDispatchingDeliveries env fromId toId now).map Prod.snd
  | .adoptHeld agentId instanceId recover now =>
    (s.adoptHeldForAgent env agentId instanceId recover now).map Prod.snd
  | .releaseNextHeld agent now eventIds => (s.releaseNextHeld env agent now eventIds).map Prod.snd
  | .promote request agent messageId facts refusalCode now eventIds =>
    (s.applyPromote env request agent messageId facts refusalCode now eventIds).map Prod.snd
  | .reorder request agent messageId before now =>
    (s.applyReorder env request agent messageId before now).map Prod.snd
  | .cancel request agent messageId now eventIds =>
    (s.applyCancel env request agent messageId now eventIds).map Prod.snd
  | .settleHeld id reason now eventIds => (s.settleHeld env id reason now eventIds).map Prod.snd
  | .acknowledge id instanceId generation now nowSecs =>
    (s.acknowledgeSendDeliveryAt env id instanceId generation now nowSecs).map Prod.snd
  | .markIndeterminate id instanceId generation =>
    s.markDeliveryIndeterminate id instanceId generation
  | .settleExpired now => (s.settleExpiredDispatching now).map Prod.snd
  | .orphan instanceId reason createdAt =>
    (s.orphanDispatchingForInstance env instanceId reason createdAt).map Prod.snd
  | .clearTurnGate agent => s.clearHeldTurnGate agent
  | .purgeExpired now => .ok (s.purgeExpired now)
  | .purgeExpiredSends now grace => .ok (s.purgeExpiredSends now grace)
  | .others controlPaused pauseInterruptions trackedRequests guichetRequests lifecycleEvents =>
    .ok { s with controlPaused, pauseInterruptions, trackedRequests, guichetRequests,
                 lifecycleEvents }

def step (env : Envelopes) (s : Store) (op : Op) : Store :=
  match s.exec env op with
  | .ok s' => s'
  | .error _ => s

end Store

def Op.serves : Op → Bool
  | .reserve .. | .beginSendDelivery .. | .rejectPrepared .. | .transition .. | .finalize ..
  | .purgeExpired .. | .purgeExpiredSends .. => false
  | _ => true

def Op.isEdit : Op → Bool
  | .promote .. | .reorder .. | .cancel .. => true
  | _ => false

namespace Store

variable (s : Store)

/-- The write of `dispatching_deliveries_for_instance`: what has no envelope cannot be sent. -/
def reclassifyDispatching (recipientInstanceId : String) : Result Store := do
  let (deliveries, _) ← sql (s.deliveries.update
    (fun d => d.recipientInstanceId = recipientInstanceId ∧ d.phase = .dispatching ∧
      d.messageBytes = none)
    (fun d => { d with phase := .indeterminate, turnGate := false }))
  return { s with deliveries }

def linkSendDelivery (link : DeliveryExecutionLink) : Result Store := do
  ensure (link.deliveryId ≠ "" ∧ link.submissionId ≠ "" ∧ link.executionId ≠ "") .invalidDelivery
  let existing := s.executionLinks.find? fun l => l.deliveryId = link.deliveryId
  -- the link references its delivery
  ensure (existing.isSome ∨ (s.deliveries.find? fun d => d.deliveryId = link.deliveryId).isSome)
    (.sqlite .constraint)
  ensure (∀ l ∈ existing, l = link) .invalidDelivery
  return { s with executionLinks := (s.executionLinks.insertOrIgnore link).1 }

/-- The write of the mobile queue's `replace`: a held message gets another body. -/
def replaceHeldMessage (deliveryId : String) (messageBytes : Bytes) : Result Store := do
  let (deliveries, _) ← sql (s.deliveries.update
    (fun d => d.deliveryId = deliveryId ∧ d.phase = .held)
    (fun d => { d with messageBytes := some messageBytes }))
  return { s with deliveries }

end Store

inductive QueueOp where
  | store (op : Op)
  | reclassify (recipientInstanceId : String)
  | link (link : DeliveryExecutionLink)
  | replace (deliveryId : String) (messageBytes : Bytes)

namespace Store

def execQueue (env : Envelopes) (s : Store) :
    QueueOp → Result (Option (String × SendDelivery) × Store)
  | .store (.releaseNextHeld agent now eventIds) => do
      let ((delivery, _), s) ← s.releaseNextHeld env agent now eventIds
      return (delivery.map fun delivery => (agent, delivery), s)
  | .store (.promote request agent messageId facts refusalCode now eventIds) => do
      let ((_, delivery, _), s) ←
        s.applyPromote env request agent messageId facts refusalCode now eventIds
      return (delivery.map fun delivery => (agent, delivery), s)
  | .store op => do
      let s ← s.exec env op
      return (none, s)
  | .reclassify recipientInstanceId => do
      let s ← s.reclassifyDispatching recipientInstanceId
      return (none, s)
  | .link link => do
      let s ← s.linkSendDelivery link
      return (none, s)
  | .replace deliveryId messageBytes => do
      let s ← s.replaceHeldMessage deliveryId messageBytes
      return (none, s)

end Store

def QueueOp.clears : QueueOp → String → Bool
  | .store (.clearTurnGate agent), other => other = agent
  | _, _ => false

def QueueOp.rests : QueueOp → String → List Int
  | .store (.releaseNextHeld agent now _), other => if other = agent then [now] else []
  | _, _ => []

def QueueOp.addresses : QueueOp → Bool
  | .store (.reassignDispatching ..) | .store (.adoptHeld ..) => true
  | _ => false

/-- The edges that an operation takes on a delivery that is there, and the rows it takes them
on. What is not listed addresses rows anew, ranks them or takes turns from them. -/
def QueueOp.moves (a : Action) (d : DeliveryRow) : QueueOp → Prop
  | .store (.releaseNextHeld agent ..) | .store (.promote _ agent ..) =>
    (a = .release ∨ a = .cancel) ∧ d.recipientAgent = agent
  | .store (.cancel _ agent ..) => a = .cancel ∧ d.recipientAgent = agent
  | .store (.settleHeld id ..) => a = .cancel ∧ d.deliveryId = id
  | .store (.acknowledge id ..) => a = .acknowledge ∧ d.deliveryId = id
  | .store (.markIndeterminate id ..) => a = .lose ∧ d.deliveryId = id
  | .store (.settleExpired now) => a = .lose ∧ d.expiresAt ≤ now
  | .store (.orphan instanceId ..) => a = .orphan ∧ d.recipientInstanceId = instanceId
  | .reclassify instanceId => a = .lose ∧ d.recipientInstanceId = instanceId
  | _ => False

/-- The ways a row changes. Only an operation that reports a turn or finds the agent at rest
takes a turn from a delivery that goes on. -/
inductive Edit (op : QueueOp) : DeliveryRow → DeliveryRow → Prop
  | address {d : DeliveryRow} (instanceId : String) (haddresses : op.addresses = true) :
      Edit op d { d with recipientInstanceId := instanceId }
  | recover {d : DeliveryRow} (instanceId : String) (hphase : d.phase = .dispatching)
      (haddresses : op.addresses = true) :
      Edit op d { d with recipientInstanceId := instanceId, turnGate := true }
  | rank {d : DeliveryRow} (rank : Int) (hphase : d.phase = .held) :
      Edit op d { d with queueRank := rank }
  | replace {d : DeliveryRow} (messageBytes : Option Bytes) (hphase : d.phase = .held) :
      Edit op d { d with messageBytes }
  | take {d : DeliveryRow} (hphase : d.phase = .held) (hmoves : op.moves .release d) :
      Edit op d (Store.takeTurn d)
  | acknowledge {d : DeliveryRow} (now : Int) (hphase : d.phase = .dispatching)
      (hmoves : op.moves .acknowledge d) :
      Edit op d { d with phase := .acked, ackedAt := some (d.ackedAt.getD now) }
  | lose {d : DeliveryRow} (hphase : d.phase = .dispatching) (hmoves : op.moves .lose d) :
      Edit op d { d with phase := .indeterminate, turnGate := false }
  | orphan {d : DeliveryRow} (hphase : d.phase.inFlight = true) (hmoves : op.moves .orphan d) :
      Edit op d { d with phase := .orphaned, turnGate := false }
  | cancel {d : DeliveryRow} (hphase : d.phase = .held) (hmoves : op.moves .cancel d) :
      Edit op d { d with phase := .cancelled, turnGate := false }
  | clear {d : DeliveryRow} (hclears : op.clears d.recipientAgent = true) :
      Edit op d { d with turnGate := false }
  | expire {d : DeliveryRow} {now ackedAt : Int} (hrests : now ∈ op.rests d.recipientAgent)
      (hphase : d.phase = .acked) (hacked : ackedAt ∈ d.ackedAt)
      (hold : ackedAt < saturatingSub now 30) : Edit op d { d with turnGate := false }

abbrev Edits (op : QueueOp) : DeliveryRow → DeliveryRow → Prop := Relation.ReflTransGen (Edit op)

variable {op : QueueOp} {d d' : DeliveryRow}

theorem Edits.same (h : Edits op d d') :
    d'.deliveryId = d.deliveryId ∧ d'.key = d.key ∧ d'.recipientAgent = d.recipientAgent := by
  induction h with
  | refl => exact ⟨rfl, rfl, rfl⟩
  | tail _ hedit ih => cases hedit <;> exact ih

theorem Edits.instance (h : Edits op d d') (hfixed : op.addresses = false) :
    d'.recipientInstanceId = d.recipientInstanceId := by
  induction h with
  | refl => rfl
  | tail _ hedit ih =>
    cases hedit with
    | address _ haddresses | recover _ _ haddresses => rw [hfixed] at haddresses; cases haddresses
    | _ => exact ih

theorem Edits.expiresAt (h : Edits op d d') : d'.expiresAt = d.expiresAt := by
  induction h with
  | refl => rfl
  | tail _ hedit ih => cases hedit <;> exact ih

/-- An operation means the same rows before and after it has edited some. -/
theorem Edits.moves {a : Action} (h : Edits op d d') (hmoves : op.moves a d') : op.moves a d := by
  obtain ⟨hid, -, hagent⟩ := h.same
  unfold QueueOp.moves at hmoves ⊢
  split at hmoves
  all_goals first
    | exact absurd hmoves id
    | exact ⟨hmoves.1, hid ▸ hmoves.2⟩
    | exact ⟨hmoves.1, hagent ▸ hmoves.2⟩
    | exact ⟨hmoves.1, h.expiresAt ▸ hmoves.2⟩
    | exact ⟨hmoves.1, h.instance rfl ▸ hmoves.2⟩

/-- A turn is held by a delivery on its way, or by one whose acknowledgement has a date. -/
def Gated (d : DeliveryRow) : Prop :=
  d.turnGate = true → d.phase = .dispatching ∨ d.phase = .acked ∧ d.ackedAt.isSome = true

theorem Edit.gated (h : Edit op d d') (hgated : Gated d) : Gated d' := by
  cases h with
  | address => exact hgated
  | recover _ hphase => exact fun _ => .inl hphase
  | rank | replace => exact hgated
  | take => exact fun _ => .inl rfl
  | acknowledge => exact fun _ => .inr ⟨rfl, rfl⟩
  | lose | orphan | cancel | clear | expire => exact nofun

theorem Edits.gated (h : Edits op d d') (hgated : Gated d) : Gated d' := by
  induction h with
  | refl => exact hgated
  | tail _ hedit ih => exact hedit.gated ih

end Bridget.Idempotency
