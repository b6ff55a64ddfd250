import Bridget.Idempotency.Operations

/-!
# One-shot wakes asked from the command line

A wake is frozen into a record of the send domain and delivered by a pass that runs every
second beside all other operations. The pass asks for an outcome, lets go of the daemon's
lock, and settles the record of the wake in a later section. Each section that holds the
lock is one step here; what the pass reads outside the store is an argument of its step.
-/

namespace Bridget.Idempotency

open Foundation

inductive WakeSource where
  | scheduled | cliOnce | missedSummary
  deriving DecidableEq

inductive WakeTarget where
  | selfTarget
  | agent (id : String)
  | thread (id : String)
  deriving DecidableEq

inductive WakePhase where
  | prepared | deferred | dispatchingAgent | committedThread | confirmed | outcomeUnknown
  | missedBeforeDeparture | ownerUnavailable
  deriving DecidableEq

structure NativeWakeOrigin where
  (taskId instanceId mission : String)
  deriving DecidableEq

structure FrozenWake where
  version : Nat
  source : WakeSource
  target : WakeTarget
  owner : String
  ownerProject : Option CommunicationProject
  ownerNative : Option NativeWakeOrigin
  (dueAt issuedAt graceUntil : Int)
  (id label body : String)
  canonicalBytes : Bytes
  (threadOperationId deliveryId : Option String)
  phase : WakePhase
  deriving DecidableEq

def FrozenWake.skipBytes (wake : FrozenWake) : FrozenWake := { wake with canonicalBytes := [] }

/-- The canonical bytes depend neither on the phase nor on the delivery. -/
def freezeCanonical (toVec : FrozenWake → Option Bytes) (wake : FrozenWake) :
    Except String FrozenWake := do
  ensure (wake.version = 1 ∧ wake.label.utf8ByteSize ≤ 2048 ∧
    wake.graceUntil = saturatingAdd wake.dueAt 600) "invalid_request"
  let canonicalBytes ← orError
    (toVec { wake with phase := .prepared, deliveryId := none }) "invalid_request"
  return { wake with canonicalBytes }

/-- What the message library does with wakes and with the messages that carry them. -/
structure WakeCodec where
  envelopes : Envelopes
  decodeWake : Bytes → Option FrozenWake
  toVec : FrozenWake → Option Bytes
  /-- The bytes of the message that delivers a wake to an agent. -/
  wakeMessage : FrozenWake → String → Bytes

def wakeBody (owner label : String) : String := "Réveil déclenché par " ++ owner ++ "\n" ++ label

def FrozenWake.fresh (id owner : String) (target : WakeTarget) (label : String)
    (ownerProject : Option CommunicationProject) (threadOperationId : String)
    (now graceUntil : Int) : FrozenWake :=
  { version := 1, source := .cliOnce, target, owner, ownerProject, ownerNative := none
    dueAt := now, issuedAt := now, graceUntil, id, label, body := wakeBody owner label
    canonicalBytes := [], deliveryId := none
    threadOperationId := match target with
      | .thread _ => some threadOperationId
      | _ => none
    phase := .prepared }

/-- The record of a wake belongs to the domain of command-line wakes. -/
def FrozenWake.InDomain (frozen : FrozenWake) (id : String) (record : RecordRow) : Prop :=
  frozen.version = 1 ∧ frozen.source = .cliOnce ∧ frozen.id = id ∧ frozen.issuedAt = record.issuedAt
  deriving Decidable

namespace Store

variable (codec : WakeCodec) (s : Store)

def frozenIn (id : String) (record : RecordRow) : Result FrozenWake := do
  let frozen ← orError (codec.decodeWake record.canonicalBytes) (.corruptRecord "canon wake CLI")
  ensure (frozen.InDomain id record) (.corruptRecord "domaine wake CLI")
  return { frozen with canonicalBytes := record.canonicalBytes }

def recentWakes (now : Int) : List RecordRow :=
  s.records.select fun r => r.key.issuerScope = cliWakeScope ∧ r.key.operationKind = .send ∧
    saturatingSub now 60 < r.issuedAt

def wakeRetryAfter (now : Int) : Nat :=
  let oldest := ((s.recentWakes now).map RecordRow.issuedAt).min?.getD now
  (max (saturatingSub (saturatingAdd oldest 60) now) 1).toNat

def reserveCliWake (id owner : String) (target : WakeTarget) (label : String)
    (ownerProject : Option CommunicationProject) (threadOperationId : String) (now : Int) :
    Result ((Reservation × FrozenWake) × Store) := do
  let key ← IdempotencyKey.new cliWakeScope .send id
  ensure (owner ≠ "" ∧ label.utf8ByteSize ≤ 2048) .invalidDelivery
  match s.loadRecord key with
  | some record =>
    let frozen ← frozenIn codec id record
    if record.expiresAt ≤ now then return ((.idempotencyExpired, frozen), s)
    else if frozen.owner ≠ owner ∨ frozen.target ≠ target ∨ frozen.label ≠ label then
      return ((.envelopeMismatch, frozen), s)
    else
      let result ← record.lookupResult
      return ((.replayed result, frozen), s)
  | none =>
    ensure ((s.recentWakes now).length < 60) (.cliWakeRateLimited (s.wakeRetryAfter now))
    let expiresAt ← orError (checkedAdd now (7 * 86400)) .invalidHorizon
    let graceUntil ← orError (checkedAdd now 600) .invalidIssuedAt
    let frozen ← (freezeCanonical codec.toVec (.fresh id owner target label ownerProject
      threadOperationId now graceUntil)).mapError fun _ => .invalidDelivery
    validateCanonicalBytes frozen.canonicalBytes
    let records ← sql (s.records.insert (preparedRow key frozen.canonicalBytes now expiresAt))
    return ((.prepared expiresAt, frozen), { s with records })

def cliWake (id : String) : Result (Option (FrozenWake × RecordState × Int)) := do
  let key ← IdempotencyKey.new cliWakeScope .send id
  match s.loadRecord key with
  | none => return none
  | some record =>
    let frozen ← frozenIn codec id record
    return some (frozen, record.state, record.expiresAt)

def wakeOrder (a b : RecordRow) : Prop :=
  a.issuedAt < b.issuedAt ∨
    a.issuedAt = b.issuedAt ∧ a.key.idempotencyKey ≤ b.key.idempotencyKey
  deriving Decidable

def pendingCliWakes (now : Int) (after : Option (Int × String)) : Result (List FrozenWake) :=
  let rows := s.records.select fun r =>
    r.key.issuerScope = cliWakeScope ∧ r.key.operationKind = .send ∧
      (r.state = .prepared ∨ r.state = .dispatching) ∧ now < r.expiresAt ∧
      ∀ cursor ∈ after, cursor.1 < r.issuedAt ∨
        r.issuedAt = cursor.1 ∧ cursor.2 < r.key.idempotencyKey
  ((rows.insertionSort wakeOrder).take 128).mapM fun r => do
    let found ← s.cliWake codec r.key.idempotencyKey
    let (frozen, _, _) ← orError found .missingRecord
    return frozen

end Store

inductive ThreadReplay where
  | absent | posted | mismatch | otherOutcome | storageError

structure AskFacts where
  threadReplay : ThreadReplay
  /-- The project, the origin and the target are admissible, or the refusal's code. -/
  admission : Except String Unit
  (currentNow commitNow : Option Int)
  threadPosted : Bool
  dormant : Option Bool
  /-- The instance connected for the target, if it can be reached now. -/
  route : Except String (Option String)

structure DepartFacts where
  admitted : Bool
  (currentNow commitNow : Option Int)
  inTime : Bool
  deliveryId : String
  nowSecs : Int
  pushed : Bool

inductive WakeAnswer where
  | settled (phase : WakePhase)
  | depart (target instanceId : String)

/-- The answer that the thread store alone determines. -/
def FrozenWake.threadAnswer (wake : FrozenWake) (replay : ThreadReplay) :
    Option (Except String Unit) :=
  match wake.target, wake.threadOperationId, replay with
  | .thread _, none, _ => some (.error "invalid_request")
  | .thread _, some _, .posted => some (.ok ())
  | .thread _, some _, .mismatch => some (.error "envelope_mismatch")
  | .thread _, some _, .otherOutcome => some (.error "thread_unavailable")
  | .thread _, some _, .storageError => some (.error "storage_unavailable")
  | _, _, _ => none

def clientIssuedAtToleranceSecs : Int := 60

namespace Store

variable (codec : WakeCodec) (s : Store)

/-- A section's sub-step on the store: its failure ends the section with an error code and
keeps what the section wrote before. -/
def attempt {α : Type} (result : Result Store)
    (next : Store → Except String α × Store) : Except String α × Store :=
  match result with
  | .ok s => next s
  | .error _ => (.error "storage_unavailable", s)

/-- The post of the wake is already in its thread: its record is brought to accepted. -/
def concludeReplay (key : IdempotencyKey) (wake : FrozenWake) : Except String WakeAnswer × Store :=
  match s.cliWake codec wake.id with
  | .ok (some (_, state, expiresAt)) =>
    s.attempt (if state = .prepared then s.transition key .prepared .dispatching else .ok s)
      fun s => s.attempt
        (if state ≠ .terminal then s.finalize key (.accepted expiresAt) else .ok s)
        fun s => (.ok (.settled .committedThread), s)
  | _ => (.error "storage_unavailable", s)

/-- The wake posts to its thread, between two readings of the clock. -/
def postToThread (key : IdempotencyKey) (wake : FrozenWake) (facts : AskFacts) :
    Except String WakeAnswer × Store :=
  match facts.currentNow with
  | none => (.error "calendar_unavailable", s)
  | some currentNow =>
    if wake.graceUntil ≤ currentNow then (.ok (.settled .missedBeforeDeparture), s)
    else
      match s.cliWake codec wake.id with
      | .error _ => (.error "storage_unavailable", s)
      | .ok found =>
        s.attempt (if (found.map fun w => w.2.1) = some .prepared
            then s.transition key .prepared .dispatching else .ok s)
          fun s =>
            match facts.commitNow with
            | none => (.error "calendar_unavailable", s)
            | some commitNow =>
              if wake.graceUntil ≤ commitNow then
                (.ok (.settled .missedBeforeDeparture), s)
              else if !facts.threadPosted then (.error "thread_unavailable", s)
              else s.attempt
                (s.finalize key (.accepted (saturatingAdd wake.issuedAt (7 * 86400))))
                fun s => (.ok (.settled .committedThread), s)

def routeWake (wake : FrozenWake) (facts : AskFacts) : Except String WakeAnswer :=
  let target := match wake.target with
    | .agent id => id
    | _ => wake.owner
  match facts.dormant with
  | none => .error "tracking_storage_unavailable"
  | some true => .ok (.settled .missedBeforeDeparture)
  | some false =>
    match facts.route with
    | .error code => .error code
    | .ok none => .ok (.settled .deferred)
    | .ok (some instanceId) => .ok (.depart target instanceId)

/-- The first section of `deliver_frozen_wake`. -/
def askWake (wake : FrozenWake) (now : Int) (facts : AskFacts) : Except String WakeAnswer × Store :=
  match IdempotencyKey.new cliWakeScope .send wake.id with
  | .error _ => (.error "invalid_request", s)
  | .ok key =>
    match wake.threadAnswer facts.threadReplay with
    | some (.error code) => (.error code, s)
    | some (.ok _) => s.concludeReplay codec key wake
    | none =>
      match (s.storedSendDelivery key).map DeliveryRow.phase with
      | some .acked => (.ok (.settled .confirmed), s)
      | some phase =>
        if phase = .dispatching ∧ now < wake.graceUntil then
          (.ok (.settled .dispatchingAgent), s)
        else (.ok (.settled .outcomeUnknown), s)
      | none =>
        if wake.graceUntil ≤ now then (.ok (.settled .missedBeforeDeparture), s)
        else
          match facts.admission, s.controlPaused, wake.target with
          | .error code, _, _ => (.error code, s)
          | .ok _, none, _ => (.error "storage_unavailable", s)
          | .ok _, some true, _ => (.ok (.settled .deferred), s)
          | .ok _, some false, .thread _ => s.postToThread codec key wake facts
          | .ok _, some false, _ => (routeWake wake facts, s)

/-- The expiry of the record under which a wake departs. -/
def departureExpiry (key : IdempotencyKey) (reservation : Reservation) (now : Int) : Option Int :=
  match reservation with
  | .prepared expiresAt => some expiresAt
  | .replayed _ => s.preparedExpiry key now
  | _ => none

/-- The departure section: whether a delivery was committed. -/
def departWake (wake : FrozenWake) (target instanceId : String) (facts : DepartFacts) :
    Bool × Store :=
  match IdempotencyKey.new cliWakeScope .send wake.id, facts.currentNow with
  | .ok key, some currentNow =>
    if !facts.admitted ∨ s.controlPaused ≠ some false ∨ wake.graceUntil ≤ currentNow then
      (false, s)
    else
      match s.reserve key wake.canonicalBytes wake.issuedAt (7 * 86400) currentNow
          clientIssuedAtToleranceSecs with
      | .error _ => (false, s)
      | .ok (reservation, s) =>
        match s.departureExpiry key reservation currentNow, facts.commitNow with
        | some expiresAt, some commitNow =>
          if wake.graceUntil ≤ commitNow ∨ !facts.inTime then (false, s)
          else
            match s.beginSendDeliveryWithGuidance codec.envelopes key
                { delivery := { deliveryId := facts.deliveryId
                                recipientInstanceId := instanceId
                                deliveryGeneration := 1, expiresAt
                                messageBytes := codec.wakeMessage wake target }
                  reply := none, executionLink := none, guidance := none
                  heldCapacity := none, heldForAgent := none } facts.nowSecs with
            | .ok s => (true, s)
            | .error _ => (false, s)
        | _, _ => (false, s)
  | _, _ => (false, s)

end Store

/-- The result under which the pass finalizes the record of a wake, if its outcome is one
that ends it. -/
def terminalResult : Except String WakePhase → Option PublicResult
  | .ok .missedBeforeDeparture =>
    some (.rejected "missed_before_departure" "réveil expiré avant départ")
  | .ok .outcomeUnknown => some (.orphaned "outcome_unknown")
  | .ok _ => none
  | .error code =>
    if code = "owner_unavailable" then
      some (.rejected "owner_unavailable" "origine native terminée")
    else none

/-- A wake that never departed leaves `prepared` before its record is finalized. -/
def Store.dispatchPrepared (codec : WakeCodec) (s : Store) (key : IdempotencyKey)
    (wake : FrozenWake) : Store :=
  match s.cliWake codec wake.id with
  | .ok (some (_, .prepared, _)) =>
    match s.transition key .prepared .dispatching with
    | .ok s => s
    | .error _ => s
  | _ => s

/-- The last section of a round: the record is brought to the result. -/
def Store.settleWake (codec : WakeCodec) (s : Store) (wake : FrozenWake) (result : PublicResult) :
    Store :=
  match IdempotencyKey.new cliWakeScope .send wake.id with
  | .error _ => s
  | .ok key =>
    let s := s.dispatchPrepared codec key wake
    match s.finalize key result with
    | .ok s => s
    | .error _ => s

end Bridget.Idempotency
