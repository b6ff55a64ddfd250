import Bridget.Delegation.Store

/-!
# Automatic admissions

A receipt is written before anything is decided, and each transition compares the revision
that it read. The last transition inserts the task in the same transaction. Receipts and
tasks together are bounded; only refused receipts without a task can be given up for room.
-/

namespace Bridget.Delegation

open Foundation AutoAdmissionReceipt

def maxAutoAdmissionCanonicalBytes : Nat := 512 * 1024

def maxAutoAdmissionMetadataV1Bytes : Nat := 16 * 1024

def maxAutoAdmissionMetadataV2Bytes : Nat := 128 * 1024

def maxAutoAdmissionReasonBytes : Nat := 256

def maxActiveAdmissions : Nat := 128

def maxActiveAdmissionsPerOwner : Nat := 16

structure MetadataCodec where
  /-- The bytes are a JSON object. -/
  isObject : List UInt8 → Bool
  /-- The field `decision_level`, when it holds one of the two levels. -/
  decisionLevel : List UInt8 → Option AutoAdmissionDecisionLevel
  /-- The metadata with the proof of a capacity refusal beside what it held. -/
  addCapacityRefusal : List UInt8 → String → Option (List UInt8)

namespace AutoAdmissionReceipt

variable (value : String)

def isAutoCandidateId : Bool :=
  match value.toList with
  | [a, b, c] => a == 'c' && b == '0' && '1' ≤ c && c ≤ '8'
  | _ => false

def isAutoAdmissionReason : Bool := validAtom value maxAutoAdmissionReasonBytes

def metadataLimit (version : Nat) : Nat :=
  if version = 2 then maxAutoAdmissionMetadataV2Bytes else maxAutoAdmissionMetadataV1Bytes

variable (receipt : AutoAdmissionReceipt)

def validCandidateId (value : String) : Bool :=
  if receipt.metadataVersion = 1 then isAutoCandidateId value
  else
    match value.toList with
    | 'c' :: digits =>
      digits.length == 3 && digits.all Char.isDigit &&
        (let number := digits.foldl (fun n d => 10 * n + (d.toNat - '0'.toNat)) 0
        1 ≤ number && number ≤ 128)
    | _ => false

def isChosen : Bool :=
  receipt.candidateId.isSome && receipt.delegateCanonical.isSome && receipt.mode.isSome

def WellShaped : Prop :=
  match receipt.state with
  | .pending | .decisionStarted =>
    receipt.isChosen = false ∧ receipt.taskId = none ∧ receipt.refusalCode = none
  | .chosen => receipt.isChosen = true ∧ receipt.taskId = none ∧ receipt.refusalCode = none
  | .admitted => receipt.isChosen = true ∧ receipt.taskId.isSome = true ∧ receipt.refusalCode = none
  | .refused => receipt.refusalCode.isSome = true ∧ receipt.taskId = none

instance (receipt : AutoAdmissionReceipt) : Decidable receipt.WellShaped := by
  unfold WellShaped
  split <;> infer_instance

/-- What `validate` asks of a receipt. -/
def Valid (codec : MetadataCodec) (receipt : AutoAdmissionReceipt) : Prop :=
  (receipt.metadataVersion = 1 ∨ receipt.metadataVersion = 2) ∧
    validAtom receipt.owner 256 = true ∧ validAtom receipt.requestId 256 = true ∧
    receipt.canonical ≠ [] ∧ receipt.canonical.length ≤ maxAutoAdmissionCanonicalBytes ∧
    receipt.metadata ≠ [] ∧ receipt.metadata.length ≤ metadataLimit receipt.metadataVersion ∧
    codec.isObject receipt.metadata = true ∧
    0 ≤ receipt.coordinatorEpoch ∧ 0 ≤ receipt.revision ∧ 0 < receipt.policyRevision ∧
    validDigest receipt.policyDigest = true ∧
    0 ≤ receipt.createdAt ∧ receipt.createdAt ≤ receipt.updatedAt ∧
    (∀ value ∈ receipt.candidateId, receipt.validCandidateId value = true) ∧
    (∀ value ∈ receipt.delegateCanonical,
      value ≠ [] ∧ value.length ≤ maxAutoAdmissionCanonicalBytes) ∧
    (∀ value ∈ receipt.reason, isAutoAdmissionReason value = true) ∧
    (∀ value ∈ receipt.taskId, validAtom value 256 = true) ∧
    (∀ value ∈ receipt.refusalCode, validAtom value 128 = true) ∧ receipt.WellShaped

instance (codec : MetadataCodec) (receipt : AutoAdmissionReceipt) :
    Decidable (receipt.Valid codec) := by
  unfold Valid
  infer_instance

def validate (codec : MetadataCodec) (receipt : AutoAdmissionReceipt) : Result Unit :=
  ensure (receipt.Valid codec) "auto_admission_invalid"

def decisionLevel (codec : MetadataCodec) (receipt : AutoAdmissionReceipt) :
    Result AutoAdmissionDecisionLevel := do
  ensure (receipt.metadataVersion = 2) "auto_admission_level_unsupported"
  orError (codec.decisionLevel receipt.metadata) "auto_admission_invalid"

def advanced (receipt : AutoAdmissionReceipt) (now : Int) : Result AutoAdmissionReceipt := do
  let revision ← orError (checkedAdd receipt.revision 1) "auto_admission_invalid"
  pure { receipt with revision, updatedAt := max now receipt.createdAt }

end AutoAdmissionReceipt

namespace DelegationStore

/-! ## Counting -/

variable (s : DelegationStore)

def retainedKeys : Finset AdmissionKey :=
  (s.tasks.rows.map DelegationRow.key).toFinset ∪
    (s.receipts.rows.map key).toFinset

def activeKeys : Finset AdmissionKey :=
  ((s.tasks.select (·.payload.holdsSlot)).map DelegationRow.key).toFinset ∪
    ((s.receipts.select (·.state.holdsSlot)).map key).toFinset

def tombstoned (key : AdmissionKey) : Bool :=
  s.tombstones.rows.any fun row => (row.owner, row.requestId) = key

def taskWithKey (key : AdmissionKey) : Bool := s.tasks.rows.any fun row => row.key = key

def nativeAdmissionKeyReserved (key : AdmissionKey) : Bool :=
  s.taskWithKey key || s.refusals.rows.any fun row => (row.owner, row.requestId) = key

def receipt? (key : AdmissionKey) : Option AutoAdmissionReceipt := s.receipts.find? (·.key = key)

/-! ## Giving up refused receipts -/

def purgeable (s : DelegationStore) (receipt : AutoAdmissionReceipt) : Bool :=
  receipt.state = .refused && receipt.taskId.isNone && !s.taskWithKey receipt.key

def refusalOrder (a b : AutoAdmissionReceipt) : Prop :=
  a.updatedAt < b.updatedAt ∨ a.updatedAt = b.updatedAt ∧
    (a.owner < b.owner ∨ a.owner = b.owner ∧ a.requestId ≤ b.requestId)
  deriving Decidable

/-- The tombstone is written before the receipt is deleted. -/
def purgeRefusal (now : Int) (s : DelegationStore) (key : AdmissionKey) :
    Result DelegationStore := do
  let tombstones := s.tombstones.insertOrReplace ⟨key.1, key.2, now⟩
  let condition := fun receipt : AutoAdmissionReceipt => receipt.key = key && s.purgeable receipt
  ensure (s.receipts.count condition = 1) "auto_admission_purge_conflict"
  pure { s with tombstones, receipts := s.receipts.delete condition }

variable (s : DelegationStore) (now : Int)

def purgeAutoRefusalsIn (limit : Nat) (olderThan : Option Int) : Result (Nat × DelegationStore) :=
  if limit = 0 then .ok (0, s)
  else do
    ensure ((limit : Int) ≤ i64Max) "auto_admission_invalid"
    let old := s.receipts.select fun receipt =>
      s.purgeable receipt && olderThan.all fun time => receipt.updatedAt < time
    let keys := ((old.insertionSort refusalOrder).take limit).map key
    let s ← keys.foldlM (purgeRefusal now) s
    pure (keys.length, s)

def purgeAutoRefusalsUnderPressure (bound : Nat) : Result (Nat × DelegationStore) := do
  ensure (bound ≠ 0) "auto_admission_invalid"
  let retained := s.retainedKeys.card
  if retained < bound then pure (0, s)
  else s.purgeAutoRefusalsIn now (retained - bound + 1) none

def purgeExpiredAutoAdmissionRefusals (limit : Nat) : Result (Nat × DelegationStore) := do
  ensure (1 ≤ limit ∧ limit ≤ 128) "auto_admission_invalid"
  s.purgeAutoRefusalsIn now limit (some (saturatingSub now (30 * 24 * 3600)))

/-! ## Reserving -/

def insertAutoAdmissionReceiptIn (codec : MetadataCodec) (s : DelegationStore)
    (receipt : AutoAdmissionReceipt) : Result (Bool × DelegationStore) := do
  receipt.validate codec
  ensure (s.tombstoned receipt.key = false) "request_expired"
  ensure (s.nativeAdmissionKeyReserved receipt.key = false) "auto_admission_reserved"
  let (receipts, changed) := s.receipts.insertOrIgnore receipt
  if changed = 1 then pure (true, { s with receipts })
  else do
    let stored ← orError (s.receipt? receipt.key) (.sqlite .noRows)
    ensure (stored.canonical = receipt.canonical) "envelope_mismatch"
    pure (false, s)

/-- Room for one more key: refused receipts give way when the bound is reached. -/
def makeRoom (s : DelegationStore) (now : Int) : Result DelegationStore :=
  if maxRetainedTasks ≤ s.retainedKeys.card then do
    let (_, s) ← s.purgeAutoRefusalsIn now (s.retainedKeys.card - maxRetainedTasks + 1) none
    ensure (s.retainedKeys.card < maxRetainedTasks) "retention_saturated"
    pure s
  else pure s

/-- A replay is answered before any guard. -/
def reserveAutoAdmissionReceipt (codec : MetadataCodec) (s : DelegationStore)
    (receipt : AutoAdmissionReceipt) (now : Int) : Result (Bool × DelegationStore) := do
  receipt.validate codec
  match s.receipt? receipt.key with
  | some stored => do
      ensure (stored.canonical = receipt.canonical) "envelope_mismatch"
      pure (false, s)
  | none => do
      ensure (s.tombstoned receipt.key = false) "request_expired"
      ensure (s.nativeAdmissionKeyReserved receipt.key = false) "auto_admission_reserved"
      ensure (s.activeKeys.card < maxActiveAdmissions ∧
        (s.activeKeys.filter (·.1 = receipt.owner)).card < maxActiveAdmissionsPerOwner)
        "task_limit"
      let s ← s.makeRoom now
      s.insertAutoAdmissionReceiptIn codec receipt

/-! ## Transitions -/

def currentReceipt (s : DelegationStore) (key : AdmissionKey) (canonical : List UInt8) :
    Result AutoAdmissionReceipt := do
  let current ← orError (s.receipt? key) "auto_admission_missing"
  ensure (current.canonical = canonical) "envelope_mismatch"
  pure current

def compareAndSet (s : DelegationStore) (condition : AutoAdmissionReceipt → Bool)
    (change : AutoAdmissionReceipt → AutoAdmissionReceipt) : Result DelegationStore := do
  let (receipts, changed) ← sqlite (s.receipts.update condition change)
  ensure (changed = 1) "admission_pending"
  pure { s with receipts }

abbrev ReceiptResult := Result (AutoAdmissionReceipt × DelegationStore)

variable (codec : MetadataCodec) (s : DelegationStore)

def advanceAutoAdmissionDecisionLevel (receipt : AutoAdmissionReceipt)
    (expectedEpoch expectedRevision : Int) (expectedLevel : AutoAdmissionDecisionLevel)
    (nextMetadata : List UInt8) (now : Int) : ReceiptResult := do
  let current ← s.currentReceipt receipt.key receipt.canonical
  ensure (expectedLevel = .decisionService ∧ current.coordinatorEpoch = expectedEpoch ∧
    current.revision = expectedRevision ∧ current.state = .decisionStarted)
    "admission_pending"
  let level ← current.decisionLevel codec
  ensure (level = expectedLevel) "admission_pending"
  let next ← { current with metadata := nextMetadata }.advanced now
  next.validate codec
  let level ← next.decisionLevel codec
  ensure (level = .lightweightModel) "auto_admission_invalid"
  let s ← s.compareAndSet
    (fun row => row.key = next.key && row.coordinatorEpoch = expectedEpoch &&
      row.revision = expectedRevision && row.state = .decisionStarted)
    ({ · with metadata := next.metadata, revision := next.revision, updatedAt := next.updatedAt })
  pure (next, s)

def startAutoDecisionLevel (receipt : AutoAdmissionReceipt)
    (expectedEpoch expectedRevision : Int) (level : AutoAdmissionDecisionLevel) (now : Int) :
    ReceiptResult := do
  let current ← s.currentReceipt receipt.key receipt.canonical
  ensure (current.coordinatorEpoch = expectedEpoch ∧ current.revision = expectedRevision ∧
    current.state = .pending) "admission_pending"
  let currentLevel ← current.decisionLevel codec
  ensure (currentLevel = level) "admission_pending"
  let next ← { current with state := .decisionStarted }.advanced now
  next.validate codec
  let s ← s.compareAndSet
    (fun row => row.key = next.key && row.coordinatorEpoch = expectedEpoch &&
      row.revision = expectedRevision && row.state = .pending)
    ({ · with state := .decisionStarted, revision := next.revision, updatedAt := next.updatedAt })
  pure (next, s)

def chooseAutoAdmission (key : AdmissionKey) (canonical : List UInt8) (candidateId : String)
    (delegateCanonical : List UInt8) (mode : AutoAdmissionMode) (reason : Option String)
    (now : Int) : ReceiptResult := do
  let current ← s.currentReceipt key canonical
  ensure (current.metadataVersion = 1) "auto_admission_level_unsupported"
  ensure (current.state = .pending ∨ current.state = .decisionStarted)
    "auto_admission_already_resolved"
  let next ← { current with
    state := .chosen, candidateId := some candidateId,
    delegateCanonical := some delegateCanonical, mode := some mode, reason,
    refusalCode := none }.advanced now
  next.validate codec
  let s ← s.compareAndSet (fun row => row.key = key && row.revision = next.revision - 1)
    ({ · with
      state := next.state, revision := next.revision, candidateId := next.candidateId,
      delegateCanonical := next.delegateCanonical, mode := next.mode, reason := next.reason,
      refusalCode := none, updatedAt := next.updatedAt })
  pure (next, s)

def chooseAutoAdmissionAt (receipt : AutoAdmissionReceipt) (expectedEpoch expectedRevision : Int)
    (level : AutoAdmissionDecisionLevel) (candidateId : String) (delegateCanonical : List UInt8)
    (mode : AutoAdmissionMode) (reason : Option String) (chosenMetadata : List UInt8)
    (now : Int) : ReceiptResult := do
  let current ← s.currentReceipt receipt.key receipt.canonical
  ensure (current.coordinatorEpoch = expectedEpoch ∧ current.revision = expectedRevision ∧
    current.state = .decisionStarted) "admission_pending"
  let currentLevel ← current.decisionLevel codec
  ensure (currentLevel = level) "admission_pending"
  let next ← { current with
    state := .chosen, candidateId := some candidateId,
    delegateCanonical := some delegateCanonical, mode := some mode, reason,
    metadata := chosenMetadata, refusalCode := none }.advanced now
  next.validate codec
  ensure (next.metadataVersion = 2) "auto_admission_invalid"
  let nextLevel ← next.decisionLevel codec
  ensure (nextLevel = level) "auto_admission_invalid"
  let s ← s.compareAndSet
    (fun row => row.key = next.key && row.coordinatorEpoch = expectedEpoch &&
      row.revision = expectedRevision && row.state = .decisionStarted)
    ({ · with
      state := .chosen, revision := next.revision, candidateId := next.candidateId,
      delegateCanonical := next.delegateCanonical, mode := next.mode, reason := next.reason,
      metadata := next.metadata, refusalCode := none, updatedAt := next.updatedAt })
  pure (next, s)

def startAutoDecision (receipt : AutoAdmissionReceipt) (now : Int) : ReceiptResult := do
  let current ← s.currentReceipt receipt.key receipt.canonical
  ensure (current.metadataVersion = 1) "auto_admission_level_unsupported"
  ensure (current.state = .pending ∧ current.revision = receipt.revision)
    (.code (if current.state = .pending ∨ current.state = .decisionStarted then
      "admission_pending" else "auto_admission_already_resolved"))
  let next ← { current with state := .decisionStarted }.advanced now
  next.validate codec
  let s ← s.compareAndSet (fun row => row.key = next.key && row.revision = next.revision - 1)
    ({ · with state := .decisionStarted, revision := next.revision, updatedAt := next.updatedAt })
  pure (next, s)

def refusalMetadata (current : AutoAdmissionReceipt) (proof : Option String) :
    Result (List UInt8) :=
  whenSome proof current.metadata fun encoded => do
    let updated ← orError (codec.addCapacityRefusal current.metadata encoded)
      "auto_admission_invalid"
    ensure (updated.length ≤ metadataLimit current.metadataVersion)
      "admission_diagnostic_capacity_unavailable"
    pure updated

variable (s : DelegationStore) (receipt : AutoAdmissionReceipt)

/-- A receipt that is refused already is answered as it is. -/
def refuseAutoAdmissionInner (code : String) (proof : Option String) (now : Int) :
    ReceiptResult := do
  let current ← s.currentReceipt receipt.key receipt.canonical
  if current.state = .refused then pure (current, s)
  else do
    ensure ((current.state = .pending ∨ current.state = .decisionStarted ∨
      current.state = .chosen) ∧ current.revision = receipt.revision) "admission_pending"
    let metadata ← refusalMetadata codec current proof
    let next ← { current with state := .refused, refusalCode := some code, metadata }.advanced now
    next.validate codec
    let s ← s.compareAndSet (fun row => row.key = next.key && row.revision = next.revision - 1)
      fun row => { row with
        state := .refused, revision := next.revision, refusalCode := next.refusalCode,
        updatedAt := next.updatedAt,
        metadata := if proof.isSome then next.metadata else row.metadata }
    pure (next, s)

def refuseAutoAdmission (code : String) (now : Int) : ReceiptResult :=
  s.refuseAutoAdmissionInner codec receipt code none now

def refuseAutoAdmissionWithCapacity (proof : String) (now : Int) : ReceiptResult :=
  s.refuseAutoAdmissionInner codec receipt "resource_saturated" (some proof) now

def admitAutoTask (env : TaskEnvironment) (codec : MetadataCodec) (s : DelegationStore)
    (receipt : AutoAdmissionReceipt) (task : Task) (requestId : String)
    (delegateCanonical : List UInt8) (now clock : Int) (fresh : String) :
    Result DelegationStore := do
  ensure (task.owner = receipt.owner) "native_owner_identity_mismatch"
  let current ← s.currentReceipt receipt.key receipt.canonical
  ensure (current.state = .chosen ∧ current.revision = receipt.revision ∧
    current.delegateCanonical = some delegateCanonical) "admission_pending"
  let (stored, s) ← s.insertProjectedIn env task requestId delegateCanonical clock fresh
  let next ← { current with state := .admitted, taskId := some stored.taskId }.advanced now
  next.validate codec
  s.compareAndSet (fun row => row.key = next.key && row.revision = next.revision - 1)
    ({ · with
      state := .admitted, revision := next.revision, taskId := next.taskId,
      updatedAt := next.updatedAt })

/-! ## Native refusals -/

def recordedRefusals : List String :=
  ["cwd_outside_parent_project", "cwd_unavailable", "model_unavailable", "effort_unavailable",
    "agent_type_unknown"]

/-- Only the closed codes are recorded, and only for a key that nothing else holds. -/
def recordRefusal (s : DelegationStore) (key : AdmissionKey) (canonical : List UInt8)
    (code : String) (now : Int) : Bool × DelegationStore :=
  if code ∉ recordedRefusals then (false, s)
  else if s.taskWithKey key || (s.receipt? key).isSome then (false, s)
  else
    let (refusals, inserted) := s.refusals.insertOrIgnore ⟨key.1, key.2, canonical, code, now⟩
    (inserted != 0, { s with refusals })

def purgeExpiredRefusals (s : DelegationStore) (now : Int) : DelegationStore :=
  { s with refusals :=
      s.refusals.delete fun row => row.refusedAt < saturatingSub now (30 * 24 * 3600) }

end DelegationStore

end Bridget.Delegation
