import Bridget.Foundation.Fallible
import Bridget.Foundation.Table
import Bridget.Foundation.Text

/-!
# Idempotency records

The key of an operation, the stored record and what a replay reads from it. A record
goes from `prepared` to `dispatching` to `terminal`; its public result is written with
the terminal state.
-/

namespace Bridget.Idempotency

open Foundation

def minIssuerScopeLen : Nat := 22

def maxIssuerScopeLen : Nat := 128

def maxIdempotencyKeyLen : Nat := 256

def maxCanonicalBytes : Nat := 1024 * 1024

inductive OperationKind where
  | send | spawn
  deriving DecidableEq

structure IdempotencyKey where
  issuerScope : String
  operationKind : OperationKind
  idempotencyKey : String
  deriving DecidableEq

inductive RecordState where
  | prepared | dispatching | terminal
  deriving DecidableEq

inductive IdempotencyError where
  | invalidIssuerScope
  | invalidIdempotencyKey
  | canonicalTooLarge
  | cliWakeRateLimited (retryAfterSecs : Nat)
  | invalidIssuedAt
  | invalidHorizon
  | invalidTransition (current target : RecordState)
  | invalidDelivery
  | heldQueueFull
  | dispatchUnavailable
  | missingRecord
  | invalidSpawnCommand
  | invalidAgentLink
  | agentLinkOwned
  | corruptRecord (detail : String)
  | sqlite (error : SqlError)
  deriving DecidableEq

abbrev Result := Except IdempotencyError

/-- The `?` on a statement: its failure becomes the store's own error. -/
def sql {α : Type} (statement : Except SqlError α) : Result α :=
  statement.mapError .sqlite

@[simp] theorem sql_eq_ok {α : Type} {statement : Except SqlError α} {a : α} :
    sql statement = .ok a ↔ statement = .ok a :=
  mapError_eq_ok

inductive PublicResult where
  | accepted (expiresAt : Int)
  | rejected (category reason : String)
  | orphaned (reason : String)

inductive ResultKind where
  | accepted | rejected | orphaned
  deriving DecidableEq

inductive LookupResult where
  | accepted (expiresAt : Int)
  | rejected (category reason : String) (expiresAt : Int)
  | outcomeUnknown (expiresAt : Int)
  | orphaned (expiresAt : Int) (reason : String)
  | idempotencyExpired
  deriving DecidableEq

inductive Reservation where
  | prepared (expiresAt : Int)
  | replayed (result : LookupResult)
  | envelopeMismatch
  | idempotencyExpired
  deriving DecidableEq

structure ResultColumns where
  kind : Option ResultKind
  (category reason : Option String)
  deriving DecidableEq

def ResultColumns.unset : ResultColumns := ⟨none, none, none⟩

def PublicResult.columns : PublicResult → ResultColumns
  | .accepted _ => ⟨some .accepted, none, none⟩
  | .rejected category reason => ⟨some .rejected, some category, some reason⟩
  | .orphaned reason => ⟨some .orphaned, none, some reason⟩

structure RecordRow where
  key : IdempotencyKey
  canonicalBytes : Bytes
  state : RecordState
  result : ResultColumns
  (issuedAt expiresAt : Int)
  deriving DecidableEq

/-- What a record says about its operation, fixed when it is reserved. -/
structure RecordEnvelope where
  canonicalBytes : Bytes
  (issuedAt expiresAt : Int)

def RecordRow.envelope (r : RecordRow) : RecordEnvelope :=
  ⟨r.canonicalBytes, r.issuedAt, r.expiresAt⟩

instance : UniqueKeys RecordRow where
  conflicts a b := a.key = b.key

theorem pinsKey_record (key : IdempotencyKey) :
    Table.PinsKey fun r : RecordRow => decide (r.key = key) :=
  Table.pinsKey_field fun _ _ => id

def validateIssuerScope (value : String) : Result Unit :=
  ensure (minIssuerScopeLen ≤ value.utf8ByteSize ∧ value.utf8ByteSize ≤ maxIssuerScopeLen ∧
    value.toList.all (fun c => c.isAlphanum || c == '-' || c == '_')) .invalidIssuerScope

def validateIdempotencyKey (value : String) : Result Unit :=
  ensure (value ≠ "" ∧ value.utf8ByteSize ≤ maxIdempotencyKeyLen ∧
    value.toList.all (fun c => decide ('!' ≤ c) && decide (c ≤ '~'))) .invalidIdempotencyKey

def validateCanonicalBytes (value : Bytes) : Result Unit :=
  ensure (value.length ≤ maxCanonicalBytes) .canonicalTooLarge

/-- `IdempotencyKey::new`. -/
def IdempotencyKey.new (issuerScope : String) (operationKind : OperationKind)
    (idempotencyKey : String) : Result IdempotencyKey := do
  validateIssuerScope issuerScope
  validateIdempotencyKey idempotencyKey
  return ⟨issuerScope, operationKind, idempotencyKey⟩

def RecordRow.lookupResult (record : RecordRow) : Result LookupResult :=
  if record.state ≠ .terminal then .ok (.outcomeUnknown record.expiresAt)
  else
    match record.result.kind with
    | some .accepted => .ok (.accepted record.expiresAt)
    | some .rejected => do
        let category ← orError record.result.category (.corruptRecord "catégorie absente")
        let reason ← orError record.result.reason (.corruptRecord "motif absent")
        return .rejected category reason record.expiresAt
    | some .orphaned =>
      .ok (.orphaned record.expiresAt
        (record.result.reason.getD "destinataire purgé — remise orpheline"))
    | none => .error (.corruptRecord "issue terminale absente")

def RecordRow.Published (record : RecordRow) : Prop :=
  record.state = .terminal → ∃ result : PublicResult, record.result = result.columns

theorem RecordRow.Published.lookupResult {record : RecordRow} (h : record.Published) :
    ∃ result, record.lookupResult = .ok result := by
  unfold RecordRow.lookupResult
  split
  · exact ⟨_, rfl⟩
  next hterminal =>
    obtain ⟨result, hresult⟩ := h (not_not.mp hterminal)
    cases result <;> exact ⟨_, by rw [hresult]; rfl⟩

end Bridget.Idempotency
