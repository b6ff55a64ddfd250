import Bridget.Foundation.Fallible
import Bridget.Foundation.Table

/-!
# The store of discussion threads

Threads, their members and entries, the receipts of reads and the alerts of members, in the
tables of one database. Every operation is one transaction: a refusal and an error leave no
mark. The JSON text of a result is kept as the value that it was written from, and the length of
the text of an entry is a parameter.
-/

namespace Bridget.Threads

open Foundation

/-! ## Rows -/

structure ThreadLimits where
  (maxThreads maxOpenPerCreator maxEntriesPerThread maxBodyBytesPerThread maxBodyBytesTotal : Nat)

def maxMembers : Nat := 16

inductive NotifySpec where
  | none
  | targets (wanted : List String)
  | all

inductive NotifyMode where
  | none | targets | all
  deriving DecidableEq

def NotifySpec.mode : NotifySpec → NotifyMode
  | .none => .none
  | .targets _ => .targets
  | .all => .all

structure Notify where
  mode : NotifyMode
  targets : List String
  deriving DecidableEq

inductive ThreadEntryKind where
  | history | action | blocker | decision
  deriving DecidableEq

inductive ThreadRefusal where
  | envelopeMismatch
  | threadUnavailable
  | threadClosed
  | creatorRequired
  | audienceChanged
  | notAMember (unknown : List String)
  | invalidReplyReference
  | invalidSupersession
  | capacityExceeded (what : String)
  | receiptInvalid
  | receiptObsolete
  | cursorConflict
  deriving DecidableEq

inductive StoreError where
  | sqlite (error : SqlError)
  | invariant (text : String)
  deriving DecidableEq

abbrev Result := Except StoreError

structure ThreadRow where
  (threadId creatorId title : String)
  createdAt : Int
  closedAt : Option Int
  (lastSeq bodyBytes : Nat)
  deriving DecidableEq

instance : UniqueKeys ThreadRow where
  conflicts a b := a.threadId = b.threadId

structure MemberRow where
  (threadId agentId : String)
  ackedSeq : Nat
  lastAckReceipt : Option String
  lastAckThroughSeq : Option Nat
  deriving DecidableEq

def MemberRow.key (m : MemberRow) : String × String := (m.threadId, m.agentId)

instance : UniqueKeys MemberRow where
  conflicts a b := a.key = b.key

structure EntryRow where
  threadId : String
  seq : Nat
  (messageId authorId body : String)
  createdAt : Int
  notify : Notify
  replyToSeq : Option Nat
  kind : Option ThreadEntryKind
  supersedesSeq : Option Nat

instance : UniqueKeys EntryRow where
  conflicts a b := a.threadId = b.threadId ∧ a.seq = b.seq ∨ a.messageId = b.messageId ∨
    a.threadId = b.threadId ∧ a.supersedesSeq.isSome ∧ a.supersedesSeq = b.supersedesSeq

/-- The receipt of a read, which may be confirmed once. -/
structure ReadRow where
  (threadId agentId receiptId : String)
  (baseSeq throughSeq snapshotSeq : Nat)
  expiresAt : Int
  requestedLimit : Nat

def ReadRow.key (r : ReadRow) : String × String := (r.threadId, r.agentId)

instance : UniqueKeys ReadRow where
  conflicts a b := a.key = b.key ∨ a.receiptId = b.receiptId

inductive WakeState where
  | none | pending | inFlight | dispatched | refused | outcomeUnknown | satisfiedByRead | cancelled
  deriving DecidableEq

structure WakeRow where
  (threadId agentId : String)
  pendingSeq : Nat := 0
  generation : Nat := 0
  activeThroughSeq : Option Nat := none
  deliveryId : Option String := none
  deliveryKey : Option String := none
  recipientInstanceId : Option String := none
  deliveryGeneration : Option Nat := none
  issuedAt : Option Int := none
  expiresAt : Option Int := none
  state : WakeState
  reason : Option String := none
  dispatchedSeq : Nat := 0
  lastAttemptAt : Option Int := none
  lastUncertainGeneration : Option Nat := none
  lastUncertainSeq : Option Nat := none
  deriving DecidableEq

def WakeRow.key (w : WakeRow) : String × String := (w.threadId, w.agentId)

instance : UniqueKeys WakeRow where
  conflicts a b := a.key = b.key ∨ a.deliveryId.isSome ∧ a.deliveryId = b.deliveryId

/-! ## Requests and results -/

/-- What a deposit says of the alert of one target; an agent that sleeps has no state. -/
structure WakeNotice where
  agentId : String
  state : Option WakeState
  reason : Option String
  deriving DecidableEq

inductive ThreadResult where
  | created (threadId title creatorId : String) (members : List String) (createdAt : Int)
      (projectWarnings : List String)
  | membersAdded (threadId : String) (members added projectWarnings : List String)
  | noChange (threadId : String) (members projectWarnings : List String)
  | posted (threadId messageId : String) (seq : Nat) (targets notices : List String)
      (wakes : List WakeNotice) (dormantRecipients projectWarnings : List String)
  | closed (threadId : String) (closedAt : Int)
  deriving DecidableEq

inductive OperationAction where
  | create | post | close | addMembers

structure OperationRow where
  (actorId operationId : String)
  action : OperationAction
  (threadId canonicalHash : String)
  result : ThreadResult
  createdAt : Int

instance : UniqueKeys OperationRow where
  conflicts a b := a.actorId = b.actorId ∧ a.operationId = b.operationId

inductive ThreadTxOutcome where
  | done (result : ThreadResult)
  | replayed (result : ThreadResult)
  | noChange (result : ThreadResult)
  | refused (refusal : ThreadRefusal)
  deriving DecidableEq

structure CreateThread where
  (actor operationId canonicalHash threadId title : String)
  (members projectWarnings : List String)
  now : Int
  limits : ThreadLimits

structure AddMembers where
  (actor operationId canonicalHash threadId : String)
  (candidates expectedMembers projectWarnings : List String)
  now : Int

structure PostEntry where
  (actor operationId canonicalHash threadId messageId body : String)
  notify : NotifySpec
  (notices projectWarnings : List String)
  replyToSeq : Option Nat
  ackReceipt : Option String
  kind : Option ThreadEntryKind
  supersedesSeq : Option Nat
  now : Int
  limits : ThreadLimits

structure CloseThread where
  (actor operationId canonicalHash threadId : String)
  now : Int

def u32Max : Nat := 2 ^ 32 - 1

def usizeMax : Nat := 2 ^ 64 - 1

structure ReadRequest where
  (actor threadId : String)
  limit : Nat
  limit_le : limit ≤ u32Max
  byteBudget : Nat
  byteBudget_le : byteBudget ≤ usizeMax
  receiptId : String
  (receiptTtlSecs now : Int)

inductive Presentation where
  | supersededReference | historyReference
  deriving DecidableEq

/-- An entry as a page shows it; a reference has no body but says where it stands. -/
structure PageEntry where
  seq : Nat
  (messageId authorId : String)
  createdAt : Int
  body : Option String
  notify : Notify
  replyToSeq : Option Nat
  kind : Option ThreadEntryKind
  (supersedesSeq supersededBySeq : Option Nat)
  presentation : Option Presentation
  historyRef : Option (String × Nat × Nat)
  deriving DecidableEq

structure Page where
  entries : List PageEntry
  (baseSeq throughSeq snapshotSeq : Nat)
  hasMore : Bool
  deriving DecidableEq

inductive ReadOutcome where
  | page (page : Page) (receipt : Option String) (expiresAt : Option Int) (requestedLimit : Nat)
      (replayed : Bool)
  | refused (refusal : ThreadRefusal)
  deriving DecidableEq

inductive AckApplied where
  | acknowledged (through : Nat)
  | already (acked : Nat)
  | refused (refusal : ThreadRefusal)

inductive AckOutcome where
  | acknowledged (ackedSeq : Nat) (wake : Option WakeRow)
  | alreadyAcknowledged (ackedSeq : Nat) (wake : Option WakeRow)
  | refused (refusal : ThreadRefusal)
  deriving DecidableEq

/-! ## The tables -/

/-- The tables of the threads. -/
structure ThreadStore where
  threads : Table ThreadRow
  members : Table MemberRow
  entries : Table EntryRow
  operations : Table OperationRow
  reads : Table ReadRow
  wakes : Table WakeRow

def ThreadStore.init : ThreadStore := ⟨.empty, .empty, .empty, .empty, .empty, .empty⟩

/-- The error of a statement ends the transaction. -/
def sqlite {α : Type} (x : Except SqlError α) : Result α := x.mapError .sqlite

@[simp] theorem sqlite_eq_ok {α : Type} {x : Except SqlError α} {a : α} :
    sqlite x = .ok a ↔ x = .ok a := mapError_eq_ok

namespace ThreadStore

variable (s : ThreadStore)

def loadThread (threadId : String) : Option ThreadRow :=
  s.threads.find? fun t => t.threadId = threadId

def loadMember (threadId agentId : String) : Option MemberRow :=
  s.members.find? fun m => m.key = (threadId, agentId)

/-- A thread that does not exist and one that the actor is no member of are refused alike. -/
def loadThreadForMember (threadId actor : String) : Except ThreadRefusal (ThreadRow × MemberRow) :=
  match s.loadThread threadId, s.loadMember threadId actor with
  | some thread, some member => .ok (thread, member)
  | _, _ => .error .threadUnavailable

def loadMembers (threadId : String) : List String :=
  ((s.members.select fun m => m.threadId = threadId).map MemberRow.agentId).insertionSort (· ≤ ·)

def loadWake (threadId agentId : String) : Option WakeRow :=
  s.wakes.find? fun w => w.key = (threadId, agentId)

def loadRead (threadId agentId : String) : Option ReadRow :=
  s.reads.find? fun r => r.key = (threadId, agentId)

/-- The outcome that a known operation has already, or the refusal of another envelope. -/
def lookupOperation (actor operationId canonicalHash : String) : Option ThreadTxOutcome :=
  (s.operations.find? fun o => o.actorId = actor ∧ o.operationId = operationId).map fun o =>
    if o.canonicalHash = canonicalHash then .replayed o.result else .refused .envelopeMismatch

def recordOperation (row : OperationRow) : Result ThreadStore := do
  let operations ← sqlite (s.operations.insert row)
  return { s with operations }

/-! ## Pages -/

/-- The entry that replaces another one, as far as the snapshot knows. -/
def successor (threadId : String) (seq snapshot : Nat) : Option Nat :=
  (s.entries.find? fun e => e.threadId = threadId ∧ e.supersedesSeq = some seq ∧
    e.seq ≤ snapshot).map EntryRow.seq

/-- An entry is shown in full, unless the reading is compact and it is history or replaced. -/
def pageEntry (compact : Bool) (snapshot : Nat) (e : EntryRow) : PageEntry :=
  let successor := s.successor e.threadId e.seq snapshot
  let reference := compact && (e.kind = some .history || successor.isSome)
  { e with
    body := if reference then none else some e.body
    supersededBySeq := successor
    presentation :=
      if reference then
        some (if successor.isSome then .supersededReference else .historyReference)
      else none
    historyRef := if reference then some (e.threadId, e.seq, e.seq) else none }

/-- Entries are taken while they fit; the first one is taken in any case. -/
def takeBudget (size : PageEntry → Nat) (byteBudget : Nat) : Nat → List PageEntry → List PageEntry
  | _, [] => []
  | used, entry :: rest =>
    if used ≠ 0 ∧ byteBudget < used + (size entry + 1) then []
    else entry :: takeBudget size byteBudget (used + (size entry + 1)) rest

variable (size : PageEntry → Nat)

def readRangeOrdered (threadId : String) (fromSeq toSeq limit : Nat)
    (byteBudget : Nat) (projectionSnapshot recentSnapshot : Option Nat) : List PageEntry :=
  if toSeq < fromSeq ∨ limit = 0 then []
  else
    let rows := s.entries.select fun e => e.threadId = threadId ∧ fromSeq ≤ e.seq ∧ e.seq ≤ toSeq
    let ordered :=
      if recentSnapshot.isSome then rows.insertionSort fun a b => b.seq ≤ a.seq
      else rows.insertionSort fun a b => a.seq ≤ b.seq
    let snapshot := (recentSnapshot.or projectionSnapshot).getD toSeq
    takeBudget size byteBudget 0
      ((ordered.take limit).map (s.pageEntry projectionSnapshot.isSome snapshot))

def readRange (threadId : String) (fromSeq toSeq limit : Nat)
    (byteBudget : Nat) (projectionSnapshot : Option Nat) : List PageEntry :=
  s.readRangeOrdered size threadId fromSeq toSeq limit byteBudget projectionSnapshot none

/-! ## Confirmation -/

/-- The alert that a confirmed read satisfies, unless its delivery is frozen. -/
def satisfyWake (threadId agentId : String) (through : Nat) : Result ThreadStore := do
  let (wakes, _) ← sqlite (s.wakes.update
    (fun w => w.key = (threadId, agentId) ∧ w.pendingSeq ≤ through ∧ w.activeThroughSeq = none ∧
      w.state ∈ [.pending, .refused, .outcomeUnknown, .dispatched])
    (fun w => { w with state := .satisfiedByRead, reason := none }))
  return { s with wakes }

def applyAck (threadId : String) (member : MemberRow) (receipt : String) :
    Result (AckApplied × ThreadStore) := do
  if member.lastAckReceipt = some receipt then return (.already member.ackedSeq, s)
  else
    match s.loadRead threadId member.agentId with
    | none => return (.refused .receiptInvalid, s)
    | some active =>
      if active.receiptId ≠ receipt then return (.refused .receiptObsolete, s)
      else if active.baseSeq ≠ member.ackedSeq then return (.refused .cursorConflict, s)
      else
        let through := active.throughSeq
        let (members, _) ← sqlite (s.members.update
          (fun m => m.key = (threadId, member.agentId))
          (fun m => { m with ackedSeq := through, lastAckReceipt := some receipt
                             lastAckThroughSeq := some through }))
        let reads := s.reads.delete fun r => r.key = (threadId, member.agentId)
        let s ← { s with members, reads }.satisfyWake threadId member.agentId through
        return (.acknowledged through, s)

/-- The confirmation that is joined to a deposit. -/
def joinAck (threadId : String) (member : MemberRow) (receipt : Option String) :
    Result (Except ThreadRefusal ThreadStore) :=
  match receipt with
  | none => return .ok s
  | some receipt => do
      match ← s.applyAck threadId member receipt with
      | (.acknowledged _, s) | (.already _, s) => return .ok s
      | (.refused refusal, _) => return .error refusal

end ThreadStore

end Bridget.Threads
