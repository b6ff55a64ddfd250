import Bridget.Foundation.Durable
import Bridget.Foundation.Lines
import Bridget.Foundation.Numerals
import Bridget.Foundation.Run

/-!
# Receipts of deliveries

A wrapper marks a delivery as seen before it injects it, and as acknowledged when the prompt
was dispatched, so that a delivery that is repeated is not injected again. The receipts are
files of a directory; two more files hold the latest expiry and, in a quarantine, its end.
A crash may come between any two writes.
-/

namespace Bridget.Receipts

open Foundation

/-- The limits of one instance. -/
structure ReceiptQuota where
  (maxEntries maxBytes : Nat)
  horizonMaxSecs : Int

def ReceiptQuota.standard : ReceiptQuota := ⟨4096, 16 * 1024 * 1024, 7 * 24 * 60 * 60⟩

inductive ReceiptDecision where
  | inject | acked | indeterminate | rejectedQuota

inductive ReceiptError where
  | invalidDeliveryId
  | invalidExpiry
  | io (reason : String)

/-! ## Texts -/

inductive ReceiptEntry where
  | seen (expiresAt : Int)
  | acked (expiresAt : Int)
  deriving DecidableEq

namespace ReceiptEntry

def expiresAt : ReceiptEntry → Int
  | seen expiresAt => expiresAt
  | acked expiresAt => expiresAt

def serialize : ReceiptEntry → Bytes
  | seen expiresAt => utf8 ("seen\n" ++ toString expiresAt ++ "\n")
  | acked expiresAt => utf8 ("acked\n" ++ toString expiresAt ++ "\n")

end ReceiptEntry

/-- Two lines: the state and the expiry. -/
def parseEntry (bytes : Bytes) : Option ReceiptEntry := do
  let text ← fromUtf8 bytes
  match lines '\n' '\r' text with
  | [state, expiry] => do
      let expiresAt ← parseI64 expiry
      if state = "seen".toList then some (.seen expiresAt)
      else if state = "acked".toList then some (.acked expiresAt)
      else none
  | _ => none

def parseTimestamp (bytes : Bytes) : Option Int := do
  let text ← fromUtf8 bytes
  parseI64 (trim text)

def timestamp (value : Int) : Bytes := utf8 (toString value)

def maxDeliveryIdLen : Nat := 128

def isTokenByte (byte : UInt8) : Bool :=
  (0x30 ≤ byte && byte ≤ 0x39) || (0x41 ≤ byte && byte ≤ 0x5a) || (0x61 ≤ byte && byte ≤ 0x7a) ||
    byte = 0x2d || byte = 0x5f

def validateToken (value : String) : Bool :=
  utf8 value ≠ [] && (utf8 value).length ≤ maxDeliveryIdLen && (utf8 value).all isTokenByte

/-! ## The disk -/

/-- The enrolment of the instance, and its directory once it exists. -/
structure ReceiptDisk where
  enrollment : Option Bytes
  directory : Option (AList fun _ : String => Bytes)

def maxExpiresPath : String := "max_expires_at"

def quarantinePath : String := "quarantine_until"

def entryPath (deliveryId : String) : String := "receipt-" ++ deliveryId

def isMarker (name : String) : Bool := name = quarantinePath || name = maxExpiresPath

namespace ReceiptDisk

variable (d : ReceiptDisk)

def empty : ReceiptDisk := ⟨none, none⟩

variable (name : String)

def file : Option Bytes := d.directory.bind fun files => files.lookup name

def put (bytes : Bytes) : ReceiptDisk :=
  { d with directory := some ((d.directory.getD ∅).insert name bytes) }

def remove : ReceiptDisk := { d with directory := d.directory.map fun files => files.erase name }

def createDirectory : ReceiptDisk := { d with directory := some (d.directory.getD ∅) }

/-- What `read_dir` finds besides the markers. -/
def receipts : List (String × Bytes) :=
  ((d.directory.getD ∅).entries.map fun stored => (stored.1, stored.2)).filter fun stored =>
    !isMarker stored.1

def readMaxExpiresAt : Except ReceiptError Int :=
  match d.file maxExpiresPath with
  | none => .error (.io "sentinel max_expires_at absent")
  | some bytes =>
    match parseTimestamp bytes with
    | some expiresAt => .ok expiresAt
    | none => .error (.io "horizon corrompu")

def directoryIsHealthy : Bool := d.directory.isSome && d.readMaxExpiresAt.toBool

def isQuarantined (now : Int) : Bool :=
  match d.file quarantinePath with
  | none => false
  | some bytes => (parseTimestamp bytes).all fun endsAt => now < endsAt

/-- The end of a quarantine that begins now. -/
def quarantineUntil (quota : ReceiptQuota) (expiresAt now : Int) : Int :=
  max (max (d.readMaxExpiresAt.toOption.getD 0) expiresAt) (saturatingAdd now quota.horizonMaxSecs)

def wouldExceedQuota (quota : ReceiptQuota) (nextEntryBytes : Nat) : Bool :=
  let bytes := d.receipts.foldl (fun sum stored => min u64Max (sum + stored.2.length)) 0
  quota.maxEntries ≤ d.receipts.length || quota.maxBytes < min u64Max (bytes + nextEntryBytes)

end ReceiptDisk

/-! ## The calls -/

abbrev Call := Durable ReceiptDisk Unit ReceiptError

def writeFile (name : String) (bytes : Bytes) : Call Unit :=
  .write fun d => .ok ((), d.put name bytes)

def removeFile (name : String) : Call Unit := .write fun d => .ok ((), d.remove name)

def createPrivateDir : Call Unit := .write fun d => .ok ((), d.createDirectory)

def writeEnrollment : Call Unit :=
  .write fun d => .ok ((), { d with enrollment := some (utf8 "v1\n") })

def quarantine (quota : ReceiptQuota) (expiresAt now : Int) : Call Unit :=
  .write fun d => .ok ((), d.put quarantinePath (timestamp (d.quarantineUntil quota expiresAt now)))

def quarantinePermanently : Call Unit := writeFile quarantinePath (timestamp i64Max)

/-- The sentinel is read and written back with the later expiry. -/
def raiseMaxExpiresAt (expiresAt : Int) : Call Unit :=
  .write fun d => do
    let latest ← d.readMaxExpiresAt
    return ((), d.put maxExpiresPath (timestamp (max latest expiresAt)))

inductive Enrollment where
  | missing | valid | corrupt

def readEnrollment : Option Bytes → Enrollment
  | none => .missing
  | some bytes => if bytes = utf8 "v1\n" then .valid else .corrupt

/-- `open`, once the lock of the instance is held. -/
def openStore : Call Unit := do
  let found ← .inspect fun d _ => .ok (readEnrollment d.enrollment, d.directory.isSome,
    d.readMaxExpiresAt.toBool)
  match found with
  | (.missing, false, _) => do
      writeEnrollment
      createPrivateDir
      writeFile maxExpiresPath (timestamp 0)
  | (.valid, true, true) => pure ()
  | (.valid, true, false) => quarantinePermanently
  | (.missing, true, _) => do
      writeEnrollment
      createPrivateDir
      quarantinePermanently
  | _ => do
      createPrivateDir
      quarantinePermanently

inductive Lookup where
  | closed
  | absent
  | damaged
  | present (entry : ReceiptEntry)
  deriving DecidableEq

def ReceiptDisk.find (d : ReceiptDisk) (deliveryId : String) (now : Int) : Lookup :=
  if d.directoryIsHealthy = false ∨ d.isQuarantined now = true then .closed
  else
    match d.file (entryPath deliveryId) with
    | none => .absent
    | some bytes => (parseEntry bytes).elim .damaged .present

def receive (quota : ReceiptQuota) (deliveryId : String) (expiresAt now : Int) :
    Call ReceiptDecision := do
  .inspect fun _ _ => ensure (validateToken deliveryId = true) .invalidDeliveryId
  .inspect fun _ _ => ensure (now < expiresAt) .invalidExpiry
  let found ← .inspect fun d _ => .ok (d.find deliveryId now,
    d.wouldExceedQuota quota (ReceiptEntry.acked expiresAt).serialize.length)
  match found with
  | (.closed, _) => pure .indeterminate
  | (.present (.acked _), _) => pure .acked
  | (.present (.seen _), _) => pure .indeterminate
  | (.damaged, _) => do
      quarantine quota expiresAt now
      pure .indeterminate
  | (.absent, true) => pure .rejectedQuota
  | (.absent, false) => do
      writeFile (entryPath deliveryId) (ReceiptEntry.seen expiresAt).serialize
      raiseMaxExpiresAt expiresAt
      pure .inject

def acknowledge (quota : ReceiptQuota) (deliveryId : String) (now : Int) :
    Call ReceiptDecision := do
  .inspect fun _ _ => ensure (validateToken deliveryId = true) .invalidDeliveryId
  let found ← .inspect fun d _ => .ok (d.find deliveryId now)
  match found with
  | .closed => pure .indeterminate
  | .absent => pure .indeterminate
  | .damaged => do
      quarantine quota (saturatingAdd now quota.horizonMaxSecs) now
      pure .indeterminate
  | .present (.acked _) => pure .acked
  | .present (.seen expiresAt) => do
      writeFile (entryPath deliveryId) (ReceiptEntry.acked expiresAt).serialize
      pure .acked

/-- The loop of `purge_expired` over the names that are left. -/
def purgeEntries (quota : ReceiptQuota) (now : Int) : List String → Nat → Int → Call Nat
  | [], removed, maxExpiresAt => do
      writeFile maxExpiresPath (timestamp maxExpiresAt)
      pure removed
  | name :: rest, removed, maxExpiresAt =>
    if isMarker name then purgeEntries quota now rest removed maxExpiresAt
    else do
      let receipt ← .inspect fun d _ => .ok ((d.file name).bind parseEntry)
      match receipt with
      | none => do
          quarantine quota (saturatingAdd now quota.horizonMaxSecs) now
          pure removed
      | some receipt =>
        if receipt.expiresAt ≤ now then do
          removeFile name
          purgeEntries quota now rest (removed + 1) maxExpiresAt
        else purgeEntries quota now rest removed (max maxExpiresAt receipt.expiresAt)

/-- `purge_expired`, where `listing` is the order in which `read_dir` finds the files. -/
def purgeExpired (quota : ReceiptQuota) (listing : List String) (now : Int) : Call Nat := do
  let healthy ← .inspect fun d _ => .ok d.directoryIsHealthy
  if healthy then purgeEntries quota now listing 0 0 else pure 0

/-! ## Runs -/

inductive ReceiptCall where
  | open
  | receive (deliveryId : String) (expiresAt now : Int)
  | acknowledge (deliveryId : String) (now : Int)
  | purgeExpired (listing : List String) (now : Int)

namespace ReceiptCall

def isOpen : ReceiptCall → Bool
  | .open => true
  | _ => false

def now : ReceiptCall → Option Int
  | .open => none
  | .receive _ _ now | .acknowledge _ now | .purgeExpired _ now => some now

def run (quota : ReceiptQuota) : ReceiptCall → Call (Option ReceiptDecision)
  | .open => do
      openStore
      pure none
  | .receive deliveryId expiresAt now => do
      let decision ← Receipts.receive quota deliveryId expiresAt now
      pure (some decision)
  | .acknowledge deliveryId now => do
      let decision ← Receipts.acknowledge quota deliveryId now
      pure (some decision)
  | .purgeExpired listing now => do
      let _ ← Receipts.purgeExpired quota listing now
      pure none

end ReceiptCall

/-- The disk, whether a handle is open, the time of the last call, and what calls have told. -/
structure ReceiptState where
  disk : ReceiptDisk
  opened : Bool
  clock : Int
  (injected confirmed acknowledged : List String)

inductive ReceiptEvent where
  | call (request : ReceiptCall)
  /-- The process dies in a call, after some of its writes. -/
  | crash (request : ReceiptCall) (writes : Nat)
  | close

def ReceiptState.start (disk : ReceiptDisk) (clock : Int) : ReceiptState :=
  ⟨disk, false, clock, [], [], []⟩

/-- The receipt of a delivery says that it is acknowledged. -/
def ReceiptDisk.hasAcked (d : ReceiptDisk) (deliveryId : String) : Bool :=
  match (d.file (entryPath deliveryId)).bind parseEntry with
  | some (.acked _) => true
  | _ => false

/-- What the caller learns from a call that returns. -/
def ReceiptState.told (s : ReceiptState) :
    ReceiptCall → Except ReceiptError (Option ReceiptDecision) → ReceiptState
  | .receive deliveryId _ _, .ok (some .inject) => { s with injected := s.injected ++ [deliveryId] }
  | .receive deliveryId _ _, .ok (some .acked) =>
    { s with confirmed := s.confirmed ++ [deliveryId] }
  | _, _ => s

/-- A call that was made to acknowledge a delivery, and left its receipt so. -/
def ReceiptState.persisted (s : ReceiptState) : ReceiptCall → ReceiptState
  | .acknowledge deliveryId _ =>
    if s.disk.hasAcked deliveryId then
      { s with acknowledged := s.acknowledged ++ [deliveryId] }
    else s
  | _ => s

/-- One event. While a handle is open no other is given out, and without one there is nothing
to call. -/
def ReceiptState.step (quota : ReceiptQuota) (s : ReceiptState) : ReceiptEvent → ReceiptState
  | .close => { s with opened := false }
  | .call request =>
    if s.opened = request.isOpen then s
    else
      let outcome := request.run quota s.disk ()
      ({ s with
        disk := outcome.disk
        opened := s.opened || outcome.result.toBool
        clock := request.now.getD s.clock }.persisted request).told request outcome.result
  | .crash request writes =>
    if s.opened = request.isOpen then s
    else
      { s with
        disk := (request.run quota).diskAfter writes s.disk ()
        opened := false
        clock := request.now.getD s.clock }.persisted request

def IsI64 (value : Int) : Prop := i64Min ≤ value ∧ value ≤ i64Max
  deriving Decidable

/-- The clock does not go back. -/
def ReceiptCall.Timely (s : ReceiptState) (request : ReceiptCall) : Prop :=
  ∀ now ∈ request.now, IsI64 now ∧ s.clock ≤ now
  deriving Decidable

/-- A directory is listed as it is. -/
def ReceiptCall.Fitting (s : ReceiptState) : ReceiptCall → Prop
  | .receive _ expiresAt _ => IsI64 expiresAt
  | .purgeExpired listing _ => listing.Perm (s.disk.directory.getD ∅).keys
  | _ => True

instance (s : ReceiptState) (request : ReceiptCall) : Decidable (request.Fitting s) :=
  match request with
  | .open | .acknowledge .. => .isTrue trivial
  | .receive _ expiresAt _ => inferInstanceAs (Decidable (IsI64 expiresAt))
  | .purgeExpired listing _ =>
    inferInstanceAs (Decidable (listing.Perm (s.disk.directory.getD ∅).keys))

/-- What a caller and the system can ask for. -/
def ReceiptCall.Possible (s : ReceiptState) (request : ReceiptCall) : Prop :=
  request.Timely s ∧ request.Fitting s
  deriving Decidable

def ReceiptEvent.Possible (s : ReceiptState) : ReceiptEvent → Prop
  | .call request | .crash request _ => request.Possible s
  | .close => True

instance (s : ReceiptState) (event : ReceiptEvent) : Decidable (event.Possible s) :=
  match event with
  | .call request | .crash request _ => inferInstanceAs (Decidable (request.Possible s))
  | .close => .isTrue trivial

end Bridget.Receipts
