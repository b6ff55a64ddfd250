import Bridget.Threads.Store

/-!
# The operations on threads

Creating a thread, adding members, depositing an entry, closing, reading and confirming, and the
steps of the alerts that deposits ask for.
-/

namespace Bridget.Threads

open Foundation

namespace ThreadStore

variable (s : ThreadStore)

/-! ## Threads and members -/

def insertMember (threadId agentId : String) : Result ThreadStore := do
  let members ← sqlite (s.members.insert ⟨threadId, agentId, 0, none, none⟩)
  return { s with members }

def threadCreate (request : CreateThread) : Result (ThreadTxOutcome × ThreadStore) :=
  match s.lookupOperation request.actor request.operationId request.canonicalHash with
  | some outcome => return (outcome, s)
  | none =>
    if request.limits.maxThreads ≤ s.threads.count fun _ => true then
      return (.refused (.capacityExceeded "threads"), s)
    else if request.limits.maxOpenPerCreator ≤
        s.threads.count fun t => t.creatorId = request.actor ∧ t.closedAt = none then
      return (.refused (.capacityExceeded "open_threads_per_creator"), s)
    else do
      let threads ← sqlite (s.threads.insert
        ⟨request.threadId, request.actor, request.title, request.now, none, 0, 0⟩)
      let s ← request.members.foldlM (fun s member => s.insertMember request.threadId member)
        { s with threads }
      let result := .created request.threadId request.title request.actor request.members
        request.now request.projectWarnings
      let s ← s.recordOperation ⟨request.actor, request.operationId, .create, request.threadId,
        request.canonicalHash, result, request.now⟩
      return (.done result, s)

/-- `sort` and `dedup`. -/
def sortedUnion (names : List String) : List String :=
  (names.insertionSort (· ≤ ·)).destutter (· ≠ ·)

def threadAddMembers (request : AddMembers) : Result (ThreadTxOutcome × ThreadStore) :=
  match s.lookupOperation request.actor request.operationId request.canonicalHash with
  | some outcome => return (outcome, s)
  | none =>
    match s.loadThreadForMember request.threadId request.actor with
    | .error refusal => return (.refused refusal, s)
    | .ok (thread, _) =>
      if thread.creatorId ≠ request.actor then return (.refused .creatorRequired, s)
      else if thread.closedAt.isSome then return (.refused .threadClosed, s)
      else
        let existing := s.loadMembers request.threadId
        let union := sortedUnion (existing ++ request.candidates)
        if union ≠ request.expectedMembers then return (.refused .audienceChanged, s)
        else if maxMembers < union.length then
          return (.refused (.capacityExceeded "members"), s)
        else
          let added := union.filter (· ∉ existing)
          if added = [] then
            return (.noChange (.noChange request.threadId union request.projectWarnings), s)
          else do
            let s ← added.foldlM (fun s member => s.insertMember request.threadId member) s
            let result := .membersAdded request.threadId union added request.projectWarnings
            let s ← s.recordOperation ⟨request.actor, request.operationId, .addMembers,
              request.threadId, request.canonicalHash, result, request.now⟩
            return (.done result, s)

def threadClose (request : CloseThread) : Result (ThreadTxOutcome × ThreadStore) :=
  match s.lookupOperation request.actor request.operationId request.canonicalHash with
  | some outcome => return (outcome, s)
  | none =>
    match s.loadThreadForMember request.threadId request.actor with
    | .error refusal => return (.refused refusal, s)
    | .ok (thread, _) =>
      if thread.creatorId ≠ request.actor then return (.refused .creatorRequired, s)
      else if thread.closedAt.isSome then return (.refused .threadClosed, s)
      else do
        let (threads, _) ← sqlite (s.threads.update (fun t => t.threadId = request.threadId)
          (fun t => { t with closedAt := some request.now }))
        let (wakes, _) ← sqlite (s.wakes.update
          (fun w => w.threadId = request.threadId ∧ w.activeThroughSeq = none ∧
            w.state ∈ [.pending, .refused])
          (fun w => { w with state := .cancelled, reason := none }))
        let result := .closed request.threadId request.now
        let s ← { s with threads, wakes }.recordOperation ⟨request.actor, request.operationId,
          .close, request.threadId, request.canonicalHash, result, request.now⟩
        return (.done result, s)

/-! ## Deposits -/

/-- The members that a deposit alerts; the author is never one of them. -/
def notifyTargets (members : List String) (actor : String) :
    NotifySpec → Except ThreadRefusal (List String)
  | .none => .ok []
  | .all => .ok (members.filter (· ≠ actor))
  | .targets wanted =>
    let unknown := wanted.filter (· ∉ members)
    if unknown ≠ [] then .error (.notAMember unknown)
    else .ok (sortedUnion (wanted.filter (· ≠ actor)))

variable (request : PostEntry)

/-- A replacement is by the author of an entry that is neither history nor replaced, for the same
targets, and is an action, a blocker or a decision itself. -/
def supersessionValid (thread : ThreadRow) (targets : List String) (supersedes : Nat) : Bool :=
  let seq := min supersedes i64Max.toNat
  match s.entries.find? fun e => e.threadId = request.threadId ∧ e.seq = seq with
  | none => false
  | some prior =>
    let replaced := (s.entries.find? fun e =>
      e.threadId = request.threadId ∧ e.supersedesSeq = some seq).isSome
    0 < supersedes && supersedes ≤ thread.lastSeq && prior.authorId = request.actor &&
      prior.kind ≠ some .history && !replaced && prior.notify.targets = targets &&
      (request.kind = some .action || request.kind = some .blocker ||
        request.kind = some .decision)

/-- The checks of a deposit before its joined confirmation. -/
def postGuard : Except ThreadRefusal (ThreadRow × MemberRow × List String) := do
  let (thread, member) ← s.loadThreadForMember request.threadId request.actor
  ensure (thread.closedAt = none) .threadClosed
  ensure (∀ replyTo ∈ request.replyToSeq, replyTo ≠ 0 ∧ replyTo ≤ thread.lastSeq)
    .invalidReplyReference
  let targets ← notifyTargets (s.loadMembers request.threadId) request.actor request.notify
  ensure (∀ supersedes ∈ request.supersedesSeq,
    s.supersessionValid request thread targets supersedes) .invalidSupersession
  return (thread, member, targets)

def postCapacity (thread : ThreadRow) : Except ThreadRefusal Unit := do
  let bodyLen := request.body.utf8ByteSize
  ensure (thread.lastSeq + 1 ≤ request.limits.maxEntriesPerThread)
    (.capacityExceeded "entries_per_thread")
  ensure (thread.bodyBytes + bodyLen ≤ request.limits.maxBodyBytesPerThread)
    (.capacityExceeded "body_bytes_per_thread")
  ensure ((s.threads.rows.map ThreadRow.bodyBytes).sum + bodyLen ≤ request.limits.maxBodyBytesTotal)
    (.capacityExceeded "body_bytes_total")

def insertEntry (thread : ThreadRow) (targets : List String) : Result ThreadStore := do
  let entries ← sqlite (s.entries.insert
    { threadId := request.threadId
      seq := thread.lastSeq + 1
      messageId := request.messageId
      authorId := request.actor
      body := request.body
      createdAt := request.now
      notify := ⟨request.notify.mode, targets⟩
      replyToSeq := request.replyToSeq
      kind := request.kind
      supersedesSeq := request.supersedesSeq })
  let (threads, _) ← sqlite (s.threads.update (fun t => t.threadId = request.threadId)
    (fun t => { t with lastSeq := thread.lastSeq + 1
                       bodyBytes := t.bodyBytes + request.body.utf8ByteSize }))
  return { s with entries, threads }

/-- The alert of a target is created, or raised; a frozen delivery keeps its state. -/
def raiseWake (threadId agentId : String) (seq : Nat) : Result ThreadStore := do
  match s.loadWake threadId agentId with
  | none =>
    let wakes ← sqlite (s.wakes.insert
      { threadId, agentId, pendingSeq := seq, state := .pending })
    return { s with wakes }
  | some _ =>
    let (wakes, _) ← sqlite (s.wakes.update (fun w => w.key = (threadId, agentId)) fun w =>
      { w with
        pendingSeq := max w.pendingSeq seq
        state := if w.activeThroughSeq.isSome then w.state else .pending
        reason := if w.activeThroughSeq.isSome then w.reason else none })
    return { s with wakes }

def alert (threadId : String) (seq : Nat) (dormant : String → Bool)
    (acc : ThreadStore × List WakeNotice) (target : String) :
    Result (ThreadStore × List WakeNotice) := do
  if dormant target then return (acc.1, acc.2 ++ [⟨target, none, some "agent_dormant"⟩])
  else
    let s ← acc.1.raiseWake threadId target seq
    let wake ← orError (s.loadWake threadId target)
      (.invariant "sollicitation absente après écriture")
    return (s, acc.2 ++ [⟨target, some wake.state, wake.reason⟩])

def depositEntry (request : PostEntry) (thread : ThreadRow) (targets : List String)
    (dormant : String → Bool) : Result (ThreadTxOutcome × ThreadStore) := do
  let seq := thread.lastSeq + 1
  let s ← s.insertEntry request thread targets
  let (s, wakes) ← targets.foldlM (alert request.threadId seq dormant) (s, [])
  let sleeping := targets.filter dormant
  let notices := request.notices ++ if sleeping = [] then [] else ["dormant_members_ignored"]
  let result := .posted request.threadId request.messageId seq targets notices wakes sleeping
    request.projectWarnings
  let s ← s.recordOperation ⟨request.actor, request.operationId, .post, request.threadId,
    request.canonicalHash, result, request.now⟩
  return (.done result, s)

/-- `thread_post`; `dormant` is what the tracking of agents says. -/
def threadPost (request : PostEntry) (dormant : String → Bool) :
    Result (ThreadTxOutcome × ThreadStore) :=
  match s.lookupOperation request.actor request.operationId request.canonicalHash with
  | some outcome => return (outcome, s)
  | none =>
    match s.postGuard request with
    | .error refusal => return (.refused refusal, s)
    | .ok (thread, member, targets) => do
        match ← s.joinAck request.threadId member request.ackReceipt with
        | .error refusal => return (.refused refusal, s)
        | .ok acked =>
          match acked.postCapacity request thread with
          | .error refusal => return (.refused refusal, s)
          | .ok _ => acked.depositEntry request thread targets dormant

/-! ## Reads -/

variable (size : PageEntry → Nat)

/-- A receipt that is still active answers with its own range again. -/
def replayRead (active : ReadRow) : ReadOutcome :=
  .page
    { entries := s.readRange size active.threadId (active.baseSeq + 1) active.throughSeq u32Max
        usizeMax (some active.snapshotSeq)
      baseSeq := active.baseSeq
      throughSeq := active.throughSeq
      snapshotSeq := active.snapshotSeq
      hasMore := active.throughSeq < active.snapshotSeq }
    (some active.receiptId) (some active.expiresAt) (min (max active.requestedLimit 1) u32Max) true

def freshRead (request : ReadRequest) (thread : ThreadRow)
    (member : MemberRow) : Result (ReadOutcome × ThreadStore) :=
  let snapshotSeq := thread.lastSeq
  let baseSeq := member.ackedSeq
  let entries := s.readRange size request.threadId (baseSeq + 1) snapshotSeq request.limit
    request.byteBudget (some snapshotSeq)
  match entries.getLast?.map PageEntry.seq with
  | none => return (.page ⟨entries, baseSeq, baseSeq, snapshotSeq, false⟩ none none request.limit
      false, s)
  | some throughSeq => do
      let expiresAt := saturatingAdd request.now request.receiptTtlSecs
      ensure (baseSeq < throughSeq ∧ throughSeq ≤ snapshotSeq) (.sqlite .constraint)
      let reads := s.reads.insertOrReplace
        { threadId := request.threadId, agentId := request.actor, receiptId := request.receiptId
          baseSeq, throughSeq, snapshotSeq, expiresAt, requestedLimit := request.limit }
      return (.page ⟨entries, baseSeq, throughSeq, snapshotSeq, throughSeq < snapshotSeq⟩
        (some request.receiptId) (some expiresAt) request.limit false, { s with reads })

def threadRead (request : ReadRequest) : Result (ReadOutcome × ThreadStore) :=
  match s.loadThreadForMember request.threadId request.actor with
  | .error refusal => return (.refused refusal, s)
  | .ok (thread, member) =>
    match (s.loadRead request.threadId request.actor).filter fun active =>
        request.now < active.expiresAt with
    | some active => return (s.replayRead size active, s)
    | none => s.freshRead size request thread member

def threadAck (actor threadId receipt : String) : Result (AckOutcome × ThreadStore) :=
  match s.loadThreadForMember threadId actor with
  | .error refusal => return (.refused refusal, s)
  | .ok (_, member) => do
      match ← s.applyAck threadId member receipt with
      | (.acknowledged acked, s) => return (.acknowledged acked (s.loadWake threadId actor), s)
      | (.already acked, s) => return (.alreadyAcknowledged acked (s.loadWake threadId actor), s)
      | (.refused refusal, s) => return (.refused refusal, s)

/-! ## Alerts -/

/-- An alert that may leave: its thread is open, and nothing that was confirmed or injected covers
it. After an unknown outcome only a later entry may be announced. -/
def isWakeCandidate (now : Int) (w : WakeRow) : Bool :=
  match s.loadThread w.threadId, s.loadMember w.threadId w.agentId with
  | some thread, some member =>
    thread.closedAt = none && w.state ∈ [.pending, .refused, .outcomeUnknown, .dispatched] &&
      max member.ackedSeq w.dispatchedSeq < w.pendingSeq &&
      match w.activeThroughSeq with
      | none => true
      | some active => w.state = .outcomeUnknown && w.expiresAt.any (· ≤ now) &&
          active < w.pendingSeq
  | _, _ => false

structure WakeCandidate where
  (threadId agentId : String)
  (pendingSeq generation : Nat)
  deriving DecidableEq

/-- Alerts that were never tried come first, then the one whose try is the longest ago. -/
def triedBefore (a b : WakeRow) : Bool :=
  match a.lastAttemptAt, b.lastAttemptAt with
  | none, _ => true
  | some _, none => false
  | some a, some b => a ≤ b

def threadWakeCandidates (now : Int) (batch : Nat) : List WakeCandidate :=
  (((s.wakes.select (s.isWakeCandidate now)).insertionSort fun a b =>
    triedBefore a b).take batch).map
    fun w => ⟨w.threadId, w.agentId, w.pendingSeq, w.generation⟩

structure WakeReservation where
  (threadId agentId : String)
  (expectedGeneration throughSeq : Nat)
  (deliveryId deliveryKey recipientInstanceId : String)
  deliveryGeneration : Nat
  (issuedAt expiresAt : Int)

/-- What a reservation freezes in the row of its alert. -/
def freezeWake (reservation : WakeReservation) (now : Int) (w : WakeRow) : WakeRow :=
  { w with
    lastUncertainGeneration :=
      if w.state = .outcomeUnknown then some w.generation else w.lastUncertainGeneration
    lastUncertainSeq := if w.state = .outcomeUnknown then w.activeThroughSeq else w.lastUncertainSeq
    generation := w.generation + 1
    activeThroughSeq := some reservation.throughSeq
    deliveryId := some reservation.deliveryId
    deliveryKey := some reservation.deliveryKey
    recipientInstanceId := some reservation.recipientInstanceId
    deliveryGeneration := some reservation.deliveryGeneration
    issuedAt := some reservation.issuedAt
    expiresAt := some reservation.expiresAt
    state := .inFlight
    reason := none
    lastAttemptAt := some now }

/-- An `UPDATE` of alerts, and whether it changed one row. -/
def updateWakes (p : WakeRow → Bool) (f : WakeRow → WakeRow) : Result (Bool × ThreadStore) := do
  let (wakes, changed) ← sqlite (s.wakes.update p f)
  return (changed = 1, { s with wakes })

def threadWakeReserve (reservation : WakeReservation) (now : Int) : Result (Bool × ThreadStore) :=
  s.updateWakes
    (fun w => w.key = (reservation.threadId, reservation.agentId) ∧
      w.generation = reservation.expectedGeneration ∧ (w.activeThroughSeq = none ∨
        w.state = .outcomeUnknown ∧ ∃ expiry ∈ w.expiresAt, expiry ≤ now))
    (freezeWake reservation now)

def threadWakeDefer (threadId agentId reason : String) (now : Int) : Result (Bool × ThreadStore) :=
  s.updateWakes (fun w => w.key = (threadId, agentId) ∧ w.activeThroughSeq = none)
    (fun w => { w with state := .pending, reason := some reason, lastAttemptAt := some now })

inductive WakeOutcome where
  | dispatched
  | refused (reason : String)
  | outcomeUnknown

def thawWake (w : WakeRow) : WakeRow :=
  { w with
    activeThroughSeq := none
    deliveryKey := none
    recipientInstanceId := none
    deliveryGeneration := none
    issuedAt := none
    expiresAt := none }

def threadWakeSettle (threadId agentId : String) (generation : Nat) :
    WakeOutcome → Result (Bool × ThreadStore)
  | .dispatched => s.updateWakes
      (fun w => w.key = (threadId, agentId) ∧ w.generation = generation ∧
        w.state ∈ [.inFlight, .outcomeUnknown])
      (fun w => { thawWake w with
        dispatchedSeq := max w.dispatchedSeq (w.activeThroughSeq.getD 0)
        state := .dispatched
        reason := none })
  | .refused reason => s.updateWakes
      (fun w => w.key = (threadId, agentId) ∧ w.generation = generation ∧ w.state = .inFlight)
      (fun w => { thawWake w with state := .refused, reason := some reason, deliveryId := none })
  | .outcomeUnknown => s.updateWakes
      (fun w => w.key = (threadId, agentId) ∧ w.generation = generation ∧ w.state = .inFlight)
      (fun w => { w with state := .outcomeUnknown })

def threadWakesExpire (now : Int) : Result (Bool × ThreadStore) :=
  s.updateWakes (fun w => w.state = .inFlight ∧ ∃ expiry ∈ w.expiresAt, expiry ≤ now)
    (fun w => { w with state := .outcomeUnknown })

/-- What the tracking of agents does when one goes to sleep. -/
def cancelWakesOf (agentId : String) : Result (Bool × ThreadStore) :=
  s.updateWakes
    (fun w => w.agentId = agentId ∧ w.activeThroughSeq = none ∧ w.state ∈ [.pending, .refused])
    (fun w => { w with state := .cancelled, reason := some "agent_dormant" })

end ThreadStore

/-! ## All operations -/

inductive ThreadOp where
  | create (request : CreateThread)
  | addMembers (request : AddMembers)
  | post (request : PostEntry) (dormant : String → Bool)
  | close (request : CloseThread)
  | read (request : ReadRequest)
  | ack (actor threadId receipt : String)
  | wakeReserve (reservation : ThreadStore.WakeReservation) (now : Int)
  | wakeDefer (threadId agentId reason : String) (now : Int)
  | wakeSettle (threadId agentId : String) (generation : Nat) (outcome : ThreadStore.WakeOutcome)
  | wakesExpire (now : Int)
  | sleep (agentId : String)

inductive ThreadReply where
  | tx (outcome : ThreadTxOutcome)
  | read (outcome : ReadOutcome)
  | ack (outcome : AckOutcome)
  | changed (one : Bool)
  deriving DecidableEq

def ThreadStore.exec (size : PageEntry → Nat) (s : ThreadStore) :
    ThreadOp → Result (ThreadReply × ThreadStore)
  | .create request => (s.threadCreate request).map fun (outcome, s) => (.tx outcome, s)
  | .addMembers request => (s.threadAddMembers request).map fun (outcome, s) => (.tx outcome, s)
  | .post request dormant => (s.threadPost request dormant).map fun (outcome, s) => (.tx outcome, s)
  | .close request => (s.threadClose request).map fun (outcome, s) => (.tx outcome, s)
  | .read request => (s.threadRead size request).map fun (outcome, s) => (.read outcome, s)
  | .ack actor threadId receipt =>
    (s.threadAck actor threadId receipt).map fun (outcome, s) => (.ack outcome, s)
  | .wakeReserve reservation now =>
    (s.threadWakeReserve reservation now).map fun (one, s) => (.changed one, s)
  | .wakeDefer threadId agentId reason now =>
    (s.threadWakeDefer threadId agentId reason now).map fun (one, s) => (.changed one, s)
  | .wakeSettle threadId agentId generation outcome =>
    (s.threadWakeSettle threadId agentId generation outcome).map fun (one, s) => (.changed one, s)
  | .wakesExpire now => (s.threadWakesExpire now).map fun (one, s) => (.changed one, s)
  | .sleep agentId => (s.cancelWakesOf agentId).map fun (one, s) => (.changed one, s)

end Bridget.Threads
