import Bridget.Attach.Protocol
import Bridget.Attach.Fragments
import Bridget.Journal.LiveFeed

/-!
# The attach relay

One thread of the wrapper serves all views of a journal. Each turn of its loop takes a command,
gives every view a slice of its replay, and then sends what is new to the views that have
caught up, which share one cursor. The journal may grow between any two of these steps.
-/

namespace Bridget.Attach

open Foundation Journal

/-! ## Windows on the journal -/

inductive JournalWindowError where
  | invalidDate | futureDate | dateOutsideRetention
  deriving DecidableEq

def refusalForWindow : JournalWindowError → AttachRefusal
  | .invalidDate => .invalidDate
  | .futureDate => .futureDate
  | .dateOutsideRetention => .dateOutsideRetention

/-- `from_seq` is inclusive. -/
structure ResolvedJournalWindow where
  files : List String
  fromSeq : Option Nat
  deriving DecidableEq

/-- `Path::extension` is `jsonl`: a name that begins with its only dot has no extension. -/
def isJournalFile (name : String) : Bool :=
  ".jsonl".toList.isSuffixOf name.toList && name ≠ ".jsonl"

/-- `Path::file_stem` of a journal file. -/
def fileDate (name : String) : String :=
  String.ofList (name.toList.take (name.toList.length - ".jsonl".toList.length))

def journalFiles (directory : Directory) : List String :=
  (directory.keys.filter isJournalFile).insertionSort (· ≤ ·)

def daysInMonth (year : Int) (month : Nat) : Nat :=
  if month ∈ [1, 3, 5, 7, 8, 10, 12] then 31
  else if month ∈ [4, 6, 9, 11] then 30
  else if month = 2 then
    if year % 4 = 0 ∧ (year % 100 ≠ 0 ∨ year % 400 = 0) then 29 else 28
  else 0

def isDate (value : String) : Bool :=
  match utf8 value with
  | [y₁, y₂, y₃, y₄, 0x2d, m₁, m₂, 0x2d, d₁, d₂] =>
    [y₁, y₂, y₃, y₄, m₁, m₂, d₁, d₂].all isAsciiDigit &&
      match parseU64 [y₁, y₂, y₃, y₄], parseU64 [m₁, m₂], parseU64 [d₁, d₂] with
      | some year, some month, some day => 1 ≤ day && day ≤ daysInMonth year month
      | _, _, _ => false
  | _ => false

section

variable {Value : Type} (codec : JournalCodec Value)

def resolveWindow (directory : Directory) (window : AttachWindow) (hostToday : String) :
    Except JournalWindowError ResolvedJournalWindow :=
  let files := journalFiles directory
  match window with
  | .seq seq => .ok ⟨files, some seq⟩
  | .tail count =>
    let last := lastSequenceInFiles codec (files.map (contentOf directory))
    .ok ⟨files, some (if last = 0 then 0 else last - (max count 1 - 1))⟩
  | .today => .ok ⟨files.filter fun path => fileDate path = hostToday, none⟩
  | .date date =>
    if isDate date = false then .error .invalidDate
    else if hostToday < date then .error .futureDate
    else
      let selected := files.filter fun path => fileDate path = date
      if selected = [] then .error .dateOutsideRetention else .ok ⟨selected, none⟩

end

def attachRelayReadBytes : Nat := 128 * 1024

/-- `u64::checked_add(1)`. -/
def checkedSucc (seq : Nat) : Option Nat := asU64 (some (seq + 1))

/-! ## One replay -/

namespace RelaySubscription

variable {Value : Type} (codec : JournalCodec Value)

def new (subscriptionId : String) (window : AttachWindow) (directory : Directory)
    (hostToday : String) (liveFloor : Option Nat) :
    Except JournalWindowError RelaySubscription := do
  let resolved ← resolveWindow codec directory window hostToday
  let following ← resolveWindow codec directory (.seq 0) hostToday
  return {
    subscriptionId
    window
    fromSeq := resolved.fromSeq
    expectedSnapshotSeq := resolved.fromSeq.filter fun seq => 0 < seq
    files := resolved.files
    followAfter := following.files.getLast?
    fileIndex := 0
    reader := none
    caughtUp := false
    throughSeq := none
    liveFloor := match liveFloor, resolved.fromSeq with
      | some floor, some fromSeq => some (max floor (fromSeq - 1))
      | some floor, none => some floor
      | none, some fromSeq => some (fromSeq - 1)
      | none, none => none
    pendingEvents := []
    pendingFragment := none }

def addFiles (files : List String) : List String → List String
  | [] => files
  | path :: rest => addFiles (if path ∈ files then files else files ++ [path]) rest

variable (s : RelaySubscription) (directory : Directory)

/-- A window of days bounds the first replay only: a view that has caught up takes in the files
that are newer than the last one it knew of. -/
def refreshFiles (hostToday : String) : RelaySubscription :=
  match resolveWindow codec directory (.seq 0) hostToday with
  | .error _ => s
  | .ok resolved =>
    if s.caughtUp then
      { s with
        files := addFiles s.files
          (resolved.files.filter fun path => s.followAfter.all fun latest => latest < path) }
    else
      match s.window with
      | .tail _ => { s with files := addFiles s.files resolved.files }
      | window =>
        match resolveWindow codec directory window hostToday with
        | .error _ => s
        | .ok initial => { s with files := addFiles s.files initial.files }

/-- `restart_from_seq`; what was sent and the floor of the view stay. -/
def restartFromSeq (hostToday : String) (fromSeq : Nat) : RelaySubscription :=
  match resolveWindow codec directory (.seq fromSeq) hostToday with
  | .error _ => s
  | .ok resolved =>
    { s with
      window := .seq fromSeq
      fromSeq := some fromSeq
      expectedSnapshotSeq := if 0 < fromSeq then some fromSeq else none
      files := resolved.files
      followAfter := resolved.files.getLast?
      fileIndex := 0
      reader := none
      caughtUp := false
      pendingEvents := []
      pendingFragment := none }

def hasPendingOutput : Bool := s.pendingFragment.isSome || s.pendingEvents ≠ []

def push (seq : Nat) (bytes : Bytes) : RelaySubscription :=
  { s with
    expectedSnapshotSeq := checkedSucc seq
    pendingEvents := s.pendingEvents ++ [(seq, bytes)] }

/-- What the relay makes of one item: numbers that the files skip and lines that are too long
are told as gaps. -/
def takeItem : JournalReadItem → List WrapperToDaemon × RelaySubscription
  | .event seq offset line bytes =>
    if s.fromSeq.all fun fromSeq => fromSeq ≤ seq then
      match s.expectedSnapshotSeq with
      | some expected =>
        if seq < expected then
          ([.journalReadError s.subscriptionId line offset "non_monotonic_sequence"], s)
        else if expected < seq then
          ([.gap s.subscriptionId expected (seq - 1) (some "journal_sequence_missing")],
            s.push seq bytes)
        else ([], s.push seq bytes)
      | none => ([], s.push seq bytes)
    else ([], s)
  | .oversized (some seq) _ _ =>
    if (s.fromSeq.any fun fromSeq => seq < fromSeq) ||
        s.expectedSnapshotSeq.any fun next => seq < next then ([], s)
    else
      ([.gap s.subscriptionId (s.expectedSnapshotSeq.getD seq) seq (some "event_too_large")],
        { s with expectedSnapshotSeq := checkedSucc seq })
  | .oversized none offset line =>
    ([.journalReadError s.subscriptionId line offset "event_too_large sans séquence"], s)
  | .unreadable line offset =>
    ([.journalReadError s.subscriptionId line offset "ligne de journal illisible"], s)

def takeItems (s : RelaySubscription) : List JournalReadItem →
    List WrapperToDaemon × RelaySubscription
  | [] => ([], s)
  | item :: rest =>
    let taken := s.takeItem item
    let others := takeItems taken.2 rest
    (taken.1 ++ others.1, others.2)

def markCaughtUp : List WrapperToDaemon × RelaySubscription :=
  ([.snapshotCaughtUp s.subscriptionId s.throughSeq], { s with caughtUp := true })

def finishSlice (length : Nat) (reader : IncrementalJournalReader) :
    List WrapperToDaemon × RelaySubscription :=
  if length ≤ reader.nextOffset then
    if s.fileIndex + 1 < s.files.length then
      ([], { s with reader := none, fileIndex := s.fileIndex + 1 })
    else if s.caughtUp = false ∧ s.hasPendingOutput = false then s.markCaughtUp
    else ([], s)
  else ([], s)

variable (directory : Directory)

/-- One slice of the file at `file_index`; nothing is left of a view whose file is gone. -/
def readSlice (path : String) : List WrapperToDaemon × Option RelaySubscription :=
  let reader := s.reader.getD .new
  match directory.lookup path with
  | none => ([.ended s.subscriptionId "source de journal indisponible"], none)
  | some contents =>
    if contents.length < reader.nextOffset then
      ([.ended s.subscriptionId "source_truncated"], none)
    else
      let slice := reader.readChunk codec contents attachRelayReadBytes
      let taken := { s with reader := some slice.2 }.takeItems slice.1
      let finished := taken.2.finishSlice contents.length slice.2
      (taken.1 ++ finished.1, some finished.2)

/-- The turn of one view: a fragment, or a slice of its replay. -/
def serve (hostToday : String) : List WrapperToDaemon × Option RelaySubscription :=
  match s.emitOneFragment with
  | (true, sent, s) => (sent, some s)
  | (false, sent, s) =>
    if s.caughtUp then (sent, some s)
    else
      let s := s.refreshFiles codec directory hostToday
      match s.files[s.fileIndex]? with
      | none => (sent ++ s.markCaughtUp.1, some s.markCaughtUp.2)
      | some path =>
        let read := s.readSlice codec directory path
        (sent ++ read.1, read.2)

def position : Option Nat :=
  match s.throughSeq, s.liveFloor with
  | some through, some floor => some (max through floor)
  | through, floor => through.or floor

end RelaySubscription

/-! ## The thread -/

def LiveFanout.resetPending (fanout : LiveFanout) : LiveFanout :=
  { fanout with pendingEvents := [], pendingFragment := none }

/-- The events of a batch are queued, and the cursor is at the last of them. -/
def LiveFanout.queueEvents : LiveFanout → List JournalLiveEvent → LiveFanout
  | fanout, [] => fanout
  | fanout, event :: rest =>
    queueEvents
      { fanout with
        cursor := some event.seq
        pendingEvents := fanout.pendingEvents ++ [(event.seq, event.bytes)] } rest

/-- Where the thread is in its loop; `serving` holds the views that still wait for their turn. -/
inductive RelayPhase where
  | command
  | serving (waiting : List RelaySubscription)
  | flushing
  deriving DecidableEq

/-- The views are in the order of their ids, those that wait for their turn left out. -/
structure Relay where
  subscriptions : List RelaySubscription
  phase : RelayPhase
  fanout : LiveFanout
  hadLiveSubscriptions : Bool
  feed : JournalLiveFeed
  deriving DecidableEq

def RelayPhase.waiting : RelayPhase → List RelaySubscription
  | .serving waiting => waiting
  | .command | .flushing => []

/-- `BTreeMap::insert`. -/
def insertSubscription (s : RelaySubscription) : List RelaySubscription → List RelaySubscription
  | [] => [s]
  | other :: rest =>
    if s.subscriptionId < other.subscriptionId then s :: other :: rest
    else if s.subscriptionId = other.subscriptionId then s :: rest
    else other :: insertSubscription s rest

def startCursor (live : List RelaySubscription) : Option Nat :=
  (live.filterMap RelaySubscription.position).max?

namespace Relay

def start (feed : JournalLiveFeed) : Relay := ⟨[], .command, ⟨⟨[], none⟩, none⟩, false, feed⟩

variable {Value : Type} (codec : JournalCodec Value) (directory : Directory) (hostToday : String)
  (relay : Relay)

def views : List RelaySubscription := relay.subscriptions ++ relay.phase.waiting

def live : List RelaySubscription := relay.subscriptions.filter RelaySubscription.caughtUp

def takeCommand : Option (String × AttachWindow) → List WrapperToDaemon × Relay
  | none => ([], { relay with subscriptions := [], phase := .serving relay.subscriptions })
  | some (subscriptionId, window) =>
    match RelaySubscription.new codec subscriptionId window directory hostToday
        relay.feed.latest with
    | .ok subscription =>
      ([.subscribed subscriptionId],
        { relay with
          subscriptions := []
          phase := .serving (insertSubscription subscription relay.subscriptions) })
    | .error error =>
      ([.attachRejected (some subscriptionId) (refusalForWindow error)],
        { relay with subscriptions := [], phase := .serving relay.subscriptions })

def serveNext (s : RelaySubscription) (waiting : List RelaySubscription) :
    List WrapperToDaemon × Relay :=
  let served := s.serve codec directory hostToday
  (served.1,
    { relay with
      subscriptions := relay.subscriptions ++ served.2.toList
      phase := .serving waiting })

/-- The fanout as the live part of the loop finds it. -/
def fanoutInUse : LiveFanout :=
  if relay.hadLiveSubscriptions then relay.fanout
  else ⟨⟨[], none⟩, startCursor relay.live⟩

/-- The live part of the loop, up to the fragments that it sends. A gap sends all views that
are live back to the files. -/
def followLive : List WrapperToDaemon × Relay :=
  let live := relay.live
  if live = [] then
    ([], { relay with
      hadLiveSubscriptions := false
      fanout := relay.fanout.resetPending
      phase := .command })
  else
    let fanout := relay.fanoutInUse
    if fanout.pendingFragment = none ∧ fanout.pendingEvents = [] then
      let (batch, feed) := relay.feed.after fanout.cursor
      match batch.gap with
      | some (fromSeq, toSeq) =>
        (live.map fun s => .gap s.subscriptionId fromSeq toSeq (some "live_feed_overrun"),
          { relay with
            subscriptions := relay.subscriptions.map fun s =>
              if s.caughtUp then s.restartFromSeq codec directory hostToday fromSeq else s
            hadLiveSubscriptions := false
            fanout := fanout.resetPending
            feed
            phase := .flushing })
      | none =>
        ([], { relay with
          hadLiveSubscriptions := true
          fanout := fanout.queueEvents batch.events
          feed
          phase := .flushing })
    else
      ([], { relay with hadLiveSubscriptions := true, fanout, phase := .flushing })

def flush : List WrapperToDaemon × Relay :=
  match relay.fanout.emitOneLiveFragment with
  | (true, sent, fanout) => (sent, { relay with fanout })
  | (false, sent, fanout) => (sent, { relay with fanout, phase := .command })

/-- The next step of the thread; a command is only looked at where the loop begins. -/
def step (command : Option (String × AttachWindow)) : List WrapperToDaemon × Relay :=
  match relay.phase with
  | .command => relay.takeCommand codec directory hostToday command
  | .serving (s :: waiting) => relay.serveNext codec directory hostToday s waiting
  | .serving [] => relay.followLive codec directory hostToday
  | .flushing => relay.flush

end Relay

end Bridget.Attach
