import Bridget.Foundation.Bounded
import Bridget.Foundation.Lines
import Bridget.Foundation.Run
import Bridget.Foundation.Text

/-!
# The journal of a session

Entries are appended as JSON lines to a file for each day, with a sequence number that goes on
across files and across processes. A process that starts reads the last number off the files.
Each write of a line may be cut by a crash, which leaves some of its bytes behind.
-/

namespace Bridget.Journal

open Foundation

def newline : UInt8 := 0x0a

def carriageReturn : UInt8 := 0x0d

def Utf8 (bytes : Bytes) : Prop := (ByteArray.mk bytes.toArray).IsValidUTF8
  deriving Decidable

/-- An entry of the first version, whose payload is any JSON value. -/
structure JournalEntry (Value : Type) where
  v : Nat
  version : v = 1
  seq : Nat
  (ts sessionId event : String)
  messageId : Option String
  payload : Value

def JournalEntry.new {Value : Type} (sequence : Nat) (timestamp sessionId event : String)
    (messageId : Option String) (payload : Value) : JournalEntry Value :=
  ⟨1, rfl, sequence, timestamp, sessionId, event, messageId, payload⟩

/-- The members `v` and `seq` of a JSON value, where they are natural numbers. -/
structure Header where
  (v seq : Option Nat)

/-- `Value::as_u64`. -/
def asU64 (number : Option Nat) : Option Nat := number.filter fun n => n ≤ u64Max

/-- How entries are written and read as JSON, and which of them the vocabulary allows. -/
structure JournalCodec (Value : Type) where
  toVec : JournalEntry Value → Bytes
  header : Bytes → Option Header
  validateJournalWrite : String → Value → Bool

abbrev Directory := AList fun _ : String => Bytes

section

variable {Value : Type} (codec : JournalCodec Value)

/-- A file that is no text as a whole has no events. -/
def validEvents (content : Bytes) : List Header :=
  if Utf8 content then
    ((lines newline carriageReturn content).filterMap codec.header).filter fun value =>
      asU64 value.v = some 1
  else []

def lastSequenceInFiles (files : List Bytes) : Nat :=
  (((files.flatMap (validEvents codec)).filterMap fun value => asU64 value.seq).max?).getD 0

def lastSequence (directory : Directory) : Nat :=
  lastSequenceInFiles codec (directory.entries.map Sigma.snd)

/-- The journal as one process writes it. -/
structure SessionJournal where
  sessionId : String
  nextSeq : Nat
  openFile : Option String

def SessionJournal.new (directory : Directory) (sessionId : String) : SessionJournal :=
  { nextSeq := min u64Max (lastSequence codec directory + 1)
    sessionId
    openFile := none }

def dayFile (date : String) : String := date ++ ".jsonl"

def contentOf (directory : Directory) (file : String) : Bytes := (directory.lookup file).getD []

/-- A tail that a crash left behind becomes a line of its own. -/
def isolatePartialTail (content : Bytes) : Bytes :=
  if content = [] ∨ content.getLast? = some newline then content else content ++ [newline]

/-- The day file is opened, unless it is open already. -/
def SessionJournal.openDay (journal : SessionJournal) (date : String) (directory : Directory) :
    Directory :=
  if journal.openFile = some date then directory
  else directory.insert (dayFile date) (isolatePartialTail (contentOf directory (dayFile date)))

def writeAll (directory : Directory) (date : String) (bytes : Bytes) : Directory :=
  directory.insert (dayFile date) (contentOf directory (dayFile date) ++ bytes)

def entryLine (entry : JournalEntry Value) : Bytes := codec.toVec entry ++ [newline]

def SessionJournal.appendEntryAt (journal : SessionJournal) (directory : Directory) (date : String)
    (entry : JournalEntry Value) : SessionJournal × Directory :=
  ({ journal with openFile := some date },
    writeAll (journal.openDay date directory) date (entryLine codec entry))

/-- The two ways to append, with the date and the time that the clock shows. -/
inductive Append (Value : Type) where
  | appendAt (date timestamp event : String) (messageId : Option String) (payload : Value)
  | appendEntry (date timestamp : String) (entry : JournalEntry Value)

def Append.date : Append Value → String
  | .appendAt date .. | .appendEntry date .. => date

def Append.entry (journal : SessionJournal) : Append Value → Option (JournalEntry Value)
  | .appendAt _ timestamp event messageId payload =>
    if codec.validateJournalWrite event payload then
      some (.new journal.nextSeq timestamp journal.sessionId event messageId payload)
    else none
  | .appendEntry _ timestamp entry =>
    if codec.validateJournalWrite entry.event entry.payload then
      some { entry with
        seq := journal.nextSeq, ts := timestamp, sessionId := journal.sessionId }
    else none

variable (journal : SessionJournal) (directory : Directory) (request : Append Value)

/-- `append_at` and `append_entry`: the number that is acknowledged, when the entry is
written. -/
def SessionJournal.append : Option (Nat × SessionJournal × Directory) := do
  let entry ← request.entry codec journal
  let (opened, directory) := journal.appendEntryAt codec directory request.date entry
  return (journal.nextSeq, { opened with nextSeq := min u64Max (journal.nextSeq + 1) }, directory)

/-- The files after a crash during an append: before the day file was opened, or after some
of the bytes of the line. -/
def SessionJournal.tornAppend (written : Option Nat) : Directory :=
  match request.entry codec journal, written with
  | some entry, some count =>
    writeAll (journal.openDay request.date directory) request.date
      ((entryLine codec entry).take count)
  | _, _ => directory

/-- The files, the journal that is open, and the numbers acknowledged so far. -/
structure JournalState where
  directory : Directory
  journal : Option SessionJournal
  acknowledged : List Nat

inductive JournalEvent (Value : Type) where
  | new (sessionId : String)
  | append (request : Append Value)
  | crash
  | crashedAppend (request : Append Value) (written : Option Nat)

def JournalState.step (s : JournalState) : JournalEvent Value → JournalState
  | .new sessionId => { s with journal := some (.new codec s.directory sessionId) }
  | .append request =>
    match s.journal.bind fun journal => journal.append codec s.directory request with
    | some (seq, journal, directory) => ⟨directory, some journal, s.acknowledged ++ [seq]⟩
    | none => s
  | .crash => { s with journal := none }
  | .crashedAppend request written =>
    match s.journal with
    | some journal => ⟨journal.tornAppend codec s.directory request written, none, s.acknowledged⟩
    | none => s

def JournalState.start (directory : Directory) : JournalState := ⟨directory, none, []⟩

end

end Bridget.Journal
