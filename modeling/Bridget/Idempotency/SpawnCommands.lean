import Bridget.Idempotency.Record

/-!
# Spawn commands

The saga of a launch. A command is reserved together with its idempotency record, advances
while it is in flight and ends with an issue, which is also published in the record. What an
order says about a remote machine is read back from the canonical bytes of the record.
-/

namespace Bridget.Idempotency

open Foundation Function Table

inductive SpawnCommandState where
  | requested | reserved | starting | connected | failed | cancelled
  deriving DecidableEq

def SpawnCommandState.isTerminal : SpawnCommandState → Bool
  | .connected | .failed | .cancelled => true
  | .requested | .reserved | .starting => false

inductive SpawnIssueKind where
  | connected | failed | cancelled
  deriving DecidableEq

def SpawnIssueKind.state : SpawnIssueKind → SpawnCommandState
  | .connected => .connected
  | .failed => .failed
  | .cancelled => .cancelled

/-- A definition is known by the digest of all its runtime parameters. -/
structure ResolvedAgentDefinition where
  digest : String
  deriving DecidableEq

structure RemotePlacement where
  (machineId workerId : String)
  provisioningRevision : Nat
  projectId : String
  mappingRevision : Nat
  (originHost originCwd sourceRootIdentity relativeCwd executionCwd : String)
  baseCommit : Option String
  (definitionDigest permissionDigest : String)
  deriving DecidableEq

inductive SpawnCommandIssue where
  | connected (name : String) (generation : Nat) (instanceId : String)
      (definition : Option ResolvedAgentDefinition)
  | failed (category reason : String)
  | cancelled (reason : String)
  deriving DecidableEq

def SpawnCommandIssue.isConnected : SpawnCommandIssue → Bool
  | .connected .. => true
  | .failed .. | .cancelled .. => false

structure SpawnCommandRow where
  (issuerScope commandId name : String)
  generation : Nat
  persistent : Bool
  state : SpawnCommandState
  instanceId : Option String
  (deadlineAt expiresAt : Int)
  issueKind : Option SpawnIssueKind
  (issueCategory issueReason : Option String)
  resolvedDefinition : Option ResolvedAgentDefinition

def SpawnCommandRow.key (row : SpawnCommandRow) : IdempotencyKey :=
  ⟨row.issuerScope, .spawn, row.commandId⟩

instance : UniqueKeys SpawnCommandRow where
  conflicts a b := a.key = b.key

theorem pinsKey_command (key : IdempotencyKey) :
    PinsKey fun row : SpawnCommandRow => decide (row.key = key) :=
  pinsKey_field fun _ _ => id

structure SpawnCommand where
  (commandId name : String)
  generation : Nat
  persistent : Bool
  state : SpawnCommandState
  instanceId : Option String
  (deadlineAt expiresAt : Int)
  issue : Option SpawnCommandIssue
  resolvedDefinition : Option ResolvedAgentDefinition
  remotePlacement : Option RemotePlacement
  deriving DecidableEq

inductive SpawnReservation where
  | requested (command : SpawnCommand)
  | inFlight (command : SpawnCommand)
  | replayed (issue : SpawnCommandIssue)
  | envelopeMismatch
  | idempotencyExpired
  deriving DecidableEq

/-- How a placement is read: the member `remote_placement` of a JSON text, when the text can
be read and the member, if any, is a placement; and which placements are accepted. -/
structure SpawnCodec where
  parsePlacement : Bytes → Option (Option RemotePlacement)
  validPlacement : RemotePlacement → Bool

def isAsciiWhitespace (byte : UInt8) : Bool :=
  byte = 0x20 || byte = 0x09 || byte = 0x0a || byte = 0x0c || byte = 0x0d

/-- A canon that is no JSON object is opaque and names no placement. -/
def remotePlacementFromCanonical (codec : SpawnCodec) (canonical : Bytes) :
    Result (Option RemotePlacement) :=
  if canonical.find? (fun byte => !isAsciiWhitespace byte) = some 0x7b then do
    let placement ← orError (codec.parsePlacement canonical)
      (.corruptRecord "placement canonique du spawn invalide")
    ensure (∀ p ∈ placement, codec.validPlacement p)
      (.corruptRecord "placement canonique du spawn invalide")
    return placement
  else .ok none

def SpawnCommandRow.issue (row : SpawnCommandRow) : Result (Option SpawnCommandIssue) :=
  match row.issueKind with
  | none => do
      ensure (row.state.isTerminal = false) (.sqlite .conversion)
      return none
  | some kind => do
      ensure (row.state = kind.state) (.sqlite .conversion)
      match kind with
      | .connected => do
          let instanceId ← orError row.instanceId (.sqlite .conversion)
          return some (.connected row.name row.generation instanceId row.resolvedDefinition)
      | .failed => do
          let category ← orError row.issueCategory (.sqlite .conversion)
          let reason ← orError row.issueReason (.sqlite .conversion)
          return some (.failed category reason)
      | .cancelled => do
          let reason ← orError row.issueReason (.sqlite .conversion)
          return some (.cancelled reason)

/-- A row, joined with the canonical bytes of its record. -/
def spawnCommandFromRow (codec : SpawnCodec) (row : SpawnCommandRow) (canonical : Option Bytes) :
    Result SpawnCommand := do
  let canonical ← orError canonical (.sqlite .conversion)
  let remotePlacement ←
    (remotePlacementFromCanonical codec canonical).mapError fun _ => .sqlite .conversion
  let issue ← row.issue
  return { row with issue, remotePlacement }

structure SpawnStore where
  records : Table RecordRow
  commands : Table SpawnCommandRow

def SpawnStore.init : SpawnStore := ⟨.empty, .empty⟩

/-- The record must tell the issue that the saga tells. -/
def RecordRow.validateSpawnIssue (record : RecordRow) (issue : SpawnCommandIssue) : Result Unit :=
  let expected : ResultColumns :=
    match issue with
    | .connected .. => ⟨some .accepted, none, none⟩
    | .failed category reason => ⟨some .rejected, some category, some reason⟩
    | .cancelled reason => ⟨some .rejected, some "cancelled", some reason⟩
  ensure (record.result = expected) (.corruptRecord "issue spawn incohérente avec le socle")

namespace SpawnStore

variable (codec : SpawnCodec) (s : SpawnStore)

def findRecord (key : IdempotencyKey) : Option RecordRow := s.records.find? fun r => r.key = key

def findCommand (key : IdempotencyKey) : Option SpawnCommandRow :=
  s.commands.find? fun row => row.key = key

def readCommand (row : SpawnCommandRow) : Result SpawnCommand :=
  spawnCommandFromRow codec row ((s.findRecord row.key).map RecordRow.canonicalBytes)

def loadSpawnCommand (key : IdempotencyKey) : Result (Option SpawnCommand) :=
  whenSome (s.findCommand key) none fun row => do
    let command ← s.readCommand codec row
    return some command

def replaySpawn (key : IdempotencyKey) (canonicalBytes : Bytes) (now : Int) (record : RecordRow) :
    Result SpawnReservation :=
  if record.expiresAt ≤ now then .ok .idempotencyExpired
  else if record.canonicalBytes ≠ canonicalBytes then .ok .envelopeMismatch
  else do
    let command ← s.loadSpawnCommand codec key
    let command ← orError command (.corruptRecord "saga spawn absente")
    if record.state = .terminal then
      let issue ← orError command.issue (.corruptRecord "issue spawn terminale absente")
      record.validateSpawnIssue issue
      return .replayed issue
    else
      ensure (command.state.isTerminal = false)
        (.corruptRecord "saga terminale avec socle non terminal")
      return .inFlight command

structure SpawnRequest where
  name : String
  generation : Nat
  persistent : Bool
  deadlineAt : Int
  instanceId : String

variable (key : IdempotencyKey) (request : SpawnRequest)

def requestedRow (expiresAt : Int) : SpawnCommandRow :=
  { request with
    issuerScope := key.issuerScope
    commandId := key.idempotencyKey
    state := .requested
    instanceId := some request.instanceId
    expiresAt
    issueKind := none
    issueCategory := none
    issueReason := none
    resolvedDefinition := none }

def requestedCommand (expiresAt : Int) (remotePlacement : Option RemotePlacement) : SpawnCommand :=
  { requestedRow key request expiresAt with issue := none, remotePlacement }

variable (canonicalBytes : Bytes)

def insertSpawn (issuedAt expiresAt : Int) (request : SpawnRequest) : Result SpawnStore := do
  let records ← sql (s.records.insert
    { key, canonicalBytes, state := .prepared, result := .unset, issuedAt, expiresAt })
  let _ ← sql (sqlCounter request.generation)
  let commands ← sql (s.commands.insert (requestedRow key request expiresAt))
  return { records, commands }

def reserveSpawn
    (issuedAt horizonSecs now issuedAtToleranceSecs : Int) (request : SpawnRequest) :
    Result (SpawnReservation × SpawnStore) := do
  ensure (key.operationKind = .spawn ∧ request.name ≠ "" ∧ request.generation ≠ 0 ∧
    issuedAt < request.deadlineAt ∧ request.instanceId ≠ "") .invalidSpawnCommand
  validateCanonicalBytes canonicalBytes
  let remotePlacement ← remotePlacementFromCanonical codec canonicalBytes
  ensure (issuedAt ≤ saturatingAdd now (max issuedAtToleranceSecs 0)) .invalidIssuedAt
  match s.findRecord key with
  | some record => do
      let result ← s.replaySpawn codec key canonicalBytes now record
      return (result, s)
  | none => do
      ensure (0 < horizonSecs) .invalidHorizon
      let expiresAt ← orError (checkedAdd issuedAt horizonSecs) .invalidHorizon
      if expiresAt ≤ now then return (.idempotencyExpired, s)
      else
        let s ← s.insertSpawn key canonicalBytes issuedAt expiresAt request
        return (.requested (requestedCommand key request expiresAt remotePlacement), s)

/-- Only one row may change, and it must. -/
def updateCommand (generation : Nat) (guard : SpawnCommandRow → Bool)
    (change : SpawnCommandRow → SpawnCommandRow) : Result (Table SpawnCommandRow) := do
  let generation ← sql (sqlCounter generation)
  let (commands, saga) ← sql (s.commands.update
    (fun row => row.key = key ∧ row.generation = generation ∧ guard row) change)
  ensure (saga = 1) .dispatchUnavailable
  return commands

def updateRecord (guard : RecordState → Bool)
    (change : RecordRow → RecordRow) : Result (Table RecordRow) := do
  let (records, core) ← sql (s.records.update (fun r => r.key = key ∧ guard r.state) change)
  ensure (core = 1) .dispatchUnavailable
  return records

/-- Leaving `requested` makes the record `dispatching`. -/
def dispatchRecord (current : SpawnCommandState) : Result (Table RecordRow) :=
  if current = .requested then
    s.updateRecord key (fun state => state = .prepared) fun r => { r with state := .dispatching }
  else .ok s.records

def advanceSpawn (generation : Nat) (current next : SpawnCommandState) : Result SpawnStore := do
  ensure (key.operationKind = .spawn ∧
    (current = .requested ∧ next = .reserved ∨ current = .reserved ∧ next = .starting))
    .invalidSpawnCommand
  let records ← s.dispatchRecord key current
  let commands ← s.updateCommand key generation (fun row => row.state = current)
    fun row => { row with state := next }
  return { records, commands }

def advanceSpawnWithDefinition (generation : Nat)
    (current next : SpawnCommandState) (definition : ResolvedAgentDefinition) :
    Result SpawnStore := do
  ensure (key.operationKind = .spawn ∧ current = .reserved ∧ next = .starting) .invalidSpawnCommand
  let commands ← s.updateCommand key generation (fun row => row.state = .reserved)
    fun row => { row with state := .starting, resolvedDefinition := some definition }
  return { s with commands }

/-- What an issue writes into its row and publishes in the record. -/
structure IssueColumns where
  kind : SpawnIssueKind
  instanceId : Option String
  result : ResultColumns

def issueColumns (generation : Nat) : SpawnCommandIssue → Option IssueColumns
  | .connected _ issueGeneration instanceId _ =>
    if issueGeneration = generation ∧ instanceId ≠ "" then
      some ⟨.connected, some instanceId, ⟨some .accepted, none, none⟩⟩
    else none
  | .failed category reason =>
    if category ≠ "" ∧ reason ≠ "" then
      some ⟨.failed, none, ⟨some .rejected, some category, some reason⟩⟩
    else none
  | .cancelled reason =>
    if reason ≠ "" then
      some ⟨.cancelled, none, ⟨some .rejected, some "cancelled", some reason⟩⟩
    else none

def finishedRow (columns : IssueColumns) (row : SpawnCommandRow) : SpawnCommandRow :=
  { row with
    state := columns.kind.state
    instanceId := columns.instanceId.or row.instanceId
    issueKind := some columns.kind
    issueCategory := columns.result.category
    issueReason := columns.result.reason }

def finishSpawn (key : IdempotencyKey) (generation : Nat) (issue : SpawnCommandIssue) :
    Result SpawnStore := do
  ensure (key.operationKind = .spawn ∧ generation ≠ 0) .invalidSpawnCommand
  let columns ← orError (issueColumns generation issue) .invalidSpawnCommand
  let commands ← s.updateCommand key generation
    (fun row => row.state.isTerminal = false ∧
      (columns.kind ≠ .connected ∨ row.instanceId = columns.instanceId))
    (finishedRow columns)
  let records ← s.updateRecord key (fun state => state ≠ .terminal) fun r =>
    { r with state := .terminal, result := columns.result }
  return { records, commands }

def commandOrder (a b : SpawnCommandRow) : Prop :=
  a.generation < b.generation ∨ a.generation = b.generation ∧ a.commandId ≤ b.commandId
  deriving Decidable

def spawnCommands (issuerScope : String) : Result (List SpawnCommand) := do
  validateIssuerScope issuerScope
  ((s.commands.select fun row => row.issuerScope = issuerScope).insertionSort
    commandOrder).mapM (s.readCommand codec)

variable {codec : SpawnCodec} {s s' : SpawnStore} {key : IdempotencyKey} {generation : Nat}
  {row : SpawnCommandRow}

def canon (s : SpawnStore) (key : IdempotencyKey) : Option Bytes :=
  (s.findRecord key).map RecordRow.canonicalBytes

theorem findCommand_eq_some : s.findCommand key = some row ↔ row ∈ s.commands ∧ row.key = key := by
  simp [findCommand, find?_eq_some (pinsKey_command key)]

variable {record : RecordRow}

theorem findRecord_eq_some :
    s.findRecord key = some record ↔ record ∈ s.records ∧ record.key = key := by
  simp [findRecord, find?_eq_some (pinsKey_record key)]

variable {change : SpawnCommandRow → SpawnCommandRow} {guard : SpawnCommandRow → Bool}

theorem updateCommand_spec {commands : Table SpawnCommandRow}
    (h : s.updateCommand key generation guard change = .ok commands)
    (hkeeps : ∀ row, (change row).key = row.key) :
    ∃ row, s.findCommand key = some row ∧ row.generation = generation ∧ guard row = true ∧
      (SpawnStore.mk s.records commands).findCommand =
        update s.findCommand key (some (change row)) := by
  simp only [updateCommand, ok_iff, sql_eq_ok, sqlCounter_eq_ok, pair_iff] at h
  obtain ⟨_, ⟨-, rfl⟩, _, _, hupdate, -, rfl, rfl⟩ := h
  obtain ⟨row, hfind, hselected, hafter⟩ :=
    lookup_update _ key pinsKey_command hupdate (fun row hrow => by simp_all) hkeeps
  have hrow : row.key = key ∧ row.generation = generation ∧ guard row = true := by
    simpa using hselected
  exact ⟨row, hfind, hrow.2.1, hrow.2.2, hafter⟩

theorem updateCommand_eq_ok (hfind : s.findCommand key = some row)
    (hsql : (row.generation : Int) ≤ i64Max) (hguard : guard row = true)
    (hkeeps : ∀ row, (change row).key = row.key) :
    ∃ commands, s.updateCommand key row.generation guard change = .ok commands := by
  have hkeys : KeepsKeys change := by
    intro _ _
    simp only [UniqueKeys.conflicts, hkeeps, and_self]
  obtain ⟨commands, hupdate⟩ := update_one_eq_ok SpawnCommandRow.key key
    (p := fun r => r.key = key ∧ r.generation = row.generation ∧ guard r)
    (pinsKey_command key) hkeys (fun r _ => by simp_all) hfind
    (by simp [(findCommand_eq_some.mp hfind).2, hguard])
  refine ⟨commands, ?_⟩
  simp only [updateCommand, ok_iff, sql_eq_ok, sqlCounter_eq_ok, pair_iff]
  exact ⟨_, ⟨hsql, rfl⟩, _, _, hupdate, (), rfl, rfl⟩

theorem updateRecord_spec {guard : RecordState → Bool} {change : RecordRow → RecordRow}
    {records : Table RecordRow} (h : s.updateRecord key guard change = .ok records)
    (hkeeps : ∀ r, (change r).key = r.key) :
    ∃ record, s.findRecord key = some record ∧ guard record.state = true ∧
      (SpawnStore.mk records s.commands).findRecord =
        update s.findRecord key (some (change record)) := by
  simp only [updateRecord, ok_iff, sql_eq_ok, pair_iff] at h
  obtain ⟨_, _, hupdate, -, rfl, rfl⟩ := h
  obtain ⟨record, hfind, hselected, hafter⟩ :=
    lookup_update _ key pinsKey_record hupdate (fun r _ => by simp_all) hkeeps
  have hrecord : record.key = key ∧ guard record.state = true := by simpa using hselected
  exact ⟨record, hfind, hrecord.2, hafter⟩

theorem updateRecord_eq_ok {guard : RecordState → Bool} {change : RecordRow → RecordRow}
    (hfind : s.findRecord key = some record) (hguard : guard record.state = true)
    (hkeeps : ∀ r, (change r).key = r.key) :
    ∃ records, s.updateRecord key guard change = .ok records := by
  have hkeys : KeepsKeys change := by
    intro _ _
    simp only [UniqueKeys.conflicts, hkeeps, and_self]
  obtain ⟨records, hupdate⟩ := update_one_eq_ok RecordRow.key key
    (p := fun r => r.key = key ∧ guard r.state) (pinsKey_record key) hkeys
    (fun r _ => by simp_all) hfind (by simp [(findRecord_eq_some.mp hfind).2, hguard])
  refine ⟨records, ?_⟩
  simp only [updateRecord, ok_iff, sql_eq_ok, pair_iff]
  exact ⟨_, _, hupdate, (), rfl, rfl⟩

theorem canon_update {record' : RecordRow} (hfind : s.findRecord key = some record)
    (hafter : s'.findRecord = update s.findRecord key (some record'))
    (hbytes : record'.canonicalBytes = record.canonicalBytes) : s'.canon = s.canon := by
  funext k
  unfold canon
  rw [hafter]
  by_cases hk : k = key
  · subst hk
    simp [hfind, hbytes]
  · rw [update_of_ne hk]

theorem canon_congr (h : s'.findRecord = s.findRecord) : s'.canon = s.canon := by
  funext k
  rw [canon, canon, h]

theorem insertSpawn_spec {canonicalBytes : Bytes} {issuedAt expiresAt : Int}
    {request : SpawnRequest} (hkind : key.operationKind = .spawn)
    (h : s.insertSpawn key canonicalBytes issuedAt expiresAt request = .ok s') :
    (request.generation : Int) ≤ i64Max ∧ s.findCommand key = none ∧
      s'.findCommand = update s.findCommand key
        (some (requestedRow key request expiresAt)) ∧ s'.findRecord = update s.findRecord key
        (some ⟨key, canonicalBytes, .prepared, .unset, issuedAt, expiresAt⟩) := by
  simp only [insertSpawn, ok_iff, sql_eq_ok, sqlCounter_eq_ok] at h
  obtain ⟨records, hrecords, _, ⟨hsql, -⟩, _, hcommands, rfl⟩ := h
  have hkey : (requestedRow key request expiresAt).key = key := by
    rw [requestedRow, SpawnCommandRow.key, ← hkind]
  have hfree : s.findCommand (requestedRow key request expiresAt).key = none :=
    find?_eq_none_of_insert hcommands fun _ => of_decide_eq_true
  have hfreeRecord : s.records.find? (fun r => decide (r.key = key)) = none :=
    find?_eq_none_of_insert hrecords fun _ => of_decide_eq_true
  have hafter := lookup_insert SpawnCommandRow.key hfree hcommands
  rw [hkey] at hfree hafter
  exact ⟨hsql, hfree, hafter, lookup_insert RecordRow.key hfreeRecord hrecords⟩

variable {canonicalBytes : Bytes} {issuedAt horizonSecs now tolerance : Int}
  {request : SpawnRequest} {reservation : SpawnReservation} {command : SpawnCommand}

theorem loadSpawnCommand_eq_some (h : s.loadSpawnCommand codec key = .ok (some command)) :
    ∃ row, s.findCommand key = some row ∧ s.readCommand codec row = .ok command := by
  unfold loadSpawnCommand at h
  cases hfind : s.findCommand key with
  | none => simp [hfind, whenSome] at h
  | some row =>
    simp only [hfind, whenSome, ok_iff, Option.some.injEq] at h
    obtain ⟨_, hread, rfl⟩ := h
    exact ⟨row, rfl, hread⟩

structure ReadFrom (codec : SpawnCodec) (s : SpawnStore) (row : SpawnCommandRow)
    (command : SpawnCommand) : Prop where
  commandId : command.commandId = row.commandId
  name : command.name = row.name
  generation : command.generation = row.generation
  state : command.state = row.state
  instanceId : command.instanceId = row.instanceId
  issue : row.issue = .ok command.issue
  placement : ∃ bytes, s.canon row.key = some bytes ∧
    remotePlacementFromCanonical codec bytes = .ok command.remotePlacement

theorem readCommand_eq_ok (h : s.readCommand codec row = .ok command) :
    ReadFrom codec s row command := by
  simp only [readCommand, spawnCommandFromRow, ok_iff, mapError_eq_ok] at h
  obtain ⟨bytes, hbytes, _, hplacement, _, hissue, rfl⟩ := h
  exact ⟨rfl, rfl, rfl, rfl, rfl, hissue, bytes, hbytes, hplacement⟩

/-- A replay never asks for a launch, and what it reports as in flight has a row that is. -/
theorem replaySpawn_spec (h : s.replaySpawn codec key canonicalBytes now record = .ok reservation) :
    (∀ command, reservation ≠ .requested command) ∧
      ∀ command, reservation = .inFlight command → ∃ row, s.findCommand key = some row ∧
        s.readCommand codec row = .ok command ∧ command.state.isTerminal = false := by
  unfold replaySpawn at h
  split at h
  · cases h
    exact ⟨by simp, by simp⟩
  split at h
  · cases h
    exact ⟨by simp, by simp⟩
  simp only [ok_iff] at h
  obtain ⟨_, hload, _, rfl, h⟩ := h
  split at h
  · simp only [ok_iff] at h
    obtain ⟨_, -, -, -, rfl⟩ := h
    exact ⟨by simp, by simp⟩
  simp only [ok_iff] at h
  obtain ⟨-, hstate, rfl⟩ := h
  refine ⟨by simp, ?_⟩
  rintro _ ⟨rfl⟩
  obtain ⟨row, hfind, hread⟩ := loadSpawnCommand_eq_some hload
  exact ⟨row, hfind, hread, hstate⟩

/-- A new order gets its record and its row; every other answer changes nothing. -/
theorem reserveSpawn_spec (h : s.reserveSpawn codec key canonicalBytes issuedAt horizonSecs now
      tolerance request = .ok (reservation, s')) :
    s' = s ∧ (∀ command, reservation ≠ .requested command) ∧
        (∀ command, reservation = .inFlight command → ∃ row, s.findCommand key = some row ∧
          s.readCommand codec row = .ok command ∧ command.state.isTerminal = false) ∨
      ∃ expiresAt placement, remotePlacementFromCanonical codec canonicalBytes = .ok placement ∧
        reservation = .requested (requestedCommand key request expiresAt placement) ∧
        key.operationKind = .spawn ∧
        s.insertSpawn key canonicalBytes issuedAt expiresAt request = .ok s' := by
  simp only [reserveSpawn, ok_iff] at h
  obtain ⟨-, hguard, -, -, placement, hplacement, -, -, h⟩ := h
  split at h
  · simp only [ok_iff, pair_iff] at h
    obtain ⟨_, hreplay, rfl, rfl⟩ := h
    exact .inl ⟨rfl, replaySpawn_spec hreplay⟩
  simp only [ok_iff] at h
  obtain ⟨-, -, expiresAt, -, h⟩ := h
  split at h
  · obtain ⟨rfl, rfl⟩ := h
    exact .inl ⟨rfl, by simp, by simp⟩
  · simp only [ok_iff, pair_iff] at h
    obtain ⟨_, hinsert, rfl, rfl⟩ := h
    exact .inr ⟨expiresAt, placement, hplacement, rfl, hguard.1, hinsert⟩

variable {current next : SpawnCommandState}

section

variable (h : s.advanceSpawn key generation current next = .ok s')

include h

/-- The row takes its next state; the record moves only when the row leaves `requested`. -/
theorem advanceSpawn_updates :
    (current = .requested ∧ next = .reserved ∨ current = .reserved ∧ next = .starting) ∧
      (∃ row, s.findCommand key = some row ∧ row.state = current ∧ row.generation = generation ∧
        s'.findCommand = update s.findCommand key (some { row with state := next })) ∧
      (current = .requested → ∃ record, s.findRecord key = some record ∧
        record.state = .prepared ∧ s'.findRecord =
          update s.findRecord key (some { record with state := .dispatching })) ∧
      (current ≠ .requested → s'.findRecord = s.findRecord) := by
  simp only [advanceSpawn, ok_iff] at h
  obtain ⟨-, ⟨-, hedge⟩, _, hrecords, _, hcommands, rfl⟩ := h
  obtain ⟨row, hfind, hgeneration, hstate, hafter⟩ := updateCommand_spec hcommands fun _ => rfl
  unfold dispatchRecord at hrecords
  refine ⟨hedge, ⟨row, hfind, by simpa using hstate, hgeneration, hafter⟩, ?_, ?_⟩
  · intro hrequested
    rw [if_pos hrequested] at hrecords
    obtain ⟨record, hrecord, hprepared, hafterRecord⟩ := updateRecord_spec hrecords fun _ => rfl
    exact ⟨record, hrecord, by simpa using hprepared, hafterRecord⟩
  · intro hrequested
    rw [if_neg hrequested] at hrecords
    cases hrecords
    rfl

theorem advanceSpawn_spec :
    next.isTerminal = false ∧ s'.canon = s.canon ∧ ∃ row, s.findCommand key = some row ∧
      row.state = current ∧ row.generation = generation ∧
      s'.findCommand = update s.findCommand key (some { row with state := next }) := by
  obtain ⟨hedge, hrow, hdispatch, hkeep⟩ := advanceSpawn_updates h
  refine ⟨?_, ?_, hrow⟩
  · rcases hedge with ⟨-, rfl⟩ | ⟨-, rfl⟩ <;> rfl
  · by_cases hrequested : current = .requested
    · obtain ⟨_, hrecord, -, hafter⟩ := hdispatch hrequested
      exact canon_update hrecord hafter rfl
    · exact canon_congr (hkeep hrequested)

end

theorem advanceSpawn_requested_eq_ok (hkind : key.operationKind = .spawn)
    (hrecord : s.findRecord key = some record) (hprepared : record.state = .prepared)
    (hfind : s.findCommand key = some row) (hrequested : row.state = .requested)
    (hsql : (row.generation : Int) ≤ i64Max) :
    ∃ s', s.advanceSpawn key row.generation .requested .reserved = .ok s' := by
  obtain ⟨records, hrecords⟩ : ∃ records, s.dispatchRecord key .requested = .ok records := by
    unfold dispatchRecord
    rw [if_pos rfl]
    exact updateRecord_eq_ok hrecord (by simp [hprepared]) fun _ => rfl
  obtain ⟨commands, hcommands⟩ : ∃ commands, s.updateCommand key row.generation
      (fun row => row.state = .requested) (fun row => { row with state := .reserved }) =
        .ok commands :=
    updateCommand_eq_ok hfind hsql (by simp [hrequested]) fun _ => rfl
  refine ⟨⟨records, commands⟩, ?_⟩
  simp only [advanceSpawn, ok_iff]
  exact ⟨(), ⟨hkind, by simp⟩, records, hrecords, commands, hcommands, rfl⟩

theorem advanceSpawnWithDefinition_spec {definition : ResolvedAgentDefinition}
    (h : s.advanceSpawnWithDefinition key generation current next definition = .ok s') :
    s'.findRecord = s.findRecord ∧ ∃ row, s.findCommand key = some row ∧ row.state = .reserved ∧
      row.generation = generation ∧ s'.findCommand = update s.findCommand key
        (some { row with state := .starting, resolvedDefinition := some definition }) := by
  simp only [advanceSpawnWithDefinition, ok_iff] at h
  obtain ⟨-, -, _, hcommands, rfl⟩ := h
  obtain ⟨row, hfind, hgeneration, hstate, hafter⟩ := updateCommand_spec hcommands fun _ => rfl
  exact ⟨rfl, row, hfind, by simpa using hstate, hgeneration, hafter⟩

variable {issue : SpawnCommandIssue}

theorem issueColumns_eq_some {columns : IssueColumns}
    (h : issueColumns generation issue = some columns) :
    (∃ name instanceId definition, issue = .connected name generation instanceId definition ∧
        columns = ⟨.connected, some instanceId, ⟨some .accepted, none, none⟩⟩) ∨
      (∃ category reason, issue = .failed category reason ∧
        columns = ⟨.failed, none, ⟨some .rejected, some category, some reason⟩⟩) ∨
      ∃ reason, issue = .cancelled reason ∧
        columns = ⟨.cancelled, none, ⟨some .rejected, some "cancelled", some reason⟩⟩ := by
  cases issue with
  | connected name _ instanceId definition =>
    simp only [issueColumns, Option.ite_none_right_eq_some, Option.some.injEq] at h
    obtain ⟨⟨rfl, -⟩, rfl⟩ := h
    exact .inl ⟨name, instanceId, definition, rfl, rfl⟩
  | failed category reason =>
    simp only [issueColumns, Option.ite_none_right_eq_some, Option.some.injEq] at h
    obtain ⟨-, rfl⟩ := h
    exact .inr (.inl ⟨category, reason, rfl, rfl⟩)
  | cancelled reason =>
    simp only [issueColumns, Option.ite_none_right_eq_some, Option.some.injEq] at h
    obtain ⟨-, rfl⟩ := h
    exact .inr (.inr ⟨reason, rfl, rfl⟩)

section

variable (h : s.finishSpawn key generation issue = .ok s')

include h

/-- The row and the record of a command in flight end together. -/
theorem finishSpawn_updates :
    ∃ row record columns, s.findCommand key = some row ∧ s.findRecord key = some record ∧
      row.state.isTerminal = false ∧ row.generation = generation ∧ record.state ≠ .terminal ∧
      issueColumns generation issue = some columns ∧
      (columns.kind = .connected → row.instanceId = columns.instanceId) ∧
      s'.findCommand = update s.findCommand key (some (finishedRow columns row)) ∧
      s'.findRecord = update s.findRecord key
        (some { record with state := .terminal, result := columns.result }) := by
  simp only [finishSpawn, ok_iff] at h
  obtain ⟨-, -, columns, hcolumns, _, hcommands, _, hrecords, rfl⟩ := h
  obtain ⟨row, hfind, hgeneration, hguard, hafter⟩ := updateCommand_spec hcommands fun _ => rfl
  obtain ⟨record, hrecord, hopen, hafterRecord⟩ := updateRecord_spec hrecords fun _ => rfl
  obtain ⟨hstate, hinstance⟩ : row.state.isTerminal = false ∧
      (columns.kind = .connected → row.instanceId = columns.instanceId) := by
    simpa [imp_iff_not_or] using hguard
  exact ⟨row, record, columns, hfind, hrecord, hstate, hgeneration, by simpa using hopen, hcolumns,
    hinstance, hafter, hafterRecord⟩

theorem finishSpawn_spec :
    s'.canon = s.canon ∧ ∃ row columns, s.findCommand key = some row ∧
      row.state.isTerminal = false ∧ row.generation = generation ∧
      issueColumns generation issue = some columns ∧
      (finishedRow columns row).instanceId = row.instanceId ∧
      s'.findCommand = update s.findCommand key (some (finishedRow columns row)) := by
  obtain ⟨row, record, columns, hfind, hrecord, hstate, hgeneration, -, hcolumns, hinstance, hafter,
    hafterRecord⟩ := finishSpawn_updates h
  refine ⟨canon_update hrecord hafterRecord rfl, row, columns, hfind, hstate, hgeneration, hcolumns,
    ?_, hafter⟩
  obtain ⟨_, _, _, -, rfl⟩ | ⟨_, _, -, rfl⟩ | ⟨_, -, rfl⟩ := issueColumns_eq_some hcolumns
  · rw [hinstance rfl]
    rfl
  · rfl
  · rfl

end

theorem commandOrder_iff {a b : SpawnCommandRow} : commandOrder a b ↔
    toLex (a.generation, a.commandId) ≤ toLex (b.generation, b.commandId) := by
  simp [commandOrder, Prod.Lex.toLex_le_toLex]

instance : Std.Total commandOrder where
  total a b := by
    simp only [commandOrder_iff]
    exact le_total _ _

instance : IsTrans SpawnCommandRow commandOrder where
  trans a b c := by
    simp only [commandOrder_iff]
    exact le_trans

variable {issuerScope : String} {commands : List SpawnCommand}

section

variable (h : s.spawnCommands codec issuerScope = .ok commands)

include h

theorem spawnCommands_eq_ok :
    ∃ rows : List SpawnCommandRow,
      (∀ row, row ∈ rows ↔ row ∈ s.commands ∧ row.issuerScope = issuerScope) ∧
      rows.Pairwise (fun a b => commandOrder a b ∧ ¬ UniqueKeys.conflicts a b) ∧
      rows.mapM (s.readCommand codec) = .ok commands := by
  simp only [spawnCommands, bind_eq_ok] at h
  obtain ⟨-, -, hread⟩ := h
  refine ⟨_, fun row => ?_, (List.pairwise_insertionSort commandOrder _).and ?_, hread⟩
  · rw [List.mem_insertionSort, mem_select, decide_eq_true_eq]
  · refine ((List.perm_insertionSort _ _).pairwise_iff ?_).mpr (s.commands.unique.filter _)
    exact fun hab hba => hab (UniqueKeys.symm _ _ hba)

theorem spawnCommands_spec :
    (∀ command ∈ commands, ∃ row,
      s.findCommand ⟨issuerScope, .spawn, command.commandId⟩ = some row ∧
        ReadFrom codec s row command) ∧
    ∀ commandId row, s.findCommand ⟨issuerScope, .spawn, commandId⟩ = some row →
      commandId ∈ commands.map SpawnCommand.commandId := by
  obtain ⟨rows, hmem, -, hread⟩ := spawnCommands_eq_ok h
  obtain ⟨hall, hfrom⟩ := mapM_eq_ok hread
  constructor
  · intro command hcommand
    obtain ⟨row, hrow, hreads⟩ := hfrom command hcommand
    obtain ⟨hstored, rfl⟩ := (hmem row).mp hrow
    have hreads := readCommand_eq_ok hreads
    refine ⟨row, findCommand_eq_some.mpr ⟨hstored, ?_⟩, hreads⟩
    rw [hreads.commandId]
    rfl
  · intro commandId row hfind
    obtain ⟨hstored, hkey⟩ := findCommand_eq_some.mp hfind
    have hscope : row.issuerScope = issuerScope := congrArg IdempotencyKey.issuerScope hkey
    obtain ⟨command, hcommand, hreads⟩ := hall row ((hmem row).mpr ⟨hstored, hscope⟩)
    refine List.mem_map.mpr ⟨command, hcommand, ?_⟩
    rw [(readCommand_eq_ok hreads).commandId]
    exact congrArg IdempotencyKey.idempotencyKey hkey

theorem spawnCommands_sorted :
    commands.Pairwise fun a b => a.generation ≤ b.generation ∧ a.commandId ≠ b.commandId := by
  obtain ⟨rows, hmem, hsorted, hread⟩ := spawnCommands_eq_ok h
  refine mapM_pairwise hread hsorted ?_
  rintro x hx x' hx' _ _ ⟨horder, hkeys⟩ hy hy'
  have hy := readCommand_eq_ok hy
  have hy' := readCommand_eq_ok hy'
  rw [hy.generation, hy'.generation, hy.commandId, hy'.commandId]
  constructor
  · rcases horder with hlt | ⟨heq, -⟩
    · exact hlt.le
    · exact heq.le
  · intro hid
    apply hkeys
    change x.key = x'.key
    rw [SpawnCommandRow.key, SpawnCommandRow.key, hid, ((hmem x).mp hx).2, ((hmem x').mp hx').2]

end

end SpawnStore

end Bridget.Idempotency
