import Bridget.Foundation.Run
import Bridget.Idempotency.SpawnCommands

/-!
# Sagas and their records

A launch is kept twice: as a row that says how far it is and, in the end, how it went, and as
the idempotency record that answers a repeated order. Each call moves both in one transaction,
so that they always tell the same story.
-/

namespace Bridget.Idempotency

open Foundation SpawnStore Function Option

/-- Expired records are deleted, and with them, by the foreign key, their rows. -/
def SpawnStore.purgeExpired (s : SpawnStore) (now : Int) : SpawnStore :=
  { records := s.records.delete fun r => r.expiresAt ≤ now
    commands := s.commands.delete fun row =>
      s.records.rows.any fun r => r.key = row.key && r.expiresAt ≤ now }

inductive SpawnCall where
  | reserve (key : IdempotencyKey) (canonicalBytes : Bytes)
      (issuedAt horizonSecs now issuedAtToleranceSecs : Int) (request : SpawnStore.SpawnRequest)
  | advance (key : IdempotencyKey) (generation : Nat) (current next : SpawnCommandState)
  | advanceWithDefinition (key : IdempotencyKey) (generation : Nat)
      (current next : SpawnCommandState) (definition : ResolvedAgentDefinition)
  | finish (key : IdempotencyKey) (generation : Nat) (issue : SpawnCommandIssue)
  | purgeExpired (now : Int)

def SpawnStore.exec (codec : SpawnCodec) (s : SpawnStore) :
    SpawnCall → Result (Option SpawnReservation × SpawnStore)
  | .reserve key canonicalBytes issuedAt horizonSecs now tolerance request => do
      let (reservation, s) ←
        s.reserveSpawn codec key canonicalBytes issuedAt horizonSecs now tolerance request
      return (some reservation, s)
  | .advance key generation current next => do
      let s ← s.advanceSpawn key generation current next
      return (none, s)
  | .advanceWithDefinition key generation current next definition => do
      let s ← s.advanceSpawnWithDefinition key generation current next definition
      return (none, s)
  | .finish key generation issue => do
      let s ← s.finishSpawn key generation issue
      return (none, s)
  | .purgeExpired now => .ok (none, s.purgeExpired now)

structure SagaAccount where
  name : String
  definition : Option ResolvedAgentDefinition
  issues : List SpawnCommandIssue

def SpawnCall.report (call : SpawnCall) (answer : Option SpawnReservation)
    (accounts : IdempotencyKey → SagaAccount) : IdempotencyKey → SagaAccount :=
  match call, answer with
  | .reserve key _ _ _ _ _ request, some (.requested _) =>
    update accounts key ⟨request.name, none, []⟩
  | .advanceWithDefinition key _ _ _ definition, _ =>
    update accounts key { accounts key with definition := some definition }
  | .finish key _ issue, _ =>
    update accounts key
      { accounts key with issues := (accounts key).issues ++ [issue] }
  | _, _ => accounts

/-- The store, with what was told of each launch. -/
structure SagaState where
  store : SpawnStore
  accounts : IdempotencyKey → SagaAccount

def SagaState.init : SagaState := ⟨.init, fun _ => ⟨"", none, []⟩⟩

/-- A call that fails is rolled back. -/
def SagaState.step (codec : SpawnCodec) (s : SagaState) (call : SpawnCall) : SagaState :=
  match s.store.exec codec call with
  | .ok (answer, store) => ⟨store, call.report answer s.accounts⟩
  | .error _ => s

/-- A row and the record under its key tell the same. -/
def Matches (row : SpawnCommandRow) (record : RecordRow) : Prop :=
  match row.state with
  | .requested => record.state = .prepared
  | .reserved | .starting => record.state = .dispatching
  | .connected => record.state = .terminal ∧ record.result = ⟨some .accepted, none, none⟩
  | .failed => ∃ category reason, row.issueCategory = some category ∧
      row.issueReason = some reason ∧ record.state = .terminal ∧
      record.result = ⟨some .rejected, some category, some reason⟩
  | .cancelled => ∃ reason, row.issueCategory = some "cancelled" ∧
      row.issueReason = some reason ∧ record.state = .terminal ∧
      record.result = ⟨some .rejected, some "cancelled", some reason⟩

/-- A connected launch is told under the name and the definition that its row keeps. -/
def SpawnCommandIssue.retold (account : SagaAccount) : SpawnCommandIssue → SpawnCommandIssue
  | .connected _ generation instanceId _ =>
    .connected account.name generation instanceId account.definition
  | .failed category reason => .failed category reason
  | .cancelled reason => .cancelled reason

inductive Progress (row : SpawnCommandRow) (record : RecordRow) : List SpawnCommandIssue → Prop
  | inFlight (hkind : row.issueKind = none) (hstate : row.state.isTerminal = false)
      (hmatches : Matches row record) : Progress row record []
  | ended {issue : SpawnCommandIssue} {columns : SpawnStore.IssueColumns}
      (hcolumns : issueColumns row.generation issue = some columns)
      (hrow : row = finishedRow columns row)
      (hstate : record.state = .terminal) (hresult : record.result = columns.result) :
      Progress row record [issue]

/-- The row, the record and the account of one launch. -/
structure Agree (codec : SpawnCodec) (account : SagaAccount) (row : SpawnCommandRow)
    (record : RecordRow) : Prop where
  name : row.name = account.name
  definition : row.resolvedDefinition = account.definition
  canonical : validateCanonicalBytes record.canonicalBytes = .ok () ∧
    ∃ placement, remotePlacementFromCanonical codec record.canonicalBytes = .ok placement
  progress : Progress row record account.issues

/-- A row never stands without its record, nor a record without its row. -/
inductive Paired (codec : SpawnCodec) (account : SagaAccount) :
    Option SpawnCommandRow → Option RecordRow → Prop
  | absent : Paired codec account none none
  | present {row : SpawnCommandRow} {record : RecordRow} (h : Agree codec account row record) :
      Paired codec account (some row) (some record)

def SagaState.Sound (codec : SpawnCodec) (s : SagaState) : Prop :=
  ∀ key, Paired codec (s.accounts key) (s.store.findCommand key) (s.store.findRecord key)

variable {codec : SpawnCodec} {account : SagaAccount} {row : SpawnCommandRow} {record : RecordRow}
  {s s' : SagaState} {key : IdempotencyKey} {issue : SpawnCommandIssue} {canonicalBytes : Bytes}
  {request : SpawnStore.SpawnRequest}

theorem Progress.matches {issues : List SpawnCommandIssue} (h : Progress row record issues) :
    Matches row record := by
  cases h with
  | inFlight _ _ hmatches => exact hmatches
  | ended hcolumns hrow hstate hresult =>
    obtain ⟨_, _, _, -, rfl⟩ | ⟨category, reason, -, rfl⟩ | ⟨reason, -, rfl⟩ :=
      issueColumns_eq_some hcolumns
    · rw [Matches, hrow]
      exact ⟨hstate, hresult⟩
    · rw [Matches, hrow]
      exact ⟨category, reason, rfl, rfl, hstate, hresult⟩
    · rw [Matches, hrow]
      exact ⟨reason, rfl, rfl, hstate, hresult⟩

/-- The columns of an ended launch spell out its issue, and the record confirms it. -/
theorem Agree.ended (h : Agree codec account row record) (hissues : account.issues = [issue]) :
    record.state = .terminal ∧ row.issue = .ok (some (issue.retold account)) ∧
      record.validateSpawnIssue (issue.retold account) = .ok () := by
  have hprogress := h.progress
  rw [hissues] at hprogress
  cases hprogress with
  | ended hcolumns hrow hstate hresult =>
    obtain ⟨_, _, _, rfl, rfl⟩ | ⟨_, reason, rfl, rfl⟩ | ⟨reason, rfl, rfl⟩ :=
      issueColumns_eq_some hcolumns
    · refine ⟨hstate, ?_, ensure_eq_ok.mpr hresult⟩
      rw [SpawnCommandIssue.retold, ← h.name, ← h.definition, hrow]
      rfl
    all_goals
      refine ⟨hstate, ?_, ensure_eq_ok.mpr hresult⟩
      rw [hrow]
      rfl

theorem Agree.inFlight (h : Agree codec account row record) (hissues : account.issues = []) :
    record.state ≠ .terminal ∧ row.state.isTerminal = false ∧ row.issue = .ok none := by
  have hprogress := h.progress
  rw [hissues] at hprogress
  cases hprogress with
  | inFlight hkind hstate =>
    refine ⟨?_, hstate, ?_⟩
    · intro _
      cases hcurrent : row.state <;>
        simp_all [Matches, SpawnCommandState.isTerminal]
    · simp only [SpawnCommandRow.issue, hkind, bind_eq_ok, ensure_eq_ok]
      exact ⟨(), hstate, rfl⟩

/-- At most one issue is told of a launch. -/
theorem Progress.issues {issues : List SpawnCommandIssue} (h : Progress row record issues) :
    issues = [] ∨ ∃ issue, issues = [issue] := by
  cases h with
  | inFlight => exact .inl rfl
  | ended => exact .inr ⟨_, rfl⟩

theorem SagaState.Sound.of_command (h : s.Sound codec)
    (hfind : s.store.findCommand key = some row) :
    ∃ record, s.store.findRecord key = some record ∧ Agree codec (s.accounts key) row record := by
  have hpaired := h key
  rw [hfind] at hpaired
  generalize hrecord : s.store.findRecord key = found at hpaired
  cases hpaired with
  | present hagree => exact ⟨_, rfl, hagree⟩

theorem SagaState.Sound.of_record (h : s.Sound codec)
    (hfind : s.store.findRecord key = some record) :
    ∃ row, s.store.findCommand key = some row ∧ Agree codec (s.accounts key) row record := by
  have hpaired := h key
  rw [hfind] at hpaired
  generalize hrow : s.store.findCommand key = found at hpaired
  cases hpaired with
  | present hagree => exact ⟨_, rfl, hagree⟩

/-- A call that touches the launch under one key has to keep only that one. -/
theorem SagaState.Sound.update (h : s.Sound codec)
    (hcommand : s'.store.findCommand = update s.store.findCommand key (some row))
    (hrecord : s'.store.findRecord = update s.store.findRecord key (some record))
    (haccount : s'.accounts = update s.accounts key account)
    (hagree : Agree codec account row record) : s'.Sound codec := by
  intro k
  rw [hcommand, hrecord, haccount]
  by_cases hk : k = key
  · subst hk
    rw [update_self, update_self, update_self]
    exact .present hagree
  · rw [update_of_ne hk, update_of_ne hk, update_of_ne hk]
    exact h k

/-- A row is deleted exactly when its record is. -/
theorem SpawnStore.findCommand_purgeExpired (store : SpawnStore) (now : Int)
    (key : IdempotencyKey) :
    (store.purgeExpired now).findCommand key = (store.findCommand key).filter fun _ =>
        !(store.findRecord key).any fun r => decide (r.expiresAt ≤ now) := by
  apply (Table.find?_delete (pinsKey_command key)).trans
  change (store.findCommand key).filter _ = _
  cases hfind : store.findCommand key with
  | none => rfl
  | some row =>
    have hkey : row.key = key := (findCommand_eq_some.mp hfind).2
    have hexpired : (store.records.rows.any fun r => r.key = row.key && r.expiresAt ≤ now) =
        (store.findRecord key).any fun r => decide (r.expiresAt ≤ now) := by
      rw [Bool.eq_iff_iff, List.any_eq_true, any_eq_true]
      simp only [hkey, test_iff, findRecord_eq_some, Table.mem_rows, and_assoc]
    rw [filter_some, filter_some, hexpired]

theorem SagaState.Sound.purge (h : s.Sound codec) (now : Int) :
    SagaState.Sound codec ⟨s.store.purgeExpired now, s.accounts⟩ := by
  intro k
  have hpaired := h k
  have hkept : (s.store.purgeExpired now).findRecord k =
      (s.store.findRecord k).filter fun r => !decide (r.expiresAt ≤ now) :=
    Table.find?_delete (pinsKey_record k)
  rw [findCommand_purgeExpired, hkept]
  generalize s.store.findCommand k = row at hpaired
  generalize s.store.findRecord k = record at hpaired
  cases hpaired with
  | absent => exact .absent
  | @present _ _ hagree =>
    rw [filter_some, filter_some, any_some]
    split
    · exact .present hagree
    · exact .absent

theorem Agree.requested {issuedAt expiresAt : Int} {placement : Option RemotePlacement}
    (hvalid : validateCanonicalBytes canonicalBytes = .ok ())
    (hplacement : remotePlacementFromCanonical codec canonicalBytes = .ok placement) :
    Agree codec ⟨request.name, none, []⟩ (requestedRow key request expiresAt)
      ⟨key, canonicalBytes, .prepared, .unset, issuedAt, expiresAt⟩ :=
  ⟨rfl, rfl, ⟨hvalid, placement, hplacement⟩, .inFlight rfl rfl rfl⟩

theorem Agree.issues_eq_nil (h : Agree codec account row record)
    (hstate : row.state.isTerminal = false) :
    account.issues = [] ∧ row.issueKind = none ∧ Matches row record := by
  generalize hissues : account.issues = issues at *
  cases hissues ▸ h.progress with
  | inFlight hkind _ hmatches => exact ⟨rfl, hkind, hmatches⟩
  | ended hcolumns hrow =>
    rw [hrow] at hstate
    obtain ⟨_, _, _, -, rfl⟩ | ⟨_, _, -, rfl⟩ | ⟨_, -, rfl⟩ := issueColumns_eq_some hcolumns <;>
      cases hstate

variable {store : SpawnStore}

section

variable (h : s.Sound codec) {generation : Nat}

include h

theorem SagaState.Sound.reserve {issuedAt horizonSecs now tolerance : Int}
    {reservation : SpawnReservation}
    (hreserve : s.store.reserveSpawn codec key canonicalBytes issuedAt horizonSecs now tolerance
      request = .ok (reservation, store)) :
    SagaState.Sound codec ⟨store, (SpawnCall.reserve key canonicalBytes issuedAt horizonSecs now
      tolerance request).report (some reservation) s.accounts⟩ := by
  obtain ⟨rfl, hnew, -⟩ | ⟨_, _, hplacement, rfl, hkind, hinsert⟩ := reserveSpawn_spec hreserve
  · cases reservation with
    | requested command => exact absurd rfl (hnew command)
    | _ => exact h
  · obtain ⟨-, -, hcommand, hrecord⟩ := insertSpawn_spec hkind hinsert
    simp only [reserveSpawn, bind_eq_ok] at hreserve
    obtain ⟨_, -, _, hvalid, -⟩ := hreserve
    exact h.update hcommand hrecord rfl (Agree.requested hvalid hplacement)

theorem SagaState.Sound.advance {current next : SpawnCommandState}
    (hadvance : s.store.advanceSpawn key generation current next = .ok store) :
    SagaState.Sound codec ⟨store, s.accounts⟩ := by
  obtain ⟨hedge, ⟨row, hfind, hcurrent, -, hcommand⟩, hdispatch, hkeep⟩ :=
    advanceSpawn_updates hadvance
  obtain ⟨record, hrecord, hagree⟩ := h.of_command hfind
  have hstate : row.state.isTerminal = false := by
    rcases hedge with ⟨rfl, -⟩ | ⟨rfl, -⟩ <;> rw [hcurrent] <;> rfl
  obtain ⟨hissues, hkind, hmatches⟩ := hagree.issues_eq_nil hstate
  have haccount : s.accounts = Function.update s.accounts key (s.accounts key) :=
    (update_eq_self _ _).symm
  rcases hedge with ⟨rfl, rfl⟩ | ⟨rfl, rfl⟩
  · obtain ⟨_, hfound, -, hafter⟩ := hdispatch rfl
    cases hrecord.symm.trans hfound
    refine h.update hcommand hafter haccount ⟨hagree.name, hagree.definition, hagree.canonical, ?_⟩
    rw [hissues]
    exact .inFlight hkind rfl rfl
  · have hafter : store.findRecord = Function.update s.store.findRecord key (some record) := by
      rw [hkeep (by decide), ← hrecord, update_eq_self]
    refine h.update hcommand hafter haccount ⟨hagree.name, hagree.definition, hagree.canonical, ?_⟩
    rw [hissues]
    rw [Matches, hcurrent] at hmatches
    exact .inFlight hkind rfl hmatches

theorem SagaState.Sound.advanceWithDefinition
    {current next : SpawnCommandState} {definition : ResolvedAgentDefinition}
    (hadvance : s.store.advanceSpawnWithDefinition key generation current next definition =
      .ok store) :
    SagaState.Sound codec ⟨store, Function.update s.accounts key
      { s.accounts key with definition := some definition }⟩ := by
  obtain ⟨hkeep, _, hfind, hcurrent, -, hcommand⟩ := advanceSpawnWithDefinition_spec hadvance
  obtain ⟨record, hrecord, hagree⟩ := h.of_command hfind
  obtain ⟨hissues, hkind, hmatches⟩ := hagree.issues_eq_nil (by rw [hcurrent]; rfl)
  have hafter : store.findRecord = Function.update s.store.findRecord key (some record) := by
    rw [hkeep, ← hrecord, Function.update_eq_self]
  refine h.update hcommand hafter rfl ⟨hagree.name, rfl, hagree.canonical, ?_⟩
  rw [hissues]
  rw [Matches, hcurrent] at hmatches
  exact .inFlight hkind rfl hmatches

theorem SagaState.Sound.finish (hfinish : s.store.finishSpawn key generation issue = .ok store) :
    SagaState.Sound codec ⟨store, Function.update s.accounts key
      { s.accounts key with issues := (s.accounts key).issues ++ [issue] }⟩ := by
  obtain ⟨row, found, columns, hfind, hfound, hstate, hgeneration, -, hcolumns, hinstance, hcommand,
    hafter⟩ := finishSpawn_updates hfinish
  obtain ⟨_, hrecord, hagree⟩ := h.of_command hfind
  cases hrecord.symm.trans hfound
  obtain ⟨hissues, -, -⟩ := hagree.issues_eq_nil hstate
  refine h.update hcommand hafter rfl ⟨hagree.name, hagree.definition, hagree.canonical, ?_⟩
  rw [hissues]
  subst hgeneration
  refine .ended hcolumns ?_ rfl rfl
  simp only [finishedRow, ← Option.or_assoc, Option.or_self]

theorem SagaState.Sound.step (call : SpawnCall) : (s.step codec call).Sound codec := by
  unfold SagaState.step
  split
  next hexec =>
    cases call
    case purgeExpired now =>
      cases hexec
      exact h.purge now
    all_goals simp only [exec, ok_iff, pair_iff] at hexec
    case reserve =>
      obtain ⟨_, _, hreserve, rfl, rfl⟩ := hexec
      exact h.reserve hreserve
    case advance =>
      obtain ⟨_, hadvance, rfl, rfl⟩ := hexec
      exact h.advance hadvance
    case advanceWithDefinition =>
      obtain ⟨_, hadvance, rfl, rfl⟩ := hexec
      exact h.advanceWithDefinition hadvance
    case finish =>
      obtain ⟨_, hfinish, rfl, rfl⟩ := hexec
      exact h.finish hfinish
  · exact h

end

theorem SpawnStore.readCommand_agree (hrecord : store.findRecord row.key = some record)
    (hagree : Agree codec account row record) {issue : Option SpawnCommandIssue}
    (hissue : row.issue = .ok issue) :
    ∃ command, store.readCommand codec row = .ok command ∧ command.issue = issue ∧
      command.state = row.state := by
  obtain ⟨-, placement, hplacement⟩ := hagree.canonical
  obtain ⟨command, hread⟩ : ∃ command, store.readCommand codec row = .ok command := by
    simp only [readCommand, spawnCommandFromRow, hrecord, ok_iff, mapError_eq_ok]
    exact ⟨_, _, rfl, placement, hplacement, issue, hissue, rfl⟩
  have hfrom := readCommand_eq_ok hread
  refine ⟨command, hread, ?_, hfrom.state⟩
  exact Except.ok.inj (hfrom.issue.symm.trans hissue)

/-- A record answers a repeated order with what was told of the launch. -/
theorem SagaState.Sound.replay (h : s.Sound codec) (hfind : s.store.findRecord key = some record)
    (canonicalBytes : Bytes) (now : Int) :
    ∃ reservation, s.store.replaySpawn codec key canonicalBytes now record = .ok reservation ∧
      (record.canonicalBytes = canonicalBytes → now < record.expiresAt →
        (s.accounts key).issues = [] ∧ (∃ command, reservation = .inFlight command) ∨
          ∃ issue, (s.accounts key).issues = [issue] ∧
            reservation = .replayed (issue.retold (s.accounts key))) := by
  obtain ⟨row, hrow, hagree⟩ := h.of_record hfind
  have hkey : row.key = key := (findCommand_eq_some.mp hrow).2
  unfold replaySpawn
  split
  next hexpired => exact ⟨_, rfl, fun _ hnow => absurd hexpired (not_le.mpr hnow)⟩
  split
  next hmismatch => exact ⟨_, rfl, fun hsame _ => absurd hsame hmismatch⟩
  obtain hissues | ⟨issue, hissues⟩ := hagree.progress.issues
  · obtain ⟨hrecord, hstate, hissue⟩ := hagree.inFlight hissues
    obtain ⟨command, hread, -, hcommand⟩ :=
      readCommand_agree (by rw [hkey]; exact hfind) hagree hissue
    refine ⟨.inFlight command, ?_, fun _ _ => .inl ⟨hissues, command, rfl⟩⟩
    simp only [loadSpawnCommand, hrow, whenSome, ok_iff]
    refine ⟨some command, ⟨command, hread, rfl⟩, command, rfl, ?_⟩
    rw [if_neg hrecord]
    simp only [bind_eq_ok, ensure_eq_ok]
    exact ⟨(), hcommand ▸ hstate, rfl⟩
  · obtain ⟨hrecord, hissue, hvalid⟩ := hagree.ended hissues
    obtain ⟨command, hread, htold, -⟩ := readCommand_agree (by rw [hkey]; exact hfind) hagree hissue
    refine ⟨.replayed (issue.retold (s.accounts key)), ?_, fun _ _ => .inr ⟨issue, hissues, rfl⟩⟩
    simp only [loadSpawnCommand, hrow, whenSome, ok_iff]
    refine ⟨some command, ⟨command, hread, rfl⟩, command, rfl, ?_⟩
    rw [if_pos hrecord]
    simp only [ok_iff]
    exact ⟨_, htold, (), hvalid, rfl⟩

/-- The checks of a reservation before any table is read. -/
def Acceptable (key : IdempotencyKey) (issuedAt now tolerance : Int)
    (request : SpawnStore.SpawnRequest) : Prop :=
  (key.operationKind = .spawn ∧ request.name ≠ "" ∧ request.generation ≠ 0 ∧
    issuedAt < request.deadlineAt ∧ request.instanceId ≠ "") ∧
  issuedAt ≤ saturatingAdd now (max tolerance 0)
  deriving Decidable

variable {issuedAt horizonSecs now tolerance : Int}

theorem SagaState.Sound.reserve_replays (h : s.Sound codec)
    (hfind : s.store.findRecord key = some record) (hbytes : record.canonicalBytes = canonicalBytes)
    (hnow : now < record.expiresAt) (hacceptable : Acceptable key issuedAt now tolerance request) :
    (s.accounts key).issues = [] ∧ (∃ command, s.store.reserveSpawn codec key canonicalBytes
        issuedAt horizonSecs now tolerance request = .ok (.inFlight command, s.store)) ∨
      ∃ issue, (s.accounts key).issues = [issue] ∧
        s.store.reserveSpawn codec key canonicalBytes issuedAt horizonSecs now tolerance request =
          .ok (.replayed (issue.retold (s.accounts key)), s.store) := by
  obtain ⟨_, -, hagree⟩ := h.of_record hfind
  obtain ⟨hvalid, placement, hplacement⟩ := hagree.canonical
  rw [hbytes] at hvalid hplacement
  obtain ⟨reservation, hreplay, htold⟩ := h.replay hfind canonicalBytes now
  have hreserve : s.store.reserveSpawn codec key canonicalBytes issuedAt horizonSecs now tolerance
      request = .ok (reservation, s.store) := by
    simp only [reserveSpawn, ok_iff]
    refine ⟨(), hacceptable.1, (), hvalid, placement, hplacement, (), hacceptable.2, ?_⟩
    rw [hfind]
    simp only [bind_eq_ok]
    exact ⟨reservation, hreplay, rfl⟩
  obtain ⟨hissues, command, rfl⟩ | ⟨issue, hissues, rfl⟩ := htold hbytes hnow
  · exact .inl ⟨hissues, command, hreserve⟩
  · exact .inr ⟨issue, hissues, hreserve⟩

/-- An order is called corrupt only for what its own bytes say about its placement. -/
theorem SagaState.Sound.reserve_corrupt (h : s.Sound codec) {detail : String}
    (hreserve : s.store.reserveSpawn codec key canonicalBytes issuedAt horizonSecs now tolerance
      request = .error (.corruptRecord detail)) :
    remotePlacementFromCanonical codec canonicalBytes = .error (.corruptRecord detail) := by
  simp only [reserveSpawn, bind_eq_error, ensure_eq_error, validateCanonicalBytes,
    reduceCtorEq, and_false, false_or] at hreserve
  obtain ⟨-, -, -, -, hplacement | ⟨_, -, -, -, hreserve⟩⟩ := hreserve
  · exact hplacement
  split at hreserve
  next hfind =>
    obtain ⟨_, hreplay, -⟩ := h.replay hfind canonicalBytes now
    rw [hreplay, ok_bind] at hreserve
    cases hreserve
  simp only [bind_eq_error, ensure_eq_error, orError_eq_error, reduceCtorEq, and_false,
    false_or] at hreserve
  obtain ⟨-, -, _, -, hinsert⟩ := hreserve
  split at hinsert
  · cases hinsert
  simp only [insertSpawn, bind_eq_error, sql, mapError_eq_error, reduceCtorEq,
    and_false, exists_false, false_or] at hinsert
  obtain ⟨_, -, _, -, _, -, hinsert⟩ | ⟨_, -, hinsert⟩ := hinsert
  · cases hinsert
  · cases hinsert

/-- In every state reached, each row stands beside a record that tells the same; an order is
called corrupt only for its own bytes; a repeated order is told that the launch is in flight or
how it ended; and a call that fails changes nothing. -/
theorem saga_and_record_move_together (codec : SpawnCodec) {calls : List SpawnCall} {s : SagaState}
    (hrun : Runs (SagaState.step codec) .init calls s) :
    (∀ row ∈ s.store.commands, ∃ record ∈ s.store.records,
      record.key = row.key ∧ Matches row record) ∧
    (∀ key canonicalBytes issuedAt horizonSecs now tolerance request detail,
      s.store.reserveSpawn codec key canonicalBytes issuedAt horizonSecs now tolerance request =
          .error (.corruptRecord detail) →
        remotePlacementFromCanonical codec canonicalBytes = .error (.corruptRecord detail)) ∧
    (∀ key issuedAt horizonSecs now tolerance request, ∀ record ∈ s.store.records,
      record.key = key → now < record.expiresAt → Acceptable key issuedAt now tolerance request →
        (s.accounts key).issues = [] ∧ (∃ command, s.store.reserveSpawn codec key
            record.canonicalBytes issuedAt horizonSecs now tolerance request =
              .ok (.inFlight command, s.store)) ∨
          ∃ issue, (s.accounts key).issues = [issue] ∧
            s.store.reserveSpawn codec key record.canonicalBytes issuedAt horizonSecs now tolerance
              request = .ok (.replayed (issue.retold (s.accounts key)), s.store)) ∧
    ∀ call error, s.store.exec codec call = .error error → (s.step codec call).store = s.store := by
  have hsound : s.Sound codec := by
    apply hrun.invariant (SagaState.Sound codec)
    · exact fun _ call hsound _ => hsound.step call
    · exact fun _ => .absent
  refine ⟨?_, ?_, ?_, ?_⟩
  · intro row hrow
    obtain ⟨record, hrecord, hagree⟩ := hsound.of_command (findCommand_eq_some.mpr ⟨hrow, rfl⟩)
    obtain ⟨hmem, hkey⟩ := findRecord_eq_some.mp hrecord
    exact ⟨record, hmem, hkey, hagree.progress.matches⟩
  · intro key canonicalBytes issuedAt horizonSecs now tolerance request detail hreserve
    exact hsound.reserve_corrupt hreserve
  · intro key issuedAt horizonSecs now tolerance request record hmem hkey hnow hacceptable
    exact hsound.reserve_replays (findRecord_eq_some.mpr ⟨hmem, hkey⟩) rfl hnow
      hacceptable
  · intro call error hexec
    rw [SagaState.step, hexec]

def launchKey : IdempotencyKey := ⟨"supervisor-0000000000001", .spawn, "c1"⟩

def launchRequest : SpawnStore.SpawnRequest := ⟨"alice", 1, false, 50, "i1"⟩

def renamedLaunch : List SpawnCall :=
  [.reserve launchKey [0x6f] 10 100 10 0 launchRequest, .advance launchKey 1 .requested .reserved,
    .advanceWithDefinition launchKey 1 .reserved .starting ⟨"d1"⟩,
    .finish launchKey 1 (.connected "bob" 1 "i1" none)]

def strictCodec : SpawnCodec := ⟨fun _ => none, fun _ => false⟩

/-- The replay gives the name that was ordered, not the one that connected. -/
theorem renamed_launch_is_replayed :
    ∃ s, Runs (SagaState.step strictCodec) .init renamedLaunch s ∧
      (s.accounts launchKey).issues = [.connected "bob" 1 "i1" none] ∧
      s.store.reserveSpawn strictCodec launchKey [0x6f] 10 100 20 0 launchRequest =
        .ok (.replayed (.connected "alice" 1 "i1" (some ⟨"d1"⟩)), s.store) := by
  have hrun : Runs (SagaState.step strictCodec) .init renamedLaunch _ :=
    Run.of_allows (by decide +kernel)
  have hissues : ((renamedLaunch.foldl (SagaState.step strictCodec) .init).accounts
      launchKey).issues = [.connected "bob" 1 "i1" none] := by decide +kernel
  refine ⟨_, hrun, hissues, ?_⟩
  obtain ⟨-, -, hreplays, -⟩ := saga_and_record_move_together strictCodec hrun
  obtain ⟨hnone, -⟩ | ⟨_, hone, hreserve⟩ := hreplays launchKey 10 100 20 0 launchRequest
    ⟨launchKey, [0x6f], .terminal, ⟨some .accepted, none, none⟩, 10, 110⟩
    (Table.mem_rows.mp (by decide +kernel)) rfl (by decide) (by decide)
  · cases hnone
  · cases hissues.symm.trans hone
    exact hreserve

/-- The replay of a connected launch is not the issue that was reported, and an order is called
corrupt on an empty store. -/
theorem renamed_launch_is_not_told_as_reported :
    ((renamedLaunch.foldl (SagaState.step strictCodec) .init).store.reserveSpawn strictCodec
        launchKey [0x6f] 10 100 20 0 launchRequest).map Prod.fst =
      .ok (.replayed (.connected "alice" 1 "i1" (some ⟨"d1"⟩))) ∧
    SpawnCommandIssue.connected "alice" 1 "i1" (some ⟨"d1"⟩) ≠ .connected "bob" 1 "i1" none ∧
    (SpawnStore.init.reserveSpawn strictCodec launchKey [0x7b] 10 100 10 0 launchRequest).map
        Prod.fst = .error (.corruptRecord "placement canonique du spawn invalide") := by
  exact ⟨by decide +kernel, by decide, by decide +kernel⟩

end Bridget.Idempotency
