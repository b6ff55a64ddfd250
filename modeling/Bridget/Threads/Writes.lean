import Bridget.Threads.Pages

/-!
# What the operations write

Each operation is refused or answered from what is recorded, and then writes nothing, or it makes
its writes in order. The refusal of a confirmation by its base comes from a confirmation only.
-/

namespace Bridget.Threads

open Foundation

def ReadRequest.row (request : ReadRequest) (baseSeq throughSeq snapshotSeq : Nat) : ReadRow where
  threadId := request.threadId
  agentId := request.actor
  receiptId := request.receiptId
  baseSeq := baseSeq
  throughSeq := throughSeq
  snapshotSeq := snapshotSeq
  expiresAt := saturatingAdd request.now request.receiptTtlSecs
  requestedLimit := request.limit

/-- Who asked for an operation, under which name, and for what. -/
def OperationRow.envelope (row : OperationRow) : String × String × String :=
  (row.actorId, row.operationId, row.canonicalHash)

/-- An answer that comes without a write and does not blame the cursor. -/
def ThreadTxOutcome.isPlain : ThreadTxOutcome → Bool
  | .done _ | .refused .cursorConflict => false
  | _ => true

theorem ThreadTxOutcome.isPlain_refused {refusal : ThreadRefusal} (h : refusal ≠ .cursorConflict) :
    (ThreadTxOutcome.refused refusal).isPlain = true := by
  cases refusal <;> first | rfl | exact absurd rfl h

namespace ThreadStore

variable {size : PageEntry → Nat} {s s' : ThreadStore} {threadId agentId : String}

theorem loadThread_eq_some {t : ThreadRow} :
    s.loadThread threadId = some t ↔ t ∈ s.threads ∧ t.threadId = threadId := by
  rw [loadThread, Table.find?_eq_some, decide_eq_true_eq]
  intro _ _ ha hb
  exact (of_decide_eq_true ha).trans (of_decide_eq_true hb).symm

theorem loadMember_eq_some {m : MemberRow} :
    s.loadMember threadId agentId = some m ↔ m ∈ s.members ∧ m.key = (threadId, agentId) := by
  rw [loadMember, Table.find?_eq_some, decide_eq_true_eq]
  intro _ _ ha hb
  exact (of_decide_eq_true ha).trans (of_decide_eq_true hb).symm

theorem loadRead_eq_some {r : ReadRow} :
    s.loadRead threadId agentId = some r ↔ r ∈ s.reads ∧ r.key = (threadId, agentId) := by
  rw [loadRead, Table.find?_eq_some, decide_eq_true_eq]
  intro _ _ ha hb
  exact .inl ((of_decide_eq_true ha).trans (of_decide_eq_true hb).symm)

variable {actor : String} {thread : ThreadRow}

theorem loadThreadForMember_eq_ok {member : MemberRow} :
    s.loadThreadForMember threadId actor = .ok (thread, member) ↔
      s.loadThread threadId = some thread ∧ s.loadMember threadId actor = some member := by
  unfold loadThreadForMember
  split
  next hthread hmember => simp [hthread, hmember]
  next hnone =>
    simp only [reduceCtorEq, false_iff]
    rintro ⟨hthread, hmember⟩
    exact hnone _ _ hthread hmember

variable {refusal : ThreadRefusal}

theorem loadThreadForMember_error {threadId : String}
    (h : s.loadThreadForMember threadId actor = .error refusal) : refusal = .threadUnavailable := by
  unfold loadThreadForMember at h
  split at h <;> cases h
  rfl

variable {outcome : ThreadTxOutcome}

theorem lookupOperation_isPlain {operationId canonicalHash : String}
    (h : s.lookupOperation actor operationId canonicalHash = some outcome) :
    outcome.isPlain = true := by
  obtain ⟨_, -, rfl⟩ := Option.map_eq_some_iff.mp h
  split <;> rfl

/-! ## Threads and members -/

theorem threadCreate_cases {request : CreateThread}
    (h : s.threadCreate request = .ok (outcome, s')) :
    (s' = s ∧ outcome.isPlain = true) ∨
    ∃ threads middle row,
      row.envelope = (request.actor, request.operationId, request.canonicalHash) ∧
      s.threads.insert ⟨request.threadId, request.actor, request.title, request.now, none, 0, 0⟩ =
        .ok threads ∧
      request.members.foldlM (fun s member => s.insertMember request.threadId member)
        { s with threads } = .ok middle ∧
      middle.recordOperation row = .ok s' ∧ outcome = .done row.result := by
  unfold threadCreate at h
  split at h
  next hlookup =>
    cases h
    exact .inl ⟨rfl, lookupOperation_isPlain hlookup⟩
  split at h
  · cases h
    exact .inl ⟨rfl, rfl⟩
  split at h
  · cases h
    exact .inl ⟨rfl, rfl⟩
  simp only [ok_iff, sqlite_eq_ok, pair_iff] at h
  obtain ⟨threads, hinsert, middle, hmembers, _, hrecord, rfl, rfl⟩ := h
  exact .inr ⟨threads, middle, _, rfl, hinsert, hmembers, hrecord, rfl⟩

theorem threadAddMembers_cases {request : AddMembers}
    (h : s.threadAddMembers request = .ok (outcome, s')) :
    (s' = s ∧ outcome.isPlain = true) ∨
    ∃ (thread : ThreadRow) (added : List String) (middle : ThreadStore) (row : OperationRow),
      row.envelope = (request.actor, request.operationId, request.canonicalHash) ∧
      s.loadThread request.threadId = some thread ∧
      added.foldlM (fun s member => s.insertMember request.threadId member) s = .ok middle ∧
      middle.recordOperation row = .ok s' ∧ outcome = .done row.result := by
  unfold threadAddMembers at h
  split at h
  next hlookup =>
    cases h
    exact .inl ⟨rfl, lookupOperation_isPlain hlookup⟩
  split at h
  next hload =>
    cases h
    cases loadThreadForMember_error hload
    exact .inl ⟨rfl, rfl⟩
  rename_i thread _ hload
  obtain ⟨hthread, -⟩ := loadThreadForMember_eq_ok.mp hload
  dsimp only at h
  repeat' split at h
  all_goals
    first
    | (cases h; exact .inl ⟨rfl, rfl⟩)
    | (simp only [ok_iff, pair_iff] at h
       obtain ⟨middle, hmembers, _, hrecord, rfl, rfl⟩ := h
       exact .inr ⟨thread, _, middle, _, rfl, hthread, hmembers, hrecord, rfl⟩)

theorem threadClose_cases {request : CloseThread} (h : s.threadClose request = .ok (outcome, s')) :
    (s' = s ∧ outcome.isPlain = true) ∨
    ∃ threads n wakes n' row,
      row.envelope = (request.actor, request.operationId, request.canonicalHash) ∧
      s.threads.update (fun t => t.threadId = request.threadId)
        (fun t => { t with closedAt := some request.now }) = .ok (threads, n) ∧ s.wakes.update
        (fun w => w.threadId = request.threadId ∧ w.activeThroughSeq = none ∧
          w.state ∈ [.pending, .refused])
        (fun w => { w with state := .cancelled, reason := none }) = .ok (wakes, n') ∧
      { s with threads, wakes }.recordOperation row = .ok s' ∧ outcome = .done row.result := by
  unfold threadClose at h
  split at h
  next hlookup =>
    cases h
    exact .inl ⟨rfl, lookupOperation_isPlain hlookup⟩
  split at h
  next hload =>
    cases h
    cases loadThreadForMember_error hload
    exact .inl ⟨rfl, rfl⟩
  split at h
  · cases h
    exact .inl ⟨rfl, rfl⟩
  split at h
  · cases h
    exact .inl ⟨rfl, rfl⟩
  simp only [ok_iff, sqlite_eq_ok, pair_iff] at h
  obtain ⟨threads, n, hthreads, wakes, n', hwakes, _, hrecord, rfl, rfl⟩ := h
  exact .inr ⟨threads, n, wakes, n', _, rfl, hthreads, hwakes, hrecord, rfl⟩

/-! ## Confirmations -/

variable {member : MemberRow} {receipt : String} {joined : Option String}

def confirm (receipt : String) (through : Nat) (m : MemberRow) : MemberRow :=
  { m with ackedSeq := through, lastAckReceipt := some receipt, lastAckThroughSeq := some through }

/-- A confirmation that is refused, or repeated, writes nothing; the only other one finds the
active receipt of the member. -/
theorem applyAck_cases {applied : AckApplied}
    (h : s.applyAck threadId member receipt = .ok (applied, s')) :
    (s' = s ∧ (applied = .already member.ackedSeq ∧ member.lastAckReceipt = some receipt ∨
      applied = .refused .receiptInvalid ∧ s.loadRead threadId member.agentId = none ∨
      ∃ active, s.loadRead threadId member.agentId = some active ∧
        (applied = .refused .receiptObsolete ∧ active.receiptId ≠ receipt ∨
          applied = .refused .cursorConflict ∧ active.baseSeq ≠ member.ackedSeq))) ∨
    ∃ active members n, s.loadRead threadId member.agentId = some active ∧
      active.receiptId = receipt ∧ active.baseSeq = member.ackedSeq ∧
      applied = .acknowledged active.throughSeq ∧
      s.members.update (fun m => m.key = (threadId, member.agentId))
        (confirm active.receiptId active.throughSeq) = .ok (members, n) ∧
      { s with
        members
        reads := s.reads.delete fun r => r.key = (threadId, member.agentId) }.satisfyWake threadId
          member.agentId active.throughSeq = .ok s' := by
  unfold applyAck at h
  split at h
  next hlast =>
    cases h
    exact .inl ⟨rfl, .inl ⟨rfl, hlast⟩⟩
  split at h
  next hnone =>
    cases h
    exact .inl ⟨rfl, .inr (.inl ⟨rfl, hnone⟩)⟩
  rename_i active hactive
  split at h
  next hobsolete =>
    cases h
    exact .inl ⟨rfl, .inr (.inr ⟨active, hactive, .inl ⟨rfl, hobsolete⟩⟩)⟩
  rename_i hreceipt
  split at h
  next hconflict =>
    cases h
    exact .inl ⟨rfl, .inr (.inr ⟨active, hactive, .inr ⟨rfl, hconflict⟩⟩)⟩
  rename_i hbase
  push Not at hreceipt hbase
  simp only [ok_iff, sqlite_eq_ok, pair_iff] at h
  obtain ⟨members, n, hupdate, _, hsatisfy, rfl, rfl⟩ := h
  subst hreceipt
  exact .inr ⟨active, members, n, hactive, rfl, hbase, rfl, hupdate, hsatisfy⟩

/-- A deposit goes on after no confirmation, and after one that was applied or repeated. -/
theorem joinAck_eq_ok (h : s.joinAck threadId member joined = .ok (.ok s')) :
    joined = none ∧ s' = s ∨
      ∃ receipt applied, joined = some receipt ∧
        s.applyAck threadId member receipt = .ok (applied, s') := by
  cases joined with
  | none =>
    cases h
    exact .inl ⟨rfl, rfl⟩
  | some receipt =>
    simp only [joinAck, ok_iff, pair_iff] at h
    obtain ⟨applied, _, happly, h⟩ := h
    cases applied <;> cases h
    all_goals exact .inr ⟨receipt, _, rfl, happly⟩

theorem joinAck_error {threadId : String} {member : MemberRow}
    (h : s.joinAck threadId member joined = .ok (.error refusal)) :
    ∃ receipt s', s.applyAck threadId member receipt = .ok (.refused refusal, s') := by
  cases joined with
  | none => cases h
  | some receipt =>
    simp only [joinAck, ok_iff, pair_iff] at h
    obtain ⟨applied, next, happly, h⟩ := h
    cases applied <;> cases h
    exact ⟨receipt, next, happly⟩

/-- What a confirmation answers to its caller. -/
def AckAnswers (s' : ThreadStore) (threadId agentId : String) : AckApplied → AckOutcome → Prop
  | .acknowledged acked, outcome => outcome = .acknowledged acked (s'.loadWake threadId agentId)
  | .already acked, outcome => outcome = .alreadyAcknowledged acked (s'.loadWake threadId agentId)
  | .refused refusal, outcome => outcome = .refused refusal

theorem threadAck_cases {outcome : AckOutcome}
    (h : s.threadAck agentId threadId receipt = .ok (outcome, s')) :
    (s' = s ∧ ∃ refusal, outcome = .refused refusal ∧
      s.loadThreadForMember threadId agentId = .error refusal) ∨
    ∃ thread member applied, s.loadThread threadId = some thread ∧
      s.loadMember threadId agentId = some member ∧
      s.applyAck threadId member receipt = .ok (applied, s') ∧
      AckAnswers s' threadId agentId applied outcome := by
  unfold threadAck at h
  split at h
  next refusal hload =>
    cases h
    exact .inl ⟨rfl, refusal, rfl, hload⟩
  rename_i thread member hload
  obtain ⟨hthread, hmember⟩ := loadThreadForMember_eq_ok.mp hload
  simp only [ok_iff, pair_iff] at h
  obtain ⟨applied, _, happly, h⟩ := h
  cases applied <;> cases h
  all_goals exact .inr ⟨thread, member, _, hthread, hmember, happly, rfl⟩

/-! ## Deposits -/

variable {request : PostEntry} {targets : List String} {dormant : String → Bool}

theorem postGuard_error (h : s.postGuard request = .error refusal) : refusal ≠ .cursorConflict := by
  simp only [postGuard, bind_eq_error, ensure_eq_error, ensure_eq_ok] at h
  rcases h with hload | ⟨_, -, ⟨-, rfl⟩ | ⟨_, -, ⟨-, rfl⟩ | ⟨_, -, htargets |
    ⟨_, -, ⟨-, rfl⟩ | ⟨_, -, h⟩⟩⟩⟩⟩
  · rw [loadThreadForMember_error hload]
    simp
  · simp
  · simp
  · unfold notifyTargets at htargets
    split at htargets
    · cases htargets
    · cases htargets
    · dsimp only at htargets
      split at htargets <;> cases htargets
      simp
  · simp
  · cases h

theorem postCapacity_error (h : s.postCapacity request thread = .error refusal) :
    refusal ≠ .cursorConflict := by
  simp only [postCapacity, bind_eq_error, ensure_eq_error, ensure_eq_ok] at h
  rcases h with ⟨-, rfl⟩ | ⟨_, -, ⟨-, rfl⟩ | ⟨_, -, -, rfl⟩⟩
  all_goals simp

theorem depositEntry_done (h : s.depositEntry request thread targets dormant = .ok (outcome, s')) :
    ∃ (middle : ThreadStore) (row : OperationRow),
      row.envelope = (request.actor, request.operationId, request.canonicalHash) ∧
      middle.recordOperation row = .ok s' ∧ outcome = .done row.result := by
  simp only [depositEntry, ok_iff, pair_iff] at h
  obtain ⟨_, -, _, _, -, _, hrecord, rfl, rfl⟩ := h
  exact ⟨_, _, rfl, hrecord, rfl⟩

/-- A deposit whose confirmation is refused writes nothing; otherwise the entry comes after what
the confirmation wrote. -/
theorem threadPost_cases (h : s.threadPost request dormant = .ok (outcome, s')) :
    (s' = s ∧ outcome.isPlain = true) ∨
    ∃ thread member targets, s.loadThread request.threadId = some thread ∧
      s.loadMember request.threadId request.actor = some member ∧
      ((s' = s ∧ ∃ refusal, s.joinAck request.threadId member request.ackReceipt =
          .ok (.error refusal) ∧ outcome = .refused refusal) ∨
        ∃ acked, s.joinAck request.threadId member request.ackReceipt = .ok (.ok acked) ∧
          acked.postCapacity request thread = .ok () ∧
          acked.depositEntry request thread targets dormant = .ok (outcome, s')) := by
  unfold threadPost at h
  split at h
  next hlookup =>
    cases h
    exact .inl ⟨rfl, lookupOperation_isPlain hlookup⟩
  split at h
  next hguard =>
    cases h
    exact .inl ⟨rfl, ThreadTxOutcome.isPlain_refused (postGuard_error hguard)⟩
  rename_i thread member targets hguard
  simp only [postGuard, ok_iff, pair_iff] at hguard
  obtain ⟨_, _, hload, _, -, _, -, _, -, _, -, rfl, rfl, -⟩ := hguard
  obtain ⟨hthread, hmember⟩ := loadThreadForMember_eq_ok.mp hload
  simp only [bind_eq_ok] at h
  obtain ⟨_, hjoin, h⟩ := h
  split at h
  next refusal =>
    cases h
    exact .inr ⟨_, _, targets, hthread, hmember, .inl ⟨rfl, refusal, hjoin, rfl⟩⟩
  rename_i acked
  split at h
  next hcapacity =>
    cases h
    exact .inl ⟨rfl, ThreadTxOutcome.isPlain_refused (postCapacity_error hcapacity)⟩
  next hcapacity => exact .inr ⟨_, _, _, hthread, hmember, .inr ⟨acked, hjoin, hcapacity, h⟩⟩

/-! ## Reads -/

/-- A read is refused, or answered by an active receipt, or it takes a page after the cursor. -/
theorem threadRead_cases {request : ReadRequest} {outcome : ReadOutcome}
    (h : s.threadRead size request = .ok (outcome, s')) :
    (s' = s ∧ ∃ refusal, outcome = .refused refusal ∧
      s.loadThreadForMember request.threadId request.actor = .error refusal) ∨
    (s' = s ∧ ∃ active ∈ s.reads, active.key = (request.threadId, request.actor) ∧
      outcome = s.replayRead size active) ∨
    ∃ thread member entries, s.loadThread request.threadId = some thread ∧
      s.loadMember request.threadId request.actor = some member ∧
      s.readRange size request.threadId (member.ackedSeq + 1) thread.lastSeq request.limit
        request.byteBudget (some thread.lastSeq) = entries ∧
      (s' = s ∧ entries = [] ∧
        outcome = .page ⟨entries, member.ackedSeq, member.ackedSeq, thread.lastSeq, false⟩ none none
          request.limit false ∨
      ∃ through, entries.getLast?.map PageEntry.seq = some through ∧
        member.ackedSeq < through ∧ through ≤ thread.lastSeq ∧
        s' = { s with reads :=
          s.reads.insertOrReplace (request.row member.ackedSeq through thread.lastSeq) } ∧
        outcome = .page ⟨entries, member.ackedSeq, through, thread.lastSeq,
            through < thread.lastSeq⟩
          (some request.receiptId) (some (saturatingAdd request.now request.receiptTtlSecs))
          request.limit false) := by
  unfold threadRead at h
  split at h
  next refusal hload =>
    cases h
    exact .inl ⟨rfl, refusal, rfl, hload⟩
  rename_i thread member hload
  obtain ⟨hthread, hmember⟩ := loadThreadForMember_eq_ok.mp hload
  split at h
  next active hactive =>
    cases h
    obtain ⟨hread, hkey⟩ := loadRead_eq_some.mp (Option.filter_eq_some_iff.mp hactive).1
    exact .inr (.inl ⟨rfl, active, hread, hkey, rfl⟩)
  refine .inr (.inr ⟨thread, member, _, hthread, hmember, rfl, ?_⟩)
  unfold freshRead at h
  dsimp only at h
  split at h
  next hnone =>
    cases h
    exact .inl ⟨rfl, by simpa using hnone, rfl⟩
  next through hthrough =>
    simp only [ok_iff, pair_iff] at h
    obtain ⟨-, ⟨hahead, hwithin⟩, rfl, rfl⟩ := h
    exact .inr ⟨through, hthrough, hahead, hwithin, rfl, rfl⟩

end ThreadStore

end Bridget.Threads
