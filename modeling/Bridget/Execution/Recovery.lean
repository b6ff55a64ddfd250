import Bridget.Execution.Runs

/-!
# Recovery of a lost execution

When an agent has exactly one execution to recover, the recovery either starts a child in
its place or gives the execution up. The query that finds the execution and the update
that closes it do not agree on the states they accept, and a pause that could not be
resumed stays pending. The result here says exactly when the recovery does what it should.
-/

namespace Bridget.Execution

open Foundation Table

namespace Store

variable {s s' : Store} {executionId targetAgent : String}

theorem isPaused_iff : s.isPaused executionId = true ↔
    ∃ p ∈ s.pauses, p.resumedAt = none ∧ p.executionId = executionId := by
  simp [isPaused, pendingPauses, mem_select, and_assoc]

theorem isPaused_congr (h : s'.pauses = s.pauses) :
    s'.isPaused executionId = s.isPaused executionId := by
  unfold isPaused pendingPauses
  rw [h]

theorem mem_pendingPauseInterruptions {agent : String} :
    (executionId, agent) ∈ s.pendingPauseInterruptions ↔
      ∃ p ∈ s.pauses, p.resumedAt = none ∧ p.executionId = executionId ∧ p.targetAgent = agent := by
  simp [pendingPauseInterruptions, pendingPauses, mem_select, List.mem_insertionSort, and_assoc]

theorem isPaused_eq_false_iff : s.isPaused executionId = false ↔
    ∀ agent, (executionId, agent) ∉ s.pendingPauseInterruptions := by
  rw [← Bool.not_eq_true, isPaused_iff]
  constructor
  · intro hnot agent hlisted
    obtain ⟨p, hp, hpending, hid, -⟩ := mem_pendingPauseInterruptions.mp hlisted
    exact hnot ⟨p, hp, hpending, hid⟩
  · rintro hnone ⟨p, hp, hpending, hid⟩
    exact hnone p.targetAgent (mem_pendingPauseInterruptions.mpr ⟨p, hp, hpending, hid, rfl⟩)

theorem not_mem_recoverableExecutionIds (hpaused : s.isPaused executionId = false)
    (hstate : ∀ row ∈ s.executions, row.executionId = executionId → isActive row.state = false) :
    executionId ∉ s.recoverableExecutionIdsForAgent targetAgent := by
  intro hlisted
  obtain ⟨_, hcandidate, rfl⟩ := List.mem_map.mp hlisted
  obtain ⟨hrow, -, -, hactive | hstill⟩ :=
    mem_recoverable.mp (mem_recoverable_of_candidates hcandidate)
  · rw [hstate _ hrow rfl] at hactive
    cases hactive
  · rw [hpaused] at hstill
    cases hstill

section Closing

variable {parent : ExecutionRow} {observedAt : Int}

/-- Giving the parent up always goes through; it changes no pause. -/
theorem closeUnreadable_completes (hparent : parent ∈ s.executions) :
    ∃ s', s.closeUnreadable parent observedAt = .ok s' ∧ s'.pauses = s.pauses ∧
      ∀ row ∈ s'.executions, row.executionId = parent.executionId → isActive row.state = false := by
  obtain ⟨executions, hupdate⟩ := update_eq_ok (t := s.executions)
    (p := fun r => decide (r.executionId = parent.executionId ∧ r.revision = parent.revision ∧
      isActive r.state = true))
    (keepsKeys_execution (f := fun r => { r with
      state := "unreachable", reason := some "recovery_payload_unavailable"
      revision := r.revision + 1, updatedAt := observedAt }) fun _ => rfl)
  refine ⟨{ s with executions }, ?_, rfl, ?_⟩
  · simp only [closeUnreadable, hupdate, ok_iff, pair_iff]
    exact ⟨executions, _, rfl, rfl⟩
  intro _ hrow' hid
  obtain ⟨row, hrow, rfl⟩ := (mem_update hupdate).mp hrow'
  by_cases hactive : isActive row.state = true
  · have hsame : row.executionId = parent.executionId := by
      unfold rewrite at hid
      split at hid <;> exact hid
    obtain rfl : row = parent := eq_of_conflicts hrow hparent hsame
    simp only [rewrite, hactive, and_self, decide_true, if_true]
    decide
  · have hkept : rewrite (fun r : ExecutionRow => decide (r.executionId = parent.executionId ∧
        r.revision = parent.revision ∧ isActive r.state = true)) (fun r => { r with
          state := "unreachable", reason := some "recovery_payload_unavailable"
          revision := r.revision + 1, updatedAt := observedAt }) row = row := by
      simp [rewrite, hactive]
    rw [hkept]
    simpa using hactive

/-- The parent can be closed when it is under way, or interrupted by a pending pause. -/
theorem closeParent_isOk (observedAt : Int) (hparent : parent ∈ s.executions) :
    (∃ s', s.closeParent parent observedAt = .ok s') ↔ isActive parent.state = true ∨
        parent.state = "interrupted" ∧ s.isPaused parent.executionId = true := by
  obtain ⟨executions, hupdate⟩ := update_eq_ok (t := s.executions)
    (p := fun r => decide (r.executionId = parent.executionId ∧ r.revision = parent.revision ∧
      (isActive r.state = true ∨ r.state = "interrupted" ∧ s.isPaused r.executionId = true)))
    (keepsKeys_execution (f := fun r => { r with
      state := if r.state = "interrupted" then r.state else "unreachable"
      reason := some (if r.state = "interrupted" then "control_resume" else "daemon_restart")
      revision := r.revision + 1, updatedAt := observedAt }) fun _ => rfl)
  simp only [closeParent, hupdate, ok_iff, pair_iff]
  constructor
  · rintro ⟨_, _, _, ⟨⟩, -, hone, -⟩
    obtain ⟨row, hrow, hselected⟩ := exists_of_count_eq_one hone
    simp only [test_iff] at hselected
    obtain rfl : row = parent := eq_of_conflicts hrow hparent hselected.1
    exact hselected.2.2
  · intro hstate
    refine ⟨_, executions, _, rfl, (), ?_, rfl⟩
    refine count_eq_one (pinsKey_execution parent.executionId) ?_ hparent ?_
    · intro row hrow
      simp only [test_iff] at hrow ⊢
      exact hrow.1
    · simp [hstate]

/-- After it is closed, the parent is not under way; the other columns of the store and the
names of the executions stay. -/
theorem closeParent_spec (hparent : parent ∈ s.executions)
    (h : s.closeParent parent observedAt = .ok s') :
    s'.pauses = s.pauses ∧ s'.continuations = s.continuations ∧
      (∀ row' ∈ s'.executions, ∃ row ∈ s.executions, row.executionId = row'.executionId) ∧
      ∀ row ∈ s'.executions, row.executionId = parent.executionId → isActive row.state = false := by
  have hstate := (closeParent_isOk observedAt hparent).mp ⟨s', h⟩
  simp only [closeParent, ok_iff, pair_iff] at h
  obtain ⟨_, _, hupdate, -, -, rfl⟩ := h
  refine ⟨rfl, rfl, ?_, ?_⟩
  · intro row' hrow'
    obtain ⟨row, hrow, rfl⟩ := (mem_update hupdate).mp hrow'
    refine ⟨row, hrow, ?_⟩
    unfold rewrite
    split <;> rfl
  intro row' hrow' hid
  obtain ⟨row, hrow, rfl⟩ := (mem_update hupdate).mp hrow'
  have hsame : row.executionId = parent.executionId := by
    unfold rewrite at hid
    split at hid <;> exact hid
  obtain rfl : row = parent := eq_of_conflicts hrow hparent hsame
  rw [rewrite, if_pos (by simp [hstate])]
  dsimp only
  split
  next hinterrupted =>
    rw [hinterrupted]
    decide
  · decide

end Closing

section Child

variable {parent : ExecutionRow} {project : Option ProjectReference}
  {agentInstanceId childExecutionId : String} {observedAt : Int}

theorem insertChild_isOk (hfresh : ∀ row ∈ s.executions, row.executionId ≠ childExecutionId) :
    (∃ s', s.insertChild parent project agentInstanceId childExecutionId observedAt = .ok s') ↔
      (parent.generation : Int) < i64Max := by
  simp only [insertChild, ok_iff, sqlCounter_eq_ok]
  constructor
  · rintro ⟨_, _, ⟨hgeneration, -⟩, -⟩
    push_cast at hgeneration
    omega
  intro hgeneration
  obtain ⟨executions, hinsert⟩ : ∃ executions, s.executions.insert
      (startingRow childExecutionId parent.submissionId (some agentInstanceId) project
        (parent.generation + 1) (some "accepted") observedAt) = .ok executions :=
    insert_eq_ok hfresh
  refine ⟨_, parent.generation + 1, ⟨?_, rfl⟩, executions, hinsert, rfl⟩
  push_cast
  omega

theorem insertChild_spec
    (h : s.insertChild parent project agentInstanceId childExecutionId observedAt = .ok s') :
    s'.pauses = s.pauses ∧ s'.continuations = s.continuations ∧
      ∀ row ∈ s'.executions, row ∈ s.executions ∨ row.executionId = childExecutionId := by
  simp only [insertChild, ok_iff] at h
  obtain ⟨_, -, _, hinsert, rfl⟩ := h
  refine ⟨rfl, rfl, ?_⟩
  intro row hrow
  rcases (mem_insert hinsert).mp hrow with hold | rfl
  · exact .inl hold
  · exact .inr rfl

theorem resumePause_completes :
    ∃ s', s.resumePause executionId childExecutionId observedAt = .ok s' := by
  have hkeys : Table.KeepsKeys fun p : PauseRow =>
      { p with resumedAt := some observedAt, resumeExecutionId := some childExecutionId } := by
    intro _ _
    simp [UniqueKeys.conflicts]
  obtain ⟨pauses, hupdate⟩ := update_eq_ok (t := s.pauses)
    (p := fun p => decide (p.executionId = executionId ∧ p.resumedAt = none)) hkeys
  simp only [resumePause, hupdate, ok_iff, pair_iff]
  exact ⟨_, pauses, _, rfl, rfl⟩

theorem resumePause_spec (h : s.resumePause executionId childExecutionId observedAt = .ok s') :
    s'.executions = s.executions ∧ s'.continuations = s.continuations ∧
      s'.isPaused executionId = false := by
  simp only [resumePause, ok_iff, pair_iff] at h
  obtain ⟨_, _, hupdate, rfl⟩ := h
  refine ⟨rfl, rfl, ?_⟩
  rw [← Bool.not_eq_true, isPaused_iff]
  rintro ⟨_, hp', hpending, hid⟩
  obtain ⟨_, _, rfl⟩ := (mem_update hupdate).mp hp'
  unfold rewrite at hpending hid
  split at hpending
  · cases hpending
  next hnot =>
    rw [if_neg hnot] at hid
    exact hnot (by simp [hid, hpending])

end Child

end Store

/-- The arguments that `reconstruct_active_for_agent` accepts, with a child name that is not
taken. -/
structure RecoveryCall (s : Store) where
  (targetAgent agentInstanceId childExecutionId : String)
  observedAt : Int
  valid : isBlank targetAgent = false ∧ isBlank agentInstanceId = false ∧
    isBlank childExecutionId = false ∧ 0 ≤ observedAt
  fresh : s.execution childExecutionId = none

namespace Store

variable {s s' : Store} {json : MessageJson} {call : RecoveryCall s} {candidate : Candidate}

/-- The recovery starts a child or gives the execution up, and lists it nowhere any more. -/
def Recovers (json : MessageJson) (s : Store) (call : RecoveryCall s) (executionId : String) :
    Prop :=
  ∃ outcome s', s.reconstructActiveForAgent json call.targetAgent call.agentInstanceId
      call.childExecutionId call.observedAt = .ok (outcome, s') ∧
    ((∃ child, outcome = .reconstructed child) ∨ ∃ id, outcome = .payloadUnavailable id) ∧
    executionId ∉ s'.recoverableExecutionIdsForAgent call.targetAgent ∧
    ∀ agent, (executionId, agent) ∉ s'.pendingPauseInterruptions

/-- An execution that can be recovered: its message can be read and it is under way or
interrupted, or its message cannot be read and no pause of it is pending. The counters of
the row are still in the range of the database. -/
def Resumable (json : MessageJson) (s : Store) (executionId : String) : Prop :=
  ∃ row submission, s.execution executionId = some row ∧
    s.submission row.submissionId = some submission ∧ (row.revision : Int) ≤ i64Max ∧
    match submission.messageJson.bind json.decode with
    | some _ => (isActive row.state = true ∨ row.state = "interrupted") ∧
        (row.generation : Int) < i64Max
    | none => s.isPaused executionId = false

theorem reconstruct_eq_ok {answer : ExecutionRecoveryOutcome × Store}
    (hcandidates : s.candidates call.targetAgent = [candidate]) :
    s.reconstructActiveForAgent json call.targetAgent call.agentInstanceId call.childExecutionId
        call.observedAt = .ok answer ↔ ∃ snapshot, candidate.row.snapshot = .ok snapshot ∧
        s.recoverCandidate json candidate snapshot call.agentInstanceId call.childExecutionId
          call.observedAt = .ok answer := by
  simp only [reconstructActiveForAgent, ok_iff, hcandidates, snapshots_singleton]
  constructor
  · rintro ⟨-, -, _, ⟨snapshot, hsnapshot, rfl⟩, hrecover⟩
    exact ⟨snapshot, hsnapshot, hrecover⟩
  · rintro ⟨snapshot, hsnapshot, hrecover⟩
    exact ⟨(), call.valid, [snapshot], ⟨snapshot, hsnapshot, rfl⟩, hrecover⟩

/-- Reading the row fails only when its revision has left the range of the database. -/
theorem snapshot_isOk {row : ExecutionRow} (hlegible : row.Legible s) :
    (∃ snapshot, row.snapshot = .ok snapshot) ↔ (row.revision : Int) ≤ i64Max := by
  constructor
  · rintro ⟨_, hsnapshot⟩
    exact (snapshot_eq_ok.mp hsnapshot).2.2.1
  · intro hrevision
    obtain ⟨project, hproject⟩ := hlegible.project
    exact ⟨{ row with project }, snapshot_eq_ok.mpr ⟨hproject, hlegible.generation, hrevision, rfl⟩⟩

theorem fresh_after_close {closed : Store} {parent : ExecutionRow}
    (hparent : parent ∈ s.executions) (hclose : s.closeParent parent call.observedAt = .ok closed) :
    ∀ row ∈ closed.executions, row.executionId ≠ call.childExecutionId := by
  intro row hrow hid
  obtain ⟨-, -, hnames, -⟩ := closeParent_spec hparent hclose
  obtain ⟨old, hold, hname⟩ := hnames row hrow
  exact execution_eq_none.mp call.fresh old hold (hname.trans hid)

theorem closeParent_isOk_of_candidate {targetAgent : String}
    (observedAt : Int) (hcandidate : candidate ∈ s.recoverable targetAgent) :
    (∃ s', s.closeParent candidate.row observedAt = .ok s') ↔
      isActive candidate.row.state = true ∨ candidate.row.state = "interrupted" := by
  obtain ⟨hparent, -, -, hlisted⟩ := mem_recoverable.mp hcandidate
  rw [closeParent_isOk observedAt hparent]
  constructor
  · rintro (hactive | ⟨hinterrupted, -⟩)
    · exact .inl hactive
    · exact .inr hinterrupted
  rintro (hactive | hinterrupted)
  · exact .inl hactive
  · refine .inr ⟨hinterrupted, hlisted.resolve_left ?_⟩
    intro hactive
    exact isActive_ne_interrupted hactive hinterrupted

section Candidate

variable {call : RecoveryCall s} {candidate : Candidate} {snapshot : ExecutionSnapshot}
  {message : BridgetMessage}

/-- A child starts in place of the candidate exactly when the parent can be closed and the
generations are not used up. -/
theorem recoverCandidate_isOk (hwell : s.WellFormed)
    (hcandidate : candidate ∈ s.recoverable call.targetAgent)
    (hmessage : candidate.submission.messageJson.bind json.decode = some message) :
    (∃ answer, s.recoverCandidate json candidate snapshot call.agentInstanceId
        call.childExecutionId call.observedAt = .ok answer) ↔
      (isActive candidate.row.state = true ∨ candidate.row.state = "interrupted") ∧
        (candidate.row.generation : Int) < i64Max := by
  have hparent := (mem_recoverable.mp hcandidate).1
  rw [← closeParent_isOk_of_candidate call.observedAt hcandidate]
  simp only [recoverCandidate, hmessage, ok_iff]
  constructor
  · rintro ⟨_, closed, hclose, started, hstart, -⟩
    exact ⟨⟨closed, hclose⟩, (insertChild_isOk (fresh_after_close hparent hclose)).mp
      ⟨started, hstart⟩⟩
  rintro ⟨⟨closed, hclose⟩, hgeneration⟩
  obtain ⟨started, hstart⟩ := (insertChild_isOk (fresh_after_close hparent hclose)).mpr hgeneration
  obtain ⟨resumed, hresume⟩ := resumePause_completes
  obtain ⟨-, hcontinuations, -⟩ := resumePause_spec hresume
  -- no continuation can carry the name of a child that does not exist yet
  have hfresh : ∀ c ∈ resumed.continuations, c.executionId ≠ call.childExecutionId := by
    intro c hc hid
    rw [hcontinuations, (insertChild_spec hstart).2.1, (closeParent_spec hparent hclose).2.1] at hc
    obtain ⟨row, hrow, hname⟩ := hwell.lineage c hc
    exact execution_eq_none.mp call.fresh row hrow (hname.trans hid)
  obtain ⟨continuations, hinsert⟩ : ∃ continuations, resumed.continuations.insert
      ⟨call.childExecutionId, candidate.row.generation + 1, candidate.row.executionId,
        .reconstructed, some _, call.observedAt⟩ = .ok continuations :=
    insert_eq_ok hfresh
  refine ⟨_, closed, hclose, started, hstart, resumed, hresume, { resumed with continuations },
    ?_, rfl⟩
  rw [insertContinuation, hinsert]
  rfl

theorem recoverCandidate_unlists (hcandidate : candidate ∈ s.recoverable call.targetAgent)
    (hmessage : candidate.submission.messageJson.bind json.decode = some message)
    {outcome : ExecutionRecoveryOutcome}
    (h : s.recoverCandidate json candidate snapshot call.agentInstanceId call.childExecutionId
      call.observedAt = .ok (outcome, s')) :
    (∃ child, outcome = .reconstructed child) ∧ s'.isPaused candidate.row.executionId = false ∧
      ∀ row ∈ s'.executions, row.executionId = candidate.row.executionId →
        isActive row.state = false := by
  have hparent := (mem_recoverable.mp hcandidate).1
  simp only [recoverCandidate, hmessage, ok_iff, pair_iff] at h
  obtain ⟨_, hclose, _, hstart, _, hresume, _, hcontinue, houtcome, rfl⟩ := h
  obtain ⟨hexecutions, -, hpaused⟩ := resumePause_spec hresume
  simp only [insertContinuation, ok_iff] at hcontinue
  obtain ⟨_, -, rfl⟩ := hcontinue
  refine ⟨⟨_, houtcome.symm⟩, hpaused, ?_⟩
  intro row hrow hid
  rw [hexecutions] at hrow
  rcases (insertChild_spec hstart).2.2 row hrow with hold | hchild
  · exact (closeParent_spec hparent hclose).2.2.2 row hold hid
  · exact absurd (hid.symm.trans hchild) (execution_eq_none.mp call.fresh _ hparent)

end Candidate

/-- In every state that the store reaches, the recovery of the only execution of an agent
does what it should exactly when that execution is resumable. -/
theorem recovery_iff_resumable {env : Environment} {ops : List Op} {executionId : String}
    (hrun : Run (Store.step env) (fun _ op => op.Admitted) Store.init ops s)
    (call : RecoveryCall s)
    (hlisted : s.recoverableExecutionIdsForAgent call.targetAgent = [executionId]) :
    s.Recovers env.json call executionId ↔ s.Resumable env.json executionId := by
  have hwell : s.WellFormed :=
    Run.invariant WellFormed hrun (fun _ _ h hadmitted => h.step hadmitted) init_wellFormed
  obtain ⟨candidate, hcandidates, rfl⟩ := List.map_eq_singleton_iff.mp hlisted
  have hcandidate : candidate ∈ s.recoverable call.targetAgent := by
    apply mem_recoverable_of_candidates
    rw [hcandidates]
    exact List.mem_singleton.mpr rfl
  obtain ⟨hparent, hsubmission, -, _⟩ := mem_recoverable.mp hcandidate
  have hlegible := hwell.legible _ hparent
  have hrow : s.execution candidate.row.executionId = some candidate.row :=
    execution_eq_some.mpr ⟨hparent, rfl⟩
  constructor
  · rintro ⟨_, _, hok, -, _, hpending⟩
    obtain ⟨snapshot, hsnapshot, hrecover⟩ := (reconstruct_eq_ok hcandidates).mp hok
    refine ⟨candidate.row, candidate.submission, hrow, hsubmission,
      (snapshot_isOk hlegible).mp ⟨snapshot, hsnapshot⟩, ?_⟩
    cases hmessage : candidate.submission.messageJson.bind env.json.decode with
    | some => exact (recoverCandidate_isOk hwell hcandidate hmessage).mp ⟨_, hrecover⟩
    | none =>
      obtain ⟨closed, hclose, hpauses, -⟩ := closeUnreadable_completes hparent
      simp only [recoverCandidate, hmessage, ok_iff, pair_iff] at hrecover
      obtain ⟨closed', hclose', -, rfl⟩ := hrecover
      cases hclose.symm.trans hclose'
      rw [← isPaused_congr hpauses]
      exact isPaused_eq_false_iff.mpr hpending
  · rintro ⟨row, submission, hrow', hsubmission', hrevision, hresumable⟩
    cases hrow.symm.trans hrow'
    cases hsubmission.symm.trans hsubmission'
    obtain ⟨snapshot, hsnapshot⟩ := (snapshot_isOk hlegible).mpr hrevision
    cases hmessage : candidate.submission.messageJson.bind env.json.decode with
    | some =>
      rw [hmessage] at hresumable
      obtain ⟨⟨outcome, s'⟩, hrecover⟩ :=
        (recoverCandidate_isOk hwell hcandidate hmessage).mpr hresumable
      obtain ⟨hchild, hpaused, hinactive⟩ := recoverCandidate_unlists hcandidate hmessage hrecover
      exact ⟨outcome, s', (reconstruct_eq_ok hcandidates).mpr ⟨snapshot, hsnapshot, hrecover⟩,
        .inl hchild, not_mem_recoverableExecutionIds hpaused hinactive,
        isPaused_eq_false_iff.mp hpaused⟩
    | none =>
      rw [hmessage] at hresumable
      obtain ⟨closed, hclose, hpauses, hinactive⟩ := closeUnreadable_completes hparent
      have hpaused : closed.isPaused candidate.row.executionId = false := by
        rw [isPaused_congr hpauses]
        exact hresumable
      refine ⟨.payloadUnavailable candidate.row.executionId, closed,
        (reconstruct_eq_ok hcandidates).mpr ⟨snapshot, hsnapshot, ?_⟩, .inr ⟨_, rfl⟩,
        not_mem_recoverableExecutionIds hpaused hinactive, isPaused_eq_false_iff.mp hpaused⟩
      simp only [recoverCandidate, hmessage, ok_iff]
      exact ⟨closed, hclose, rfl⟩

end Store

def pausedRun : List Op :=
  [.admitStartingMessage sampleMessage "e1" none 100,
    .transition "e1" "starting" 0 1 "running" "provider_accepted" 101,
    .recordPause "e1" "bob" 1 102]

def interruptedRun : List Op :=
  pausedRun ++ [.transition "e1" "running" 1 1 "interrupting" "interrupted" 103,
    .transition "e1" "interrupting" 2 1 "interrupted" "interrupted" 104]

def completedRun : List Op :=
  pausedRun ++ [.transition "e1" "running" 1 1 "completed" "completed" 103]

def unreadableRun : List Op :=
  [.admitStarting "m2" "e1" "bob" none 100, .recordPause "e1" "bob" 1 101]

/-- An execution interrupted by a pause. -/
theorem interrupted_run_recovers :
    (sampleStore interruptedRun).pendingPauseInterruptions = [("e1", "bob")] ∧
      ∃ call : RecoveryCall (sampleStore interruptedRun),
        (sampleStore interruptedRun).Recovers sampleEnvironment.json call "e1" := by
  obtain ⟨s, hrun⟩ : ∃ s, Run (Store.step sampleEnvironment) (fun _ op => op.Admitted) Store.init
      interruptedRun s := by
    refine ⟨_, .cons ?_ (.cons trivial (.cons trivial (.cons trivial (.cons trivial (.nil _)))))⟩
    rintro _ ⟨⟩
  obtain rfl : s = sampleStore interruptedRun := hrun.eq_foldl
  let call : RecoveryCall (sampleStore interruptedRun) :=
    ⟨"bob", "i1", "e2", 105, by decide, by decide⟩
  refine ⟨by decide, call, (Store.recovery_iff_resumable hrun call (by decide)).mpr ?_⟩
  exact ⟨⟨"e1", "m1", none, none, none, 1, "interrupted", 3, some "interrupted", 100, 104⟩,
    ⟨"m1", "bob", some sampleText, 100⟩, by decide, by decide, by decide, .inr rfl, by decide⟩

/-- A paused execution that completed cannot be recovered: the recovery fails and the pause
stays pending. One without its message is given up, and its pause stays pending too. -/
theorem ended_pause_stays_pending :
    ((sampleStore completedRun).recoverableExecutionIdsForAgent "bob" = ["e1"] ∧
      (sampleStore completedRun).execution "e2" = none ∧
      (sampleStore completedRun).reconstructActiveForAgent sampleEnvironment.json "bob" "i1" "e2"
        104 = .error .noRows ∧
      (sampleStore completedRun).pendingPauseInterruptions = [("e1", "bob")]) ∧
    (sampleStore unreadableRun).recoverableExecutionIdsForAgent "bob" = ["e1"] ∧
      (sampleStore unreadableRun).execution "e2" = none ∧
      ((sampleStore unreadableRun).reconstructActiveForAgent sampleEnvironment.json "bob" "i1" "e2"
        104).map (fun (outcome, s) => (outcome, s.recoverableExecutionIdsForAgent "bob",
          s.pendingPauseInterruptions))
        = .ok (.payloadUnavailable "e1", ["e1"], [("e1", "bob")]) := by
  refine ⟨⟨by decide, by decide, errorOf_eq_some.mp (by decide), by decide⟩, ?_⟩
  exact ⟨by decide, by decide, rfl⟩

end Bridget.Execution
