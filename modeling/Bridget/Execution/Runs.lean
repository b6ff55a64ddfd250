import Bridget.Execution.Store
import Bridget.Foundation.Run

/-!
# Runs of the execution store

What any operation may do to the executions, said once: it moves some existing ones along
one edge each, and it adds fresh ones. The invariants of the store and the history of an
execution are both read off this description.
-/

namespace Bridget.Execution

open Foundation Table

/-- The columns of an execution that are fixed when it is created. -/
structure ExecutionRow.SameIdentity (row row' : ExecutionRow) : Prop where
  executionId : row'.executionId = row.executionId
  submissionId : row'.submissionId = row.submissionId
  projectId : row'.projectId = row.projectId
  bindingGeneration : row'.bindingGeneration = row.bindingGeneration
  generation : row'.generation = row.generation

theorem ExecutionRow.SameIdentity.refl (row : ExecutionRow) : row.SameIdentity row :=
  ⟨rfl, rfl, rfl, rfl, rfl⟩

theorem ExecutionRow.SameIdentity.trans {a b c : ExecutionRow} (h : a.SameIdentity b)
    (h' : b.SameIdentity c) : a.SameIdentity c :=
  ⟨h'.executionId.trans h.executionId, h'.submissionId.trans h.submissionId,
    h'.projectId.trans h.projectId, h'.bindingGeneration.trans h.bindingGeneration,
    h'.generation.trans h.generation⟩

/-- A row that the recovery queries can join and read, whatever its revision. -/
structure ExecutionRow.Legible (s : Store) (row : ExecutionRow) : Prop where
  submission : ∃ submission, s.submission row.submissionId = some submission
  project : ∃ project, projectReferenceFromParts row.projectId row.bindingGeneration = .ok project
  generation : (row.generation : Int) ≤ i64Max

theorem ExecutionRow.Legible.of_same {s : Store} {row row' : ExecutionRow} (h : row.Legible s)
    (hsame : row.SameIdentity row') : row'.Legible s := by
  obtain ⟨_, _, _⟩ := h
  constructor
  · rwa [hsame.submissionId]
  · rwa [hsame.projectId, hsame.bindingGeneration]
  · rwa [hsame.generation]

/-- As a row is inserted. -/
def ExecutionRow.Started (row : ExecutionRow) : Prop := row.state = "starting" ∧ row.revision = 0

namespace Store

variable {s s' s'' : Store} {f : ExecutionRow → ExecutionRow}

theorem pinsKey_execution (executionId : String) :
    PinsKey fun row : ExecutionRow => decide (row.executionId = executionId) :=
  pinsKey_field fun _ _ => id

theorem keepsKeys_execution (hf : ∀ row, (f row).executionId = row.executionId) : KeepsKeys f := by
  intro _ _
  simp [UniqueKeys.conflicts, hf]

variable {executionId : String} {row : ExecutionRow}

theorem execution_eq_some :
    s.execution executionId = some row ↔ row ∈ s.executions ∧ row.executionId = executionId := by
  simp [execution, find?_eq_some (pinsKey_execution executionId)]

theorem execution_eq_none :
    s.execution executionId = none ↔ ∀ row ∈ s.executions, row.executionId ≠ executionId := by
  simp [execution, find?_eq_none]

theorem submission_eq_some {submissionId : String} {row : SubmissionRow} :
    s.submission submissionId = some row ↔
      row ∈ s.submissions ∧ row.submissionId = submissionId := by
  rw [submission, find?_eq_some (pinsKey_field ?_), decide_eq_true_iff]
  exact fun _ _ => id

theorem legible_mono (h : row.Legible s)
    (hsubmissions : ∀ submissionId submission, s.submission submissionId = some submission →
      s'.submission submissionId = some submission) : row.Legible s' := by
  obtain ⟨⟨submission, hsubmission⟩, hproject, hgeneration⟩ := h
  exact ⟨⟨submission, hsubmissions _ _ hsubmission⟩, hproject, hgeneration⟩

theorem quotaFailureFor_eq_some {q : QuotaRow} :
    s.quotaFailureFor executionId = some q ↔ q ∈ s.quotaResumes ∧ q.executionId = executionId := by
  rw [quotaFailureFor, find?_eq_some (pinsKey_field ?_), decide_eq_true_iff]
  exact fun _ _ => .inl

def KeepsQualifications (s s' : Store) : Prop :=
  ∀ q ∈ s.quotaResumes, ∃ q' ∈ s'.quotaResumes, q'.executionId = q.executionId ∧
    q'.identity = q.identity ∧ ∀ c, q.resumeExecutionId = some c → q'.resumeExecutionId = some c

theorem KeepsQualifications.of_eq (h : s'.quotaResumes = s.quotaResumes) :
    KeepsQualifications s s' := by
  intro q _
  exact ⟨q, by rwa [h], rfl, rfl, fun _ => id⟩

theorem KeepsQualifications.trans (h : KeepsQualifications s s')
    (h' : KeepsQualifications s' s'') : KeepsQualifications s s'' := by
  intro q hq
  obtain ⟨q', hq', hexecution, hidentity, hchild⟩ := h q hq
  obtain ⟨q'', hq'', hexecution', hidentity', hchild'⟩ := h' q' hq'
  exact ⟨q'', hq'', hexecution'.trans hexecution, hidentity'.trans hidentity,
    fun c hc => hchild' c (hchild c hc)⟩

/-- What an operation may do: some executions move, each along one allowed edge, and others
appear, which are legible if the call was sound. No qualification is lost, and only a pause
leaves something pending. -/
structure Changes (sound pauses : Prop) (allows : String → String → Prop) (s s' : Store) :
    Prop where
  moved : ∀ row ∈ s.executions, ∃ row' ∈ s'.executions, row.SameIdentity row' ∧
    (row'.state = row.state ∧ row'.revision = row.revision ∨
      allows row.state row'.state ∧ row'.revision = row.revision + 1)
  fresh : ∀ row' ∈ s'.executions, (∃ row ∈ s.executions, row.SameIdentity row') ∨
    row'.Started ∧ (sound → row'.Legible s')
  submissions : ∀ submissionId submission, s.submission submissionId = some submission →
    s'.submission submissionId = some submission
  continued : ∀ c ∈ s'.continuations, c ∈ s.continuations ∨
    ∃ row ∈ s'.executions, row.executionId = c.executionId
  unpaused : ¬ pauses → s.pendingPauses = [] → s'.pendingPauses = []
  qualified : KeepsQualifications s s'

variable {sound pauses : Prop} {allows allows' : String → String → Prop}
  {executions : Table ExecutionRow} {n : Nat}

/-- A write beside the executions. -/
theorem changes_same (hexecutions : s'.executions = s.executions)
    (hsubmissions : ∀ submissionId submission, s.submission submissionId = some submission →
      s'.submission submissionId = some submission)
    (hcontinued : ∀ c ∈ s'.continuations, c ∈ s.continuations ∨
      ∃ row ∈ s'.executions, row.executionId = c.executionId)
    (hunpaused : ¬ pauses → s.pendingPauses = [] → s'.pendingPauses = [])
    (hqualified : KeepsQualifications s s') : Changes sound pauses allows s s' := by
  refine ⟨?_, ?_, hsubmissions, hcontinued, hunpaused, hqualified⟩
  · intro row hrow
    exact ⟨row, by rwa [hexecutions], .refl row, .inl ⟨rfl, rfl⟩⟩
  · intro row hrow
    rw [hexecutions] at hrow
    exact .inl ⟨row, hrow, .refl row⟩

theorem Changes.refl (s : Store) : Changes sound pauses allows s s :=
  changes_same rfl (fun _ _ => id) (fun _ => .inl) (fun _ => id) (.of_eq rfl)

/-- Changes go on with a write that moves nothing. -/
theorem Changes.trans (h : Changes sound pauses allows s s')
    (h' : Changes sound pauses (fun _ _ => False) s' s'') : Changes sound pauses allows s s'' := by
  refine ⟨?_, ?_,
    fun id submission hs => h'.submissions id submission (h.submissions id submission hs), ?_,
    fun hpauses => h'.unpaused hpauses ∘ h.unpaused hpauses, h.qualified.trans h'.qualified⟩
  · intro row hrow
    obtain ⟨row', hrow', hsame, _⟩ := h.moved row hrow
    obtain ⟨row'', hrow'', hsame', ⟨hstate, hrevision⟩ | ⟨hnone, -⟩⟩ := h'.moved row' hrow'
    · exact ⟨row'', hrow'', hsame.trans hsame', by rwa [hstate, hrevision]⟩
    · exact hnone.elim
  · intro row'' hrow''
    obtain ⟨row', hrow', hsame'⟩ | hnew := h'.fresh row'' hrow''
    · obtain ⟨row, hrow, hsame⟩ | ⟨hstarted, hlegible⟩ := h.fresh row' hrow'
      · exact .inl ⟨row, hrow, hsame.trans hsame'⟩
      obtain ⟨moved, hmoved, hsame, ⟨hstate, hrevision⟩ | ⟨hnone, -⟩⟩ := h'.moved row' hrow'
      · obtain rfl : moved = row'' := eq_of_conflicts hmoved hrow''
          (hsame.executionId.trans hsame'.executionId.symm)
        refine .inr ⟨⟨hstate.trans hstarted.1, hrevision.trans hstarted.2⟩, fun hsound => ?_⟩
        exact legible_mono ((hlegible hsound).of_same hsame) h'.submissions
      · exact hnone.elim
    · exact .inr hnew
  · intro c hc
    rcases h'.continued c hc with hold | hnew
    · refine (h.continued c hold).imp_right ?_
      rintro ⟨row, hrow, hid⟩
      obtain ⟨row', hrow', hsame, -⟩ := h'.moved row hrow
      exact ⟨row', hrow', hsame.executionId.trans hid⟩
    · exact .inr hnew

theorem Changes.mono (h : Changes sound pauses allows s s')
    (hallows : ∀ row ∈ s.executions, ∀ target, allows row.state target → allows' row.state target) :
    Changes sound pauses allows' s s' := by
  refine ⟨?_, h.fresh, h.submissions, h.continued, h.unpaused, h.qualified⟩
  intro row hrow
  obtain ⟨row', hrow', hsame, hedge⟩ := h.moved row hrow
  exact ⟨row', hrow', hsame, hedge.imp_right fun hmove => ⟨hallows row hrow _ hmove.1, hmove.2⟩⟩

theorem changes_update {p : ExecutionRow → Bool} (h : s.executions.update p f = .ok (executions, n))
    (hsame : ∀ row : ExecutionRow, row.SameIdentity (f row))
    (hrevision : ∀ row, (f row).revision = row.revision + 1)
    (hallows : ∀ row ∈ s.executions, p row = true → allows row.state (f row).state) :
    Changes sound pauses allows s { s with executions } := by
  have hidentity : ∀ row : ExecutionRow, row.SameIdentity (rewrite p f row) := by
    intro row
    unfold rewrite
    split
    · exact hsame row
    · exact .refl row
  refine ⟨?_, ?_, fun _ _ hs => hs, fun _ hc => .inl hc, fun _ => id, .of_eq rfl⟩
  · intro row hrow
    refine ⟨rewrite p f row, (mem_update h).mpr ⟨row, hrow, rfl⟩, hidentity row, ?_⟩
    by_cases hp : p row = true
    · rw [rewrite, if_pos hp]
      exact .inr ⟨hallows row hrow hp, hrevision row⟩
    · rw [rewrite, if_neg hp]
      exact .inl ⟨rfl, rfl⟩
  · intro _ hrow'
    obtain ⟨row, hrow, rfl⟩ := (mem_update h).mp hrow'
    exact .inl ⟨row, hrow, hidentity row⟩

theorem changes_insert (h : s.executions.insert row = .ok executions) (hstarted : row.Started)
    (hlegible : sound → row.Legible s) : Changes sound pauses allows s { s with executions } := by
  refine ⟨?_, ?_, fun _ _ hs => hs, fun _ hc => .inl hc, fun _ => id, .of_eq rfl⟩
  · intro old hold
    exact ⟨old, (mem_insert h).mpr (.inl hold), .refl old, .inl ⟨rfl, rfl⟩⟩
  · intro new hnew
    rcases (mem_insert h).mp hnew with hold | rfl
    · exact .inl ⟨new, hold, .refl new⟩
    · exact .inr ⟨hstarted, fun hsound => legible_mono (hlegible hsound) fun _ _ hs => hs⟩

variable {project : Option ProjectReference}

/-- The columns of a readable project reference are readable again. -/
theorem project_readable {projectId : Option String} {bindingGeneration : Option Nat}
    (h : projectReferenceFromParts projectId bindingGeneration = .ok project) :
    projectReferenceFromParts (project.map ProjectReference.projectId)
      (project.map ProjectReference.bindingGeneration) = .ok project := by
  unfold projectReferenceFromParts at h
  split at h
  · cases h
    rfl
  · split at h
    next hpositive =>
      cases h
      simp [projectReferenceFromParts, hpositive]
    · cases h
  · cases h

/-- A project whose binding has a generation, as the callers pass it. -/
def Bound (project : Option ProjectReference) : Prop := ∀ p ∈ project, 0 < p.bindingGeneration

theorem Bound.readable (h : Bound project) :
    projectReferenceFromParts (project.map ProjectReference.projectId)
      (project.map ProjectReference.bindingGeneration) = .ok project := by
  cases project with
  | none => rfl
  | some p => simp [projectReferenceFromParts, h p rfl]

variable {observedAt : Int} {reason : String}

theorem admitSubmission_changes {submission : SubmissionRow} {admitted : Bool}
    (hbound : sound → Bound project)
    (h : s.admitSubmission submission executionId project observedAt = .ok (admitted, s')) :
    Changes sound pauses (fun _ _ => False) s s' := by
  unfold admitSubmission at h
  dsimp only at h
  split at h
  · cases h
    exact .refl s
  rename_i hinserted
  simp only [ok_iff, pair_iff] at h
  obtain ⟨-, -, _, hexecutions, -, rfl⟩ := h
  have hsubmissions := insertOrIgnore_inserted (not_not.mp hinserted)
  have hfirst : Changes sound pauses (fun _ _ => False) s
      { s with submissions := (s.submissions.insertOrIgnore submission).1 } := by
    refine changes_same rfl ?_ (fun _ => .inl) (fun _ => id) (.of_eq rfl)
    intro _ _ hfound
    obtain ⟨hmem, hid⟩ := submission_eq_some.mp hfound
    exact submission_eq_some.mpr ⟨(mem_insert hsubmissions).mpr (.inl hmem), hid⟩
  refine hfirst.trans
    (changes_insert hexecutions ⟨rfl, rfl⟩ fun hsound => ⟨⟨submission, ?_⟩, ?_, ?_⟩)
  · exact submission_eq_some.mpr ⟨(mem_insert hsubmissions).mpr (.inr rfl), rfl⟩
  · exact ⟨project, (hbound hsound).readable⟩
  · simp [startingRow, i64Max]

theorem transitionIfCurrent_changes {expectedState nextState : String}
    {expectedRevision expectedGeneration : Nat} {outcome : ConditionalTransition}
    (h : s.transitionIfCurrent executionId expectedState expectedRevision expectedGeneration
      nextState reason observedAt = .ok (outcome, s')) :
    Changes sound pauses (fun source target => source = expectedState ∧ target = nextState)
      s s' := by
  unfold transitionIfCurrent at h
  split at h
  · cases h
    exact .refl s
  simp only [bind_eq_ok] at h
  obtain ⟨_, -, h⟩ := h
  split at h
  · cases h
    exact .refl s
  simp only [ok_iff, pair_iff] at h
  obtain ⟨_, _, hupdate, -, -, -, rfl⟩ := h
  refine changes_update hupdate (fun _ => ⟨rfl, rfl, rfl, rfl, rfl⟩) (fun _ => rfl) ?_
  intro _ _ hr
  simp only [test_iff] at hr
  exact ⟨hr.2.1, rfl⟩

def Closes (s : Store) (source target : String) : Prop :=
  isActive source = true ∧ target = "unreachable" ∨
    source = "interrupted" ∧ target = "interrupted" ∧ s.pendingPauses ≠ []

variable {parent : ExecutionRow}

theorem isActive_ne_interrupted {state : String} (h : isActive state = true) :
    state ≠ "interrupted" := by
  rintro rfl
  exact absurd h (by decide)

theorem closeParent_changes (h : s.closeParent parent observedAt = .ok s') :
    Changes sound pauses s.Closes s s' := by
  simp only [closeParent, ok_iff, pair_iff] at h
  obtain ⟨_, _, hupdate, -, -, rfl⟩ := h
  refine changes_update hupdate (fun _ => ⟨rfl, rfl, rfl, rfl, rfl⟩) (fun _ => rfl) ?_
  intro _ _ hr
  simp only [test_iff] at hr
  rcases hr.2.2 with hactive | ⟨hinterrupted, hpaused⟩
  · exact .inl ⟨hactive, if_neg (isActive_ne_interrupted hactive)⟩
  · refine .inr ⟨hinterrupted, by simp [hinterrupted], ?_⟩
    intro hnone
    simp [isPaused, hnone] at hpaused

/-- What the foreign keys of the schema and the checks on the way in guarantee. -/
structure WellFormed (s : Store) : Prop where
  legible : ∀ row ∈ s.executions, row.Legible s
  lineage : ∀ c ∈ s.continuations, ∃ row ∈ s.executions, row.executionId = c.executionId

theorem WellFormed.changes (h : s.WellFormed) (hsound : sound)
    (hchanges : Changes sound pauses allows s s') : s'.WellFormed := by
  constructor
  · intro row' hrow'
    rcases hchanges.fresh row' hrow' with ⟨row, hrow, hsame⟩ | ⟨-, hlegible⟩
    · exact legible_mono ((h.legible row hrow).of_same hsame) hchanges.submissions
    · exact hlegible hsound
  intro c hc
  rcases hchanges.continued c hc with hold | hnew
  · obtain ⟨row, hrow, hid⟩ := h.lineage c hold
    obtain ⟨row', hrow', hsame, -⟩ := hchanges.moved row hrow
    exact ⟨row', hrow', hsame.executionId.trans hid⟩
  · exact hnew

variable {snapshot : ExecutionSnapshot}

theorem snapshot_eq_ok :
    row.snapshot = .ok snapshot ↔
      projectReferenceFromParts row.projectId row.bindingGeneration = .ok snapshot.project ∧
      (row.generation : Int) ≤ i64Max ∧ (row.revision : Int) ≤ i64Max ∧
      snapshot = { row with project := snapshot.project } := by
  simp only [ExecutionRow.snapshot, ok_iff, sqlCounter_eq_ok]
  constructor
  · rintro ⟨_, hproject, _, ⟨hgeneration, rfl⟩, _, ⟨hrevision, rfl⟩, rfl⟩
    exact ⟨hproject, hgeneration, hrevision, rfl⟩
  · rintro ⟨hproject, hgeneration, hrevision, hsnapshot⟩
    exact ⟨_, hproject, _, ⟨hgeneration, rfl⟩, _, ⟨hrevision, rfl⟩, hsnapshot.symm⟩

variable {agentInstanceId childExecutionId : String}

theorem insertChild_changes (hparent : sound → parent.Legible s)
    (hsnapshot : parent.snapshot = .ok snapshot)
    (h : s.insertChild parent snapshot.project agentInstanceId childExecutionId observedAt =
      .ok s') :
    Changes sound pauses allows s s' ∧
      ∃ row ∈ s'.executions, row.executionId = childExecutionId := by
  simp only [insertChild, ok_iff, sqlCounter_eq_ok] at h
  obtain ⟨_, ⟨hgeneration, rfl⟩, _, hinsert, rfl⟩ := h
  constructor
  · refine changes_insert hinsert ⟨rfl, rfl⟩ fun hsound =>
      ⟨(hparent hsound).submission, ?_, hgeneration⟩
    exact ⟨_, project_readable (snapshot_eq_ok.mp hsnapshot).1⟩
  · exact ⟨_, (mem_insert hinsert).mpr (.inr rfl), rfl⟩

theorem insertContinuation_changes
    (hchild : ∃ row ∈ s.executions, row.executionId = childExecutionId)
    (h : s.insertContinuation parent childExecutionId reason observedAt = .ok s') :
    Changes sound pauses allows s s' := by
  simp only [insertContinuation, ok_iff] at h
  obtain ⟨_, hinsert, rfl⟩ := h
  refine changes_same rfl (fun _ _ => id) ?_ (fun _ => id) (.of_eq rfl)
  intro _ hc
  rcases (mem_insert hinsert).mp hc with hold | rfl
  · exact .inl hold
  · exact .inr hchild

theorem unpaused_update {pauses : Table PauseRow} {p : PauseRow → Bool} {f : PauseRow → PauseRow}
    (h : s.pauses.update p f = .ok (pauses, n)) (hresumes : ∀ row, (f row).resumedAt ≠ none)
    (hnone : s.pendingPauses = []) : { s with pauses }.pendingPauses = [] := by
  rw [pendingPauses, List.eq_nil_iff_forall_not_mem] at hnone ⊢
  intro _ hrow'
  simp only [mem_select, test_iff] at hnone hrow'
  obtain ⟨row, hrow, rfl⟩ := (mem_update h).mp hrow'.1
  unfold rewrite at hrow'
  split at hrow'
  · exact hresumes row hrow'.2
  · exact hnone row ⟨hrow, hrow'.2⟩

theorem resumePause_changes (h : s.resumePause executionId childExecutionId observedAt = .ok s') :
    Changes sound pauses allows s s' ∧ s'.executions = s.executions := by
  simp only [resumePause, ok_iff, pair_iff] at h
  obtain ⟨_, _, hupdate, rfl⟩ := h
  exact ⟨changes_same rfl (fun _ _ => id) (fun _ => .inl)
    (fun _ => unpaused_update hupdate (by simp)) (.of_eq rfl), rfl⟩

variable {targetAgent identity : String} {candidate : Candidate} {json : MessageJson}
  {outcome : ExecutionRecoveryOutcome} {resetAt : Int} {answer : Option QuotaRow}

theorem mem_recoverable :
    candidate ∈ s.recoverable targetAgent ↔ candidate.row ∈ s.executions ∧
      s.submission candidate.row.submissionId = some candidate.submission ∧
      candidate.submission.targetAgent = targetAgent ∧
      (isActive candidate.row.state = true ∨ s.isPaused candidate.row.executionId = true) := by
  simp only [recoverable, List.mem_filterMap, bind, Option.bind_eq_some_iff]
  constructor
  · rintro ⟨_, hrow, _, hsubmission, hselected⟩
    split at hselected
    next hselect =>
      cases hselected
      exact ⟨hrow, hsubmission, hselect.1, hselect.2⟩
    · cases hselected
  · rintro ⟨hrow, hsubmission, hagent, hstate⟩
    exact ⟨candidate.row, hrow, candidate.submission, hsubmission, if_pos ⟨hagent, hstate⟩⟩

theorem mem_recoverable_of_candidates (h : candidate ∈ s.candidates targetAgent) :
    candidate ∈ s.recoverable targetAgent :=
  (List.mem_insertionSort _).mp (List.mem_of_mem_take h)

theorem recoverCandidate_changes
    (hparent : sound → candidate.row.Legible s) (hsnapshot : candidate.row.snapshot = .ok snapshot)
    (h : s.recoverCandidate json candidate snapshot agentInstanceId childExecutionId observedAt =
      .ok (outcome, s')) : Changes sound pauses s.Closes s s' := by
  unfold recoverCandidate at h
  split at h
  · simp only [ok_iff, pair_iff] at h
    obtain ⟨_, hclose, -, rfl⟩ := h
    simp only [closeUnreadable, ok_iff, pair_iff] at hclose
    obtain ⟨_, _, hupdate, rfl⟩ := hclose
    refine changes_update hupdate (fun _ => ⟨rfl, rfl, rfl, rfl, rfl⟩) (fun _ => rfl) ?_
    intro _ _ hr
    simp only [test_iff] at hr
    exact .inl ⟨hr.2.2, rfl⟩
  · simp only [ok_iff, pair_iff] at h
    obtain ⟨closed, hclose, _, hstart, _, hresume, _, hcontinue, -, rfl⟩ := h
    have hclosed : Changes sound pauses s.Closes s closed := closeParent_changes hclose
    obtain ⟨hinserted, hchild⟩ := insertChild_changes
      (fun hsound => legible_mono (hparent hsound) hclosed.submissions) hsnapshot hstart
    obtain ⟨hresumed, hexecutions⟩ := resumePause_changes hresume
    rw [← hexecutions] at hchild
    exact ((hclosed.trans hinserted).trans hresumed).trans
      (insertContinuation_changes hchild hcontinue)

theorem snapshots_singleton {snapshots : List ExecutionSnapshot} :
    [candidate].mapM (fun candidate => candidate.row.snapshot) = .ok snapshots ↔
      ∃ snapshot, candidate.row.snapshot = .ok snapshot ∧ snapshots = [snapshot] := by
  simp only [List.mapM_cons, List.mapM_nil, ok_iff]
  constructor
  · rintro ⟨snapshot, hsnapshot, _, rfl, rfl⟩
    exact ⟨snapshot, hsnapshot, rfl⟩
  · rintro ⟨snapshot, hsnapshot, rfl⟩
    exact ⟨snapshot, hsnapshot, [], rfl, rfl⟩

theorem reconstructActiveForAgent_changes (hwell : sound → s.WellFormed)
    (h : s.reconstructActiveForAgent json targetAgent agentInstanceId childExecutionId observedAt =
      .ok (outcome, s')) : Changes sound pauses s.Closes s s' := by
  simp only [reconstructActiveForAgent, ok_iff] at h
  obtain ⟨-, -, _, hsnapshots, h⟩ := h
  split at h
  · cases h
    exact .refl s
  next candidate _ hcandidates =>
    have hmem : candidate ∈ s.recoverable targetAgent :=
      mem_recoverable_of_candidates (by rw [hcandidates]; exact List.mem_singleton.mpr rfl)
    rw [hcandidates, snapshots_singleton] at hsnapshots
    obtain ⟨_, hsnapshot, hlist⟩ := hsnapshots
    cases hlist
    exact recoverCandidate_changes
      (fun hsound => (hwell hsound).legible _ (mem_recoverable.mp hmem).1) hsnapshot h
  · cases h
    exact .refl s

theorem qualifyQuotaFailure_cases {now : Int}
    (h : s.qualifyQuotaFailure executionId identity resetAt now = .ok (answer, s')) :
    s' = s ∧ (∀ q ∈ answer, q ∈ s.quotaResumes ∧ q.executionId = executionId ∧
        q.identity = identity) ∨
      ∃ quotaResumes, answer = some ⟨executionId, identity, resetAt, now, none⟩ ∧
        s.quotaResumes.insert ⟨executionId, identity, resetAt, now, none⟩ = .ok quotaResumes ∧
        s' = { s with quotaResumes } := by
  simp only [qualifyQuotaFailure, ok_iff] at h
  obtain ⟨-, -, h⟩ := h
  split at h
  · cases h
    exact .inl ⟨rfl, by simp⟩
  split at h
  next hstored =>
    cases h
    refine .inl ⟨rfl, ?_⟩
    intro q hq
    split at hq
    · cases hq
    next hidentity =>
      cases hq
      obtain ⟨hmem, hid⟩ := quotaFailureFor_eq_some.mp hstored
      exact ⟨hmem, hid, not_not.mp hidentity⟩
  · split at h
    · cases h
      exact .inl ⟨rfl, by simp⟩
    · simp only [ok_iff, pair_iff] at h
      obtain ⟨-, -, quotaResumes, hinsert, rfl, rfl⟩ := h
      exact .inr ⟨quotaResumes, rfl, hinsert, rfl⟩

section Quota

variable {json : MessageJson} {parentExecutionId identity agentInstanceId childExecutionId : String}
  {observedAt : Int} {outcome : QuotaRecoveryOutcome}

structure Reconstructs (json : MessageJson) (s s' : Store)
    (parentExecutionId identity agentInstanceId childExecutionId : String) (observedAt : Int)
    (parent : ExecutionRow) (snapshot : ExecutionSnapshot) (message : BridgetMessage) : Prop where
  found : s.execution parentExecutionId = some parent
  read : parent.snapshot = .ok snapshot
  failed : snapshot.state = "failed"
  leaf : ∀ c ∈ s.continuations, c.parentExecutionId ≠ parentExecutionId
  exact : s.executionMessage json parent = .ok (some message)
  writes : ∃ started continued, s.insertChild parent snapshot.project agentInstanceId
      childExecutionId observedAt = .ok started ∧
    started.insertContinuation parent childExecutionId "usage_limit_reset" observedAt =
      .ok continued ∧ continued.resumeQuota parentExecutionId identity childExecutionId = .ok s'

theorem reconstructQuotaFailed_cases
    (h : s.reconstructQuotaFailed json parentExecutionId identity agentInstanceId childExecutionId
      observedAt = .ok (outcome, s')) :
    s' = s ∧ (∀ execution, outcome ≠ .reconstructed execution) ∨
      ∃ parent snapshot message, outcome = .reconstructed
          (reconstruction parent snapshot.project childExecutionId message observedAt) ∧
        Reconstructs json s s' parentExecutionId identity agentInstanceId childExecutionId
          observedAt parent snapshot message := by
  simp only [reconstructQuotaFailed, ok_iff] at h
  obtain ⟨-, -, h⟩ := h
  split at h
  · cases h
    exact .inl ⟨rfl, by simp⟩
  split at h
  · cases h
    exact .inl ⟨rfl, by simp⟩
  split at h
  · cases h
    exact .inl ⟨rfl, by simp⟩
  · cases h
    exact .inl ⟨rfl, by simp⟩
  rename_i parent _ hparent
  simp only [bind_eq_ok] at h
  obtain ⟨snapshot, hsnapshot, h⟩ := h
  split at h
  · cases h
    exact .inl ⟨rfl, by simp⟩
  rename_i hfailed
  split at h
  · cases h
    exact .inl ⟨rfl, by simp⟩
  rename_i hleaf
  simp only [ok_iff, pair_iff] at h
  obtain ⟨found, hmessage, message, rfl, started, hstart, continued, hcontinue, resumed,
    hresumed, rfl, rfl⟩ := h
  refine .inr ⟨parent, snapshot, message, rfl, hparent, hsnapshot, not_not.mp hfailed, ?_,
    hmessage, started, continued, hstart, hcontinue, hresumed⟩
  intro c hc heq
  apply hleaf
  exact List.any_eq_true.mpr ⟨c, hc, decide_eq_true heq⟩

/-- The last write of a reconstruction names the child in the row of the qualification. -/
theorem resumeQuota_spec (h : s.resumeQuota parentExecutionId identity childExecutionId = .ok s') :
    KeepsQualifications s s' ∧ ∃ q ∈ s'.quotaResumes, q.executionId = parentExecutionId ∧
      q.identity = identity ∧ q.resumeExecutionId = some childExecutionId := by
  simp only [resumeQuota, ok_iff, pair_iff] at h
  obtain ⟨_, _, hupdate, -, hone, rfl⟩ := h
  constructor
  · intro q hq
    refine ⟨_, (mem_update hupdate).mpr ⟨q, hq, rfl⟩, ?_⟩
    unfold rewrite
    split
    next hselected =>
      refine ⟨rfl, rfl, fun _ hc => ?_⟩
      -- only a row that names no child is written
      have hnone : q.resumeExecutionId = none := (of_decide_eq_true hselected).2.2
      rw [hnone] at hc
      cases hc
    · exact ⟨rfl, rfl, fun _ => id⟩
  · obtain ⟨-, hcount⟩ := update_rows hupdate
    obtain ⟨q, hq, hselected⟩ := exists_of_count_eq_one (hcount.symm.trans hone)
    refine ⟨_, (mem_update hupdate).mpr ⟨q, hq, rfl⟩, ?_⟩
    unfold rewrite
    rw [if_pos hselected]
    have hrow := of_decide_eq_true hselected
    exact ⟨hrow.1, hrow.2.1, rfl⟩

theorem reconstructQuotaFailed_changes (hwell : sound → s.WellFormed)
    (h : s.reconstructQuotaFailed json parentExecutionId identity agentInstanceId childExecutionId
      observedAt = .ok (outcome, s')) : Changes sound pauses (fun _ _ => False) s s' := by
  obtain ⟨rfl, -⟩ | ⟨parent, _, _, -, hreconstructs⟩ := reconstructQuotaFailed_cases h
  · exact .refl _
  obtain ⟨_, _, hstart, hcontinue, hresume⟩ := hreconstructs.writes
  obtain ⟨hinserted, hchild⟩ := insertChild_changes (fun hsound =>
    (hwell hsound).legible parent (execution_eq_some.mp hreconstructs.found).1)
    hreconstructs.read hstart
  refine (hinserted.trans (insertContinuation_changes hchild hcontinue)).trans ?_
  have hqualified := (resumeQuota_spec hresume).1
  simp only [resumeQuota, ok_iff, pair_iff] at hresume
  obtain ⟨_, _, -, -, -, rfl⟩ := hresume
  exact changes_same rfl (fun _ _ => id) (fun _ => .inl) (fun _ => id) hqualified

end Quota

end Store

inductive Op where
  | admitStarting (submissionId executionId targetAgent : String)
      (project : Option ProjectReference) (observedAt : Int)
  | admitStartingMessage (message : BridgetMessage) (executionId : String)
      (project : Option ProjectReference) (observedAt : Int)
  | transition (executionId expectedState : String) (expectedRevision expectedGeneration : Nat)
      (nextState reason : String) (observedAt : Int)
  | handleTransition (connections : Connections) (connId : String)
      (transition : ExecutionStateTransition)
  | expireStarting (cutoffAt observedAt : Int)
  | recordPause (executionId targetAgent : String) (controlGeneration : Nat) (now : Int)
  | abandonPause (executionId : String) (now : Int)
  | reconstructActive (targetAgent agentInstanceId childExecutionId : String) (observedAt : Int)
  | qualifyQuota (executionId identity : String) (resetAt now : Int)
  | reconstructQuota (parentExecutionId identity agentInstanceId childExecutionId : String)
      (observedAt : Int)

/-- What the store takes from outside: the JSON library, and how it words its failures. -/
structure Environment where
  json : MessageJson
  describe : SqlError → String

namespace Store

variable {env : Environment} {s s' : Store} {op : Op}

def exec (env : Environment) (s : Store) : Op → Result Store
  | .admitStarting submissionId executionId targetAgent project observedAt =>
    (s.admitStartingForProject submissionId executionId targetAgent project observedAt).map Prod.snd
  | .admitStartingMessage message executionId project observedAt =>
    (s.admitStartingMessageForProject env.json message executionId project observedAt).map
      Prod.snd
  | .transition executionId expectedState expectedRevision expectedGeneration nextState reason
      observedAt =>
      (s.transitionIfCurrent executionId expectedState expectedRevision expectedGeneration
        nextState reason observedAt).map Prod.snd
  | .handleTransition connections connId transition =>
    .ok (handleExecutionTransition env.describe connections connId transition s).2
  | .expireStarting cutoffAt observedAt => (s.expireStartingBefore cutoffAt observedAt).map Prod.snd
  | .recordPause executionId targetAgent controlGeneration now =>
    s.recordPauseInterruption executionId targetAgent controlGeneration now
  | .abandonPause executionId now => (s.abandonPauseInterruption executionId now).map Prod.snd
  | .reconstructActive targetAgent agentInstanceId childExecutionId observedAt =>
    (s.reconstructActiveForAgent env.json targetAgent agentInstanceId childExecutionId
      observedAt).map Prod.snd
  | .qualifyQuota executionId identity resetAt now =>
    (s.qualifyQuotaFailure executionId identity resetAt now).map Prod.snd
  | .reconstructQuota parentExecutionId identity agentInstanceId childExecutionId observedAt =>
    (s.reconstructQuotaFailed env.json parentExecutionId identity agentInstanceId
      childExecutionId observedAt).map Prod.snd

def step (env : Environment) (s : Store) (op : Op) : Store :=
  match s.exec env op with
  | .ok s' => s'
  | .error _ => s

end Store

def Op.allows (s : Store) : Op → String → String → Prop
  | .transition _ expectedState _ _ nextState _ _ =>
    fun source target => source = expectedState ∧ target = nextState
  | .handleTransition _ _ reported =>
    fun source target => source = reported.expectedState ∧ target = reported.nextState
  | .expireStarting .. => fun source target => source = "starting" ∧ target = "unreachable"
  | .reconstructActive .. => s.Closes
  | _ => fun _ _ => False

def Op.Pauses : Op → Prop
  | .recordPause .. => True
  | _ => False

/-- Projects are passed with the generation of their binding. -/
def Op.Admitted : Op → Prop
  | .admitStarting _ _ _ project _ | .admitStartingMessage _ _ project _ => Store.Bound project
  | _ => True

namespace Store

variable {env : Environment} {s s' : Store} {op : Op}

theorem exec_changes (h : s.exec env op = .ok s') :
    Changes (op.Admitted ∧ s.WellFormed) op.Pauses (op.allows s) s s' := by
  cases op
  case handleTransition =>
    cases h
    unfold handleExecutionTransition
    split
    · exact .refl s
    split
    · exact .refl s
    · exact .refl s
    split
    · exact .refl s
    split
    next happlied => exact transitionIfCurrent_changes happlied
    · exact .refl s
    · exact .refl s
    · exact .refl s
  case recordPause =>
    simp only [exec, recordPauseInterruption, ok_iff] at h
    obtain ⟨_, -, -, -, rfl⟩ := h
    exact changes_same rfl (fun _ _ => id) (fun _ => .inl) (absurd trivial) (.of_eq rfl)
  all_goals obtain ⟨_, hreturn⟩ := map_snd_eq_ok.mp h
  case admitStarting => exact admitSubmission_changes And.left hreturn
  case admitStartingMessage => exact admitSubmission_changes And.left hreturn
  case transition => exact transitionIfCurrent_changes hreturn
  case expireStarting =>
    simp only [expireStartingBefore, ok_iff, pair_iff] at hreturn
    obtain ⟨_, _, hupdate, -, rfl⟩ := hreturn
    refine changes_update hupdate (fun _ => ⟨rfl, rfl, rfl, rfl, rfl⟩) (fun _ => rfl) ?_
    intro _ _ hr
    simp only [test_iff] at hr
    exact ⟨hr.1, rfl⟩
  case abandonPause =>
    simp only [abandonPauseInterruption, ok_iff, pair_iff] at hreturn
    obtain ⟨_, _, hupdate, -, rfl⟩ := hreturn
    exact changes_same rfl (fun _ _ => id) (fun _ => .inl)
      (fun _ => unpaused_update hupdate (by simp)) (.of_eq rfl)
  case reconstructActive => exact reconstructActiveForAgent_changes And.right hreturn
  case qualifyQuota =>
    obtain ⟨rfl, -⟩ | ⟨_, -, hinsert, rfl⟩ := qualifyQuotaFailure_cases hreturn
    · exact .refl _
    · refine changes_same rfl (fun _ _ => id) (fun _ => .inl) (fun _ => id) ?_
      intro q hq
      exact ⟨q, (mem_insert hinsert).mpr (.inl hq), rfl, rfl, fun _ => id⟩
  case reconstructQuota => exact reconstructQuotaFailed_changes And.right hreturn

theorem step_changes (env : Environment) (s : Store) (op : Op) :
    Changes (op.Admitted ∧ s.WellFormed) op.Pauses (op.allows s) s (s.step env op) := by
  unfold step
  split
  next h => exact exec_changes h
  · exact .refl s

theorem init_wellFormed : Store.init.WellFormed :=
  ⟨fun _ hrow => absurd hrow not_mem_empty, fun _ hc => absurd hc not_mem_empty⟩

theorem WellFormed.step (h : s.WellFormed) (hadmitted : op.Admitted) :
    (Store.step env s op).WellFormed :=
  h.changes ⟨hadmitted, h⟩ (step_changes env s op)

end Store

def sampleMessage : BridgetMessage := ⟨"m1", "alice", "bob", "bonjour", false, none⟩

def sampleText : String :=
  "\x7b\"id\":\"m1\",\"from\":\"alice\",\"to\":\"bob\",\"body\":\"bonjour\",\"reply\":false," ++
    "\"hops\":4,\"from_declared\":false\x7d"

def sampleEnvironment : Environment where
  json :=
    { encode := fun _ => sampleText
      decode := fun text => if text = sampleText then some sampleMessage else none }
  describe _ := ""

def sampleStore (ops : List Op) : Store := ops.foldl (Store.step sampleEnvironment) Store.init

end Bridget.Execution
