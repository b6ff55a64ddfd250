import Bridget.Execution.Runs

/-!
# Executions that failed for a quota

A failed execution may be qualified once, under one identity, and then resumed once: the row of
the qualification remembers the child, and every later call is answered from it. No operation
removes such a row or changes the child that it names.
-/

namespace Bridget.Execution

open Foundation Table Store

inductive ContinuationOutcome where
  | applied | missing | parentMissing | generationMismatch | incompatible

namespace Store

/-- A continuation is recorded once; the same facts again only move its date forward. -/
def recordContinuation (s : Store) (executionId : String) (generation : Nat)
    (parentExecutionId : String) (mode : ContinuationMode) (reason : Option String)
    (observedAt : Int) : Result (ContinuationOutcome × Store) :=
  match s.execution executionId with
  | none => .ok (.missing, s)
  | some row => do
      let childGeneration ← sqlCounter row.generation
      if childGeneration ≠ generation then return (.generationMismatch, s)
      else if executionId = parentExecutionId ∨ (s.execution parentExecutionId).isNone then
        return (.parentMissing, s)
      else
        match s.continuations.find? fun c => c.executionId = executionId with
        | some known => do
            let knownGeneration ← sqlCounter known.generation
            if ¬ (knownGeneration = generation ∧ known.parentExecutionId = parentExecutionId ∧
                known.mode = mode ∧ known.reason = reason) then
              return (.incompatible, s)
            else
              let (continuations, _) ← s.continuations.update
                (fun c => c.executionId = executionId)
                (fun c => { c with observedAt := max c.observedAt observedAt })
              return (.applied, { s with continuations })
        | none => do
            ensure (0 < generation ∧ 0 ≤ observedAt) .constraint
            let continuations ← s.continuations.insert
              ⟨executionId, generation, parentExecutionId, mode, reason, observedAt⟩
            return (.applied, { s with continuations })

end Store

inductive LineageOp where
  | execution (op : Op)
  | recordContinuation (executionId : String) (generation : Nat) (parentExecutionId : String)
      (mode : ContinuationMode) (reason : Option String) (observedAt : Int)

namespace Store

variable {env : Environment} {s s' : Store}

def execLineage (env : Environment) (s : Store) : LineageOp → Result Store
  | .execution op => s.exec env op
  | .recordContinuation executionId generation parentExecutionId mode reason observedAt =>
    (s.recordContinuation executionId generation parentExecutionId mode reason observedAt).map
      Prod.snd

def lineageStep (env : Environment) (s : Store) (op : LineageOp) : Store :=
  match s.execLineage env op with
  | .ok s' => s'
  | .error _ => s

def ResumeAccepts (parentExecutionId identity agentInstanceId childExecutionId : String)
    (observedAt : Int) : Prop :=
  isBlank parentExecutionId = false ∧ isBlank identity = false ∧
    isBlank agentInstanceId = false ∧ isBlank childExecutionId = false ∧ 0 ≤ observedAt
  deriving Decidable

variable {parentExecutionId identity agentInstanceId childExecutionId : String}
  {observedAt : Int} {parent : ExecutionRow} {snapshot : ExecutionSnapshot}
  {message : BridgetMessage} {op : LineageOp} {ops : List LineageOp}

theorem project_columns {projectId : Option String} {bindingGeneration : Option Nat}
    {project : Option ProjectReference}
    (h : projectReferenceFromParts projectId bindingGeneration = .ok project) :
    project.map ProjectReference.projectId = projectId ∧
      project.map ProjectReference.bindingGeneration = bindingGeneration := by
  unfold projectReferenceFromParts at h
  split at h
  · cases h
    exact ⟨rfl, rfl⟩
  · split at h
    · cases h
      exact ⟨rfl, rfl⟩
    · cases h
  · cases h

/-- What a reconstructed child has from its parent. -/
structure ChildOf (json : MessageJson) (s s' : Store) (parent child : ExecutionRow)
    (execution : ReconstructedExecution) : Prop where
  failed : parent.state = "failed"
  leaf : ∀ c ∈ s.continuations, c.parentExecutionId ≠ parent.executionId
  fresh : s.execution child.executionId = none
  generation : child.generation = parent.generation + 1
  submissionId : child.submissionId = parent.submissionId
  projectId : child.projectId = parent.projectId
  bindingGeneration : child.bindingGeneration = parent.bindingGeneration
  snapshot : child.snapshot = .ok execution.snapshot
  message : s.executionMessage json parent = .ok (some execution.message) ∧
    s'.executionMessage json child = .ok (some execution.message)

theorem recordContinuation_quotaResumes {executionId : String} {generation : Nat}
    {mode : ContinuationMode} {reason : Option String} {outcome : ContinuationOutcome}
    (h : s.recordContinuation executionId generation parentExecutionId mode reason observedAt =
      .ok (outcome, s')) : s'.quotaResumes = s.quotaResumes := by
  unfold recordContinuation at h
  split at h
  · cases h
    rfl
  simp only [bind_eq_ok] at h
  obtain ⟨_, -, h⟩ := h
  split at h
  · cases h
    rfl
  split at h
  · cases h
    rfl
  split at h
  · simp only [bind_eq_ok] at h
    obtain ⟨_, -, h⟩ := h
    split at h
    · cases h
      rfl
    · simp only [ok_iff, pair_iff] at h
      obtain ⟨_, _, -, -, rfl⟩ := h
      rfl
  · simp only [ok_iff, pair_iff] at h
    obtain ⟨-, -, _, -, -, rfl⟩ := h
    rfl

theorem execLineage_keeps (h : s.execLineage env op = .ok s') : KeepsQualifications s s' := by
  cases op with
  | recordContinuation =>
    obtain ⟨_, hreturn⟩ := map_snd_eq_ok.mp h
    exact .of_eq (recordContinuation_quotaResumes hreturn)
  | execution => exact (exec_changes h).qualified

theorem run_keeps
    (hrun : Runs (lineageStep env) s ops s') : KeepsQualifications s s' := by
  induction hrun with
  | nil => exact .of_eq rfl
  | cons _ _ ih =>
    refine .trans ?_ ih
    unfold lineageStep
    split
    next hexec => exact execLineage_keeps hexec
    · exact .of_eq rfl

/-- A call after the child was created, from any state that a run reaches then. -/
def AnsweredBy (env : Environment) (s : Store) (parentExecutionId identity child : String) : Prop :=
  ∀ ops s', Runs (lineageStep env) s ops s' → ∀ agentInstanceId childExecutionId observedAt,
      s'.reconstructQuotaFailed env.json parentExecutionId identity agentInstanceId childExecutionId
          observedAt =
        if ResumeAccepts parentExecutionId identity agentInstanceId childExecutionId observedAt then
          .ok (.alreadyResumed child, s')
        else .error .invalidParameter

section

variable (h : Reconstructs env.json s s' parentExecutionId identity agentInstanceId
  childExecutionId observedAt parent snapshot message)

include h

theorem Reconstructs.keeps :
    KeepsQualifications s s' ∧ ∃ q ∈ s'.quotaResumes, q.executionId = parentExecutionId ∧
      q.identity = identity ∧ q.resumeExecutionId = some childExecutionId := by
  obtain ⟨_, _, hstart, hcontinue, hresume⟩ := h.writes
  simp only [insertChild, ok_iff] at hstart
  obtain ⟨_, -, _, -, rfl⟩ := hstart
  simp only [insertContinuation, ok_iff] at hcontinue
  obtain ⟨_, -, rfl⟩ := hcontinue
  obtain ⟨hkeeps, hnamed⟩ := resumeQuota_spec hresume
  exact ⟨hkeeps, hnamed⟩

theorem Reconstructs.child :
    ∃ child ∈ s'.executions, child.executionId = childExecutionId ∧
      ChildOf env.json s s' parent child
        (reconstruction parent snapshot.project childExecutionId message observedAt) := by
  obtain ⟨_, _, hstart, hcontinue, hresume⟩ := h.writes
  simp only [insertChild, ok_iff, sqlCounter_eq_ok] at hstart
  obtain ⟨_, ⟨hgeneration, rfl⟩, _, hinsert, rfl⟩ := hstart
  simp only [insertContinuation, ok_iff] at hcontinue
  obtain ⟨_, -, rfl⟩ := hcontinue
  simp only [resumeQuota, ok_iff, pair_iff] at hresume
  obtain ⟨_, _, -, -, -, rfl⟩ := hresume
  obtain ⟨hproject, -, -, hread⟩ := snapshot_eq_ok.mp h.read
  obtain ⟨hprojectId, hbinding⟩ := project_columns hproject
  have hid := (execution_eq_some.mp h.found).2
  refine ⟨_, (mem_insert hinsert).mpr (.inr rfl), rfl, ?_⟩
  refine ⟨?_, ?_, ?_, rfl, rfl, hprojectId, hbinding, ?_, h.exact, ?_⟩
  · have hfailed := h.failed
    rw [hread] at hfailed
    exact hfailed
  · rw [hid]
    exact h.leaf
  · apply execution_eq_none.mpr
    intro _ hrow
    exact not_conflicts_of_insert hinsert hrow
  · apply snapshot_eq_ok.mpr
    exact ⟨project_readable hproject, hgeneration, by simp [startingRow, i64Max], rfl⟩
  · exact h.exact

theorem Reconstructs.answered : AnsweredBy env s' parentExecutionId identity childExecutionId := by
  obtain ⟨-, q, hq, hexecution, hidentity, hchild⟩ := h.keeps
  intro _ _ hrun agent child now
  obtain ⟨_, hkept, hexecution', hidentity', hchild'⟩ := run_keeps hrun q hq
  have hfound := quotaFailureFor_eq_some.mpr ⟨hkept, hexecution'.trans hexecution⟩
  unfold reconstructQuotaFailed ensure
  by_cases haccepts : ResumeAccepts parentExecutionId identity agent child now
  · rw [if_pos haccepts]
    unfold ResumeAccepts at haccepts
    rw [if_pos haccepts, ok_bind, hfound]
    dsimp only
    rw [if_neg (not_not.mpr (hidentity'.trans hidentity)), hchild' _ hchild]
    rfl
  · rw [if_neg haccepts]
    unfold ResumeAccepts at haccepts
    rw [if_neg haccepts]
    rfl

end

end Store

/-- In every run from an empty store: an identity and an execution qualify each other only; a
reconstruction creates the child of a failed leaf, with what it has from its parent, and is
answered by that child for ever after; and every other outcome leaves the tables alone. -/
theorem quota_failures_resume_once {env : Environment} {ops : List LineageOp} {s : Store}
    (hrun : Runs (lineageStep env) .init ops s) :
    (∀ later s', Runs (lineageStep env) s later s' →
      ∀ q ∈ s.quotaResumes, ∀ q' ∈ s'.quotaResumes,
        q.executionId = q'.executionId ↔ q.identity = q'.identity) ∧
    (∀ executionId identity resetAt now q s',
      s.qualifyQuotaFailure executionId identity resetAt now = .ok (some q, s') →
        q ∈ s'.quotaResumes ∧ q.executionId = executionId ∧ q.identity = identity) ∧
    ∀ parentExecutionId identity agentInstanceId childExecutionId observedAt,
      (∀ execution s', s.reconstructQuotaFailed env.json parentExecutionId identity agentInstanceId
          childExecutionId observedAt = .ok (.reconstructed execution, s') →
        execution.parentExecutionId = parentExecutionId ∧
        (∃ parent ∈ s.executions, parent.executionId = parentExecutionId ∧
          ∃ child ∈ s'.executions, child.executionId = childExecutionId ∧
            Store.ChildOf env.json s s' parent child execution) ∧
        Store.AnsweredBy env s' parentExecutionId identity childExecutionId) ∧
      (∀ outcome s', s.reconstructQuotaFailed env.json parentExecutionId identity agentInstanceId
          childExecutionId observedAt = .ok (outcome, s') →
        (∀ execution, outcome ≠ .reconstructed execution) → s' = s) ∧
      ∀ error, s.reconstructQuotaFailed env.json parentExecutionId identity agentInstanceId
          childExecutionId observedAt = .error error →
        s.lineageStep env (.execution (.reconstructQuota parentExecutionId identity
          agentInstanceId childExecutionId observedAt)) = s := by
  refine ⟨?_, ?_, ?_⟩
  · intro later s' hlater q hq q' hq'
    obtain ⟨_, hkept, hexecution, hidentity, -⟩ := run_keeps hlater q hq
    rw [← hexecution, ← hidentity]
    constructor
    · intro hsame
      rw [Table.eq_of_conflicts hkept hq' (.inl hsame)]
    · intro hsame
      rw [Table.eq_of_conflicts hkept hq' (.inr hsame)]
  · intro executionId identity resetAt now q s' hqualify
    obtain ⟨rfl, hstored⟩ | ⟨_, hanswer, hinsert, rfl⟩ := qualifyQuotaFailure_cases hqualify
    · exact hstored q rfl
    · cases hanswer
      exact ⟨(mem_insert hinsert).mpr (.inr rfl), rfl, rfl⟩
  · intro parentExecutionId identity agentInstanceId childExecutionId observedAt
    refine ⟨?_, ?_, ?_⟩
    · intro execution s' hreturn
      obtain ⟨-, hother⟩ | ⟨parent, _, _, houtcome, hreconstructs⟩ :=
        reconstructQuotaFailed_cases hreturn
      · exact absurd rfl (hother execution)
      · cases houtcome
        obtain ⟨hmem, hid⟩ := execution_eq_some.mp hreconstructs.found
        exact ⟨hid, ⟨parent, hmem, hid, hreconstructs.child⟩, hreconstructs.answered⟩
    · intro outcome s' hreturn hother
      obtain ⟨rfl, -⟩ | ⟨_, _, _, houtcome, -⟩ := reconstructQuotaFailed_cases hreturn
      · rfl
      · exact absurd houtcome (hother _)
    · intro error herror
      simp only [lineageStep, execLineage, exec, herror]
      rfl

def quotaFailedRun : List LineageOp :=
  [.execution (.admitStartingMessage sampleMessage "e1" none 10),
    .execution (.transition "e1" "starting" 0 1 "failed" "usage_limit" 11),
    .execution (.qualifyQuota "e1" "quota-1" 20 12)]

/-- A failed execution, qualified and then resumed. -/
theorem quota_failed_run_resumes_once :
    ∃ s, Runs (lineageStep sampleEnvironment) .init quotaFailedRun s ∧
      ∃ execution s',
        s.reconstructQuotaFailed sampleEnvironment.json "e1" "quota-1" "bob-1" "e2" 21 =
          .ok (.reconstructed execution, s') ∧
        Store.AnsweredBy sampleEnvironment s' "e1" "quota-1" "e2" := by
  obtain ⟨s, hrun⟩ : ∃ s, Runs (lineageStep sampleEnvironment) .init
      quotaFailedRun s :=
    ⟨_, .cons trivial (.cons trivial (.cons trivial (.nil _)))⟩
  have hreturn : (match (quotaFailedRun.foldl (lineageStep sampleEnvironment)
      .init).reconstructQuotaFailed sampleEnvironment.json "e1" "quota-1" "bob-1" "e2" 21 with
        | .ok (.reconstructed _, _) => true
        | _ => false) = true := by
    decide +kernel
  rw [← hrun.eq_foldl] at hreturn
  split at hreturn
  next execution s' hresult =>
    obtain ⟨-, -, hreconstructs⟩ := quota_failures_resume_once hrun
    exact ⟨s, hrun, execution, s', hresult, ((hreconstructs ..).1 execution s' hresult).2.2⟩
  · cases hreturn

end Bridget.Execution
