import Bridget.Execution.Runs

/-!
# The history of an execution

The daemon stores the states of an execution as texts and moves them by compare-and-set,
without asking the core machine. The history that it persists is a path of that machine
exactly when every reported transition that the store would take names one of its edges.
-/

namespace Bridget.Execution

open Foundation Bridget.Core Table Option Store

/-- An edge of the core machine, between the texts of its states. -/
def CoreEdge (source target : String) : Prop :=
  ∃ a b : ExecutionState, source = a.asStr ∧ target = b.asStr ∧ transitionAllowed a b = true

theorem isActive_iff {state : String} :
    isActive state = true ↔ ∃ a : ExecutionState, state = a.asStr ∧ a.isTerminal = false := by
  constructor
  · intro h
    simp only [isActive, Bool.or_eq_true, test_iff] at h
    rcases h with ((((h | h) | h) | h) | h) | h
    · exact ⟨.queued, h, rfl⟩
    · exact ⟨.starting, h, rfl⟩
    · exact ⟨.running, h, rfl⟩
    · exact ⟨.waitingApproval, h, rfl⟩
    · exact ⟨.waitingUserInput, h, rfl⟩
    · exact ⟨.interrupting, h, rfl⟩
  · rintro ⟨a, rfl, hterminal⟩
    cases a <;> first | rfl | cases hterminal

/-- What becomes of a persisted state and its revision: nothing, the execution is created,
or it moves along an edge. -/
inductive PersistedStep : Option (String × Nat) → Option (String × Nat) → Prop
  | stays (persisted : Option (String × Nat)) : PersistedStep persisted persisted
  | created : PersistedStep none (some (ExecutionState.starting.asStr, 0))
  | moved {source target : String} (revision : Nat) (hedge : CoreEdge source target) :
      PersistedStep (some (source, revision)) (some (target, revision + 1))

variable {source target : String} {revision revision' : Nat}

section

variable (h : PersistedStep (some (source, revision)) (some (target, revision')))

include h

theorem PersistedStep.edge (hraised : revision < revision') : CoreEdge source target := by
  cases h with
  | stays => omega
  | moved _ hedge => exact hedge

/-- A move is one that the core machine accepts from the same state and revision. -/
theorem PersistedStep.accepted
    (hmoves : (source, revision) ≠ (target, revision')) (execution : Core.Execution)
    (hstate : execution.state.asStr = source) (hrevision : execution.revision = revision)
    (observedAt : Nat) :
    ∃ nextState next,
      execution.transition execution.state execution.revision nextState observedAt = .ok next ∧
        next.state.asStr = target ∧ next.revision = revision' := by
  cases h with
  | stays => exact absurd rfl hmoves
  | moved _ hedge =>
    obtain ⟨_, _, rfl, rfl, hallowed⟩ := hedge
    obtain rfl := ExecutionState.asStr_injective hstate
    obtain ⟨next, hnext, rfl, hrevision'⟩ := Core.Execution.transition_isOk.mpr ⟨rfl, rfl, hallowed⟩
    exact ⟨next.state, next, hnext, rfl, by rw [hrevision', hrevision]⟩

end

/-- A history that follows the core machine and never leaves a terminal state. -/
structure CorePath (history : List (Option (String × Nat))) : Prop where
  steps : history.IsChain PersistedStep
  terminal : history.Pairwise fun before after =>
    ∀ (state : ExecutionState) (revision : Nat), state.isTerminal = true →
      before = some (state.asStr, revision) → after = before

theorem PersistedStep.terminal {before after : Option (String × Nat)}
    (h : PersistedStep before after) {state : ExecutionState} (hterminal : state.isTerminal = true)
    (hbefore : before = some (state.asStr, revision)) : after = before := by
  cases h with
  | stays => rfl
  | created => cases hbefore
  | moved _ hedge =>
    obtain ⟨_, _, rfl, rfl, hallowed⟩ := hedge
    simp only [some.injEq, Prod.mk.injEq] at hbefore
    obtain rfl := ExecutionState.asStr_injective hbefore.1
    rw [not_terminal_of_allowed hallowed] at hterminal
    cases hterminal

theorem CorePath.of_steps {history : List (Option (String × Nat))}
    (h : history.IsChain PersistedStep) : CorePath history := by
  refine ⟨h, ?_⟩
  have htrans : IsTrans (Option (String × Nat)) fun before after =>
      ∀ (state : ExecutionState) (revision : Nat), state.isTerminal = true →
        before = some (state.asStr, revision) → after = before := by
    constructor
    intro _ _ _ hab hbc state revision hterminal ha
    have hb := hab state revision hterminal ha
    exact (hbc state revision hterminal (hb.trans ha)).trans hb
  refine List.isChain_iff_pairwise.mp (h.imp ?_)
  intro before after hstep state revision hterminal hbefore
  exact hstep.terminal hterminal hbefore

namespace Store

variable {s s' : Store}

def persisted (s : Store) (executionId : String) : Option (String × Nat) :=
  (s.execution executionId).map fun row => (row.state, row.revision)

theorem persisted_of_mem {row : ExecutionRow} (h : row ∈ s.executions) :
    s.persisted row.executionId = some (row.state, row.revision) := by
  rw [persisted, execution_eq_some.mpr ⟨h, rfl⟩]
  rfl

/-- Changes along edges of the core machine move each persisted state by one step. -/
theorem Changes.persistedStep {sound pauses : Prop} (h : Changes sound pauses CoreEdge s s')
    (executionId : String) :
    PersistedStep (s.persisted executionId) (s'.persisted executionId) := by
  cases hold : s.execution executionId with
  | some row =>
    obtain ⟨hrow, rfl⟩ := execution_eq_some.mp hold
    obtain ⟨_, hrow', hsame, hedge⟩ := h.moved row hrow
    have hnew := persisted_of_mem hrow'
    rw [hsame.executionId] at hnew
    rw [persisted_of_mem hrow, hnew]
    rcases hedge with ⟨hstate, hrevision⟩ | ⟨hedge, hrevision⟩
    · rw [hstate, hrevision]
      exact .stays _
    · rw [hrevision]
      exact .moved _ hedge
  | none =>
    have hnone : s.persisted executionId = none := by rw [persisted, hold]; rfl
    rw [hnone]
    cases hnew : s'.execution executionId with
    | none =>
      rw [persisted, hnew]
      exact .stays none
    | some row' =>
      obtain ⟨hrow', rfl⟩ := execution_eq_some.mp hnew
      rcases h.fresh row' hrow' with ⟨row, hrow, hsame⟩ | ⟨⟨hstate, hrevision⟩, -⟩
      · exact absurd hsame.executionId.symm (execution_eq_none.mp hold row hrow)
      · rw [persisted_of_mem hrow', hstate, hrevision]
        exact .created

end Store

def history (env : Environment) (ops : List Op) (executionId : String) :
    List (Option (String × Nat)) :=
  (ops.scanl (step env) init).map fun s => s.persisted executionId

/-- A report that the store would take: its sender is known and owns the execution, and what
it expects is what the store holds. -/
def ExecutionStateTransition.Current (s : Store) (connections : Connections) (connId : String)
    (reported : ExecutionStateTransition) : Prop :=
  (connections.instanceOf connId).isSome = true ∧
    ∃ row submission, s.execution reported.executionId = some row ∧
      s.submission row.submissionId = some submission ∧
      connections.connectionOf submission.targetAgent = some connId ∧
      row.state = reported.expectedState ∧ row.revision = reported.expectedRevision ∧
      row.generation = reported.generation ∧ (row.revision : Int) ≤ i64Max

/-- Reports that the store would take name an edge of the core machine. -/
def Op.Faithful (s : Store) : Op → Prop
  | .handleTransition connections connId reported =>
    reported.Current s connections connId → CoreEdge reported.expectedState reported.nextState
  | _ => True

/-- Without pauses, executions are moved by reports, expiry and recovery only. -/
def Op.Reported : Op → Prop
  | .transition .. | .recordPause .. => False
  | _ => True

namespace Store

variable {s s' : Store} {describe : SqlError → String} {connections : Connections}
  {connId executionId : String} {reported : ExecutionStateTransition} {row : ExecutionRow}

theorem executionControlTarget_eq_ok {targetAgent : String} {snapshot : ExecutionSnapshot} :
    s.executionControlTarget executionId = .ok (some (snapshot, targetAgent)) ↔
      ∃ row submission, s.execution executionId = some row ∧
        s.submission row.submissionId = some submission ∧ row.snapshot = .ok snapshot ∧
        submission.targetAgent = targetAgent := by
  unfold executionControlTarget
  cases s.execution executionId with
  | none => simp
  | some row =>
    cases hsubmission : s.submission row.submissionId with
    | none => simp [hsubmission]
    | some =>
      cases hsnapshot : row.snapshot <;> simp [hsubmission, hsnapshot, bind, Except.bind, pure,
        Except.pure]

theorem snapshot_of_legible (hlegible : row.Legible s) (hrevision : (row.revision : Int) ≤ i64Max) :
    ∃ project, row.snapshot = .ok { row with project } := by
  obtain ⟨project, hproject⟩ := hlegible.project
  exact ⟨project, snapshot_eq_ok.mpr ⟨hproject, hlegible.generation, hrevision, rfl⟩⟩

theorem transitionIfCurrent_applies (nextState reason : String) (observedAt : Int)
    (hrow : s.execution executionId = some row)
    (hlegible : row.Legible s) (hrevision : (row.revision : Int) ≤ i64Max) :
    ∃ applied s', s.transitionIfCurrent executionId row.state row.revision row.generation
        nextState reason observedAt = .ok (.applied applied, s') ∧
      s'.persisted executionId = some (nextState, row.revision + 1) := by
  obtain ⟨hmem, rfl⟩ := execution_eq_some.mp hrow
  obtain ⟨project, hsnapshot⟩ := snapshot_of_legible hlegible hrevision
  obtain ⟨executions, hupdate⟩ := update_eq_ok (t := s.executions)
    (p := fun r => decide (r.executionId = row.executionId ∧ r.state = row.state ∧
      r.revision = row.revision ∧ r.generation = row.generation))
    (keepsKeys_execution (f := fun r => { r with
      state := nextState, reason := some reason, revision := r.revision + 1
      updatedAt := observedAt }) fun _ => rfl)
  have hcount := count_eq_one (t := s.executions)
    (p := fun r => decide (r.executionId = row.executionId ∧ r.state = row.state ∧
      r.revision = row.revision ∧ r.generation = row.generation))
    (pinsKey_execution row.executionId) (by
      intro r hr
      simp only [test_iff] at hr ⊢
      exact hr.1) hmem (by simp)
  refine ⟨⟨row.executionId, project, nextState, row.generation, row.revision + 1, row.createdAt⟩,
    { s with executions }, ?_, ?_⟩
  · simp only [transitionIfCurrent, hrow, hsnapshot, ok_bind, hupdate, hcount]
    simp [ensure, bind, Except.bind, pure, Except.pure]
  have hfound : { s with executions }.execution row.executionId = _ :=
    find?_update hupdate fun _ => rfl
  rw [persisted, hfound]
  change Option.map _ (Option.map _ (s.execution row.executionId)) = _
  rw [hrow]
  simp [rewrite]

theorem handleExecutionTransition_refuses (h : ¬ reported.Current s connections connId) :
    (handleExecutionTransition describe connections connId reported s).2 = s := by
  unfold handleExecutionTransition
  split
  · rfl
  rename_i hknown
  split
  · rfl
  · rfl
  rename_i htarget
  split
  · rfl
  rename_i howner
  split
  next happlied =>
    refine absurd ⟨by simpa [isSome_iff_ne_none] using hknown, ?_⟩ h
    obtain ⟨row, submission, hrow, hsubmission, -, rfl⟩ := executionControlTarget_eq_ok.mp htarget
    simp only [transitionIfCurrent, hrow, bind_eq_ok] at happlied
    obtain ⟨_, hcurrent, happlied⟩ := happlied
    obtain ⟨-, -, hrevision, hsnapshot⟩ := snapshot_eq_ok.mp hcurrent
    split at happlied
    · cases happlied
    rename_i hexpected
    rw [hsnapshot] at hexpected
    simp only [not_or, not_not] at hexpected
    exact ⟨row, submission, hrow, hsubmission, not_not.mp howner, hexpected.1, hexpected.2.1,
      hexpected.2.2, hrevision⟩
  · rfl
  · rfl
  · rfl

/-- A current report is taken whatever state it names. -/
theorem handleExecutionTransition_takes (hwell : s.WellFormed)
    (h : reported.Current s connections connId) :
    s.persisted reported.executionId = some (reported.expectedState, reported.expectedRevision) ∧
      (handleExecutionTransition describe connections connId reported s).2.persisted
        reported.executionId = some (reported.nextState, reported.expectedRevision + 1) := by
  obtain ⟨hknown, row, submission, hrow, hsubmission, howner, hstate, hrevision, hgeneration,
    hbound⟩ := h
  have hlegible := hwell.legible row (execution_eq_some.mp hrow).1
  obtain ⟨_, hsnapshot⟩ := snapshot_of_legible hlegible hbound
  have htarget : s.executionControlTarget reported.executionId = .ok (some (_, _)) :=
    executionControlTarget_eq_ok.mpr ⟨row, submission, hrow, hsubmission, hsnapshot, rfl⟩
  obtain ⟨_, _, happlied, hpersisted⟩ := transitionIfCurrent_applies
    reported.nextState reported.reason reported.observedAt hrow hlegible hbound
  rw [hstate, hrevision, hgeneration] at happlied
  constructor
  · rw [persisted, hrow, map_some, hstate, hrevision]
  · unfold handleExecutionTransition
    simp only [isNone_eq_false_iff.mpr hknown, htarget, howner, happlied]
    simpa [← hrevision] using hpersisted

/-- A faithful operation moves executions along edges of the core machine only. -/
theorem step_coreEdge (env : Environment) {op : Op} (hunpaused : s.pendingPauses = [])
    (hreported : op.Reported) (hfaithful : op.Faithful s) :
    Changes (op.Admitted ∧ s.WellFormed) op.Pauses CoreEdge s (s.step env op) := by
  have hchanges := step_changes env s op
  cases op with
  | transition | recordPause => exact hreported.elim
  | handleTransition connections connId reported =>
    by_cases hcurrent : reported.Current s connections connId
    · refine hchanges.mono ?_
      rintro _ - _ ⟨hsource, rfl⟩
      rw [hsource]
      exact hfaithful hcurrent
    · have hsame : s.step env (.handleTransition connections connId reported) = s :=
        handleExecutionTransition_refuses hcurrent
      rw [hsame]
      exact .refl s
  | expireStarting =>
    refine hchanges.mono ?_
    rintro _ - _ ⟨hsource, rfl⟩
    exact ⟨.starting, .unreachable, hsource, rfl, rfl⟩
  | reconstructActive =>
    refine hchanges.mono ?_
    rintro row - target (⟨hactive, rfl⟩ | ⟨-, -, hpaused⟩)
    · obtain ⟨a, hsource, hlive⟩ := isActive_iff.mp hactive
      refine ⟨a, .unreachable, hsource, rfl, ?_⟩
      cases a <;> first | rfl | cases hlive
    · exact absurd hunpaused hpaused
  | _ => exact hchanges.mono fun _ _ _ h => h.elim

/-- The histories of all executions at once, as a chain of stores. -/
theorem histories_isChain_iff {env : Environment} {ops : List Op} :
    (∀ executionId, (history env ops executionId).IsChain PersistedStep) ↔
      (ops.scanl (step env) init).IsChain fun s s' =>
        ∀ executionId, PersistedStep (s.persisted executionId) (s'.persisted executionId) := by
  simp only [history, List.isChain_map]
  simp only [List.isChain_iff_getElem]
  constructor
  · intro h i hi executionId
    exact h executionId i hi
  · intro h executionId i hi
    exact h i hi executionId

/-- In every run without pauses, the persisted histories are paths of the core machine exactly
when every report that was taken names one of its edges. -/
theorem history_follows_core_iff_faithful {env : Environment} {ops : List Op}
    (hrun : Run (step env) (fun _ op => op.Admitted ∧ op.Reported) init ops s) :
    (∀ executionId, CorePath (history env ops executionId)) ↔
      Run (step env) (fun s op => op.Faithful s) init ops s := by
  constructor
  · intro hpaths
    have hchain := histories_isChain_iff.mp fun executionId => (hpaths executionId).steps
    refine hrun.of_chain WellFormed _ hchain (fun _ _ hwell hop => hwell.step hop.1) ?_
      init_wellFormed
    intro s op hwell _ hlinked
    cases op with
    | handleTransition _ _ reported =>
      intro hcurrent
      obtain ⟨hbefore, hafter⟩ := handleExecutionTransition_takes hwell hcurrent
      have hstep := hlinked reported.executionId
      rw [hbefore] at hstep
      change PersistedStep _ (persisted (handleExecutionTransition _ _ _ _ _).2 _) at hstep
      rw [hafter] at hstep
      exact hstep.edge (Nat.lt_succ_self _)
    | _ => trivial
  · intro hfaithful executionId
    refine .of_steps (histories_isChain_iff.mpr ?_ executionId)
    refine (hrun.and hfaithful).chain (fun s => s.WellFormed ∧ s.pendingPauses = []) _ ?_ ?_
      ⟨init_wellFormed, rfl⟩
    · rintro _ op ⟨hwell, hunpaused⟩ ⟨⟨hadmitted, hreported⟩, hop⟩
      have hchanges := step_coreEdge env hunpaused hreported hop
      have hpauses : ¬ op.Pauses := by
        intro hpauses
        cases op with
        | recordPause => exact hreported
        | _ => exact hpauses
      exact ⟨hwell.step hadmitted, hchanges.unpaused hpauses hunpaused⟩
    · rintro _ _ ⟨_, hunpaused⟩ ⟨⟨_, hreported⟩, hop⟩
      exact (step_coreEdge env hunpaused hreported hop).persistedStep

end Store

def sampleConnections : Connections where
  instanceOf connId := if connId = "c1" then some "i1" else none
  connectionOf agent := if agent = "bob" then some "c1" else none

def sampleReport (expectedState : String) (expectedRevision : Nat) (nextState : String) : Op :=
  .handleTransition sampleConnections "c1"
    ⟨"e1", expectedState, expectedRevision, 1, nextState, "accepted", 101⟩

def faithfulRun : List Op :=
  [.admitStartingMessage sampleMessage "e1" none 100, sampleReport "starting" 0 "running",
    sampleReport "running" 1 "waiting_user_input", sampleReport "starting" 0 "failed",
    sampleReport "waiting_user_input" 2 "running", sampleReport "running" 3 "completed"]

def reopeningRun : List Op :=
  [.admitStartingMessage sampleMessage "e1" none 100, sampleReport "starting" 0 "completed",
    sampleReport "completed" 1 "running"]

/-- From the start over a question to the end. -/
theorem faithful_run_follows_core :
    history sampleEnvironment faithfulRun "e1" =
      [none, some ("starting", 0), some ("running", 1), some ("waiting_user_input", 2),
        some ("waiting_user_input", 2), some ("running", 3), some ("completed", 4)] ∧
      CorePath (history sampleEnvironment faithfulRun "e1") := by
  refine ⟨by decide, ?_⟩
  obtain ⟨s, hrun⟩ : ∃ s, Run (step sampleEnvironment)
      (fun _ op => op.Admitted ∧ op.Reported) init faithfulRun s := by
    refine ⟨_, .cons ⟨?_, trivial⟩ (.cons ⟨trivial, trivial⟩ (.cons ⟨trivial, trivial⟩
      (.cons ⟨trivial, trivial⟩ (.cons ⟨trivial, trivial⟩ (.cons ⟨trivial, trivial⟩ (.nil _))))))⟩
    rintro _ ⟨⟩
  obtain ⟨s', hfaithful⟩ : ∃ s', Run (step sampleEnvironment) (fun s op => op.Faithful s)
      init faithfulRun s' :=
    ⟨_, .cons trivial (.cons (fun _ => ⟨.starting, .running, rfl, rfl, rfl⟩)
      (.cons (fun _ => ⟨.running, .waitingUserInput, rfl, rfl, rfl⟩)
      (.cons (fun _ => ⟨.starting, .failed, rfl, rfl, rfl⟩)
      (.cons (fun _ => ⟨.waitingUserInput, .running, rfl, rfl, rfl⟩)
      (.cons (fun _ => ⟨.running, .completed, rfl, rfl, rfl⟩) (.nil _))))))⟩
  refine (history_follows_core_iff_faithful hrun).mpr ?_ "e1"
  rwa [hrun.eq_foldl, ← hfaithful.eq_foldl]

/-- Both reports are taken, and the history leaves the machine and a terminal state. -/
theorem completed_execution_reopens :
    history sampleEnvironment reopeningRun "e1" =
      [none, some ("starting", 0), some ("completed", 1), some ("running", 2)] ∧
      ¬ CorePath (history sampleEnvironment reopeningRun "e1") := by
  have hhistory : history sampleEnvironment reopeningRun "e1" =
      [none, some ("starting", 0), some ("completed", 1), some ("running", 2)] := by decide
  refine ⟨hhistory, ?_⟩
  rw [hhistory]
  intro hpath
  have hleft := hpath.terminal
  simp only [List.pairwise_cons] at hleft
  have hkept := hleft.2.2.1 (some ("running", 2)) (by simp) .completed 1 rfl rfl
  exact absurd hkept (by decide)

end Bridget.Execution
