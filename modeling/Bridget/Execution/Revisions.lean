import Bridget.Execution.Runs

/-!
# Revisions of an execution

Every write to an execution is conditional on its revision and raises it by one. So two writers
that read the same revision are never both told that their transition was applied.
-/

namespace Bridget.Execution

open Foundation Table

namespace Store

variable {s s' : Store} {executionId expectedState nextState reason : String}
  {expectedRevision expectedGeneration : Nat} {observedAt : Int} {snapshot : ExecutionSnapshot}

/-- The execution has left the revision behind. -/
def Left (s : Store) (executionId : String) (revision : Nat) : Prop :=
  ∃ row ∈ s.executions, row.executionId = executionId ∧ revision < row.revision

theorem Left.step {revision : Nat} (h : s.Left executionId revision) (env : Environment) (op : Op) :
    (s.step env op).Left executionId revision := by
  obtain ⟨row, hrow, hid, hlater⟩ := h
  obtain ⟨row', hrow', hsame, hedge⟩ := (step_changes env s op).moved row hrow
  refine ⟨row', hrow', hsame.executionId.trans hid, ?_⟩
  rcases hedge with ⟨-, hrevision⟩ | ⟨-, hrevision⟩ <;> omega

/-- An applied transition finds the expected revision and leaves it. -/
theorem Left.of_applied
    (h : s.transitionIfCurrent executionId expectedState expectedRevision expectedGeneration
      nextState reason observedAt = .ok (.applied snapshot, s')) :
    s'.Left executionId expectedRevision := by
  unfold transitionIfCurrent at h
  split at h
  · cases h
  simp only [bind_eq_ok] at h
  obtain ⟨_, -, h⟩ := h
  split at h
  · cases h
  simp only [ok_iff, pair_iff] at h
  obtain ⟨_, _, hupdate, _, hone, -, rfl⟩ := h
  obtain ⟨row, hrow, hp⟩ := exists_of_count_eq_one ((update_rows hupdate).2.symm.trans hone)
  have hmoved := (mem_update hupdate).mpr ⟨row, hrow, rfl⟩
  rw [rewrite, if_pos hp] at hmoved
  simp only [test_iff] at hp
  exact ⟨_, hmoved, hp.1, hp.2.2.1 ▸ Nat.lt_succ_self _⟩

theorem Left.rejected (h : s.Left executionId expectedRevision)
    {answer : ConditionalTransition × Store}
    (hanswer : s.transitionIfCurrent executionId expectedState expectedRevision expectedGeneration
      nextState reason observedAt = .ok answer) : ∃ current, answer = (.rejected current, s) := by
  obtain ⟨row, hrow, hid, hlater⟩ := h
  simp only [transitionIfCurrent, execution_eq_some.mpr ⟨hrow, hid⟩, bind_eq_ok] at hanswer
  obtain ⟨current, hcurrent, hanswer⟩ := hanswer
  have hspent : current.revision ≠ expectedRevision := by
    rw [(snapshot_eq_ok.mp hcurrent).2.2.2]
    exact hlater.ne'
  rw [if_pos (.inr (.inl hspent))] at hanswer
  cases hanswer
  exact ⟨current, rfl⟩

/-- No update is lost: once a transition was applied at a revision, every later one that expects the
same revision is rejected, whatever is called in between. -/
theorem applied_revisions_are_spent (env : Environment) (ops : List Op)
    (h : s.transitionIfCurrent executionId expectedState expectedRevision expectedGeneration
      nextState reason observedAt = .ok (.applied snapshot, s')) :
    ∀ state generation next reason at' answer, (ops.foldl (Store.step env) s').transitionIfCurrent
        executionId state expectedRevision generation next reason at' = .ok answer →
      ∃ current, answer = (.rejected current, ops.foldl (Store.step env) s') := by
  have hleft : (ops.foldl (Store.step env) s').Left executionId expectedRevision := by
    refine List.foldlRecOn (motive := fun s : Store => s.Left executionId expectedRevision) ops _
      (Left.of_applied h) fun _ hleft op _ => ?_
    exact hleft.step env op
  intro _ _ _ _ _ _ hanswer
  exact hleft.rejected hanswer

/-- Two writers read the first revision of an execution. -/
theorem second_writer_is_rejected :
    let admitted := sampleStore [.admitStartingMessage sampleMessage "e1" none 100]
    ∃ snapshot s current,
      admitted.transitionIfCurrent "e1" "starting" 0 1 "running" "accepted" 101 =
        .ok (.applied snapshot, s) ∧
      s.transitionIfCurrent "e1" "starting" 0 1 "failed" "" 102 = .ok (.rejected current, s) := by
  intro admitted
  obtain ⟨snapshot, s, answer, hfirst, hsecond⟩ : ∃ snapshot s answer,
      admitted.transitionIfCurrent "e1" "starting" 0 1 "running" "accepted" 101 =
        .ok (.applied snapshot, s) ∧
      s.transitionIfCurrent "e1" "starting" 0 1 "failed" "" 102 = .ok answer :=
    ⟨_, _, _, rfl, rfl⟩
  obtain ⟨current, rfl⟩ :=
    applied_revisions_are_spent sampleEnvironment [] hfirst _ _ _ _ _ _ hsecond
  exact ⟨snapshot, s, current, hfirst, hsecond⟩

end Store

end Bridget.Execution
