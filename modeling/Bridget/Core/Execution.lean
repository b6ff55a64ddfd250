import Bridget.Foundation.Fallible

/-!
# The pure machine of executions

The states of an execution and the edges between them, as the core crate defines them
apart from any storage. The daemon persists executions under the texts of these states.
-/

namespace Bridget.Core

open Foundation

inductive ExecutionState where
  | queued | starting | running | waitingApproval | waitingUserInput | interrupting | interrupted
  | completed | failed | unreachable
  deriving DecidableEq

namespace ExecutionState

def isTerminal : ExecutionState → Bool
  | .interrupted | .completed | .failed | .unreachable => true
  | _ => false

def asStr : ExecutionState → String
  | .queued => "queued"
  | .starting => "starting"
  | .running => "running"
  | .waitingApproval => "waiting_approval"
  | .waitingUserInput => "waiting_user_input"
  | .interrupting => "interrupting"
  | .interrupted => "interrupted"
  | .completed => "completed"
  | .failed => "failed"
  | .unreachable => "unreachable"

theorem asStr_injective {a b : ExecutionState} (h : a.asStr = b.asStr) : a = b := by
  cases a <;> cases b <;> first | rfl | exact absurd h (by decide)

end ExecutionState

open ExecutionState

def transitionAllowed (source target : ExecutionState) : Bool :=
  match source with
  | .queued => target = .starting || target = .unreachable
  | .starting => target = .running || target = .failed || target = .unreachable
  | .running =>
    target = .waitingApproval || target = .waitingUserInput || target = .interrupting ||
      target = .completed || target = .failed || target = .unreachable
  | .waitingApproval | .waitingUserInput =>
    target = .running || target = .failed || target = .unreachable
  | .interrupting => target = .interrupted || target = .failed || target = .unreachable
  | .interrupted | .completed | .failed | .unreachable => false

theorem not_terminal_of_allowed {source target : ExecutionState}
    (h : transitionAllowed source target = true) : source.isTerminal = false := by
  cases source <;> first | rfl | cases h

inductive ExecutionTransitionError where
  | stateMismatch (expected actual : ExecutionState)
  | revisionMismatch (expected actual : Nat)
  | terminalState (state : ExecutionState)
  | invalidTransition (source target : ExecutionState)

structure Execution where
  state : ExecutionState
  revision : Nat
  (startedAt lastProgressAt endedAt : Option Nat)

def Execution.transition (execution : Execution) (expectedState : ExecutionState)
    (expectedRevision : Nat) (nextState : ExecutionState) (observedAt : Nat) :
    Except ExecutionTransitionError Execution := do
  ensure (execution.revision = expectedRevision)
    (.revisionMismatch expectedRevision execution.revision)
  ensure (execution.state = expectedState) (.stateMismatch expectedState execution.state)
  ensure (execution.state.isTerminal = false) (.terminalState execution.state)
  ensure (transitionAllowed execution.state nextState = true)
    (.invalidTransition execution.state nextState)
  return {
    state := nextState
    revision := execution.revision + 1
    startedAt := if nextState = .starting ∧ execution.startedAt = none then some observedAt
      else execution.startedAt
    lastProgressAt := some observedAt
    endedAt := if nextState.isTerminal then some observedAt else execution.endedAt }

/-- Compare-and-set goes through exactly along the edges of the machine. -/
theorem Execution.transition_isOk {execution : Execution} {expectedState nextState : ExecutionState}
    {expectedRevision observedAt : Nat} :
    (∃ next, execution.transition expectedState expectedRevision nextState observedAt = .ok next ∧
      next.state = nextState ∧ next.revision = execution.revision + 1) ↔
    execution.revision = expectedRevision ∧ execution.state = expectedState ∧
      transitionAllowed execution.state nextState = true := by
  simp only [transition, ok_iff]
  constructor
  · rintro ⟨_, ⟨-, hrevision, -, hstate, -, -, -, hallowed, -⟩, -⟩
    exact ⟨hrevision, hstate, hallowed⟩
  · rintro ⟨hrevision, hstate, hallowed⟩
    exact ⟨_, ⟨(), hrevision, (), hstate, (), not_terminal_of_allowed hallowed, (), hallowed, rfl⟩,
      rfl, rfl⟩

end Bridget.Core
