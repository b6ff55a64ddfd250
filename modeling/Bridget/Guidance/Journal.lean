import Bridget.Foundation.Bounded

/-!
# The journal of guidance

Every guidance request leaves an event with its outcome. The admitted interrupts among the
recent events are counted when another one is asked for.
-/

namespace Bridget.Guidance

open Foundation

inductive GuidancePath where
  | sendIdempotent | send | control | cancel
  deriving DecidableEq

inductive EventAction where
  | steer | interrupt
  deriving DecidableEq

inductive GuidanceOutcome where
  | admitted
  | refused (code : String)
  deriving DecidableEq

structure GuidanceEvent where
  id : Nat
  atSecs : Int
  (actor target : String)
  action : EventAction
  path : GuidancePath
  messageId : Option String
  outcome : GuidanceOutcome

/-- The rows in the order of their insertion, with the last identifier that `AUTOINCREMENT` has
given out. -/
structure GuidanceEvents where
  rows : List GuidanceEvent
  sequence : Nat

/-- Newest first. -/
def eventOrder (a b : GuidanceEvent) : Prop :=
  b.atSecs < a.atSecs ∨ b.atSecs = a.atSecs ∧ b.id ≤ a.id
  deriving Decidable

namespace GuidanceEvents

variable (events : GuidanceEvents)

def recordGuidanceEvent (atSecs : Int) (actor target : String) (action : EventAction)
    (path : GuidancePath) (messageId : Option String) (outcome : GuidanceOutcome) :
    GuidanceEvents where
  rows := events.rows ++
    [{ id := events.sequence + 1, atSecs, actor, target, action, path, messageId, outcome }]
  sequence := events.sequence + 1

/-- How many interrupts of the pair were admitted since then, and the last of them. -/
def countInterruptsPair (actor target : String) (since : Int) : Nat × Option Int :=
  let rows := events.rows.filter fun row => row.actor = actor ∧ row.actor ≠ "human" ∧
    row.target = target ∧ row.action = .interrupt ∧ row.outcome = .admitted ∧ since ≤ row.atSecs
  (rows.length, (rows.map GuidanceEvent.atSecs).max?)

/-- How many interrupts of the target were admitted since then, and the third latest of them. -/
def countInterruptsTarget (target : String) (since : Int) : Nat × Option Int :=
  let rows := events.rows.filter fun row => row.target = target ∧ row.action = .interrupt ∧
    row.actor ≠ "human" ∧ row.outcome = .admitted ∧ since ≤ row.atSecs
  (rows.length, (rows.insertionSort eventOrder)[2]?.map GuidanceEvent.atSecs)

def purgeGuidanceEvents (now : Int) : GuidanceEvents :=
  { events with rows := events.rows.filter fun row => ¬ row.atSecs < saturatingSub now 86400 }

end GuidanceEvents

end Bridget.Guidance
