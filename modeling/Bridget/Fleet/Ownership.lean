import Bridget.Fleet.DesiredState
import Bridget.Idempotency.AgentLinks

/-!
# Ownership of instances

What the supervisor does with links: it reserves one for a spawned child within the limits
its parent set, and it moves one under another parent when the stored paths show no cycle.
-/

namespace Bridget.Fleet

open Foundation Idempotency

structure SpawnOwnership where
  parentInstanceId : String
  (parentExecutionId objectiveId delegationId : Option String)
  project : Option ProjectReference
  role : String
  (maxChildren maxDepth : Option Nat)

inductive FleetError where
  | invalidOrder (reason : String)
  | invalidTransition (commandId : String) (current expected : SpawnCommandState)
  | staleGeneration
  | deadlineElapsed
  | ownership (reason : String)
  | idempotency (error : IdempotencyError)
  | desiredState (error : DesiredStateError)
  deriving DecidableEq

/-- The `?` on a call of the store. -/
def store {α : Type} (call : Except IdempotencyError α) : Except FleetError α :=
  call.mapError .idempotency

@[simp] theorem store_eq_ok {α : Type} {call : Except IdempotencyError α} {a : α} :
    store call = .ok a ↔ call = .ok a :=
  mapError_eq_ok

/-- The part of `validate_order` that looks at the owner and the project. -/
def validateOwnership (ownership : Option SpawnOwnership) (project : Option ProjectReference) :
    Except FleetError Unit := do
  ensure (∀ o ∈ ownership, isBlank o.parentInstanceId = false ∧ isBlank o.role = false)
    (.invalidOrder "propriété parent ou rôle vide")
  ensure (∀ p ∈ project, isBlank p.projectId = false ∧ p.bindingGeneration ≠ 0)
    (.invalidOrder "référence projet invalide")

def agentPathContains (path instanceId : String) : Bool :=
  (split '/' path).any fun segment => segment = instanceId

/-- The link of a child that is about to start; its name is a new random one. -/
def reserveAgentLink (s : LinkStore) (linkId childInstanceId : String)
    (ownership : SpawnOwnership) (project : Option ProjectReference) (now : Int) :
    Except FleetError (AgentLinkRecord × LinkStore) := do
  let currentChildren ← store (s.openAgentLinksForParent ownership.parentInstanceId)
  ensure (∀ limit ∈ ownership.maxChildren, currentChildren.length < limit)
    (.ownership "quota enfants atteint")
  let parentPath ← store (s.pathOf ownership.parentInstanceId)
  ensure (∀ limit ∈ ownership.maxDepth, (split '/' parentPath).length ≤ limit)
    (.ownership "profondeur maximale atteinte")
  let link : AgentLinkRecord :=
    { linkId
      parentInstanceId := ownership.parentInstanceId
      childInstanceId
      parentExecutionId := ownership.parentExecutionId
      objectiveId := ownership.objectiveId
      delegationId := ownership.delegationId
      project
      role := ownership.role
      agentPath := parentPath ++ "/" ++ childInstanceId
      state := .reserved
      createdAt := now
      closedAt := none
      revision := 0 }
  let s ← store (s.createAgentLink link)
  return (link, s)

def transferAgentLink (s : LinkStore) (linkId newParentInstanceId : String) (now : Int) :
    Except FleetError (AgentLinkRecord × LinkStore) := do
  let current ← store (s.agentLinkById linkId)
  let current ← orError current (.ownership "lien de transfert introuvable")
  let parentPath ← store (s.pathOf newParentInstanceId)
  ensure (newParentInstanceId ≠ current.childInstanceId ∧
    agentPathContains parentPath current.childInstanceId = false) (.ownership "cycle d'ascendance")
  store (s.transferAgentLink linkId newParentInstanceId
    (parentPath ++ "/" ++ current.childInstanceId) now)

/-- A connected child takes its link into use. -/
def openAgentLink (s : LinkStore) (linkId : String) (now : Int) :
    Except FleetError (AgentLinkRecord × LinkStore) :=
  store (s.transitionAgentLink linkId [.reserved, .transferred] .opened now)

def closeAgentLink (s : LinkStore) (linkId : String) (changedAt : Int) :
    Except FleetError (AgentLinkRecord × LinkStore) :=
  store (s.transitionAgentLink linkId [.reserved, .opened, .transferred, .orphaned] .closed
    changedAt)

inductive LinkOp where
  | spawn (linkId childInstanceId : String) (ownership : SpawnOwnership)
      (project : Option ProjectReference) (now : Int)
  | transfer (linkId newParentInstanceId : String) (now : Int)
  | orphan (parentInstanceId : String) (now : Int)
  | connect (linkId : String) (now : Int)
  | close (linkId : String) (now : Int)

def execLink (s : LinkStore) : LinkOp → Except FleetError LinkStore
  | .spawn linkId childInstanceId ownership project now => do
      validateOwnership (some ownership) project
      let (_, s) ← reserveAgentLink s linkId childInstanceId ownership project now
      return s
  | .transfer linkId newParentInstanceId now =>
    (transferAgentLink s linkId newParentInstanceId now).map Prod.snd
  | .orphan parentInstanceId now =>
    (store (s.orphanAgentLinksForParent parentInstanceId now)).map Prod.snd
  | .connect linkId now => (openAgentLink s linkId now).map Prod.snd
  | .close linkId now => (closeAgentLink s linkId now).map Prod.snd

def stepLink (s : LinkStore) (op : LinkOp) : LinkStore :=
  match execLink s op with
  | .ok s' => s'
  | .error _ => s

end Bridget.Fleet
