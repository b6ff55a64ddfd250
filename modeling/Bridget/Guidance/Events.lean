import Bridget.Foundation.Window
import Bridget.Idempotency.AgentLinks
import Bridget.Schedules.Store

/-!
# Guidance of agents

A guidance request is judged by facts that the daemon gathers about the one who asks. For an
interrupt by an agent the facts hold how often the target was interrupted lately: the daemon
counts the admitted interrupts in a journal of guidance events, in which it also records the
outcome of every request.
-/

namespace Bridget.Guidance

open Foundation
open Bridget.Idempotency (GuidanceAction GuidanceActor GuidanceFacts GuidanceRefusal
  AgentLinkRecord authorize)

def uiHumanAgentId : String := "550e8400-e29b-41d4-a716-4466554400f0"

def routingAgentId (agentId : String) : String :=
  if agentId = "humain" then uiHumanAgentId else agentId

structure GuidanceConnection where
  /-- the agent and the instance that the connection is live for -/
  identity : Option (String × String)
  /-- the presence of the instance is that of a user interface -/
  uiPresence : Bool
  /-- a live connection in the role of an attachment, without a name -/
  attached : Bool
  project : Option CommunicationProject

def guidanceSource (conn : Option GuidanceConnection) :
    GuidanceActor × Option (String × String) × Bool :=
  match conn with
  | none => (.bareClient, none, false)
  | some conn =>
    let ui := conn.uiPresence && conn.identity.any fun identity => identity.1 = uiHumanAgentId
    let actor :=
      if conn.attached then .attachedHuman
      else if ui then .bareClient
      else match conn.identity with
        | some (agent, _) => .agent agent
        | none => .bareClient
    (actor, conn.identity, ui)

structure GuidanceTask where
  (owner ownerInstance : String)
  childInstance : Option String
  terminal : Bool
  mission : String

structure DaemonView where
  instanceOf : String → Option String
  forChild : String → Except String (Option GuidanceTask)
  agentLinkForChild : String → Except String (Option AgentLinkRecord)
  projectOf : String → Option CommunicationProject
  paused : Except String Bool

structure GuidanceRequest where
  conn : Option GuidanceConnection
  target : String
  action : GuidanceAction
  path : GuidancePath
  trustedProducer : Option MessageOrigin
  childProof : Bool
  id : String

def ownedBy (instanceId : String) (link : Option AgentLinkRecord) : Bool :=
  link.any fun link => link.parentInstanceId = instanceId ∧
    (link.state = .opened ∨ link.state = .transferred)

def entrustedBy (owner ownerInstance childInstance : String) (task : Option GuidanceTask) : Bool :=
  task.any fun task => task.owner = owner ∧ task.ownerInstance = ownerInstance ∧
    task.childInstance = some childInstance

/-- Whether the actor is a parent of the target, and whether it is a child. -/
def kinship (view : DaemonView) (identity : Option (String × String)) (target : String)
    (targetInstance : Option String) (task : Option GuidanceTask) : Except String (Bool × Bool) :=
  match identity, targetInstance with
  | some (agent, instanceId), some targetInstance => do
      let link ← view.agentLinkForChild targetInstance
      let ownLink ← view.agentLinkForChild instanceId
      let own ← view.forChild agent
      return (ownedBy instanceId link || entrustedBy agent instanceId targetInstance task,
        ownedBy targetInstance ownLink || entrustedBy target targetInstance instanceId own)
  | _, _ => return (false, false)

def GuidanceRequest.actor (request : GuidanceRequest) : GuidanceActor :=
  if request.conn.isNone ∧ request.action = .interrupt ∧ request.path = .control then
    .internalPause
  else (guidanceSource request.conn).1

def rights (view : DaemonView) (request : GuidanceRequest) : Except String GuidanceFacts := do
  let (_, identity, ui) := guidanceSource request.conn
  let actor := request.actor
  let target := routingAgentId request.target
  let targetInstance := view.instanceOf target
  let task ← view.forChild target
  let (parent, child) ← kinship view identity target targetInstance task
  let crossProject :=
    match request.conn.bind GuidanceConnection.project, view.projectOf target with
    | some source, some destination => decide (source ≠ destination)
    | _, _ => false
  let paused ← view.paused
  return {
    action := request.action
    actor
    identityAttested := identity.isSome || actor = .attachedHuman
    trustedOrigin := request.trustedProducer.or (if ui then some .human else none)
    childProof := request.childProof
    actorIsTarget := identity.any fun identity => identity.1 = target
    actorIsParent := parent
    actorIsChild := child
    actorIsAuthor := false
    messageEditable := false
    recipientTurnActive := false
    carrierQueueFallback := false
    crossProject
    paused
    targetHasActiveNativeTask := task.any fun task => !task.terminal && task.mission ≠ "" &&
      task.childInstance.isSome && task.childInstance = targetInstance
    recentInterruptsPair := 0
    recentInterruptsTarget := 0
    now := 0
    lastInterruptPairAt := none
    thirdLatestInterruptTargetAt := none }

/-- The facts at some time: only the interrupts of agents are counted. -/
def counted (events : GuidanceEvents) (target : String) (now : Int) (facts : GuidanceFacts) :
    GuidanceFacts :=
  match facts.action, facts.actor with
  | .interrupt, .agent id =>
    let (pair, last) := events.countInterruptsPair id target (saturatingSub now 30)
    let (count, third) := events.countInterruptsTarget target (saturatingSub now 600)
    { facts with
      recentInterruptsPair := pair, recentInterruptsTarget := count, now
      lastInterruptPairAt := last, thirdLatestInterruptTargetAt := third }
  | _, _ => { facts with now }

def guidanceFacts (events : GuidanceEvents) (view : DaemonView) (request : GuidanceRequest)
    (now : Int) : Except String GuidanceFacts := do
  let facts ← rights view request
  return counted events (routingAgentId request.target) now facts

/-! ## The outcome -/

def actorLabel : GuidanceActor → String
  | .agent id => id
  | .attachedHuman => "human"
  | .bareClient => "unattested"
  | .internalPause => "internal_pause"

def guidanceRefusalCode : GuidanceRefusal → String
  | .intentNotPermitted _ => "intent_not_permitted"
  | .referentPaused => "referent_paused"
  | .missionActive => "mission_active"
  | .notEditable => "not_held"
  | .noActiveTurn => "no_active_turn"
  | .steerUnavailable => "steer_unavailable"
  | .interruptRateLimited _ => "interrupt_rate_limited"

section

variable (events : GuidanceEvents)

/-- Steers and interrupts leave an event, unless the daemon itself pauses an agent. -/
def recordGuidanceOutcome (actor : GuidanceActor)
    (request : GuidanceRequest) (now : Int) (outcome : GuidanceOutcome) : GuidanceEvents :=
  let record (action : EventAction) :=
    events.recordGuidanceEvent now (actorLabel actor) (routingAgentId request.target) action
      request.path (some request.id) outcome
  if actor = .internalPause then events
  else match request.action with
    | .steer => record .steer
    | .interrupt => record .interrupt
    | _ => events

/-- The refusal of a request whose facts cannot be read names the connection's own actor, and
leaves out the control path without a connection. -/
def recordGuidanceRefusal (request : GuidanceRequest) (now : Int)
    (code : String) : GuidanceEvents :=
  if request.conn.isNone ∧ request.path = .control then events
  else recordGuidanceOutcome events (guidanceSource request.conn).1 request now (.refused code)

def checkGuidance (view : DaemonView) (request : GuidanceRequest)
    (now : Int) : Except GuidanceRefusal GuidanceFacts :=
  match guidanceFacts events view request now with
  | .error _ => .error (.intentNotPermitted "identity_unattested")
  | .ok facts => do
      authorize facts
      return facts

def guide (view : DaemonView) (request : GuidanceRequest) (now : Int) : GuidanceEvents :=
  match guidanceFacts events view request now with
  | .error _ => recordGuidanceRefusal events request now "intent_not_permitted"
  | .ok facts =>
    recordGuidanceOutcome events facts.actor request now
      (match authorize facts with
      | .ok _ => .admitted
      | .error refusal => .refused (guidanceRefusalCode refusal))

end

end Bridget.Guidance
