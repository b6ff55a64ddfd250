import Bridget.Fleet.Ownership
import Bridget.Foundation.Durable

/-!
# The fleet supervisor

The calls of the supervisor of launches. Its stores are the sagas, the links and the desired
state; its memory holds the launches in flight, and a restart builds that memory again from
the stores. Each transaction of a store is one write, so that a call can be cut between any
two of them.
-/

namespace Bridget.Fleet

open Foundation Idempotency Durable

structure FleetConfig where
  quota : Nat
  (persistentHorizonSecs ephemeralHorizonSecs issuedAtToleranceSecs : Int)

structure SpawnOrder where
  posture : Option SpawnPosture
  agentType : String
  project : Option ProjectReference
  requestedName : Option String
  cwd : String
  persistent : Bool
  commandId : String
  (issuedAt deadlineAt : Int)
  ownership : Option SpawnOwnership
  remotePlacement : Option RemotePlacement

structure SpawnLease where
  (commandId name instanceId : String)
  generation : Nat
  deadlineAt : Int
  persistent : Bool
  project : Option ProjectReference
  linkId : Option String
  ownership : Option SpawnOwnership
  agentPath : Option String
  remotePlacement : Option RemotePlacement

structure SpawnWaiter where
  (commandId instanceId : String)
  generation : Nat
  deadlineAt : Int

inductive SpawnSubmission where
  | start (lease : SpawnLease)
  | await (waiter : SpawnWaiter)
  | terminal (issue : SpawnCommandIssue)
  | envelopeMismatch
  | idempotencyExpired

structure ActiveSpawn where
  (commandId name instanceId : String)
  generation : Nat
  deadlineAt : Int
  persistent : Bool
  project : Option ProjectReference
  (agentType cwd : String)
  state : SpawnCommandState
  resolvedDefinition : Option ResolvedAgentDefinition
  linkId : Option String
  ownership : Option SpawnOwnership
  agentPath : Option String
  remotePlacement : Option RemotePlacement

structure FleetInner where
  activeByName : AList fun _ : String => String
  activeByCommand : AList fun _ : String => ActiveSpawn
  completed : AList fun _ : String => SpawnCommandIssue
  nextGeneration : Nat

def FleetInner.init : FleetInner := ⟨∅, ∅, ∅, 1⟩

structure FleetStores where
  spawns : SpawnStore
  links : LinkStore
  desired : DesiredFleet

def FleetStores.init : FleetStores := ⟨.init, .init, ∅⟩

/-- What the supervisor is started with: the scope kept in its database, its configuration
and how orders are written and read. -/
structure FleetEnvironment extends SpawnCodec where
  supervisorScope : String
  config : FleetConfig
  serializeOrder : SpawnOrder → Bytes
  parseOrder : Bytes → Option SpawnOrder

abbrev FleetCall (α : Type) := Durable FleetStores FleetInner FleetError α

def desiredState {α : Type} (call : Except DesiredStateError α) : Except FleetError α :=
  call.mapError .desiredState

@[simp] theorem desiredState_eq_ok {α : Type} {call : Except DesiredStateError α} {a : α} :
    desiredState call = .ok a ↔ call = .ok a :=
  mapError_eq_ok

namespace FleetSupervisor

variable (env : FleetEnvironment)

def lift {α : Type} (x : Except FleetError α) : FleetCall α := .inspect fun _ _ => x

def onSpawns {α : Type} (f : SpawnStore → Except IdempotencyError (α × SpawnStore)) :
    FleetCall α := .write fun d => do
  let (a, spawns) ← store (f d.spawns)
  return (a, { d with spawns })

def changeSpawns (f : SpawnStore → Except IdempotencyError SpawnStore) : FleetCall Unit :=
  onSpawns fun s => (f s).map fun s => ((), s)

def onLinks {α : Type} (f : LinkStore → Except FleetError (α × LinkStore)) : FleetCall α :=
  .write fun d => do
    let (a, links) ← f d.links
    return (a, { d with links })

def onDesired {α : Type} (f : DesiredFleet → Except DesiredStateError (α × DesiredFleet)) :
    FleetCall α := .write fun d => do
  let (a, desired) ← desiredState (f d.desired)
  return (a, { d with desired })

def changeDesired (f : DesiredFleet → Except DesiredStateError DesiredFleet) : FleetCall Unit :=
  onDesired fun fleet => (f fleet).map fun fleet => ((), fleet)

def desiredEntry (name : String) : FleetCall (Option DesiredEquipier) := .inspect fun d _ => do
  let fleet ← desiredState (d.desired.load env.toSpawnCodec)
  return fleet.lookup name

def spawnKey (commandId : String) : FleetCall IdempotencyKey :=
  lift (store (IdempotencyKey.new env.supervisorScope .spawn commandId))

def validateOrder (order : SpawnOrder) (acceptLegacyDurableName : Bool) :
    Except FleetError Unit := do
  ensure (∀ placement ∈ order.remotePlacement, env.validPlacement placement ∧
    order.cwd = placement.executionCwd) (.invalidOrder "placement distant invalide")
  ensure (isBlank order.agentType = false) (.invalidOrder "type vide")
  ensure (isBlank order.commandId = false) (.invalidOrder "command_id vide")
  ensure (isAbsolute order.cwd) (.invalidOrder "cwd non absolu")
  ensure (order.issuedAt < order.deadlineAt) (.invalidOrder "échéance non postérieure à issued_at")
  let agentId ← orError order.requestedName (.invalidOrder "agent_id de spawn absent")
  ensure (validateAgentId agentId ∨ acceptLegacyDurableName)
    (.invalidOrder "agent_id de spawn invalide")
  validateOwnership order.ownership order.project

def resolveName (order : SpawnOrder) : String := order.requestedName.getD ""

def leaseFrom (active : ActiveSpawn) : SpawnLease := { active with }

def activeForLease (inner : FleetInner) (lease : SpawnLease) : Except FleetError ActiveSpawn := do
  let active ← orError (inner.activeByCommand.lookup lease.commandId) .staleGeneration
  ensure (active.generation = lease.generation ∧ active.name = lease.name ∧
    active.remotePlacement = lease.remotePlacement) .staleGeneration
  return active

def activeOf (lease : SpawnLease) : FleetCall ActiveSpawn :=
  .inspect fun _ inner => activeForLease inner lease

variable (active : ActiveSpawn)

def activate (inner : FleetInner) : FleetInner :=
  { inner with
    activeByName := inner.activeByName.insert active.name active.commandId
    activeByCommand := inner.activeByCommand.insert active.commandId active }

def releaseActiveLocked (inner : FleetInner) : FleetInner :=
  { inner with
    activeByCommand := inner.activeByCommand.erase active.commandId
    activeByName :=
      if inner.activeByName.lookup active.name = some active.commandId then
        inner.activeByName.erase active.name
      else inner.activeByName }

/-- The end of a launch. A remote agent that connected stays in the table, since only the
remote machine can prove that it stopped. -/
def completeLocked (issue : SpawnCommandIssue) (inner : FleetInner) : FleetInner :=
  let inner :=
    if active.remotePlacement.isSome && issue.isConnected then
      match inner.activeByCommand.lookup active.commandId with
      | some retained =>
        { inner with
          activeByCommand := inner.activeByCommand.insert active.commandId
            { retained with state := .connected } }
      | none => inner
    else releaseActiveLocked active inner
  { inner with completed := inner.completed.insert active.commandId issue }

def rememberIssue (commandId : String) (issue : SpawnCommandIssue) (inner : FleetInner) :
    FleetInner :=
  { inner with completed := inner.completed.insert commandId issue }

/-- The saga ends first; the memory follows. -/
def finishActive (active : ActiveSpawn) (issue : SpawnCommandIssue) : FleetCall Unit := do
  let key ← spawnKey env active.commandId
  changeSpawns fun s => s.finishSpawn key active.generation issue
  .remember (completeLocked active issue)

def closeAgentLink (active : ActiveSpawn) (changedAt : Int) : FleetCall Unit :=
  match active.linkId with
  | none => pure ()
  | some linkId => do
      let _ ← onLinks fun s => Fleet.closeAgentLink s linkId changedAt
      return ()

def desiredAgentLink (active : ActiveSpawn) : Option DesiredAgentLink := do
  let linkId ← active.linkId
  let ownership ← active.ownership
  let agentPath ← active.agentPath
  return { ownership with linkId, project := active.project, agentPath }

def ownershipFromDesired (equipier : DesiredEquipier) : Option SpawnOwnership :=
  equipier.agentLink.map fun link =>
    { link with project := equipier.project, maxChildren := none, maxDepth := none }

def desiredFrom (active : ActiveSpawn) (created : Int) (lifecycleState : DesiredLifecycleState) :
    DesiredEquipier :=
  { active with created, lifecycleState, agentLink := desiredAgentLink active }

def expireLocked (active : ActiveSpawn) (closedAt : Int) : FleetCall Unit := do
  let _ ← onDesired fun fleet => fleet.markStoppedIfGeneration env.toSpawnCodec active.name
    active.commandId active.generation
  closeAgentLink active closedAt
  finishActive env active (.cancelled "spawn_timeout")

/-! ## Ordering a launch -/

def defaultFleetQuota : Nat := 16

def quotaExceededDetail (quota : Nat) : String :=
  "quota de flotte atteint (" ++ toString quota ++
    ") ; lever avec BRIDGET_FLEET_QUOTA (ex. export BRIDGET_FLEET_QUOTA=" ++
    toString (max (min u64Max (quota + 8)) defaultFleetQuota) ++ ")"

def refusal (order : SpawnOrder) (now : Int) (allowedExistingState : Option DesiredLifecycleState)
    (command : SpawnCommand) (d : FleetStores) (inner : FleetInner) :
    Except FleetError (Option (String × String)) :=
  if order.deadlineAt ≤ now then
    .ok (some ("spawn_timeout", "délai absolu dépassé avant réservation"))
  else if (inner.activeByName.lookup command.name).isSome then
    .ok (some ("name_active", "nom déjà actif"))
  else do
    let fleet ← desiredState (d.desired.load env.toSpawnCodec)
    let existing := fleet.lookup command.name
    if existing.isSome ∧ ¬ (allowedExistingState.isSome ∧
        existing.map DesiredEquipier.lifecycleState = allowedExistingState) then
      return some ("name_reserved", "nom réservé par un agent géré")
    else if env.config.quota ≤ inner.activeByCommand.entries.length then
      return some ("quota_exceeded", quotaExceededDetail env.config.quota)
    else return none

def terminalRefusal (key : IdempotencyKey) (command : SpawnCommand) (category reason : String) :
    FleetCall SpawnSubmission := do
  changeSpawns fun s => s.finishSpawn key command.generation (.failed category reason)
  .remember (rememberIssue command.commandId (.failed category reason))
  return .terminal (.failed category reason)

def reserveAgentLink (command : SpawnCommand) (order : SpawnOrder) (linkId : String) (now : Int) :
    FleetCall (Option AgentLinkRecord) :=
  match order.ownership with
  | none => pure none
  | some ownership => onLinks fun s => do
      let instanceId ← orError command.instanceId
        (.idempotency (.corruptRecord "instance spawn en vol absente"))
      let (link, s) ← Fleet.reserveAgentLink s linkId instanceId ownership order.project now
      return (some link, s)

/-- The link of an order that could not be advanced is closed again, if it can be. -/
def abandonLink (link : Option AgentLinkRecord) (now : Int) : FleetCall Unit :=
  match link with
  | none => pure ()
  | some link => do
      let _ ← attempt (onLinks fun s =>
        store (s.transitionAgentLink link.linkId [.reserved] .closed now))
      return ()

def activeFrom (order : SpawnOrder) (command : SpawnCommand) (instanceId : String)
    (link : Option AgentLinkRecord) : ActiveSpawn :=
  { command, order with
    instanceId
    state := .reserved
    linkId := link.map AgentLinkRecord.linkId
    agentPath := link.map AgentLinkRecord.agentPath
    remotePlacement := order.remotePlacement }

def startLinked (key : IdempotencyKey) (order : SpawnOrder) (command : SpawnCommand)
    (link : Option AgentLinkRecord) (now : Int) : FleetCall SpawnSubmission := do
  match ← attempt (changeSpawns fun s =>
      s.advanceSpawn key command.generation .requested .reserved) with
  | .error error => do
      abandonLink link now
      lift (.error error)
  | .ok () => do
      let instanceId ← lift (orError command.instanceId
        (.idempotency (.corruptRecord "instance spawn en vol absente")))
      let active := activeFrom order command instanceId link
      .remember (activate active)
      return .start (leaseFrom active)

def startRequested (order : SpawnOrder) (now : Int)
    (allowedExistingState : Option DesiredLifecycleState) (linkId : String) (key : IdempotencyKey)
    (command : SpawnCommand) : FleetCall SpawnSubmission := do
  .remember fun inner =>
    { inner with nextGeneration := max (min u64Max (command.generation + 1)) 1 }
  match ← inspect (refusal env order now allowedExistingState command) with
  | some (category, reason) => terminalRefusal key command category reason
  | none => do
      match ← attempt (reserveAgentLink command order linkId now) with
      | .ok link => startLinked key order command link now
      | .error error =>
        if error = .ownership "quota enfants atteint" then
          terminalRefusal key command "children_quota_exceeded" "nombre maximal d'enfants atteint"
        else if error = .ownership "profondeur maximale atteinte" then
          terminalRefusal key command "depth_exceeded" "profondeur maximale atteinte"
        else lift (.error error)

/-- An order that is in flight already. Without its launch in memory it cannot end any more. -/
def awaitInFlight (key : IdempotencyKey) (command : SpawnCommand) :
    FleetCall SpawnSubmission := do
  let known ← inspect fun _ inner => .ok (inner.activeByCommand.lookup command.commandId).isSome
  if known then
    let instanceId ← lift (orError command.instanceId
      (.idempotency (.corruptRecord "instance spawn en vol absente")))
    return .await ⟨command.commandId, instanceId, command.generation, command.deadlineAt⟩
  else
    terminalRefusal key command "daemon_restarted" "génération sans état désiré après redémarrage"

/-- The names that a call makes up are new random ones. -/
structure NewIds where
  (instanceId linkId : String)

variable (order : SpawnOrder) (now : Int)

def requestSpawnWithPolicy
    (allowedExistingState : Option DesiredLifecycleState) (acceptLegacyDurableName : Bool)
    (ids : NewIds) : FleetCall SpawnSubmission := do
  lift (validateOrder env order acceptLegacyDurableName)
  let generation ← inspect fun _ inner => .ok inner.nextGeneration
  let key ← spawnKey env order.commandId
  let reservation ← onSpawns fun s => s.reserveSpawn env.toSpawnCodec key
    (env.serializeOrder order) order.issuedAt
    (if order.persistent then env.config.persistentHorizonSecs
      else env.config.ephemeralHorizonSecs)
    now env.config.issuedAtToleranceSecs
    { name := resolveName order, generation, persistent := order.persistent,
      deadlineAt := order.deadlineAt, instanceId := ids.instanceId }
  match reservation with
  | .requested command => startRequested env order now allowedExistingState ids.linkId key command
  | .inFlight command => awaitInFlight key command
  | .replayed issue => return .terminal issue
  | .envelopeMismatch => return .envelopeMismatch
  | .idempotencyExpired => return .idempotencyExpired

variable (ids : NewIds)

def requestSpawn : FleetCall SpawnSubmission := requestSpawnWithPolicy env order now none false ids

def requestRelaunch :
    FleetCall SpawnSubmission := do
  let name ← lift (orError order.requestedName (.invalidOrder "nom de relance absent"))
  let entry ← desiredEntry env name
  let entry ← lift (orError entry (.invalidOrder "agent de relance absent"))
  lift (ensure (entry.lifecycleState = .stopped) (.invalidOrder "agent de relance non arrêté"))
  requestSpawnWithPolicy env order now (some .stopped) true ids

def requestRecovery :
    FleetCall SpawnSubmission := do
  let name ← lift (orError order.requestedName (.invalidOrder "nom de reprise absent"))
  let entry ← desiredEntry env name
  let entry ← lift (orError entry (.invalidOrder "agent de reprise absent"))
  lift (ensure (entry.lifecycleState = .running ∧ entry.persistent)
    (.invalidOrder "agent de reprise non persistant ou non actif"))
  requestSpawnWithPolicy env order now (some .running) true ids

/-! ## The life of a launch -/

/-- A launch past its deadline is expired, unless it runs on a remote machine. -/
def refuseLate (active : ActiveSpawn) (closedAt : Int) : FleetCall Unit := do
  if active.remotePlacement.isSome then lift (.error .deadlineElapsed)
  else
    expireLocked env active closedAt
    lift (.error .deadlineElapsed)

def markStarting (lease : SpawnLease) (now closedAt : Int) (definition : ResolvedAgentDefinition) :
    FleetCall Unit := do
  let active ← activeOf lease
  lift (ensure (∀ placement ∈ active.remotePlacement,
    placement.definitionDigest = definition.digest)
    (.invalidOrder "définition distante divergente"))
  if active.deadlineAt ≤ now then refuseLate env active closedAt
  else
    lift (ensure (active.state = .reserved)
      (.invalidTransition active.commandId active.state .reserved))
    let key ← spawnKey env active.commandId
    changeSpawns fun s =>
      s.advanceSpawnWithDefinition key active.generation .reserved .starting definition
    .remember fun inner =>
      { inner with
        activeByCommand := inner.activeByCommand.insert active.commandId
          { active with state := .starting, resolvedDefinition := some definition } }

def openAgentLink (active : ActiveSpawn) (now : Int) : FleetCall Unit :=
  match active.linkId with
  | none => pure ()
  | some linkId => do
      let _ ← onLinks fun s => Fleet.openAgentLink s linkId now
      return ()

/-- The desired state is written first, then the link, and the saga last. -/
def connect (active : ActiveSpawn) (instanceId : String) (now : Int) :
    FleetCall SpawnCommandIssue := do
  changeDesired fun fleet =>
    fleet.upsert env.toSpawnCodec active.name (desiredFrom active now .running)
  openAgentLink active now
  let issue : SpawnCommandIssue :=
    .connected active.name active.generation instanceId active.resolvedDefinition
  finishActive env active issue
  return issue

def registerConnected (lease : SpawnLease) (instanceId : String) (now closedAt : Int) :
    FleetCall SpawnCommandIssue := do
  lift (ensure (instanceId ≠ "") (.invalidOrder "instance_id vide"))
  let active ← activeOf lease
  lift (ensure (instanceId = active.instanceId) .staleGeneration)
  if active.remotePlacement.isSome ∧ active.state = .connected then
    inspect fun _ inner => orError (inner.completed.lookup active.commandId) .staleGeneration
  else if active.deadlineAt ≤ now then do
    refuseLate env active closedAt
    lift (.error .deadlineElapsed)
  else do
    lift (ensure (active.state = .starting)
      (.invalidTransition active.commandId active.state .starting))
    connect env active instanceId now

/-- A launch that never had an entry of its own gets one, stopped, when its definition is
known. -/
def persistStoppedActive (active : ActiveSpawn) (createdAt : Int) : FleetCall Unit := do
  match ← desiredEntry env active.name with
  | some entry =>
    if entry.commandId = active.commandId ∧ entry.generation = active.generation then
      let _ ← onDesired fun fleet => fleet.markStoppedIfGeneration env.toSpawnCodec active.name
        active.commandId active.generation
      return ()
    else changeDesired fun fleet => fleet.setLifecycleState env.toSpawnCodec active.name .stopped
  | none =>
    if active.resolvedDefinition.isSome then
      changeDesired fun fleet =>
        fleet.upsert env.toSpawnCodec active.name (desiredFrom active createdAt .stopped)
    else pure ()

/-- The entry of a launch that ends stays, stopped. -/
def keepStoppedEntry (active : ActiveSpawn) (createdAt : Int) : FleetCall Unit := do
  let entry ← desiredEntry env active.name
  if entry.isSome then persistStoppedActive env active createdAt else pure ()

variable (lease : SpawnLease)

def finishNonSuccess (issue : SpawnCommandIssue) (closedAt createdAt : Int) :
    FleetCall SpawnCommandIssue := do
  let active ← activeOf lease
  lift (ensure (¬ (active.remotePlacement.isSome ∧ active.state = .connected))
    (.invalidTransition active.commandId active.state .starting))
  keepStoppedEntry env active createdAt
  closeAgentLink active closedAt
  finishActive env active issue
  return issue

def fail (category reason : String) (closedAt createdAt : Int) : FleetCall SpawnCommandIssue :=
  finishNonSuccess env lease (.failed category reason) closedAt createdAt

def cancel (reason : String) (closedAt createdAt : Int) : FleetCall SpawnCommandIssue :=
  finishNonSuccess env lease (.cancelled reason) closedAt createdAt

/-- A launch in flight is cancelled; its link closes before anything else. -/
def stopActive (active : ActiveSpawn) (closedAt createdAt : Int) : FleetCall Unit := do
  closeAgentLink active closedAt
  persistStoppedActive env active createdAt
  if active.remotePlacement.isSome ∧ active.state = .connected then
    .remember (releaseActiveLocked active)
  else finishActive env active (.cancelled "arrêt demandé")

/-- A launch that connected keeps its issue, and its agent is no longer wanted. -/
def stopConnected (lease : SpawnLease) (closedAt : Int) : FleetCall Unit := do
  let _ ← onDesired fun fleet => fleet.markStoppedIfGeneration env.toSpawnCodec lease.name
    lease.commandId lease.generation
  match lease.linkId with
  | none => pure ()
  | some linkId => do
      let _ ← onLinks fun s => Fleet.closeAgentLink s linkId closedAt
      return ()

def isConnectedLease (inner : FleetInner) (lease : SpawnLease) : Bool :=
  match inner.completed.lookup lease.commandId with
  | some (.connected name generation instanceId _) =>
    name = lease.name ∧ generation = lease.generation ∧ instanceId = lease.instanceId
  | _ => false

def invalidateForStop (lease : SpawnLease) (closedAt createdAt : Int) : FleetCall Unit := do
  let known ← inspect fun _ inner => .ok (inner.activeByCommand.lookup lease.commandId).isSome
  if known then
    let active ← activeOf lease
    stopActive env active closedAt createdAt
  else
    inspect fun _ inner => ensure (isConnectedLease inner lease) .staleGeneration
    stopConnected env lease closedAt

def expire (commandId : String) (generation : Nat) (now closedAt : Int) : FleetCall Bool := do
  match ← inspect fun _ inner => .ok (inner.activeByCommand.lookup commandId) with
  | none => return false
  | some active => do
      lift (ensure (active.generation = generation) .staleGeneration)
      if now < active.deadlineAt ∨ active.remotePlacement.isSome then return false
      else
        expireLocked env active closedAt
        return true

/-! ## Restarting -/

def spawnOrder (key : IdempotencyKey) (s : SpawnStore) :
    Except IdempotencyError (Option SpawnOrder) :=
  whenSome (s.findRecord key) none fun record => do
    let order ← orError (env.parseOrder record.canonicalBytes)
      (.corruptRecord "canon de reprise spawn invalide")
    let command ← s.loadSpawnCommand env.toSpawnCodec key
    let command ← orError command (.corruptRecord "saga de reprise spawn absente")
    ensure (order.commandId = command.commandId ∧ order.persistent = command.persistent ∧
      order.deadlineAt = command.deadlineAt ∧ order.remotePlacement = command.remotePlacement ∧
      ∀ name ∈ order.requestedName, name = command.name)
      (.corruptRecord "canon de reprise spawn incohérent")
    return some order

/-- The owner of a recovered remote child is the one its link names now. -/
def recoveredOwnership (ownership : Option SpawnOwnership) (link : Option AgentLinkRecord) :
    Option SpawnOwnership :=
  match ownership, link with
  | some owner, some link =>
    some { owner with
      parentInstanceId := link.parentInstanceId
      parentExecutionId := link.parentExecutionId
      objectiveId := link.objectiveId
      delegationId := link.delegationId
      role := link.role }
  | ownership, _ => ownership

variable (desired : DesiredFleet) (command : SpawnCommand)

/-- A remote launch stays active until the remote machine proves its end, unless a later
generation or a stored end says that it is over. -/
def recoverRemote : FleetCall Unit := do
  let settled := (desired.lookup command.name).any fun entry =>
    command.generation < entry.generation ∨ entry.commandId = command.commandId ∧
      entry.generation = command.generation ∧ entry.lifecycleState ≠ .running
  if settled then pure ()
  else
    let key ← spawnKey env command.commandId
    let order ← inspect fun d _ => store (spawnOrder env key d.spawns)
    let order ← lift (orError order (.idempotency (.corruptRecord "canon distant absent")))
    lift (validateOrder env order true)
    let instanceId ← lift (orError command.instanceId
      (.idempotency (.corruptRecord "instance distante absente")))
    let link ← inspect fun d _ => store (d.links.agentLinkForChild instanceId)
    let active : ActiveSpawn :=
      { activeFrom order command instanceId link with
        persistent := order.persistent
        state := command.state
        ownership := recoveredOwnership order.ownership link }
    inspect fun _ inner => ensure ((inner.activeByName.lookup active.name).isSome = false)
      (.invalidOrder "réservations distantes de même nom")
    .remember (activate active)

/-- The desired state asks for this very launch to go on. -/
def wanted : Option DesiredEquipier :=
  (desired.lookup command.name).filter fun equipier =>
    equipier.commandId = command.commandId ∧ equipier.generation = command.generation ∧
      equipier.persistent ∧ equipier.lifecycleState = .running

def resumedFrom (equipier : DesiredEquipier) (instanceId : String) : ActiveSpawn :=
  { command, equipier with
    instanceId
    persistent := equipier.persistent
    state := .starting
    linkId := equipier.agentLink.map DesiredAgentLink.linkId
    ownership := ownershipFromDesired equipier
    agentPath := equipier.agentLink.map DesiredAgentLink.agentPath
    remotePlacement := equipier.remotePlacement }

/-- A local launch goes on when the desired state asks for it, and fails otherwise. -/
def recoverLocal (desired : DesiredFleet) (command : SpawnCommand) : FleetCall Unit :=
  match wanted desired command with
  | some equipier => do
      lift (ensure (equipier.remotePlacement = command.remotePlacement)
        (.invalidOrder "placement de reprise divergent"))
      let instanceId ← lift (orError command.instanceId
        (.idempotency (.corruptRecord "instance spawn reprise absente")))
      .remember (activate (resumedFrom command equipier instanceId))
  | none => do
      let key ← spawnKey env command.commandId
      changeSpawns fun s => s.finishSpawn key command.generation
        (.failed "daemon_restarted" "ordre en vol sans état désiré durable")
      .remember (rememberIssue command.commandId
        (.failed "daemon_restarted" "ordre en vol sans état désiré durable"))

/-- What the memory keeps of any saga: its generation is used up, and its issue is known. -/
def recallCommand (command : SpawnCommand) (inner : FleetInner) : FleetInner :=
  { inner with
    nextGeneration := max inner.nextGeneration (min u64Max (command.generation + 1))
    completed :=
      match command.issue with
      | some issue => inner.completed.insert command.commandId issue
      | none => inner.completed }

variable (desired : DesiredFleet)

def recoverCommand (command : SpawnCommand) : FleetCall Unit := do
  .remember (recallCommand command)
  if command.issue.isSome ∧ (command.remotePlacement = none ∨ command.state ≠ .connected) then
    pure ()
  else if command.remotePlacement.isSome then recoverRemote env desired command
  else recoverLocal env desired command

def recoverCommands : FleetCall Unit := do
  let commands ← inspect fun d _ =>
    store (d.spawns.spawnCommands env.toSpawnCodec env.supervisorScope)
  each (recoverCommand env desired) commands

/-- `FleetSupervisor::open`, on an empty memory. -/
def openSupervisor : FleetCall Unit := do
  lift (ensure (env.config.quota ≠ 0 ∧ 0 < env.config.persistentHorizonSecs ∧
    0 < env.config.ephemeralHorizonSecs) (.invalidOrder "configuration de flotte invalide"))
  changeDesired fun fleet => fleet.stopNonPersistentRunning env.toSpawnCodec
  let desired ← inspect fun d _ => desiredState (d.desired.load env.toSpawnCodec)
  recoverCommands env desired

end FleetSupervisor

open FleetSupervisor

inductive Call where
  | requestSpawn (order : SpawnOrder) (now : Int) (ids : NewIds)
  | requestRelaunch (order : SpawnOrder) (now : Int) (ids : NewIds)
  | requestRecovery (order : SpawnOrder) (now : Int) (ids : NewIds)
  | markStarting (lease : SpawnLease) (now closedAt : Int) (definition : ResolvedAgentDefinition)
  | registerConnected (lease : SpawnLease) (instanceId : String) (now closedAt : Int)
  | fail (lease : SpawnLease) (category reason : String) (closedAt createdAt : Int)
  | cancel (lease : SpawnLease) (reason : String) (closedAt createdAt : Int)
  | invalidateForStop (lease : SpawnLease) (closedAt createdAt : Int)
  | expire (commandId : String) (generation : Nat) (now closedAt : Int)

def discard {α : Type} (x : FleetCall α) : FleetCall Unit := do
  let _ ← x
  return ()

def Call.run (env : FleetEnvironment) : Call → FleetCall Unit
  | .requestSpawn order now ids => discard (FleetSupervisor.requestSpawn env order now ids)
  | .requestRelaunch order now ids => discard (FleetSupervisor.requestRelaunch env order now ids)
  | .requestRecovery order now ids => discard (FleetSupervisor.requestRecovery env order now ids)
  | .markStarting lease now closedAt definition =>
    FleetSupervisor.markStarting env lease now closedAt definition
  | .registerConnected lease instanceId now closedAt =>
    discard (FleetSupervisor.registerConnected env lease instanceId now closedAt)
  | .fail lease category reason closedAt createdAt =>
    discard (FleetSupervisor.fail env lease category reason closedAt createdAt)
  | .cancel lease reason closedAt createdAt =>
    discard (FleetSupervisor.cancel env lease reason closedAt createdAt)
  | .invalidateForStop lease closedAt createdAt =>
    FleetSupervisor.invalidateForStop env lease closedAt createdAt
  | .expire commandId generation now closedAt =>
    discard (FleetSupervisor.expire env commandId generation now closedAt)

/-- The stores, and the memory of the daemon while it runs. -/
structure System where
  stores : FleetStores
  daemon : Option FleetInner

def System.init : System := ⟨.init, none⟩

/-- A call runs to its end or is cut after some of its writes, and so does a restart. -/
inductive Event where
  | call (call : Call)
  | crash (call : Call) (writes : Nat)
  | restart
  | crashedRestart (writes : Nat)

def System.step (env : FleetEnvironment) (s : System) : Event → System
  | .call call =>
    match s.daemon with
    | some inner =>
      let outcome := call.run env s.stores inner
      ⟨outcome.disk, some outcome.memory⟩
    | none => s
  | .crash call writes =>
    match s.daemon with
    | some inner => ⟨(call.run env).diskAfter writes s.stores inner, none⟩
    | none => s
  | .restart =>
    let outcome := openSupervisor env s.stores .init
    ⟨outcome.disk, match outcome.result with
      | .ok () => some outcome.memory
      | .error _ => none⟩
  | .crashedRestart writes => ⟨(openSupervisor env).diskAfter writes s.stores .init, none⟩

end Bridget.Fleet
