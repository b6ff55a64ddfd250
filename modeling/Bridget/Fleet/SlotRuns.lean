import Bridget.Fleet.DeadLaunch

/-!
# Runs of the supervisor

A restart ends every launch in flight that the desired state does not ask for, without looking
at its link. So the slots of dead launches stay released over a whole run as long as each
restart finds no such launch that still holds one. A restart that does find one loses the slot
for good: nothing closes the link of a saga that has ended.
-/

namespace Bridget.Fleet

open Foundation Idempotency FleetSupervisor Durable SpawnStore Option

variable {env : FleetEnvironment} {d : FleetStores} {inner : FleetInner} {c i : String}
  {row : SpawnCommandRow} {desired : DesiredFleet} {command : SpawnCommand}
  {rest : List SpawnCommand} {links : LinkStore} {equipier : DesiredEquipier}
  {link : AgentLinkRecord}

def isWanted (desired : DesiredFleet) (row : SpawnCommandRow) : Bool :=
  (desired.lookup row.name).any fun entry =>
    entry.commandId = row.commandId ∧ entry.generation = row.generation ∧ entry.persistent ∧
      entry.lifecycleState = .running

def hasSlot (links : LinkStore) (row : SpawnCommandRow) : Bool :=
  row.instanceId.any fun i => (links.findChild i).any fun link => link.state.ownsChild

/-- Every launch in flight that holds a slot is one that a restart resumes. -/
def Resumable (env : FleetEnvironment) (d : FleetStores) : Prop :=
  ∀ row ∈ d.spawns.commands.rows, row.issuerScope = env.supervisorScope →
    row.state.isTerminal = false → hasSlot d.links row = true → isWanted d.desired row = true
  deriving Decidable

theorem Holds.hasSlot {l : String} (h : Holds links i l)
    (hi : row.instanceId = some i) : hasSlot links row = true := by
  obtain ⟨_, hlink, -, howns⟩ := h
  simp [Fleet.hasSlot, hi, hlink, howns]

theorem Resumable.isWanted {l : String} (h : Resumable env d)
    (hrow : d.spawns.findCommand (commandKey env c) = some row)
    (hflight : row.state.isTerminal = false) (hi : row.instanceId = some i)
    (hholds : Holds d.links i l) : isWanted d.desired row = true := by
  obtain ⟨hmem, hkey⟩ := findCommand_eq_some.mp hrow
  exact h row hmem (congrArg IdempotencyKey.issuerScope hkey) hflight (hholds.hasSlot hi)

/-! ## Restarting -/

/-- A command that was read at the start, and the row it has now. -/
structure Recalls (env : FleetEnvironment) (d : FleetStores) (command : SpawnCommand)
    (row : SpawnCommandRow) : Prop where
  found : d.spawns.findCommand (commandKey env command.commandId) = some row
  name : command.name = row.name
  generation : command.generation = row.generation
  instanceId : command.instanceId = row.instanceId
  onHost : command.remotePlacement = none
  ended : command.issue.isSome → row.state.isTerminal = true

/-- What holds while the commands of `rest` are still to be recovered. -/
structure Recovering (env : FleetEnvironment) (desired : DesiredFleet) (rest : List SpawnCommand)
    (d : FleetStores) (inner : FleetInner) : Prop where
  sound : Sound env d
  unchanged : d.desired = desired
  resumable : ∀ {c row i l}, d.spawns.findCommand (commandKey env c) = some row →
    row.state.isTerminal = false → row.instanceId = some i → Holds d.links i l →
    isWanted desired row = true
  recalls : ∀ command ∈ rest, ∃ row, Recalls env d command row
  tracks : Tracks env (rest.map SpawnCommand.commandId) d inner

/-- A restart goes through sound stores only, also when it fails. -/
abbrev Restores {α : Type} (env : FleetEnvironment) (x : FleetCall α)
    (post : α → FleetStores → FleetInner → Prop) (d : FleetStores) (inner : FleetInner) : Prop :=
  Ensures (Sound env) (fun d _ => Sound env d) x post d inner

theorem wanted_eq_some (h : wanted desired command = some equipier) :
    desired.lookup command.name = some equipier ∧ equipier.commandId = command.commandId ∧
      equipier.generation = command.generation := by
  obtain ⟨hlookup, hwanted⟩ := filter_eq_some_iff.mp h
  have hwanted : equipier.commandId = command.commandId ∧
      equipier.generation = command.generation ∧ equipier.persistent = true ∧
        equipier.lifecycleState = .running := by simpa using hwanted
  exact ⟨hlookup, hwanted.1, hwanted.2.1⟩

theorem resumedFrom_backed (hsound : Sound env d)
    (hrecalls : Recalls env d command row) (hwanted : wanted d.desired command = some equipier)
    (hhost : equipier.remotePlacement = command.remotePlacement)
    (hi : command.instanceId = some i) :
    Backed env d command.commandId (resumedFrom command equipier i) := by
  obtain ⟨hentry, hcommand, hgeneration⟩ := wanted_eq_some hwanted
  have hinstance : row.instanceId = some i := hrecalls.instanceId ▸ hi
  refine ⟨rfl, ⟨row, hrecalls.found, hinstance, hrecalls.generation.symm⟩,
    hhost.trans hrecalls.onHost, ?_, ?_⟩
  · intro _ hholds
    refine hsound.linked hentry ?_ ?_ hinstance hholds
    · rw [hcommand]
      exact hrecalls.found
    · rw [hgeneration, hrecalls.generation]
  · intro hlink
    have hsome : equipier.agentLink.isSome := by simpa [resumedFrom] using hlink
    simp [resumedFrom, ownershipFromDesired, hsome]

section

variable (h : Recovering env desired (command :: rest) d inner)

include h

/-- A launch that is not wanted holds no slot, so that ending it is harmless. -/
theorem Recovering.finish {spawns : SpawnStore} {issue : SpawnCommandIssue}
    (hwanted : wanted desired command = none)
    (hfinish : d.spawns.finishSpawn (commandKey env command.commandId) command.generation issue =
      .ok spawns) : Recovering env desired rest { d with spawns } inner := by
  obtain ⟨row, hrecalls⟩ := h.recalls command (by simp)
  -- a command that holds a slot would still be wanted
  have hfree : ∀ {row' i l}, d.spawns.findCommand (commandKey env command.commandId) = some row' →
      row'.state.isTerminal = false → row'.instanceId = some i → ¬ Holds d.links i l := by
    intro row' i l hrow' hflight hi hholds
    have hasked := h.resumable hrow' hflight hi hholds
    cases hrecalls.found.symm.trans hrow'
    have hid : row.commandId = command.commandId :=
      congrArg IdempotencyKey.idempotencyKey (findCommand_eq_some.mp hrow').2
    obtain ⟨entry, hentry, hentry'⟩ := (any_eq_true _ _).mp hasked
    have : wanted desired command = some entry := by
      rw [wanted, hrecalls.name, hentry, filter_some, hrecalls.generation, ← hid]
      exact if_pos hentry'
    rw [hwanted] at this
    cases this
  obtain ⟨found, row', hchange, hfound, hafter, hcanon, hterminal, hname⟩ :=
    finishSpawn_change hfinish fun _ _ _ _ => hfree
  cases hrecalls.found.symm.trans hfound
  refine ⟨h.sound.of_row hchange hfound hafter hcanon, h.unchanged, ?_, ?_, ?_⟩
  · intro _ found i l hrow hflight hi hholds
    rcases findCommand_change hafter hrow with ⟨-, rfl⟩ | ⟨-, hrow⟩
    · rw [hterminal] at hflight
      cases hflight
    · exact h.resumable hrow hflight hi hholds
  · intro other hother
    obtain ⟨found, hother⟩ := h.recalls other (by simp [hother])
    by_cases hkey : commandKey env other.commandId = commandKey env command.commandId
    · have hsame := hother.found
      rw [hkey, hfound] at hsame
      cases hsame
      refine ⟨row', ?_, hother.name.trans hname.symm,
        hother.generation.trans hchange.generation.symm,
        hother.instanceId.trans hchange.instanceId.symm, hother.onHost, fun _ => hterminal⟩
      rw [hkey]
      exact (congrFun hafter _).trans (Function.update_self ..)
    · refine ⟨found, { hother with found := ?_ }⟩
      exact (congrFun hafter _).trans ((Function.update_of_ne hkey ..).trans hother.found)
  · refine (h.tracks.of_row hchange hfound hafter).settle ?_
    intro found i l hrow hflight
    rcases findCommand_change hafter hrow with ⟨-, rfl⟩ | ⟨hkey, -⟩
    · rw [hterminal] at hflight
      cases hflight
    · exact absurd rfl hkey

theorem recoverLocal_restores :
    Restores env (recoverLocal env desired command) (fun _ => Recovering env desired rest)
      d inner := by
  unfold recoverLocal
  split
  next hwanted =>
    refine ensures_inspect_bind h.sound fun _ hhost => ?_
    refine ensures_inspect_bind h.sound fun _ hi => ?_
    obtain ⟨_, hrecalls⟩ := h.recalls command (by simp)
    have hbacked := resumedFrom_backed h.sound hrecalls (h.unchanged ▸ hwanted)
      (ensure_eq_ok.mp hhost) (orError_eq_ok.mp hi)
    refine ensures_remember ⟨h.sound, h.unchanged, h.resumable, ?_, ?_⟩
    · exact fun other hother => h.recalls other (by simp [hother])
    · exact h.tracks.insert_active hbacked rfl
  next hwanted =>
    refine ensures_inspect_bind h.sound fun _ hkey => ?_
    obtain rfl := spawnKey_eq_ok hkey
    refine ensures_bind (ensures_changeSpawns h.sound fun _ hfinish => ?_)
    have hrest := h.finish hwanted hfinish
    refine ⟨hrest.sound, ensures_remember ?_⟩
    exact { hrest with tracks := hrest.tracks.of_active rfl }

theorem recoverCommand_restores :
    Restores env (recoverCommand env desired command) (fun _ => Recovering env desired rest)
      d inner := by
  apply ensures_remember_bind
  have h : Recovering env desired (command :: rest) d (recallCommand command inner) :=
    { h with tracks := h.tracks.of_active rfl }
  obtain ⟨_, hrecalls⟩ := h.recalls command (by simp)
  split
  next hissue =>
    refine ensures_pure ⟨h.sound, h.unchanged, h.resumable, ?_, ?_⟩
    · exact fun other hother => h.recalls other (by simp [hother])
    refine h.tracks.settle ?_
    intro found _ _ hfound hflight
    cases hrecalls.found.symm.trans hfound
    rw [hrecalls.ended hissue.1] at hflight
    cases hflight
  · split
    next hremote => simp [hrecalls.onHost] at hremote
    · exact recoverLocal_restores h

end

theorem isTerminal_of_issue {issue : Option SpawnCommandIssue} (h : row.issue = .ok issue)
    (hsome : issue.isSome) : row.state.isTerminal = true := by
  unfold SpawnCommandRow.issue at h
  split at h
  · simp only [ok_iff] at h
    obtain ⟨-, -, rfl⟩ := h
    cases hsome
  next kind _ =>
    simp only [ok_iff] at h
    obtain ⟨-, hstate, -⟩ := h
    rw [hstate]
    cases kind <;> rfl

theorem Recovering.start {commands : List SpawnCommand} (hsound : Sound env d)
    (hresumable : Resumable env d)
    (hread : d.spawns.spawnCommands env.toSpawnCodec env.supervisorScope = .ok commands) :
    Recovering env d.desired commands d .init := by
  obtain ⟨hfrom, hall⟩ := spawnCommands_spec hread
  refine ⟨hsound, rfl, hresumable.isWanted, ?_, ?_⟩
  · intro command hcommand
    obtain ⟨row, hfound, hreads⟩ := hfrom command hcommand
    obtain ⟨_, hbytes, hplacement⟩ := hreads.placement
    obtain ⟨_, hbytes', hnone⟩ := hsound.onHost hfound
    rw [(findCommand_eq_some.mp hfound).2, hbytes'] at hbytes
    cases hbytes
    exact ⟨row, hfound, hreads.name, hreads.generation, hreads.instanceId,
      Except.ok.inj (hplacement.symm.trans hnone), isTerminal_of_issue hreads.issue⟩
  · refine ⟨?_, ?_⟩
    · intro c _ hactive
      cases hactive
    · intro c row _ _ hrow _ _ _
      exact .inr (hall c row hrow)

theorem openSupervisor_restores (hsound : Sound env d) (hresumable : Resumable env d) :
    Restores env (openSupervisor env) (fun _ => Running env) d .init := by
  refine ensures_inspect_bind hsound fun _ _ => ?_
  refine ensures_bind (ensures_changeDesired hsound fun desired hstop => ?_)
  have hlookup := DesiredFleet.stopNonPersistentRunning_spec hstop
  have hsound : Sound env { d with desired } :=
    hsound.of_desired (DesiredFleet.stopNonPersistentRunning_onlyLifecycle hstop)
  have hresumable : Resumable env { d with desired } := by
    intro row hrow hscope hflight hslot
    have hwas := hresumable row hrow hscope hflight hslot
    unfold isWanted at hwas ⊢
    rw [hlookup]
    obtain ⟨entry, hentry, hwanted⟩ := (any_eq_true _ _).mp hwas
    have hpersistent : entry.persistent = true := by simp_all
    rw [hentry]
    simpa [DesiredFleet.stopNonPersistent, hpersistent] using hwanted
  refine ⟨hsound, ensures_inspect_bind hsound fun loaded hload => ?_⟩
  obtain rfl : desired = loaded := (DesiredFleet.load_eq_ok.mp (desiredState_eq_ok.mp hload)).2
  refine ensures_inspect_bind hsound fun _ hread => ?_
  refine (ensures_each (Recovering env desired) ?_
    (Recovering.start hsound hresumable (store_eq_ok.mp hread))).mono ?_
  · exact fun _ _ _ _ => recoverCommand_restores
  · exact fun _ _ _ h => ⟨h.sound, h.tracks⟩

/-- New orders name no placement and get an instance name that nothing has yet. -/
def Call.Possible (d : FleetStores) : Call → Prop
  | .requestSpawn order _ ids | .requestRelaunch order _ ids | .requestRecovery order _ ids =>
    order.remotePlacement = none ∧ FreshInstance d ids.instanceId
  | _ => True

def Event.Possible (s : System) : Event → Prop
  | .call request | .crash request _ => request.Possible s.stores
  | .restart | .crashedRestart _ => True

/-- A restart finds every launch in flight that holds a slot wanted. -/
def Event.Clean (env : FleetEnvironment) (s : System) : Event → Prop
  | .call _ | .crash _ _ => True
  | .restart | .crashedRestart _ => Resumable env s.stores

theorem discard_keeps {α : Type} {x : FleetCall α}
    (h : KeepsRunning env x d inner) : KeepsRunning env (discard x) d inner :=
  ensures_bind (h.mono fun _ _ _ hrunning => ensures_pure hrunning)

theorem Call.run_keeps {call : Call} (hfaithful : env.Faithful) (h : Running env d inner)
    (hpossible : call.Possible d) : KeepsRunning env (call.run env) d inner := by
  cases call with
  | requestSpawn =>
    exact discard_keeps (requestSpawnWithPolicy_keeps hfaithful h hpossible.1 hpossible.2)
  | requestRelaunch =>
    exact discard_keeps (requestRelaunch_keeps hfaithful h hpossible.1 hpossible.2)
  | requestRecovery =>
    exact discard_keeps (requestRecovery_keeps hfaithful h hpossible.1 hpossible.2)
  | markStarting => exact markStarting_keeps h
  | registerConnected => exact discard_keeps (registerConnected_keeps h)
  | fail | cancel => exact discard_keeps (finishNonSuccess_keeps h)
  | invalidateForStop => exact invalidateForStop_keeps h
  | expire => exact discard_keeps (expire_keeps h)

/-- The stores are sound, and a running daemon knows the launches in flight. -/
structure System.Safe (env : FleetEnvironment) (s : System) : Prop where
  sound : Sound env s.stores
  tracks : ∀ inner ∈ s.daemon, Tracks env [] s.stores inner

theorem System.Safe.step {s : System} {event : Event} (hfaithful : env.Faithful) (h : s.Safe env)
    (hpossible : event.Possible s) (hclean : event.Clean env s) : (s.step env event).Safe env := by
  obtain ⟨stores, daemon⟩ := s
  cases event with
  | call request =>
    cases daemon with
    | none => exact h
    | some inner =>
      have hkeeps := request.run_keeps hfaithful ⟨h.sound, h.tracks inner rfl⟩ hpossible
      have hended := hkeeps.ended (Running env) (fun _ _ _ => id) fun _ _ => id
      refine ⟨hended.sound, ?_⟩
      rintro _ ⟨⟩
      exact hended.tracks
  | crash request writes =>
    cases daemon with
    | none => exact h
    | some inner =>
      have hkeeps := request.run_keeps hfaithful ⟨h.sound, h.tracks inner rfl⟩ hpossible
      have hended := hkeeps.ended (Running env) (fun _ _ _ => id) fun _ _ => id
      exact ⟨hkeeps.safe_diskAfter h.sound hended.sound writes, nofun⟩
  | restart =>
    have hrestores := openSupervisor_restores h.sound hclean
    have hended := hrestores.ended (fun d _ => Sound env d) (fun _ _ _ hrunning => hrunning.sound)
      fun _ _ => id
    refine ⟨hended, ?_⟩
    intro inner hinner
    -- only a restart that succeeded leaves a daemon behind
    cases hresult : (openSupervisor env stores .init).result with
    | error => simp [System.step, hresult] at hinner
    | ok u =>
      obtain rfl : (openSupervisor env stores .init).memory = inner := by
        simpa [System.step, hresult] using hinner
      exact (hrestores.returned u hresult).tracks
  | crashedRestart writes =>
    have hrestores := openSupervisor_restores h.sound hclean
    have hended := hrestores.ended (fun d _ => Sound env d) (fun _ _ _ hrunning => hrunning.sound)
      fun _ _ => id
    exact ⟨hrestores.safe_diskAfter h.sound hended writes, nofun⟩

theorem System.init_safe : System.init.Safe env := by
  refine ⟨⟨?_, ?_, ?_, ?_, ?_, ?_⟩, nofun⟩
  · intro key row i l hrow
    cases hrow
  · intro i _ hlink
    cases hlink
  · intro name entry hentry
    cases hentry
  · intro name entry row i l hentry
    cases hentry
  · intro key row hrow
    cases hrow
  · intro key row hrow
    cases hrow

/-! ## Slots over whole runs -/

def LiveChild (d : FleetStores) (instanceId : String) : Prop :=
  ∃ row ∈ d.spawns.commands, row.instanceId = some instanceId ∧
    (row.state.isTerminal = false ∨ row.state = .connected)

theorem Settled.live (h : Settled row) (hlive : ¬ Dead row) :
    row.state.isTerminal = false ∨ row.state = .connected := by
  unfold Settled at h
  unfold Dead at hlive
  cases hkind : row.issueKind with
  | none =>
    rw [hkind] at h
    exact .inl h
  | some kind =>
    rw [hkind] at h hlive
    cases kind with
    | connected => exact .inr h
    | failed => exact absurd (.inl rfl) hlive
    | cancelled => exact absurd (.inr rfl) hlive

theorem Sound.counted {parentInstanceId : String} {children : List AgentLinkRecord}
    (h : Sound env d) (hchildren : d.links.openAgentLinksForParent parentInstanceId = .ok children)
    (hlink : link ∈ children) : LiveChild d link.childInstanceId := by
  obtain ⟨row, hrow, hread⟩ := (mapM_eq_ok hchildren).2 link hlink
  obtain ⟨-, rfl⟩ := LinkStore.agentLinkFromRow_eq_ok.mp hread
  obtain ⟨hmem, howned⟩ := Table.mem_select.mp ((List.mem_insertionSort _).mp hrow)
  have howned : row.parentInstanceId = parentInstanceId ∧ row.state.ownsChild = true := by
    simpa using howned
  have hlink := LinkStore.findChild_of_mem hmem
  obtain ⟨_, launch, hlaunch, hi⟩ := h.spawned hlink
  have hlive : ¬ Dead launch := fun hdead => h.released hlaunch hdead hi ⟨row, hlink, rfl, howned.2⟩
  exact ⟨launch, (findCommand_eq_some.mp hlaunch).1, hi, (h.settled hlaunch).live hlive⟩

/-- No slot is taken by a launch that has died, neither in the tables nor in what is counted
for a parent nor when an order is refused for the number of children. -/
structure SlotsLive (d : FleetStores) : Prop where
  released : ∀ row ∈ d.spawns.commands, Dead row → ∀ link ∈ d.links.links,
    row.instanceId = some link.childInstanceId → link.state.ownsChild = false
  counted : ∀ parentInstanceId children,
    d.links.openAgentLinksForParent parentInstanceId = .ok children →
      ∀ link ∈ children, LiveChild d link.childInstanceId
  refused : ∀ linkId childInstanceId ownership project now,
    Fleet.reserveAgentLink d.links linkId childInstanceId ownership project now =
        .error (.ownership "quota enfants atteint") →
      ∃ limit children, ownership.maxChildren = some limit ∧
        d.links.openAgentLinksForParent ownership.parentInstanceId = .ok children ∧
        limit ≤ children.length ∧ ∀ link ∈ children, LiveChild d link.childInstanceId

theorem Sound.slotsLive (h : Sound env d) : SlotsLive d where
  released := by
    intro _ hrow hdead link hlink hi
    by_contra howns
    refine h.released (findCommand_eq_some.mpr ⟨hrow, rfl⟩) hdead hi
      ⟨link, LinkStore.findChild_of_mem hlink, rfl, ?_⟩
    simpa using howns
  counted _ _ hchildren _ hlink := h.counted hchildren hlink
  refused := by
    intro _ _ _ _ _ hrefused
    -- every other step of the call fails with an error of its own
    simp only [Fleet.reserveAgentLink, bind_eq_error, store, mapError_eq_error, mapError_eq_ok,
      ensure_eq_error, ensure_eq_ok, reduceCtorEq, and_false, exists_false, false_or] at hrefused
    obtain ⟨children, hchildren, ⟨hfull, -⟩ | ⟨_, -, hrefused⟩⟩ := hrefused
    · push Not at hfull
      obtain ⟨limit, hlimit, hfull⟩ := hfull
      exact ⟨limit, children, hlimit, hchildren, hfull, fun link => h.counted hchildren⟩
    · simp [pure, Except.pure] at hrefused

/-- In every run whose restarts find no unwanted launch with a slot, only children in flight or
connected take slots. -/
theorem dead_launches_release_slots {events : List Event} {s : System} (hfaithful : env.Faithful)
    (hrun : Run (System.step env) (fun s event => event.Possible s ∧ event.Clean env s) .init
      events s) : SlotsLive s.stores := by
  have hsafe : s.Safe env := by
    refine hrun.invariant (fun s => s.Safe env) ?_ System.init_safe
    rintro _ _ hsafe ⟨hpossible, hclean⟩
    exact hsafe.step hfaithful hpossible hclean
  exact hsafe.sound.slotsLive

/-! ### A launch that fails, and one that a restart loses -/

def orderText (order : SpawnOrder) : String :=
  "\x7b\"command_id\":\"" ++ order.commandId ++
    "\",\"agent_type\":\"codex\",\"requested_name\":\"" ++ resolveName order ++
    "\",\"cwd\":\"/\",\"persistent\":false,\"issued_at\":10,\"deadline_at\":20," ++
    "\"ownership\":\x7b\"parent_instance_id\":\"p\",\"role\":\"dev\",\"max_children\":1\x7d\x7d"

def singleChildEnv : FleetEnvironment where
  parsePlacement _ := some none
  validPlacement _ := true
  supervisorScope := "supervisor_0123456789abcdef"
  config := ⟨16, 604800, 86400, 30⟩
  serializeOrder order := (orderText order).toUTF8.data.toList
  parseOrder _ := none

theorem singleChildEnv_faithful : singleChildEnv.Faithful := by
  intro _ _
  unfold remotePlacementFromCanonical
  split <;> rfl

def firstAgent : String := "00000000-0000-4000-8000-00000000000a"

def secondAgent : String := "00000000-0000-4000-8000-00000000000b"

def childOrder (commandId name : String) : SpawnOrder :=
  { posture := none
    agentType := "codex"
    project := none
    requestedName := some name
    cwd := "/"
    persistent := false
    commandId
    issuedAt := 10
    deadlineAt := 20
    ownership := some ⟨"p", none, none, none, none, "dev", some 1, none⟩
    remotePlacement := none }

def childLease : SpawnLease :=
  { commandId := "c1"
    name := firstAgent
    instanceId := "i1"
    generation := 1
    deadlineAt := 20
    persistent := false
    project := none
    linkId := some "l1"
    ownership := some ⟨"p", none, none, none, none, "dev", some 1, none⟩
    agentPath := some "p/i1"
    remotePlacement := none }

theorem possible_requestSpawn {s : System} {order : SpawnOrder} {now : Int} {ids : NewIds}
    (hhost : order.remotePlacement = none)
    (hfresh : ∀ row ∈ s.stores.spawns.commands.rows, row.instanceId ≠ some ids.instanceId) :
    (Event.call (.requestSpawn order now ids)).Possible s :=
  ⟨hhost, fun hrow => hfresh _ (findCommand_eq_some.mp hrow).1⟩

def failedLaunch : List Event :=
  [.restart, .call (.requestSpawn (childOrder "c1" firstAgent) 11 ⟨"i1", "l1"⟩),
    .call (.fail childLease "spawn_failed" "processus terminé" 12 12), .restart]

/-- A launch that fails gives its slot back. -/
theorem failed_launch_releases_slot :
    SlotsLive (failedLaunch.foldl (System.step singleChildEnv) .init).stores ∧
      ∃ row ∈ (failedLaunch.foldl (System.step singleChildEnv) .init).stores.spawns.commands.rows,
        Dead row ∧ row.instanceId = some "i1" := by
  obtain ⟨s, hrun⟩ : ∃ s, Run (System.step singleChildEnv)
      (fun s event => event.Possible s ∧ event.Clean singleChildEnv s) .init failedLaunch s := by
    refine ⟨_, .cons ⟨trivial, ?_⟩ (.cons ⟨possible_requestSpawn rfl ?_, trivial⟩
      (.cons ⟨trivial, trivial⟩ (.cons ⟨trivial, ?_⟩ (.nil _))))⟩
    · change Resumable singleChildEnv _
      decide +kernel
    · decide +kernel
    · change Resumable singleChildEnv _
      decide +kernel
  obtain rfl := hrun.eq_foldl
  refine ⟨dead_launches_release_slots singleChildEnv_faithful hrun, ?_⟩
  decide +kernel

def lostLaunch : List Event :=
  [.restart, .call (.requestSpawn (childOrder "c1" firstAgent) 11 ⟨"i1", "l1"⟩), .restart,
    .call (.requestSpawn (childOrder "c2" secondAgent) 12 ⟨"i2", "l2"⟩)]

/-- The restart fails the first launch and leaves its link reserved, so that the parent's only
slot is gone: the second order is refused. -/
theorem restart_loses_slot :
    ∃ s, Run (System.step singleChildEnv) (fun s event => event.Possible s) .init lostLaunch s ∧
      (∃ row ∈ s.stores.spawns.commands.rows, row.issueCategory = some "daemon_restarted" ∧
        Dead row ∧ ∃ link ∈ s.stores.links.links.rows,
          row.instanceId = some link.childInstanceId ∧ link.state = .reserved) ∧
      ∃ row ∈ s.stores.spawns.commands.rows, row.commandId = "c2" ∧
        row.issueCategory = some "children_quota_exceeded" := by
  obtain ⟨s, hrun⟩ : ∃ s, Run (System.step singleChildEnv) (fun s event => event.Possible s) .init
      lostLaunch s := by
    refine ⟨_, .cons trivial (.cons (possible_requestSpawn rfl ?_) (.cons trivial
      (.cons (possible_requestSpawn rfl ?_) (.nil _))))⟩
    · decide +kernel
    · decide +kernel
  refine ⟨s, hrun, ?_⟩
  rw [hrun.eq_foldl]
  decide +kernel

end Bridget.Fleet
