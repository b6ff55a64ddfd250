import Bridget.Fleet.Slots

/-!
# Dead launches

A launch that failed or was cancelled gives the slot of its child back: every call closes the
link before it ends the saga, so that no crash in between is harmful. Only a restart ends
sagas without looking at their links. It is harmless when every launch that it ends holds no
slot.
-/

namespace Bridget.Fleet

open Foundation Idempotency FleetSupervisor Durable SpawnStore Function Option

variable {env : FleetEnvironment} {d : FleetStores} {inner : FleetInner} {c : String}
  {active : ActiveSpawn} {key : IdempotencyKey} {row : SpawnCommandRow} {issue : SpawnCommandIssue}
  {α : Type}

/-- The call goes through sound stores only and leaves the supervisor running as it was found. -/
abbrev Keeps (env : FleetEnvironment) (x : FleetCall α)
    (post : α → FleetStores → FleetInner → Prop) (d : FleetStores) (inner : FleetInner) : Prop :=
  Ensures (Sound env) (Running env) x post d inner

abbrev KeepsRunning (env : FleetEnvironment) (x : FleetCall α) : FleetStores → FleetInner → Prop :=
  Keeps env x fun _ => Running env

/-! ## Transactions -/

section

variable {safe : FleetStores → Prop} {failed : FleetStores → FleetInner → Prop}
  {post : α → FleetStores → FleetInner → Prop}

theorem ensures_onSpawns {f : SpawnStore → Except IdempotencyError (α × SpawnStore)}
    (hfailed : failed d inner)
    (hok : ∀ a spawns, f d.spawns = .ok (a, spawns) → safe { d with spawns } ∧
      post a { d with spawns } inner) : Ensures safe failed (onSpawns f) post d inner := by
  refine ensures_write ?_ fun _ _ => hfailed
  intro a _ hwrite
  simp only [ok_iff, store_eq_ok, pair_iff] at hwrite
  obtain ⟨_, spawns, hf, rfl, rfl⟩ := hwrite
  exact hok _ spawns hf

variable {f : SpawnStore → Except IdempotencyError SpawnStore}

theorem ensures_changeSpawns {post : Unit → FleetStores → FleetInner → Prop}
    (hfailed : failed d inner) (hok : ∀ spawns, f d.spawns = .ok spawns → safe { d with spawns } ∧
      post () { d with spawns } inner) : Ensures safe failed (changeSpawns f) post d inner := by
  refine ensures_onSpawns hfailed ?_
  intro _ spawns hf
  exact hok spawns (map_unit_eq_ok.mp hf)

theorem ensures_changeSpawns_of_ok {post : Unit → FleetStores → FleetInner → Prop}
    {spawns : SpawnStore} (hf : f d.spawns = .ok spawns)
    (hok : safe { d with spawns } ∧ post () { d with spawns } inner) :
    Ensures safe failed (changeSpawns f) post d inner := by
  have hwrite : (do
      let (a, spawns) ← store ((f d.spawns).map fun s => ((), s))
      return (a, { d with spawns }) : Except FleetError (Unit × FleetStores)) =
        .ok ((), { d with spawns }) := by
    rw [hf]
    rfl
  refine ensures_write ?_ ?_
  · intro a _ hd'
    cases hwrite.symm.trans hd'
    exact hok
  · intro _ he
    cases hwrite.symm.trans he

theorem ensures_onLinks {f : LinkStore → Except FleetError (α × LinkStore)}
    (hfailed : failed d inner)
    (hok : ∀ a links, f d.links = .ok (a, links) → safe { d with links } ∧
      post a { d with links } inner) : Ensures safe failed (onLinks f) post d inner := by
  refine ensures_write ?_ fun _ _ => hfailed
  intro a _ hwrite
  simp only [ok_iff, pair_iff] at hwrite
  obtain ⟨_, links, hf, rfl, rfl⟩ := hwrite
  exact hok _ links hf

theorem ensures_onDesired {f : DesiredFleet → Except DesiredStateError (α × DesiredFleet)}
    (hfailed : failed d inner)
    (hok : ∀ a desired, f d.desired = .ok (a, desired) → safe { d with desired } ∧
      post a { d with desired } inner) : Ensures safe failed (onDesired f) post d inner := by
  refine ensures_write ?_ fun _ _ => hfailed
  intro a _ hwrite
  simp only [ok_iff, desiredState_eq_ok, pair_iff] at hwrite
  obtain ⟨_, desired, hf, rfl, rfl⟩ := hwrite
  exact hok _ desired hf

theorem ensures_changeDesired {f : DesiredFleet → Except DesiredStateError DesiredFleet}
    {post : Unit → FleetStores → FleetInner → Prop} (hfailed : failed d inner)
    (hok : ∀ desired, f d.desired = .ok desired →
      safe { d with desired } ∧ post () { d with desired } inner) :
    Ensures safe failed (changeDesired f) post d inner := by
  refine ensures_onDesired hfailed ?_
  intro _ desired hf
  exact hok desired (map_unit_eq_ok.mp hf)

end

/-! ## Ending a launch -/

variable {commandId : String}

theorem spawnKey_eq_ok
    (h : store (IdempotencyKey.new env.supervisorScope .spawn commandId) = .ok key) :
    key = commandKey env commandId := by
  simp only [store_eq_ok, IdempotencyKey.new, ok_iff] at h
  obtain ⟨-, -, -, -, rfl⟩ := h
  rfl

variable {generation : Nat} {spawns : SpawnStore}

/-- A saga that ends without an agent must not hold a slot. -/
theorem finishSpawn_change (h : d.spawns.finishSpawn key generation issue = .ok spawns)
    (hfree : issue.isConnected = false → ∀ {row i l}, d.spawns.findCommand key = some row →
      row.state.isTerminal = false → row.instanceId = some i → ¬ Holds d.links i l) :
    ∃ row row', RowChange d row row' ∧ d.spawns.findCommand key = some row ∧
      spawns.findCommand = update d.spawns.findCommand key (some row') ∧
      spawns.canon = d.spawns.canon ∧ row'.state.isTerminal = true ∧ row'.name = row.name := by
  obtain ⟨hcanon, row, columns, hrow, hflight, -, hcolumns, hinstance, hafter⟩ := finishSpawn_spec h
  refine ⟨row, finishedRow columns row, ?_, hrow, hafter, hcanon, ?_, rfl⟩
  · refine ⟨hinstance, rfl, rfl, fun _ => hflight, ?_⟩
    intro hdead i l hi
    refine hfree ?_ hrow hflight hi
    cases issue with
    | connected =>
      simp only [issueColumns] at hcolumns
      split at hcolumns
      · cases hcolumns
        rcases hdead with hdead | hdead <;> cases hdead
      · cases hcolumns
    | failed | cancelled => rfl
  · change columns.kind.state.isTerminal = true
    cases columns.kind <;> rfl

section

variable (h : Running env d inner) {desired : DesiredFleet} {name : String}

include h

theorem Running.finish (hfinish : d.spawns.finishSpawn key generation issue = .ok spawns)
    (hfree : issue.isConnected = false → ∀ {row i l}, d.spawns.findCommand key = some row →
      row.instanceId = some i → ¬ Holds d.links i l) :
    Running env { d with spawns } inner ∧
      ∀ {row}, spawns.findCommand key = some row → row.state.isTerminal = true := by
  obtain ⟨_, _, hchange, hrow, hafter, hcanon, hterminal, -⟩ :=
    finishSpawn_change hfinish fun hfailed _ _ _ hrow _ => hfree hfailed hrow
  refine ⟨⟨h.sound.of_row hchange hrow hafter hcanon, h.tracks.of_row hchange hrow hafter⟩, ?_⟩
  intro _ hfound
  rw [hafter, update_self] at hfound
  exact some.inj hfound ▸ hterminal

theorem finishActive_keeps (hactive : inner.activeByCommand.lookup c = some active)
    (hfree : issue.isConnected = false → ∀ {l}, ¬ Holds d.links active.instanceId l) :
    KeepsRunning env (finishActive env active issue) d inner := by
  have hbacked := h.tracks.backed hactive
  obtain ⟨_, hrow, hinstance, -⟩ := hbacked.stored
  refine ensures_inspect_bind h fun _ hkey => ?_
  obtain rfl := spawnKey_eq_ok hkey
  rw [hbacked.commandId]
  refine ensures_bind (ensures_changeSpawns h fun _ hfinish => ?_)
  obtain ⟨hrunning, hterminal⟩ := h.finish hfinish fun hfailed row' i l hrow' hi => by
    cases hrow.symm.trans hrow'
    cases hinstance.symm.trans hi
    exact hfree hfailed
  refine ⟨hrunning.sound, ensures_remember ⟨hrunning.sound, ?_⟩⟩
  refine hrunning.tracks.erase_active (c := c) hterminal ?_
  simp [completeLocked, hbacked.onHost, releaseActiveLocked, hbacked.commandId]

def SameLinks (env : FleetEnvironment) (d : FleetStores) (inner : FleetInner) :
    Unit → FleetStores → FleetInner → Prop :=
  fun _ d' inner' => inner' = inner ∧ d'.links = d.links ∧ Running env d' inner

/-- Closing the link of an active launch frees its slot. -/
theorem closeAgentLink_keeps {changedAt : Int} (hbacked : Backed env d c active) :
    Keeps env (FleetSupervisor.closeAgentLink active changedAt)
      (fun _ d' inner' => inner' = inner ∧ Running env d' inner ∧
        ∀ {l}, ¬ Holds d'.links active.instanceId l) d inner := by
  unfold FleetSupervisor.closeAgentLink
  split
  next hnone =>
    refine ensures_pure ⟨rfl, h, ?_⟩
    intro l hholds
    rw [hbacked.linked hholds] at hnone
    cases hnone
  rename_i hlink
  refine ensures_bind (ensures_onLinks h fun _ links hclose => ?_)
  have hclose := store_eq_ok.mp hclose
  have hstays := transitionAgentLink_inPlace (by decide) hclose
  have hrunning := h.of_links hstays
  refine ⟨hrunning.sound, ensures_pure ⟨rfl, hrunning, ?_⟩⟩
  intro l hholds
  have hl := hbacked.linked (hholds.of_stays hstays)
  cases hlink.symm.trans hl
  obtain ⟨_, hfound, hid, howns⟩ := hholds
  rw [transitionAgentLink_state hclose hfound hid] at howns
  cases howns

theorem Running.of_desired
    (honly : DesiredFleet.OnlyLifecycle d.desired desired) : Running env { d with desired } inner :=
  ⟨h.sound.of_desired honly, h.tracks.of_desired⟩

theorem Running.upsert {created : Int}
    {lifecycleState : DesiredLifecycleState} (hbacked : Backed env d c active)
    (hupsert : d.desired.upsert env.toSpawnCodec name (desiredFrom active created lifecycleState) =
      .ok desired) : Running env { d with desired } inner := by
  simp only [DesiredFleet.upsert, bind_eq_ok, DesiredFleet.load_eq_ok,
    DesiredFleet.persist_eq_ok] at hupsert
  obtain ⟨_, ⟨-, rfl⟩, -, rfl⟩ := hupsert
  exact ⟨h.sound.upsert hbacked, h.tracks.of_desired⟩

theorem markStopped_keeps :
    Keeps env (onDesired fun fleet =>
        fleet.markStoppedIfGeneration env.toSpawnCodec name commandId generation)
      (fun _ => SameLinks env d inner ()) d inner := by
  refine ensures_onDesired h fun _ _ hmark => ?_
  have hrunning := h.of_desired (DesiredFleet.markStoppedIfGeneration_spec hmark)
  exact ⟨hrunning.sound, rfl, rfl, hrunning⟩

variable {post : α → FleetStores → FleetInner → Prop}

theorem desiredEntry_bind {g : Option DesiredEquipier → FleetCall α}
    (hok : ∀ entry, Keeps env (g entry) post d inner) :
    Keeps env (desiredEntry env name >>= g) post d inner :=
  ensures_inspect_bind h fun entry _ => hok entry

variable {createdAt : Int}

theorem persistStoppedActive_keeps (hbacked : Backed env d c active) :
    Keeps env (persistStoppedActive env active createdAt) (SameLinks env d inner) d inner := by
  refine desiredEntry_bind h fun entry => ?_
  split
  · split
    · refine ensures_bind ((markStopped_keeps h).mono fun _ _ _ hsame => ?_)
      exact ensures_pure hsame
    · refine ensures_changeDesired h fun desired hset => ?_
      have hrunning := h.of_desired (DesiredFleet.setLifecycleState_spec hset)
      exact ⟨hrunning.sound, rfl, rfl, hrunning⟩
  · split
    · refine ensures_changeDesired h fun desired hupsert => ?_
      have hrunning := h.upsert hbacked hupsert
      exact ⟨hrunning.sound, rfl, rfl, hrunning⟩
    · exact ensures_pure ⟨rfl, rfl, h⟩

theorem keepStoppedEntry_keeps (hbacked : Backed env d c active) :
    Keeps env (keepStoppedEntry env active createdAt) (SameLinks env d inner) d inner := by
  refine desiredEntry_bind h fun _ => ?_
  split
  · exact persistStoppedActive_keeps h hbacked
  · exact ensures_pure ⟨rfl, rfl, h⟩

variable {closedAt : Int}

theorem expireLocked_keeps (hactive : inner.activeByCommand.lookup c = some active) :
    KeepsRunning env (expireLocked env active closedAt) d inner := by
  refine ensures_bind ((markStopped_keeps h).mono ?_)
  rintro _ _ _ ⟨rfl, -, hrunning⟩
  refine ensures_bind ((closeAgentLink_keeps hrunning (hrunning.tracks.backed hactive)).mono ?_)
  rintro _ _ _ ⟨rfl, hrunning, hfree⟩
  exact finishActive_keeps hrunning hactive fun _ => hfree

variable {lease : SpawnLease}

theorem activeOf_bind {g : ActiveSpawn → FleetCall α}
    (hok : ∀ active, inner.activeByCommand.lookup lease.commandId = some active →
      Keeps env (g active) post d inner) : Keeps env (activeOf lease >>= g) post d inner := by
  refine ensures_inspect_bind h fun active hactive => ?_
  simp only [activeForLease, ok_iff] at hactive
  obtain ⟨_, hlookup, -, -, rfl⟩ := hactive
  exact hok _ hlookup

theorem refuseLate_keeps (hactive : inner.activeByCommand.lookup c = some active) :
    KeepsRunning env (refuseLate env active closedAt) d inner := by
  unfold refuseLate
  split
  · exact ensures_raise h
  · refine ensures_bind ((expireLocked_keeps h hactive).mono fun _ _ _ hrunning => ?_)
    exact ensures_raise hrunning

variable {now : Int} {instanceId : String}

theorem markStarting_keeps {definition : ResolvedAgentDefinition} :
    KeepsRunning env (markStarting env lease now closedAt definition) d inner := by
  refine activeOf_bind h fun active hactive => ?_
  refine ensures_inspect_bind h fun _ _ => ?_
  split
  · exact refuseLate_keeps h hactive
  refine ensures_inspect_bind h fun _ _ => ?_
  refine ensures_inspect_bind h fun _ hkey => ?_
  obtain rfl := spawnKey_eq_ok hkey
  have hbacked := h.tracks.backed hactive
  refine ensures_bind (ensures_changeSpawns h fun spawns hadvance => ?_)
  obtain ⟨hrecords, row, hrow, hstate, -, hafter⟩ := advanceSpawnWithDefinition_spec hadvance
  have hcanon := canon_congr hrecords
  have hsettled := h.sound.settled hrow
  have hnone : row.issueKind = none := by
    cases hkind : row.issueKind with
    | none => rfl
    | some kind =>
      rw [Settled, hkind] at hsettled
      rw [hsettled] at hstate
      cases kind <;> cases hstate
  have hchange : RowChange d row
      { row with state := .starting, resolvedDefinition := some definition } :=
    ⟨rfl, rfl, by simp [Settled, hnone, SpawnCommandState.isTerminal],
      fun _ => by rw [hstate]; rfl, fun hdead => by simp [Dead, hnone] at hdead⟩
  have hsound := h.sound.of_row hchange hrow hafter hcanon
  have htracks := h.tracks.of_row hchange hrow hafter
  refine ⟨hsound, ensures_remember ⟨hsound, ?_⟩⟩
  have hstarting : Backed env { d with spawns } lease.commandId
      { active with state := .starting, resolvedDefinition := some definition } :=
    { htracks.backed hactive with }
  refine htracks.weaken.insert_active hstarting ?_
  rw [hbacked.commandId]

theorem openAgentLink_keeps :
    Keeps env (FleetSupervisor.openAgentLink active now)
      (fun _ d' inner' => inner' = inner ∧ Running env d' inner) d inner := by
  unfold FleetSupervisor.openAgentLink
  split
  · exact ensures_pure ⟨rfl, h⟩
  · refine ensures_bind (ensures_onLinks h fun _ links hopen => ?_)
    have hstays := transitionAgentLink_inPlace (by decide) (store_eq_ok.mp hopen)
    have hrunning := h.of_links hstays
    exact ⟨hrunning.sound, ensures_pure ⟨rfl, hrunning⟩⟩

theorem connect_keeps (hactive : inner.activeByCommand.lookup c = some active) :
    KeepsRunning env (connect env active instanceId now) d inner := by
  refine ensures_bind (ensures_changeDesired h fun _ hupsert => ?_)
  have hrunning := h.upsert (h.tracks.backed hactive) hupsert
  refine ⟨hrunning.sound, ensures_bind ((openAgentLink_keeps hrunning).mono ?_)⟩
  rintro _ _ _ ⟨rfl, hrunning⟩
  -- a launch that connects may keep its slot
  refine ensures_bind ((finishActive_keeps hrunning hactive (by rintro ⟨⟩)).mono ?_)
  exact fun _ _ _ hrunning => ensures_pure hrunning

theorem registerConnected_keeps :
    KeepsRunning env (registerConnected env lease instanceId now closedAt) d inner := by
  refine ensures_inspect_bind h fun _ _ => ?_
  refine activeOf_bind h fun _ hactive => ?_
  refine ensures_inspect_bind h fun _ _ => ?_
  split
  · exact ensures_inspect (fun _ _ => h) fun _ _ => h
  split
  · refine ensures_bind ((refuseLate_keeps h hactive).mono fun _ _ _ hrunning => ?_)
    exact ensures_raise hrunning
  · refine ensures_inspect_bind h fun _ _ => ?_
    exact connect_keeps h hactive

theorem finishNonSuccess_keeps :
    KeepsRunning env (finishNonSuccess env lease issue closedAt createdAt) d inner := by
  refine activeOf_bind h fun _ hactive => ?_
  refine ensures_inspect_bind h fun _ _ => ?_
  refine ensures_bind ((keepStoppedEntry_keeps h (h.tracks.backed hactive)).mono ?_)
  rintro _ _ _ ⟨rfl, -, hrunning⟩
  refine ensures_bind ((closeAgentLink_keeps hrunning (hrunning.tracks.backed hactive)).mono ?_)
  rintro _ _ _ ⟨rfl, hrunning, hfree⟩
  refine ensures_bind ((finishActive_keeps hrunning hactive fun _ => hfree).mono ?_)
  exact fun _ _ _ hrunning => ensures_pure hrunning

theorem stopActive_keeps (hactive : inner.activeByCommand.lookup c = some active) :
    KeepsRunning env (stopActive env active closedAt createdAt) d inner := by
  have hbacked := h.tracks.backed hactive
  refine ensures_bind ((closeAgentLink_keeps h hbacked).mono ?_)
  rintro _ _ _ ⟨rfl, hrunning, hfree⟩
  have hbacked := hrunning.tracks.backed hactive
  refine ensures_bind ((persistStoppedActive_keeps hrunning hbacked).mono ?_)
  rintro _ _ _ ⟨rfl, hlinks, hrunning⟩
  split
  next hremote => simp [hbacked.onHost] at hremote
  · exact finishActive_keeps hrunning hactive fun _ => hlinks ▸ hfree

theorem stopConnected_keeps : KeepsRunning env (stopConnected env lease closedAt) d inner := by
  refine ensures_bind ((markStopped_keeps h).mono ?_)
  rintro _ _ _ ⟨rfl, -, hrunning⟩
  split
  · exact ensures_pure hrunning
  · refine ensures_bind (ensures_onLinks hrunning fun _ links hclose => ?_)
    have hstays := transitionAgentLink_inPlace (by decide) (store_eq_ok.mp hclose)
    have hrunning := hrunning.of_links hstays
    exact ⟨hrunning.sound, ensures_pure hrunning⟩

theorem invalidateForStop_keeps :
    KeepsRunning env (invalidateForStop env lease closedAt createdAt) d inner := by
  refine ensures_inspect_bind h fun _ _ => ?_
  split
  · exact activeOf_bind h fun _ hactive => stopActive_keeps h hactive
  · refine ensures_inspect_bind h fun _ _ => ?_
    exact stopConnected_keeps h

theorem expire_keeps : KeepsRunning env (expire env commandId generation now closedAt) d inner := by
  refine ensures_inspect_bind h fun _ hfound => ?_
  split
  · exact ensures_pure h
  refine ensures_inspect_bind h fun _ _ => ?_
  split
  · exact ensures_pure h
  · refine ensures_bind ((expireLocked_keeps h (Except.ok.inj hfound)).mono ?_)
    exact fun _ _ _ hrunning => ensures_pure hrunning

end

/-! ## Ordering a launch -/

variable {command : SpawnCommand} {category reason : String}

theorem terminalRefusal_keeps (h : Running env d inner)
    (hfree : ∀ {row i l}, d.spawns.findCommand key = some row → row.instanceId = some i →
      ¬ Holds d.links i l) :
    KeepsRunning env (terminalRefusal key command category reason) d inner := by
  refine ensures_bind (ensures_changeSpawns h fun spawns hfinish => ?_)
  obtain ⟨hrunning, -⟩ := h.finish hfinish fun _ => hfree
  refine ⟨hrunning.sound, ensures_remember_bind (ensures_pure ⟨hrunning.sound, ?_⟩)⟩
  exact hrunning.tracks.of_active rfl

structure Requested (env : FleetEnvironment) (d : FleetStores) (inner : FleetInner)
    (order : SpawnOrder) (command : SpawnCommand) (i : String) : Prop where
  running : Running env d inner
  row : ∃ row, d.spawns.findCommand (commandKey env command.commandId) = some row ∧
    row.state = .requested ∧ row.issueKind = none ∧ row.instanceId = some i ∧
    row.generation = command.generation ∧ (row.generation : Int) ≤ i64Max
  record : ∃ record, d.spawns.findRecord (commandKey env command.commandId) = some record ∧
    record.state = .prepared
  instanceId : command.instanceId = some i
  only : OnlyInstance d (commandKey env command.commandId) i
  new : ∀ name entry, d.desired.lookup name = some entry → entry.commandId ≠ command.commandId
  inactive : inner.activeByCommand.lookup command.commandId = none
  unlinked : d.links.findChild i = none
  onHost : order.remotePlacement = none

def Linked (env : FleetEnvironment) (d : FleetStores) (inner : FleetInner) (order : SpawnOrder)
    (command : SpawnCommand) (i : String) :
    Except FleetError (Option AgentLinkRecord) → FleetStores → FleetInner → Prop
  | .ok link, d', inner' => inner' = inner ∧ d'.spawns = d.spawns ∧ Sound env d' ∧
      Tracks env [command.commandId] d' inner ∧
      (∀ {l}, Holds d'.links i l → link.map AgentLinkRecord.linkId = some l) ∧
      (link.isSome → order.ownership.isSome)
  | .error _, d', inner' => d' = d ∧ inner' = inner

variable {order : SpawnOrder} {i : String}

section

variable (h : Requested env d inner order command i) {linkId : String}
  {link : Option AgentLinkRecord} {d' : FleetStores} {inner' : FleetInner}

include h

theorem Requested.not_holds {l : String} : ¬ Holds d.links i l := by
  rintro ⟨_, hlink, -⟩
  rw [h.unlinked] at hlink
  cases hlink

theorem reserveAgentLink_linked :
    Keeps env (Durable.attempt (FleetSupervisor.reserveAgentLink command order linkId now))
      (Linked env d inner order command i) d inner := by
  refine ensures_attempt (fun d' inner' => d' = d ∧ inner' = inner) ?_ fun _ _ _ => id
  unfold FleetSupervisor.reserveAgentLink
  split
  · refine ensures_pure ⟨rfl, rfl, h.running.sound, h.running.tracks.weaken, ?_, nofun⟩
    exact fun hholds => absurd hholds h.not_holds
  rename_i ownership howner
  refine ensures_onLinks ⟨rfl, rfl⟩ fun _ _ hreserve => ?_
  simp only [Fleet.reserveAgentLink, ok_iff, store_eq_ok, pair_iff] at hreserve
  obtain ⟨i', hi', record, created, ⟨children, -, -, -, path, -, -, -, _, hcreate, rfl, rfl⟩,
    rfl, rfl⟩ := hreserve
  cases h.instanceId.symm.trans hi'
  obtain ⟨row, hrow, -, hissue, hinstance, -⟩ := h.row
  have howned : order.ownership.isSome := by simp [howner]
  rcases LinkStore.createAgentLink_spec hcreate with rfl | ⟨-, hfind⟩
  · refine ⟨h.running.sound, rfl, rfl, h.running.sound, h.running.tracks.weaken, ?_,
      fun _ => howned⟩
    exact fun hholds => absurd hholds h.not_holds
  have hsound := h.running.sound.create hrow hinstance h.only (by simp [Dead, hissue]) h.new hfind
  refine ⟨hsound, rfl, rfl, hsound, h.running.tracks.create h.only h.inactive hfind, ?_,
    fun _ => howned⟩
  intro _ hholds
  rcases hholds.of_create hfind with ⟨-, hid⟩ | hholds
  · exact congrArg some hid
  · exact absurd hholds h.not_holds

theorem startLinked_keeps (hlinked : Linked env d inner order command i (.ok link) d' inner') :
    KeepsRunning env (startLinked (commandKey env command.commandId) order command link now)
      d' inner' := by
  obtain ⟨rfl, hspawns, hsound, htracks, hlinks, howned⟩ := hlinked
  obtain ⟨row, hrow, hrequested, hissue, hi, hgeneration, hsql⟩ := h.row
  obtain ⟨record, hrecord, hprepared⟩ := h.record
  rw [← hspawns] at hrow hrecord
  -- the order was just stored, so that it can be advanced
  obtain ⟨advanced, hadvanced⟩ :=
    advanceSpawn_requested_eq_ok rfl hrecord hprepared hrow hrequested hsql
  rw [hgeneration] at hadvanced
  refine ensures_bind (ensures_attempt (fun _ _ => False) ?_ fun _ _ _ => False.elim)
  refine ensures_changeSpawns_of_ok hadvanced ?_
  obtain ⟨-, hcanon, _, hrow', -, -, hafter⟩ := advanceSpawn_spec hadvanced
  cases hrow.symm.trans hrow'
  have hchange : RowChange d' row { row with state := .reserved } :=
    ⟨rfl, rfl, by simp [Settled, hissue, SpawnCommandState.isTerminal],
      fun _ => by rw [hrequested]; rfl, fun hdead => by simp [Dead, hissue] at hdead⟩
  have hsound' := hsound.of_row hchange hrow hafter hcanon
  have htracks' := htracks.of_row hchange hrow hafter
  refine ⟨hsound', ?_⟩
  have hreserved : advanced.findCommand (commandKey env command.commandId) =
      some { row with state := .reserved } := by
    rw [hafter, update_self]
  have hbacked : Backed env { d' with spawns := advanced } command.commandId
      (activeFrom order command i link) := by
    refine ⟨rfl, ⟨_, hreserved, hi, hgeneration⟩, h.onHost, hlinks, fun hlink => ?_⟩
    have hsome : link.isSome := by simpa [activeFrom] using hlink
    exact ⟨howned hsome, by simpa [activeFrom] using hsome⟩
  rw [h.instanceId]
  refine ensures_bind (ensures_inspect ?_ fun _ he => by cases he)
  intro i' hi'
  cases hi'
  exact ensures_remember_bind (ensures_pure ⟨hsound', htracks'.insert_active hbacked rfl⟩)

theorem Requested.remember (hsame : inner'.activeByCommand = inner.activeByCommand) :
    Requested env d inner' order command i :=
  { h with
    running := ⟨h.running.sound, h.running.tracks.of_active hsame⟩
    inactive := by rw [hsame, h.inactive] }

theorem Requested.refuse_keeps :
    KeepsRunning env
      (terminalRefusal (commandKey env command.commandId) command category reason) d inner := by
  apply terminalRefusal_keeps h.running
  intro _ _ _ hfound hj hholds
  obtain ⟨row, hrow, -, -, hi, -⟩ := h.row
  cases hrow.symm.trans hfound
  cases hi.symm.trans hj
  exact h.not_holds hholds

theorem startRequested_keeps {allowed : Option DesiredLifecycleState} :
    KeepsRunning env (startRequested env order now allowed linkId (commandKey env command.commandId)
      command) d inner := by
  apply ensures_remember_bind
  have h : Requested env d
      { inner with nextGeneration := max (min u64Max (command.generation + 1)) 1 } order command
      i :=
    h.remember rfl
  refine ensures_inspect_bind h.running fun _ _ => ?_
  split
  · exact h.refuse_keeps
  refine ensures_bind ((reserveAgentLink_linked h).mono ?_)
  intro result _ _ hresult
  cases result with
  | ok => exact startLinked_keeps h hresult
  | error =>
    obtain ⟨rfl, rfl⟩ := hresult
    dsimp only
    split
    · exact h.refuse_keeps
    split
    · exact h.refuse_keeps
    · exact ensures_raise h.running

end

/-- Orders that name no placement are written without one. -/
def FleetEnvironment.Faithful (env : FleetEnvironment) : Prop :=
  ∀ order : SpawnOrder, order.remotePlacement = none →
    remotePlacementFromCanonical env.toSpawnCodec (env.serializeOrder order) = .ok none

theorem Running.requested {request : SpawnStore.SpawnRequest} {issuedAt expiresAt : Int}
    (hfaithful : env.Faithful) (h : Running env d inner) (hhost : order.remotePlacement = none)
    (hfresh : FreshInstance d request.instanceId)
    (hinsert : d.spawns.insertSpawn (commandKey env order.commandId)
    (env.serializeOrder order) issuedAt expiresAt request = .ok spawns)
    (placement : Option RemotePlacement) :
    Requested env { d with spawns } inner order
      (requestedCommand (commandKey env order.commandId) request expiresAt placement)
      request.instanceId := by
  obtain ⟨hsql, hfree, hafter, hrecords⟩ := insertSpawn_spec rfl hinsert
  set row := requestedRow (commandKey env order.commandId) request expiresAt with hrow
  have hcanon : spawns.canon = update d.spawns.canon (commandKey env order.commandId)
      (some (env.serializeOrder order)) := by
    funext key
    unfold canon
    rw [hrecords]
    by_cases hkey : key = commandKey env order.commandId
    · subst hkey
      simp
    · rw [update_of_ne hkey, update_of_ne hkey]
  have hfound : spawns.findCommand (commandKey env order.commandId) = some row := by
    rw [hafter, update_self]
  -- a link of this instance would belong to an older order
  have hunlinked : d.links.findChild request.instanceId = none := by
    cases hlink : d.links.findChild request.instanceId with
    | none => rfl
    | some =>
      obtain ⟨_, _, hfound, hi⟩ := h.sound.spawned hlink
      exact absurd hi (hfresh hfound)
  have hsettled : Settled row := rfl
  have hlive : ¬ Dead row := by simp [Dead, hrow, requestedRow]
  have hrunning : Running env { d with spawns } inner :=
    ⟨h.sound.insert hfree hfresh rfl hafter hsettled hlive (hfaithful order hhost) hcanon,
      h.tracks.insert hfree hfresh rfl hafter h.sound⟩
  have hrecord : spawns.findRecord (commandKey env order.commandId) =
      some ⟨commandKey env order.commandId, env.serializeOrder order, .prepared, .unset, issuedAt,
        expiresAt⟩ := by
    rw [hrecords, update_self]
  refine ⟨hrunning, ⟨row, hfound, rfl, rfl, rfl, rfl, hsql⟩, ⟨_, hrecord, rfl⟩, rfl, ?_, ?_, ?_,
    hunlinked, hhost⟩
  · intro _ _ hrow' hi'
    rcases findCommand_change hafter hrow' with ⟨hkey, -⟩ | ⟨-, hold⟩
    · exact hkey
    · exact absurd hi' (hfresh hold)
  · intro _ _ hentry hsame
    obtain ⟨_, hold⟩ := h.sound.known hentry
    rw [hsame] at hold
    cases hfree.symm.trans hold
  · cases hactive : inner.activeByCommand.lookup order.commandId with
    | none => exact hactive
    | some =>
      obtain ⟨_, hold, -⟩ := (h.tracks.backed hactive).stored
      cases hfree.symm.trans hold

section

variable {ids : NewIds} (hfaithful : env.Faithful) (h : Running env d inner)
  (hhost : order.remotePlacement = none) (hfresh : FreshInstance d ids.instanceId)

include hfaithful h hhost hfresh

theorem requestSpawnWithPolicy_keeps {allowed : Option DesiredLifecycleState} {legacy : Bool} :
    KeepsRunning env (requestSpawnWithPolicy env order now allowed legacy ids) d inner := by
  refine ensures_inspect_bind h fun _ _ => ?_
  refine ensures_inspect_bind h fun _ _ => ?_
  refine ensures_inspect_bind h fun _ hkey => ?_
  obtain rfl := spawnKey_eq_ok hkey
  refine ensures_bind (ensures_onSpawns h fun reservation _ hreserve => ?_)
  rcases reserveSpawn_spec hreserve with ⟨rfl, hnew, hflight⟩ | hrequested
  · -- a replay changes nothing
    refine ⟨h.sound, ?_⟩
    cases reservation with
    | requested command => exact absurd rfl (hnew command)
    | inFlight command =>
      obtain ⟨_, hrow, hread, hstate⟩ := hflight command rfl
      have hfrom := readCommand_eq_ok hread
      have hsame : order.commandId = command.commandId := by
        have hkey := (findCommand_eq_some.mp hrow).2
        rw [hfrom.commandId]
        exact (congrArg IdempotencyKey.idempotencyKey hkey).symm
      rw [hsame] at hrow ⊢
      refine ensures_inspect_bind h fun _ hknown => ?_
      split
      · exact ensures_inspect_bind h fun _ _ => ensures_pure h
      rename_i hunknown
      refine terminalRefusal_keeps h ?_
      intro _ _ _ hfound hi hholds
      cases hrow.symm.trans hfound
      rcases h.tracks.active hrow (hfrom.state ▸ hstate) hi hholds with hactive | hpending
      · rw [← Except.ok.inj hknown] at hunknown
        exact hunknown hactive
      · cases hpending
    | replayed | envelopeMismatch | idempotencyExpired => exact ensures_pure h
  · obtain ⟨_, placement, -, rfl, -, hinsert⟩ := hrequested
    have hstored := h.requested hfaithful hhost hfresh hinsert placement
    exact ⟨hstored.running.sound, startRequested_keeps hstored⟩

theorem requestRelaunch_keeps : KeepsRunning env (requestRelaunch env order now ids) d inner := by
  refine ensures_inspect_bind h fun _ _ => ?_
  refine desiredEntry_bind h fun _ => ?_
  refine ensures_inspect_bind h fun _ _ => ?_
  refine ensures_inspect_bind h fun _ _ => ?_
  exact requestSpawnWithPolicy_keeps hfaithful h hhost hfresh

theorem requestRecovery_keeps : KeepsRunning env (requestRecovery env order now ids) d inner := by
  refine ensures_inspect_bind h fun _ _ => ?_
  refine desiredEntry_bind h fun _ => ?_
  refine ensures_inspect_bind h fun _ _ => ?_
  refine ensures_inspect_bind h fun _ _ => ?_
  exact requestSpawnWithPolicy_keeps hfaithful h hhost hfresh

end

end Bridget.Fleet
