import Bridget.Fleet.DeadLaunch

/-!
# Leases of launches

The memory of the supervisor holds the launches in flight under their command and under their
name. The two maps stay inverse to each other, and every generation is given to one saga only.
Most steps of a call are quiet: they change neither the memory nor the generations that the
sagas were given.
-/

namespace Bridget.Fleet

open Foundation Idempotency FleetSupervisor Durable AList Option Function

variable {env : FleetEnvironment} {d d' : FleetStores} {inner : FleetInner}
  {active : ActiveSpawn} {issue : SpawnCommandIssue} {issued : Nat → Prop} {α β : Type}

def generationOf (env : FleetEnvironment) (d : FleetStores) (c : String) : Option Nat :=
  (d.spawns.findCommand (commandKey env c)).map SpawnCommandRow.generation

/-- Every saga has a generation of its own, and those that were given out are kept. -/
structure Ledger (env : FleetEnvironment) (issued : Nat → Prop) (d : FleetStores) : Prop where
  distinct : ∀ {c c' g}, generationOf env d c = some g → generationOf env d c' = some g → c = c'
  bounded : ∀ {c g}, generationOf env d c = some g → (g : Int) ≤ i64Max
  kept : ∀ g, issued g → ∃ c, generationOf env d c = some g

/-- A launch is active under its command and under its name. -/
structure Inverse (inner : FleetInner) : Prop where
  byCommand : ∀ {c active}, inner.activeByCommand.lookup c = some active →
    active.commandId = c ∧ inner.activeByName.lookup active.name = some c
  byName : ∀ {name c}, inner.activeByName.lookup name = some c →
    ∃ active, inner.activeByCommand.lookup c = some active ∧ active.name = name

structure Leased (env : FleetEnvironment) (issued : Nat → Prop) (d : FleetStores)
    (inner : FleetInner) : Prop where
  ledger : Ledger env issued d
  inverse : Inverse inner
  stored : ∀ {c active}, inner.activeByCommand.lookup c = some active →
    generationOf env d c = some active.generation
  below : ∀ {c g}, generationOf env d c = some g → g < inner.nextGeneration

/-- What a call keeps, also when it fails or is cut. -/
abbrev KeepsLeases (env : FleetEnvironment) (issued : Nat → Prop) (x : FleetCall α)
    (post : α → FleetStores → FleetInner → Prop) (d : FleetStores) (inner : FleetInner) : Prop :=
  Ensures (Ledger env issued) (Leased env issued) x post d inner

abbrev KeepsLeased (env : FleetEnvironment) (issued : Nat → Prop) (x : FleetCall α) :
    FleetStores → FleetInner → Prop :=
  KeepsLeases env issued x fun _ => Leased env issued

theorem Ledger.of_same (h : Ledger env issued d)
    (hsame : generationOf env d' = generationOf env d) : Ledger env issued d' := by
  obtain ⟨hdistinct, hbounded, hkept⟩ := h
  rw [← hsame] at hdistinct hbounded hkept
  exact ⟨hdistinct, hbounded, hkept⟩

theorem Leased.of_same (h : Leased env issued d inner)
    (hsame : generationOf env d' = generationOf env d) : Leased env issued d' inner := by
  refine ⟨h.ledger.of_same hsame, h.inverse, ?_, ?_⟩
  · rw [hsame]
    exact h.stored
  · rw [hsame]
    exact h.below

theorem Inverse.activate (h : Inverse inner)
    (hcommand : inner.activeByCommand.lookup active.commandId = none)
    (hname : inner.activeByName.lookup active.name = none) : Inverse (activate active inner) := by
  unfold FleetSupervisor.activate
  constructor
  · intro c found hfound
    rcases lookup_insert_cases hfound with ⟨rfl, rfl⟩ | ⟨-, hfound⟩
    · exact ⟨rfl, by simp⟩
    obtain ⟨hid, hby⟩ := h.byCommand hfound
    refine ⟨hid, ?_⟩
    have hne : found.name ≠ active.name := by
      intro heq
      rw [heq, hname] at hby
      cases hby
    simp only [lookup_insert_ne hne]
    exact hby
  · intro name c hname'
    rcases lookup_insert_cases hname' with ⟨rfl, rfl⟩ | ⟨-, hname'⟩
    · exact ⟨active, by simp, rfl⟩
    obtain ⟨found, hfound, hfoundName⟩ := h.byName hname'
    have hne : c ≠ active.commandId := by
      rintro rfl
      rw [hcommand] at hfound
      cases hfound
    exact ⟨found, by simp only [lookup_insert_ne hne]; exact hfound, hfoundName⟩

section

variable (hactive : inner.activeByCommand.lookup active.commandId = some active)

include hactive

theorem Inverse.replace {active' : ActiveSpawn} (h : Inverse inner)
    (hcommand : active'.commandId = active.commandId) (hname : active'.name = active.name) :
    Inverse { inner with
      activeByCommand := inner.activeByCommand.insert active.commandId active' } := by
  constructor
  · intro c found hfound
    rcases lookup_insert_cases hfound with ⟨rfl, rfl⟩ | ⟨-, hfound⟩
    · refine ⟨hcommand, ?_⟩
      rw [hname]
      exact (h.byCommand hactive).2
    · exact h.byCommand hfound
  · intro name c hname'
    obtain ⟨found, hfound, rfl⟩ := h.byName hname'
    by_cases hc : c = active.commandId
    · subst hc
      cases hactive.symm.trans hfound
      exact ⟨active', by simp, hname⟩
    · exact ⟨found, by rw [lookup_insert_ne hc, hfound], rfl⟩

theorem Inverse.release (h : Inverse inner) : Inverse (releaseActiveLocked active inner) := by
  obtain ⟨-, hby⟩ := h.byCommand hactive
  unfold releaseActiveLocked
  rw [if_pos hby]
  constructor
  · intro c found hfound
    obtain ⟨hc, hfound⟩ := lookup_erase_cases hfound
    obtain ⟨hid, hname⟩ := h.byCommand hfound
    refine ⟨hid, ?_⟩
    have hne : found.name ≠ active.name := by
      intro heq
      rw [heq, hby] at hname
      exact hc (some.inj hname).symm
    simp only [lookup_erase_ne hne]
    exact hname
  · intro name c hname
    obtain ⟨hn, hname⟩ := lookup_erase_cases hname
    obtain ⟨found, hfound, rfl⟩ := h.byName hname
    have hne : c ≠ active.commandId := by
      rintro rfl
      cases hactive.symm.trans hfound
      exact hn rfl
    exact ⟨found, by simp only [lookup_erase_ne hne]; exact hfound, rfl⟩

end

section

variable (h : Leased env issued d inner)

include h

theorem Leased.of_completed (completed : AList fun _ : String => SpawnCommandIssue) :
    Leased env issued d { inner with completed } :=
  ⟨h.ledger, ⟨h.inverse.byCommand, h.inverse.byName⟩, h.stored, h.below⟩

theorem Leased.activate (hname : inner.activeByName.lookup active.name = none)
    (hcommand : inner.activeByCommand.lookup active.commandId = none)
    (hgeneration : generationOf env d active.commandId = some active.generation) :
    Leased env issued d (activate active inner) := by
  refine ⟨h.ledger, h.inverse.activate hcommand hname, ?_, h.below⟩
  intro _ _ hfound
  rcases lookup_insert_cases hfound with ⟨rfl, rfl⟩ | ⟨-, hfound⟩
  · exact hgeneration
  · exact h.stored hfound

variable (hactive : inner.activeByCommand.lookup active.commandId = some active)

include hactive

theorem Leased.replace (active' : ActiveSpawn) (hcommand : active'.commandId = active.commandId)
    (hname : active'.name = active.name) (hgeneration : active'.generation = active.generation) :
    Leased env issued d { inner with
      activeByCommand := inner.activeByCommand.insert active.commandId active' } := by
  refine ⟨h.ledger, h.inverse.replace hactive hcommand hname, ?_, h.below⟩
  intro _ _ hfound
  rcases lookup_insert_cases hfound with ⟨rfl, rfl⟩ | ⟨-, hfound⟩
  · rw [hgeneration]
    exact h.stored hactive
  · exact h.stored hfound

theorem Leased.release : Leased env issued d (releaseActiveLocked active inner) := by
  refine ⟨h.ledger, h.inverse.release hactive, ?_, h.below⟩
  exact fun hfound => h.stored (lookup_erase_cases hfound).2

theorem Leased.complete : Leased env issued d (completeLocked active issue inner) := by
  unfold completeLocked
  split
  · rw [hactive]
    exact (h.replace hactive { active with state := .connected } rfl rfl rfl).of_completed _
  · exact (h.release hactive).of_completed _

end

/-- The step changes neither the memory nor any generation, whether it returns, fails or is
cut. -/
def Quiet (env : FleetEnvironment) (x : FleetCall α) : Prop :=
  ∀ d inner, Ensures (fun d' => generationOf env d' = generationOf env d)
    (fun d' inner' => generationOf env d' = generationOf env d ∧ inner' = inner) x
    (fun _ d' inner' => generationOf env d' = generationOf env d ∧ inner' = inner) d inner

namespace Quiet

variable {x : FleetCall α} {f : α → FleetCall β} {key : IdempotencyKey} {generation : Nat}
  {current next : SpawnCommandState}

theorem pure (a : α) : Quiet env (Pure.pure a : FleetCall α) := fun _ _ => ensures_pure ⟨rfl, rfl⟩

theorem inspect {f : FleetStores → FleetInner → Except FleetError α} :
    Quiet env (Durable.inspect f) :=
  fun _ _ => ensures_inspect (fun _ _ => ⟨rfl, rfl⟩) fun _ _ => ⟨rfl, rfl⟩

theorem bind (hx : Quiet env x) (hf : ∀ a, Quiet env (f a)) : Quiet env (x >>= f) := by
  intro d inner
  apply ensures_bind
  apply (hx d inner).mono
  rintro a d' _ ⟨hsame, rfl⟩
  rw [← hsame]
  exact hf a d' _

theorem attempt (hx : Quiet env x) : Quiet env (Durable.attempt x) :=
  fun d inner => ensures_attempt _ (hx d inner) fun _ _ _ => id

theorem onLinks {f : LinkStore → Except FleetError (α × LinkStore)} :
    Quiet env (FleetSupervisor.onLinks f) :=
  fun _ _ => ensures_onLinks ⟨rfl, rfl⟩ fun _ _ _ => ⟨rfl, rfl, rfl⟩

theorem onDesired {f : DesiredFleet → Except DesiredStateError (α × DesiredFleet)} :
    Quiet env (FleetSupervisor.onDesired f) :=
  fun _ _ => ensures_onDesired ⟨rfl, rfl⟩ fun _ _ _ => ⟨rfl, rfl, rfl⟩

theorem changeDesired {f : DesiredFleet → Except DesiredStateError DesiredFleet} :
    Quiet env (FleetSupervisor.changeDesired f) :=
  onDesired

theorem changeSpawns {f : SpawnStore → Except IdempotencyError SpawnStore}
    (hf : ∀ s s', f s = .ok s' → ∃ key row row', s.findCommand key = some row ∧
      row'.generation = row.generation ∧ s'.findCommand = update s.findCommand key (some row')) :
    Quiet env (FleetSupervisor.changeSpawns f) := by
  intro d _
  refine ensures_changeSpawns ⟨rfl, rfl⟩ fun spawns hchange => ?_
  obtain ⟨key, _, _, hrow, hgeneration, hafter⟩ := hf _ _ hchange
  have hsame : generationOf env { d with spawns } = generationOf env d := by
    funext c
    unfold generationOf
    rw [hafter]
    by_cases hkey : commandKey env c = key
    · rw [hkey, update_self, hrow, map_some, map_some, hgeneration]
    · rw [update_of_ne hkey]
  exact ⟨hsame, hsame, rfl⟩

theorem finishSpawn {issue : SpawnCommandIssue} :
    Quiet env (FleetSupervisor.changeSpawns fun s => s.finishSpawn key generation issue) := by
  apply changeSpawns
  intro s _ hfinish
  obtain ⟨-, row, columns, hrow, -, -, -, -, hafter⟩ := SpawnStore.finishSpawn_spec hfinish
  exact ⟨key, row, SpawnStore.finishedRow columns row, hrow, rfl, hafter⟩

theorem advanceSpawn :
    Quiet env
      (FleetSupervisor.changeSpawns fun s => s.advanceSpawn key generation current next) := by
  apply changeSpawns
  intro s _ hadvance
  obtain ⟨-, -, row, hrow, -, -, hafter⟩ := SpawnStore.advanceSpawn_spec hadvance
  exact ⟨key, row, { row with state := next }, hrow, rfl, hafter⟩

theorem advanceSpawnWithDefinition {definition : ResolvedAgentDefinition} :
    Quiet env (FleetSupervisor.changeSpawns fun s =>
      s.advanceSpawnWithDefinition key generation current next definition) := by
  apply changeSpawns
  intro s _ hadvance
  obtain ⟨-, row, hrow, -, -, hafter⟩ := SpawnStore.advanceSpawnWithDefinition_spec hadvance
  exact ⟨key, row, { row with state := .starting, resolvedDefinition := some definition }, hrow,
    rfl, hafter⟩

theorem keeps (hx : Quiet env x) (h : Leased env issued d inner) :
    KeepsLeased env issued x d inner := by
  apply (hx d inner).imp
  · exact fun d' hsame => h.ledger.of_same hsame
  · rintro _ _ ⟨hsame, rfl⟩
    exact h.of_same hsame
  · rintro _ _ _ ⟨hsame, rfl⟩
    exact h.of_same hsame

/-- What comes after a quiet step finds the same memory and the same generations. -/
theorem keeps_bind {post : β → FleetStores → FleetInner → Prop} (hx : Quiet env x)
    (h : Leased env issued d inner)
    (hf : ∀ a d', generationOf env d' = generationOf env d → Leased env issued d' inner →
      KeepsLeases env issued (f a) post d' inner) :
    KeepsLeases env issued (x >>= f) post d inner := by
  apply ensures_bind
  apply (hx d inner).imp
  · exact fun d' hsame => h.ledger.of_same hsame
  · rintro _ _ ⟨hsame, rfl⟩
    exact h.of_same hsame
  · rintro a d' _ ⟨hsame, rfl⟩
    exact hf a d' hsame (h.of_same hsame)

end Quiet

open Quiet

theorem closeAgentLink_quiet {changedAt : Int} :
    Quiet env (FleetSupervisor.closeAgentLink active changedAt) := by
  unfold FleetSupervisor.closeAgentLink
  split
  · exact .pure ()
  · exact .bind .onLinks fun _ => .pure ()

variable {now : Int}

theorem openAgentLink_quiet : Quiet env (FleetSupervisor.openAgentLink active now) := by
  unfold FleetSupervisor.openAgentLink
  split
  · exact .pure ()
  · exact .bind .onLinks fun _ => .pure ()

theorem reserveAgentLink_quiet {command : SpawnCommand} {order : SpawnOrder} {linkId : String} :
    Quiet env (FleetSupervisor.reserveAgentLink command order linkId now) := by
  unfold FleetSupervisor.reserveAgentLink
  split
  · exact .pure none
  · exact .onLinks

theorem abandonLink_quiet {link : Option AgentLinkRecord} : Quiet env (abandonLink link now) := by
  unfold abandonLink
  split
  · exact .pure ()
  · exact .bind (.attempt .onLinks) fun _ => .pure ()

variable {createdAt : Int}

theorem persistStoppedActive_quiet : Quiet env (persistStoppedActive env active createdAt) := by
  refine .bind .inspect fun _ => ?_
  split
  · split
    · exact .bind .onDesired fun _ => .pure ()
    · exact .changeDesired
  · split
    · exact .changeDesired
    · exact .pure ()

theorem keepStoppedEntry_quiet : Quiet env (keepStoppedEntry env active createdAt) := by
  refine .bind .inspect fun _ => ?_
  split
  · exact persistStoppedActive_quiet
  · exact .pure ()

variable {lease : SpawnLease} {closedAt : Int}

theorem stopConnected_quiet : Quiet env (stopConnected env lease closedAt) := by
  refine .bind .onDesired fun _ => ?_
  split
  · exact .pure ()
  · exact .bind .onLinks fun _ => .pure ()

section

variable (h : Leased env issued d inner)

include h

section

variable (hactive : inner.activeByCommand.lookup active.commandId = some active)

include hactive

theorem finishActive_keepsLeases :
    KeepsLeased env issued (finishActive env active issue) d inner := by
  refine inspect.keeps_bind h fun _ d' _ h => ?_
  refine finishSpawn.keeps_bind h fun _ d' _ h => ?_
  exact ensures_remember (h.complete hactive)

theorem expireLocked_keepsLeases :
    KeepsLeased env issued (expireLocked env active closedAt) d inner := by
  refine onDesired.keeps_bind h fun _ d' _ h => ?_
  refine closeAgentLink_quiet.keeps_bind h fun _ d' _ h => ?_
  exact finishActive_keepsLeases h hactive

theorem refuseLate_keepsLeases :
    KeepsLeased env issued (refuseLate env active closedAt) d inner := by
  unfold refuseLate
  split
  · exact inspect.keeps h
  · apply ensures_bind
    apply (expireLocked_keepsLeases h hactive).mono
    exact fun _ _ _ h => inspect.keeps h

theorem stopActive_keepsLeases :
    KeepsLeased env issued (stopActive env active closedAt createdAt) d inner := by
  refine closeAgentLink_quiet.keeps_bind h fun _ d' _ h => ?_
  refine persistStoppedActive_quiet.keeps_bind h fun _ d' _ h => ?_
  split
  · exact ensures_remember (h.release hactive)
  · exact finishActive_keepsLeases h hactive

end

theorem activeOf_keepsLeases {g : ActiveSpawn → FleetCall α}
    {post : α → FleetStores → FleetInner → Prop}
    (hok : ∀ active, inner.activeByCommand.lookup active.commandId = some active →
      KeepsLeases env issued (g active) post d inner) :
    KeepsLeases env issued (activeOf lease >>= g) post d inner := by
  refine ensures_inspect_bind h fun active hactive => ?_
  simp only [activeForLease, ok_iff] at hactive
  obtain ⟨_, hlookup, -, -, rfl⟩ := hactive
  obtain ⟨hid, -⟩ := h.inverse.byCommand hlookup
  exact hok _ (hid ▸ hlookup)

theorem markStarting_keepsLeases {definition : ResolvedAgentDefinition} :
    KeepsLeased env issued (markStarting env lease now closedAt definition) d inner := by
  refine activeOf_keepsLeases h fun _ hactive => ?_
  refine inspect.keeps_bind h fun _ d' _ h => ?_
  split
  · exact refuseLate_keepsLeases h hactive
  refine inspect.keeps_bind h fun _ d' _ h => ?_
  refine inspect.keeps_bind h fun _ d' _ h => ?_
  refine advanceSpawnWithDefinition.keeps_bind h fun _ d' _ h => ?_
  exact ensures_remember (h.replace hactive _ rfl rfl rfl)

theorem registerConnected_keepsLeases {instanceId : String} :
    KeepsLeased env issued (registerConnected env lease instanceId now closedAt) d inner := by
  refine inspect.keeps_bind h fun _ d' _ h => ?_
  refine activeOf_keepsLeases h fun _ hactive => ?_
  refine inspect.keeps_bind h fun _ d' _ h => ?_
  split
  · exact inspect.keeps h
  split
  · apply ensures_bind
    apply (refuseLate_keepsLeases h hactive).mono
    exact fun _ d' _ h => inspect.keeps h
  refine inspect.keeps_bind h fun _ d' _ h => ?_
  refine changeDesired.keeps_bind h fun _ d' _ h => ?_
  refine openAgentLink_quiet.keeps_bind h fun _ d' _ h => ?_
  apply ensures_bind
  apply (finishActive_keepsLeases h hactive).mono
  exact fun _ d' _ h => ensures_pure h

theorem finishNonSuccess_keepsLeases :
    KeepsLeased env issued (finishNonSuccess env lease issue closedAt createdAt) d inner := by
  refine activeOf_keepsLeases h fun _ hactive => ?_
  refine inspect.keeps_bind h fun _ d' _ h => ?_
  refine keepStoppedEntry_quiet.keeps_bind h fun _ d' _ h => ?_
  refine closeAgentLink_quiet.keeps_bind h fun _ d' _ h => ?_
  apply ensures_bind
  apply (finishActive_keepsLeases h hactive).mono
  exact fun _ d' _ h => ensures_pure h

theorem invalidateForStop_keepsLeases :
    KeepsLeased env issued (invalidateForStop env lease closedAt createdAt) d inner := by
  refine inspect.keeps_bind h fun _ d' _ h => ?_
  split
  · exact activeOf_keepsLeases h fun _ hactive => stopActive_keepsLeases h hactive
  · refine inspect.keeps_bind h fun _ d' _ h => ?_
    exact stopConnected_quiet.keeps h

theorem expire_keepsLeases {commandId : String} {generation : Nat} :
    KeepsLeased env issued (expire env commandId generation now closedAt) d inner := by
  refine ensures_inspect_bind h fun _ hfound => ?_
  split
  · exact ensures_pure h
  rename_i active
  have hlookup : inner.activeByCommand.lookup commandId = some active := Except.ok.inj hfound
  obtain ⟨rfl, -⟩ := h.inverse.byCommand hlookup
  refine inspect.keeps_bind h fun _ d' _ h => ?_
  split
  · exact ensures_pure h
  · apply ensures_bind
    apply (expireLocked_keepsLeases h hlookup).mono
    exact fun _ d' _ h => ensures_pure h

end

end Bridget.Fleet
