import Bridget.Fleet.OwnershipGraph
import Bridget.Fleet.Supervisor

/-!
# Child slots

A link that still owns its child takes one of the slots its parent may fill. The stores are
sound when no launch that failed or was cancelled keeps a slot, and when the memory and the
desired state can be trusted to name the link of a launch. Each write of a store is shown to
keep this, under what the write needs.
-/

namespace Bridget.Fleet

open Foundation Idempotency FleetSupervisor Function Option

def Holds (s : LinkStore) (instanceId linkId : String) : Prop :=
  ∃ link, s.findChild instanceId = some link ∧ link.linkId = linkId ∧ link.state.ownsChild = true

def Dead (row : SpawnCommandRow) : Prop :=
  row.issueKind = some .failed ∨ row.issueKind = some .cancelled
  deriving Decidable

def commandKey (env : FleetEnvironment) (commandId : String) : IdempotencyKey :=
  ⟨env.supervisorScope, .spawn, commandId⟩

/-- The state of a row is the one of its issue, and a row without one is in flight. -/
def Settled (row : SpawnCommandRow) : Prop :=
  match row.issueKind with
  | none => row.state.isTerminal = false
  | some kind => row.state = kind.state

structure Sound (env : FleetEnvironment) (d : FleetStores) : Prop where
  /-- A dead launch takes no slot. -/
  released : ∀ {key row i l}, d.spawns.findCommand key = some row → Dead row →
    row.instanceId = some i → ¬ Holds d.links i l
  /-- Links belong to launches. -/
  spawned : ∀ {i link}, d.links.findChild i = some link →
    ∃ key row, d.spawns.findCommand key = some row ∧ row.instanceId = some i
  /-- Desired agents come from launches. -/
  known : ∀ {name entry}, d.desired.lookup name = some entry →
    ∃ row, d.spawns.findCommand (commandKey env entry.commandId) = some row
  /-- A desired agent names the link of its launch. -/
  linked : ∀ {name entry row i l}, d.desired.lookup name = some entry →
    d.spawns.findCommand (commandKey env entry.commandId) = some row →
    row.generation = entry.generation → row.instanceId = some i → Holds d.links i l →
    entry.agentLink.map DesiredAgentLink.linkId = some l
  /-- No launch has a remote placement. -/
  onHost : ∀ {key row}, d.spawns.findCommand key = some row →
    ∃ bytes, d.spawns.canon key = some bytes ∧
      remotePlacementFromCanonical env.toSpawnCodec bytes = .ok none
  settled : ∀ {key row}, d.spawns.findCommand key = some row → Settled row

/-- An active launch describes its row and its link. -/
structure Backed (env : FleetEnvironment) (d : FleetStores) (c : String)
    (active : ActiveSpawn) : Prop where
  commandId : active.commandId = c
  stored : ∃ row, d.spawns.findCommand (commandKey env c) = some row ∧
    row.instanceId = some active.instanceId ∧ row.generation = active.generation
  onHost : active.remotePlacement = none
  linked : ∀ {l}, Holds d.links active.instanceId l → active.linkId = some l
  owned : active.linkId.isSome → active.ownership.isSome ∧ active.agentPath.isSome

/-- Every launch in flight that takes a slot is active or still to be dealt with. -/
structure Tracks (env : FleetEnvironment) (pending : List String) (d : FleetStores)
    (inner : FleetInner) : Prop where
  backed : ∀ {c active}, inner.activeByCommand.lookup c = some active → Backed env d c active
  active : ∀ {c row i l}, d.spawns.findCommand (commandKey env c) = some row →
    row.state.isTerminal = false → row.instanceId = some i → Holds d.links i l →
    (inner.activeByCommand.lookup c).isSome ∨ c ∈ pending

/-- What holds of the stores and the memory between two calls. -/
structure Running (env : FleetEnvironment) (d : FleetStores) (inner : FleetInner) : Prop where
  sound : Sound env d
  tracks : Tracks env [] d inner

variable {env : FleetEnvironment} {d : FleetStores} {inner : FleetInner} {pending : List String}
  {c : String} {active : ActiveSpawn} {key : IdempotencyKey} {row row' : SpawnCommandRow}

theorem commandKey_inj {c c' : String} (h : commandKey env c = commandKey env c') : c = c' :=
  congrArg IdempotencyKey.idempotencyKey h

/-! ## Writes on links -/

variable {links : LinkStore} {i : String}

section

variable (hstays : ∀ x, Rel StaysInPlace (d.links.findChild x) (links.findChild x))

include hstays

theorem Holds.of_stays {l : String} (h : Holds links i l) : Holds d.links i l := by
  obtain ⟨_, hlink', hid, howns⟩ := h
  have hrel := hstays i
  unfold Holds
  rw [hlink'] at hrel
  generalize d.links.findChild i = found at hrel ⊢
  cases hrel with
  | some hstay => exact ⟨_, rfl, hstay.linkId.symm.trans hid, hstay.owns howns⟩

/-- Links that stay in place give up slots at most. -/
theorem Sound.of_links (h : Sound env d) : Sound env { d with links } where
  released hrow hdead hi hholds := h.released hrow hdead hi (hholds.of_stays hstays)
  spawned := by
    intro i _ hlink
    have hrel := hstays i
    rw [hlink] at hrel
    cases hold : d.links.findChild i with
    | none =>
      rw [hold] at hrel
      cases hrel
    | some => exact h.spawned hold
  known := h.known
  linked hentry hrow hgeneration hi hholds :=
    h.linked hentry hrow hgeneration hi (hholds.of_stays hstays)
  onHost := h.onHost
  settled := h.settled

theorem Backed.of_links (h : Backed env d c active) : Backed env { d with links } c active :=
  { h with linked := fun hholds => h.linked (hholds.of_stays hstays) }

theorem Tracks.of_links (h : Tracks env pending d inner) :
    Tracks env pending { d with links } inner :=
  ⟨fun hactive => (h.backed hactive).of_links hstays,
    fun hrow hflight hi hholds => h.active hrow hflight hi (hholds.of_stays hstays)⟩

theorem Running.of_links (h : Running env d inner) : Running env { d with links } inner :=
  ⟨h.sound.of_links hstays, h.tracks.of_links hstays⟩

end

variable {link : AgentLinkRecord}

theorem Holds.of_create {j l : String}
    (hfind : links.findChild = update d.links.findChild i (some link))
    (h : Holds links j l) : j = i ∧ link.linkId = l ∨ Holds d.links j l := by
  obtain ⟨found, hfound, hid, howns⟩ := h
  rcases update_some_cases (hfind ▸ hfound) with ⟨rfl, rfl⟩ | ⟨-, hfound⟩
  · exact .inl ⟨rfl, hid⟩
  · exact .inr ⟨found, hfound, hid, howns⟩

def OnlyInstance (d : FleetStores) (key : IdempotencyKey) (i : String) : Prop :=
  ∀ {key' row'}, d.spawns.findCommand key' = some row' → row'.instanceId = some i → key' = key

theorem Sound.create (h : Sound env d) (hrow : d.spawns.findCommand (commandKey env c) = some row)
    (hi : row.instanceId = some i) (honly : OnlyInstance d (commandKey env c) i)
    (hlive : ¬ Dead row)
    (hnew : ∀ name entry, d.desired.lookup name = some entry → entry.commandId ≠ c)
    (hfind : links.findChild = update d.links.findChild i (some link)) :
    Sound env { d with links } where
  released := by
    intro _ row' j l hrow' hdead hj hholds
    rcases hholds.of_create hfind with ⟨rfl, -⟩ | hholds
    · obtain rfl := honly hrow' hj
      cases hrow.symm.trans hrow'
      exact hlive hdead
    · exact h.released hrow' hdead hj hholds
  spawned := by
    intro j _ hfound
    rw [hfind] at hfound
    rcases update_some_cases hfound with ⟨rfl, -⟩ | ⟨-, hfound⟩
    · exact ⟨_, row, hrow, hi⟩
    · exact h.spawned hfound
  known := h.known
  linked := by
    intro name entry row' j l hentry hrow' hgeneration hj hholds
    rcases hholds.of_create hfind with ⟨rfl, -⟩ | hholds
    · exact absurd (commandKey_inj (honly hrow' hj)) (hnew name entry hentry)
    · exact h.linked hentry hrow' hgeneration hj hholds
  onHost := h.onHost
  settled := h.settled

theorem Tracks.create (h : Tracks env pending d inner) (honly : OnlyInstance d (commandKey env c) i)
    (hinactive : inner.activeByCommand.lookup c = none)
    (hfind : links.findChild = update d.links.findChild i (some link)) :
    Tracks env (c :: pending) { d with links } inner where
  backed := by
    intro c' active hactive
    have hbacked := h.backed hactive
    refine { hbacked with linked := fun hholds => ?_ }
    rcases hholds.of_create hfind with ⟨hj, -⟩ | hholds
    · obtain ⟨_, hrow, hinstance, -⟩ := hbacked.stored
      rw [commandKey_inj (honly hrow (hj ▸ hinstance)), hinactive] at hactive
      cases hactive
    · exact hbacked.linked hholds
  active := by
    intro c' _ _ l hrow' hflight hj hholds
    rcases hholds.of_create hfind with ⟨rfl, -⟩ | hholds
    · exact .inr (by simp [commandKey_inj (honly hrow' hj)])
    · exact (h.active hrow' hflight hj hholds).imp_right (List.mem_cons_of_mem c)

/-! ## Writes on the desired state -/

variable {desired : DesiredFleet}

theorem Sound.of_desired (h : Sound env d) (honly : DesiredFleet.OnlyLifecycle d.desired desired) :
    Sound env { d with desired } where
  released := h.released
  spawned := h.spawned
  known := by
    intro name entry' hentry'
    obtain ⟨_, hentry, hsame⟩ := honly name entry' hentry'
    obtain ⟨row, hrow⟩ := h.known hentry
    exact ⟨row, by rw [hsame]; exact hrow⟩
  linked := by
    intro name entry' row _ _ hentry' hrow hgeneration hi hholds
    obtain ⟨_, hentry, hsame⟩ := honly name entry' hentry'
    rw [hsame] at hrow hgeneration ⊢
    have hlink := h.linked hentry hrow hgeneration hi hholds
    exact hlink
  onHost := h.onHost
  settled := h.settled

/-- An active launch names its link in the entry it writes. -/
theorem Backed.desiredAgentLink (h : Backed env d c active) {l : String}
    (hl : active.linkId = some l) :
    (desiredAgentLink active).map DesiredAgentLink.linkId = some l := by
  obtain ⟨howner, hpath⟩ := h.owned (by simp [hl])
  obtain ⟨_, howner⟩ := isSome_iff_exists.mp howner
  obtain ⟨_, hpath⟩ := isSome_iff_exists.mp hpath
  simp [FleetSupervisor.desiredAgentLink, hl, howner, hpath]

theorem Sound.upsert {name : String} {created : Int} {lifecycleState : DesiredLifecycleState}
    (h : Sound env d) (hbacked : Backed env d c active) :
    Sound env { d with
      desired := d.desired.insert name (desiredFrom active created lifecycleState) } where
  released := h.released
  spawned := h.spawned
  known := by
    intro name' entry hentry
    rcases lookup_insert_cases hentry with ⟨rfl, rfl⟩ | ⟨-, hentry⟩
    · obtain ⟨row, hrow, -⟩ := hbacked.stored
      exact ⟨row, by rw [← hrow, ← hbacked.commandId]; rfl⟩
    · exact h.known hentry
  linked := by
    intro name' entry row _ _ hentry hrow hgeneration hi hholds
    rcases lookup_insert_cases hentry with ⟨rfl, rfl⟩ | ⟨-, hentry⟩
    · obtain ⟨_, hrow₀, hinstance, -⟩ := hbacked.stored
      rw [← hbacked.commandId] at hrow₀
      cases hrow₀.symm.trans hrow
      cases hinstance.symm.trans hi
      exact hbacked.desiredAgentLink (hbacked.linked hholds)
    · exact h.linked hentry hrow hgeneration hi hholds
  onHost := h.onHost
  settled := h.settled

theorem Tracks.of_desired (h : Tracks env pending d inner) :
    Tracks env pending { d with desired } inner :=
  ⟨fun hactive => { h.backed hactive with }, h.active⟩

/-! ## Writes on the sagas -/

variable {spawns : SpawnStore}

/-- A row that changes keeps its instance and its generation, and dies only without a slot. -/
structure RowChange (d : FleetStores) (row row' : SpawnCommandRow) : Prop where
  instanceId : row'.instanceId = row.instanceId
  generation : row'.generation = row.generation
  settled : Settled row'
  flight : row'.state.isTerminal = false → row.state.isTerminal = false
  dead : Dead row' → ∀ i l, row.instanceId = some i → ¬ Holds d.links i l

variable {key' : IdempotencyKey} {found : SpawnCommandRow}

theorem findCommand_change
    (hafter : spawns.findCommand = update d.spawns.findCommand key (some row'))
    (hfound : spawns.findCommand key' = some found) :
    key' = key ∧ found = row' ∨ key' ≠ key ∧ d.spawns.findCommand key' = some found :=
  update_some_cases (hafter ▸ hfound)

section

variable (hchange : RowChange d row row') (hrow : d.spawns.findCommand key = some row)
  (hafter : spawns.findCommand = update d.spawns.findCommand key (some row'))

include hchange hrow hafter

/-- Every row is still there, with its instance and its generation. -/
theorem RowChange.kept (hfound : d.spawns.findCommand key' = some found) :
    ∃ found', spawns.findCommand key' = some found' ∧ found'.instanceId = found.instanceId ∧
      found'.generation = found.generation := by
  rw [hafter]
  by_cases hkey : key' = key
  · subst hkey
    cases hrow.symm.trans hfound
    exact ⟨row', update_self .., hchange.instanceId, hchange.generation⟩
  · exact ⟨found, by rw [update_of_ne hkey, hfound], rfl, rfl⟩

theorem Sound.of_row (h : Sound env d) (hcanon : spawns.canon = d.spawns.canon) :
    Sound env { d with spawns } where
  released := by
    intro key' found i l hfound hdead hi
    rcases findCommand_change hafter hfound with ⟨-, rfl⟩ | ⟨-, hfound⟩
    · exact hchange.dead hdead i l (hchange.instanceId ▸ hi)
    · exact h.released hfound hdead hi
  spawned := by
    intro i _ hlink
    obtain ⟨key', _, hfound, hi⟩ := h.spawned hlink
    obtain ⟨found', hfound', hinstance, -⟩ := hchange.kept hrow hafter hfound
    exact ⟨key', found', hfound', hinstance.trans hi⟩
  known := by
    intro name entry hentry
    obtain ⟨_, hfound⟩ := h.known hentry
    obtain ⟨found', hfound', -⟩ := hchange.kept hrow hafter hfound
    exact ⟨found', hfound'⟩
  linked := by
    intro name entry found i l hentry hfound hgeneration hi hholds
    rcases findCommand_change hafter hfound with ⟨hkey, rfl⟩ | ⟨-, hfound⟩
    · exact h.linked hentry (hkey ▸ hrow) (hchange.generation ▸ hgeneration)
        (hchange.instanceId ▸ hi) hholds
    · exact h.linked hentry hfound hgeneration hi hholds
  onHost := by
    intro key' found hfound
    rw [hcanon]
    rcases findCommand_change hafter hfound with ⟨rfl, -⟩ | ⟨-, hfound⟩
    · exact h.onHost hrow
    · exact h.onHost hfound
  settled := by
    intro key' found hfound
    rcases findCommand_change hafter hfound with ⟨-, rfl⟩ | ⟨-, hfound⟩
    · exact hchange.settled
    · exact h.settled hfound

theorem Tracks.of_row (h : Tracks env pending d inner) :
    Tracks env pending { d with spawns } inner where
  backed := by
    intro c active hactive
    have hbacked := h.backed hactive
    obtain ⟨_, hfound, hi, hgeneration⟩ := hbacked.stored
    obtain ⟨found', hfound', hinstance, hsame⟩ := hchange.kept hrow hafter hfound
    exact ⟨hbacked.commandId, ⟨found', hfound', hinstance.trans hi, hsame.trans hgeneration⟩,
      hbacked.onHost, hbacked.linked, hbacked.owned⟩
  active := by
    intro c found _ _ hfound hflight hi hholds
    rcases findCommand_change hafter hfound with ⟨hkey, rfl⟩ | ⟨-, hfound⟩
    · exact h.active (hkey ▸ hrow) (hchange.flight hflight) (hchange.instanceId ▸ hi) hholds
    · exact h.active hfound hflight hi hholds

end

def FreshInstance (d : FleetStores) (i : String) : Prop :=
  ∀ {key row}, d.spawns.findCommand key = some row → row.instanceId ≠ some i

theorem FreshInstance.not_holds {l : String} (hfresh : FreshInstance d i) (h : Sound env d) :
    ¬ Holds d.links i l := by
  rintro ⟨_, hlink, -⟩
  obtain ⟨_, _, hrow, hi⟩ := h.spawned hlink
  exact hfresh hrow hi

section

variable (hfree : d.spawns.findCommand key = none) (hfresh : FreshInstance d i)
  (hi : row.instanceId = some i)
  (hafter : spawns.findCommand = update d.spawns.findCommand key (some row))

include hfree hafter

theorem findCommand_insert
    (hfound : d.spawns.findCommand key' = some found) : spawns.findCommand key' = some found := by
  rw [hafter, update_of_ne, hfound]
  rintro rfl
  rw [hfree] at hfound
  cases hfound

include hfresh hi

theorem Sound.insert {bytes : Bytes} (h : Sound env d) (hsettled : Settled row)
    (hlive : ¬ Dead row) (hbytes : remotePlacementFromCanonical env.toSpawnCodec bytes = .ok none)
    (hcanon : spawns.canon = update d.spawns.canon key (some bytes)) :
    Sound env { d with spawns } where
  released := by
    intro key' found j l hfound hdead hj
    rcases findCommand_change hafter hfound with ⟨-, rfl⟩ | ⟨-, hfound⟩
    · exact absurd hdead hlive
    · exact h.released hfound hdead hj
  spawned := by
    intro j _ hlink
    obtain ⟨key', found, hfound, hj⟩ := h.spawned hlink
    exact ⟨key', found, findCommand_insert hfree hafter hfound, hj⟩
  known := by
    intro name entry hentry
    obtain ⟨found, hfound⟩ := h.known hentry
    exact ⟨found, findCommand_insert hfree hafter hfound⟩
  linked := by
    intro name entry found j l hentry hfound hgeneration hj hholds
    rcases findCommand_change hafter hfound with ⟨_, rfl⟩ | ⟨-, hfound⟩
    · cases hi.symm.trans hj
      exact absurd hholds (hfresh.not_holds h)
    · exact h.linked hentry hfound hgeneration hj hholds
  onHost := by
    intro key' found hfound
    rw [hcanon]
    rcases findCommand_change hafter hfound with ⟨rfl, -⟩ | ⟨hkey, hfound⟩
    · exact ⟨bytes, update_self .., hbytes⟩
    · rw [update_of_ne hkey]
      exact h.onHost hfound
  settled := by
    intro key' found hfound
    rcases findCommand_change hafter hfound with ⟨-, rfl⟩ | ⟨-, hfound⟩
    · exact hsettled
    · exact h.settled hfound

theorem Tracks.insert (h : Tracks env pending d inner) (hsound : Sound env d) :
    Tracks env pending { d with spawns } inner where
  backed := by
    intro c active hactive
    have hbacked := h.backed hactive
    obtain ⟨found, hfound, hstored⟩ := hbacked.stored
    exact ⟨hbacked.commandId, ⟨found, findCommand_insert hfree hafter hfound, hstored⟩,
      hbacked.onHost, hbacked.linked, hbacked.owned⟩
  active := by
    intro c found _ _ hfound hflight hj hholds
    rcases findCommand_change hafter hfound with ⟨-, rfl⟩ | ⟨-, hfound⟩
    · cases hi.symm.trans hj
      exact absurd hholds (hfresh.not_holds hsound)
    · exact h.active hfound hflight hj hholds

end

/-! ## Changes of the memory -/

variable {inner' : FleetInner}

theorem Tracks.of_active (h : Tracks env pending d inner)
    (hsame : inner'.activeByCommand = inner.activeByCommand) : Tracks env pending d inner' := by
  constructor <;> rw [hsame]
  · exact h.backed
  · exact h.active

/-- A pending launch is dealt with when it takes no slot. -/
theorem Tracks.settle (h : Tracks env (c :: pending) d inner)
    (hfree : ∀ {row i l}, d.spawns.findCommand (commandKey env c) = some row →
      row.state.isTerminal = false → row.instanceId = some i → ¬ Holds d.links i l) :
    Tracks env pending d inner := by
  refine ⟨h.backed, ?_⟩
  intro _ row i l hrow hflight hi hholds
  rcases h.active hrow hflight hi hholds with hactive | hpending
  · exact .inl hactive
  · rcases List.mem_cons.mp hpending with rfl | hpending
    · exact absurd hholds (hfree hrow hflight hi)
    · exact .inr hpending

/-- A pending launch is dealt with when it becomes active. -/
theorem Tracks.insert_active (h : Tracks env (c :: pending) d inner)
    (hbacked : Backed env d c active)
    (hinsert : inner'.activeByCommand = inner.activeByCommand.insert c active) :
    Tracks env pending d inner' := by
  constructor <;> rw [hinsert]
  · intro c' _ hactive'
    rcases lookup_insert_cases hactive' with ⟨rfl, rfl⟩ | ⟨-, hactive'⟩
    · exact hbacked
    · exact h.backed hactive'
  intro c' _ _ _ hrow hflight hi hholds
  by_cases hc : c' = c
  · subst hc
    exact .inl (by simp)
  · rw [AList.lookup_insert_ne hc]
    refine (h.active hrow hflight hi hholds).imp_right fun hpending => ?_
    exact (List.mem_cons.mp hpending).resolve_left hc

theorem Tracks.weaken (h : Tracks env pending d inner) : Tracks env (c :: pending) d inner :=
  ⟨h.backed, fun hrow hflight hi hholds =>
    (h.active hrow hflight hi hholds).imp_right (List.mem_cons_of_mem c)⟩

/-- A launch whose row is no longer in flight can be forgotten. -/
theorem Tracks.erase_active (h : Tracks env pending d inner)
    (hdone : ∀ {row}, d.spawns.findCommand (commandKey env c) = some row →
      row.state.isTerminal = true)
    (herase : inner'.activeByCommand = inner.activeByCommand.erase c) :
    Tracks env pending d inner' := by
  constructor <;> rw [herase]
  · exact fun hactive => h.backed (lookup_erase_cases hactive).2
  intro c' row _ _ hrow hflight hi hholds
  by_cases hc : c' = c
  · subst hc
    rw [hdone hrow] at hflight
    cases hflight
  · rw [AList.lookup_erase_ne hc]
    exact h.active hrow hflight hi hholds

end Bridget.Fleet
