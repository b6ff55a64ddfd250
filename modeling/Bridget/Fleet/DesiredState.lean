import Bridget.Core.Message
import Bridget.Foundation.Text
import Bridget.Idempotency.SpawnCommands

/-!
# Desired state

The file that names the agents whose life the daemon owns, with the launch each of them
comes from. The file is written as a whole, and only when every entry in it is complete.
-/

namespace Bridget.Fleet

open Foundation Idempotency

inductive DesiredLifecycleState where
  | running | stopped | decommissioned
  deriving DecidableEq

structure DesiredAgentLink where
  (linkId parentInstanceId : String)
  (parentExecutionId objectiveId delegationId : Option String)
  project : Option ProjectReference
  (role agentPath : String)
  deriving DecidableEq

structure DesiredEquipier where
  (agentType cwd commandId : String)
  generation : Nat
  created : Int
  persistent : Bool
  lifecycleState : DesiredLifecycleState
  resolvedDefinition : Option ResolvedAgentDefinition
  project : Option ProjectReference
  agentLink : Option DesiredAgentLink
  remotePlacement : Option RemotePlacement
  deriving DecidableEq

abbrev DesiredFleet := AList fun _ : String => DesiredEquipier

inductive DesiredStateError where
  | invalidEntry (name reason : String)
  deriving DecidableEq

/-- `Path::is_absolute`. -/
def DesiredAgentLink.incomplete (link : DesiredAgentLink) : Bool :=
  isBlank link.linkId || isBlank link.parentInstanceId || isBlank link.role ||
    isBlank link.agentPath

def entryFault (codec : SpawnCodec) (name : String) (equipier : DesiredEquipier) : Option String :=
  if isBlank name then some "nom vide"
  else if isBlank equipier.agentType then some "type vide"
  else if !isAbsolute equipier.cwd then some "cwd non absolu"
  else if isBlank equipier.commandId then some "command_id vide"
  else if equipier.generation = 0 then some "génération nulle"
  else if equipier.remotePlacement.any fun placement =>
      !codec.validPlacement placement || equipier.cwd != placement.executionCwd then
    some "placement distant invalide"
  else if equipier.agentLink.any DesiredAgentLink.incomplete then some "lien agent incomplet"
  else none

def validateFleet (codec : SpawnCodec) (fleet : DesiredFleet) : Except DesiredStateError Unit :=
  match fleet.entries.findSome? fun entry =>
      (entryFault codec entry.1 entry.2).map fun reason => (entry.1, reason) with
  | some (name, reason) => .error (.invalidEntry name reason)
  | none => .ok ()

namespace DesiredFleet

variable (codec : SpawnCodec) (fleet : DesiredFleet)

def load : Except DesiredStateError DesiredFleet := do
  validateFleet codec fleet
  return fleet

def persist : Except DesiredStateError DesiredFleet := do
  validateFleet codec fleet
  return fleet

def upsert (name : String) (equipier : DesiredEquipier) :
    Except DesiredStateError DesiredFleet := do
  let fleet ← load codec fleet
  persist codec (fleet.insert name equipier)

def setLifecycleState (name : String) (lifecycleState : DesiredLifecycleState) :
    Except DesiredStateError DesiredFleet := do
  let fleet ← load codec fleet
  whenSome (fleet.lookup name) fleet fun entry =>
    if entry.lifecycleState ≠ lifecycleState then
      persist codec (fleet.insert name { entry with lifecycleState })
    else .ok fleet

def markStoppedIfGeneration (name commandId : String) (generation : Nat) :
    Except DesiredStateError (Bool × DesiredFleet) := do
  let fleet ← load codec fleet
  whenSome (fleet.lookup name) (false, fleet) fun entry =>
    if entry.commandId ≠ commandId ∨ entry.generation ≠ generation ∨
        entry.lifecycleState = .decommissioned then
      .ok (false, fleet)
    else if entry.lifecycleState ≠ .stopped then do
      let fleet ← persist codec (fleet.insert name { entry with lifecycleState := .stopped })
      return (true, fleet)
    else .ok (true, fleet)

def stopNonPersistent (equipier : DesiredEquipier) : DesiredEquipier :=
  if equipier.persistent = false ∧ equipier.remotePlacement = none ∧
      equipier.lifecycleState = .running then
    { equipier with lifecycleState := .stopped }
  else equipier

def mapEntries (f : DesiredEquipier → DesiredEquipier) : DesiredFleet :=
  ⟨fleet.entries.map (Sigma.map id fun _ => f), fleet.nodupKeys.map₂ (fun _ => f) fleet.entries⟩

def stopNonPersistentRunning : Except DesiredStateError DesiredFleet := do
  let fleet ← load codec fleet
  let stopped := mapEntries fleet stopNonPersistent
  if stopped.entries ≠ fleet.entries then persist codec stopped else .ok fleet

variable {codec : SpawnCodec} {fleet fleet' : DesiredFleet} {name : String}
  {lifecycleState : DesiredLifecycleState}

def OnlyLifecycle (fleet fleet' : DesiredFleet) : Prop :=
  ∀ name entry', fleet'.lookup name = some entry' → ∃ entry, fleet.lookup name = some entry ∧
    entry' = { entry with lifecycleState := entry'.lifecycleState }

theorem OnlyLifecycle.refl (fleet : DesiredFleet) : OnlyLifecycle fleet fleet :=
  fun _ entry hentry => ⟨entry, hentry, rfl⟩

@[simp] theorem load_eq_ok : load codec fleet = .ok fleet' ↔
    validateFleet codec fleet = .ok () ∧ fleet = fleet' := by
  simp only [load, ok_iff, Unique.exists_iff, PUnit.default_eq_unit]

@[simp] theorem persist_eq_ok : persist codec fleet = .ok fleet' ↔
    validateFleet codec fleet = .ok () ∧ fleet = fleet' :=
  load_eq_ok

theorem onlyLifecycle_insert {entry : DesiredEquipier} (hentry : fleet.lookup name = some entry) :
    OnlyLifecycle fleet (fleet.insert name { entry with lifecycleState }) := by
  intro name' entry' hentry'
  by_cases hname : name' = name
  · subst hname
    rw [AList.lookup_insert] at hentry'
    cases hentry'
    exact ⟨entry, hentry, rfl⟩
  · rw [AList.lookup_insert_ne hname] at hentry'
    exact ⟨entry', hentry', rfl⟩

theorem setLifecycleState_spec
    (h : setLifecycleState codec fleet name lifecycleState = .ok fleet') :
    OnlyLifecycle fleet fleet' := by
  simp only [setLifecycleState, bind_eq_ok, load_eq_ok] at h
  obtain ⟨_, ⟨-, rfl⟩, h⟩ := h
  cases hentry : fleet.lookup name with
  | none =>
    rw [hentry] at h
    cases h
    exact .refl fleet
  | some =>
    simp only [hentry, whenSome] at h
    split at h
    · obtain ⟨-, rfl⟩ := persist_eq_ok.mp h
      exact onlyLifecycle_insert hentry
    · cases h
      exact .refl fleet

theorem markStoppedIfGeneration_spec {commandId : String} {generation : Nat} {marked : Bool}
    (h : markStoppedIfGeneration codec fleet name commandId generation = .ok (marked, fleet')) :
    OnlyLifecycle fleet fleet' := by
  simp only [markStoppedIfGeneration, bind_eq_ok, load_eq_ok] at h
  obtain ⟨_, ⟨-, rfl⟩, h⟩ := h
  cases hentry : fleet.lookup name with
  | none =>
    rw [hentry] at h
    cases h
    exact .refl fleet
  | some =>
    simp only [hentry, whenSome] at h
    split at h
    · cases h
      exact .refl fleet
    split at h
    · simp only [ok_iff, persist_eq_ok, pair_iff] at h
      obtain ⟨_, ⟨-, rfl⟩, -, rfl⟩ := h
      exact onlyLifecycle_insert hentry
    · cases h
      exact .refl fleet

theorem lookup_mapEntries {f : DesiredEquipier → DesiredEquipier} (name : String) :
    (mapEntries fleet f).lookup name = (fleet.lookup name).map f :=
  List.dlookup_map₂ name

section

variable (h : stopNonPersistentRunning codec fleet = .ok fleet')

include h

theorem stopNonPersistentRunning_spec
    (name : String) : fleet'.lookup name = (fleet.lookup name).map stopNonPersistent := by
  simp only [stopNonPersistentRunning, bind_eq_ok, load_eq_ok] at h
  obtain ⟨_, ⟨-, rfl⟩, h⟩ := h
  split at h
  · obtain ⟨-, rfl⟩ := persist_eq_ok.mp h
    exact lookup_mapEntries name
  · cases h
    next hsame => rw [← lookup_mapEntries, AList.ext (not_not.mp hsame)]

theorem stopNonPersistentRunning_onlyLifecycle : OnlyLifecycle fleet fleet' := by
  intro _ _ hentry'
  rw [stopNonPersistentRunning_spec h] at hentry'
  obtain ⟨entry, hentry, rfl⟩ := Option.map_eq_some_iff.mp hentry'
  refine ⟨entry, hentry, ?_⟩
  unfold stopNonPersistent
  split <;> rfl

end

end DesiredFleet

end Bridget.Fleet
