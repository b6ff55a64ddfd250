import Bridget.Core.Message
import Bridget.Foundation.Like
import Bridget.Foundation.Text
import Bridget.Idempotency.Record

/-!
# Links between agents

A link says which instance owns another one. The link of a child keeps the path of its
ancestors as a text, which is written when the link is created or transferred. Every change
of a link is also recorded as an event.
-/

namespace Bridget.Idempotency

open Foundation Table Function

inductive AgentLinkState where
  | reserved | opened | transferred | closed | orphaned
  deriving DecidableEq

/-- The states in which the parent still owns the child. -/
def AgentLinkState.ownsChild : AgentLinkState → Bool
  | .reserved | .opened | .transferred => true
  | .closed | .orphaned => false

structure AgentLinkRecord where
  (linkId parentInstanceId childInstanceId : String)
  (parentExecutionId objectiveId delegationId : Option String)
  project : Option ProjectReference
  (role agentPath : String)
  state : AgentLinkState
  createdAt : Int
  closedAt : Option Int
  revision : Nat
  deriving DecidableEq

instance : UniqueKeys AgentLinkRecord where
  conflicts a b := a.linkId = b.linkId ∨ a.childInstanceId = b.childInstanceId

structure AgentLinkEvent where
  cursor : Nat
  (eventId linkId parentInstanceId childInstanceId : String)
  state : AgentLinkState
  observedAt : Int
  project : Option ProjectReference
  deriving DecidableEq

instance : UniqueKeys AgentLinkEvent where
  conflicts a b := a.cursor = b.cursor ∨ a.eventId = b.eventId

structure LinkStore where
  links : Table AgentLinkRecord
  events : Table AgentLinkEvent
  eventSequence : Nat

def LinkStore.init : LinkStore := ⟨.empty, .empty, 0⟩

def AgentLinkRecord.Readable (row : AgentLinkRecord) : Prop :=
  ∀ project ∈ row.project, isBlank project.projectId = false ∧ 0 < project.bindingGeneration
  deriving Decidable

def agentLinkFromRow (row : AgentLinkRecord) : Result AgentLinkRecord := do
  ensure row.Readable (.sqlite .conversion)
  return row

namespace LinkStore

variable (s : LinkStore)

def findChild (childInstanceId : String) : Option AgentLinkRecord :=
  s.links.find? fun link => link.childInstanceId = childInstanceId

def findId (linkId : String) : Option AgentLinkRecord :=
  s.links.find? fun link => link.linkId = linkId

/-- `query_row` with `optional`. -/
def readOptional (row : Option AgentLinkRecord) : Result (Option AgentLinkRecord) :=
  whenSome row none fun row => do
    let link ← agentLinkFromRow row
    return some link

def agentLinkForChild (childInstanceId : String) : Result (Option AgentLinkRecord) :=
  readOptional (s.findChild childInstanceId)

def agentLinkById (linkId : String) : Result (Option AgentLinkRecord) :=
  readOptional (s.findId linkId)

variable (link : AgentLinkRecord)

/-- An event keeps the first row under its name; the project must fit the database. -/
def recordAgentLinkEvent (observedAt : Int) : Result LinkStore := do
  whenSome link.project () fun project => do
    let _ ← sql (sqlCounter project.bindingGeneration)
    return ()
  let (events, inserted) := s.events.insertOrIgnore { link with
    cursor := s.eventSequence + 1
    eventId := link.linkId ++ ":" ++ toString link.revision
    observedAt := max observedAt link.createdAt }
  return { s with events, eventSequence := s.eventSequence + inserted }

def validNewLink : Prop :=
  isBlank link.linkId = false ∧ isBlank link.parentInstanceId = false ∧
    isBlank link.childInstanceId = false ∧ isBlank link.role = false ∧
    isBlank link.agentPath = false ∧ 0 < link.createdAt ∧ link.revision = 0 ∧
    link.state = .reserved ∧ link.closedAt = none
  deriving Decidable

/-- A child that is linked already keeps its link; giving the same link again is no error. -/
def createAgentLink (link : AgentLinkRecord) : Result LinkStore := do
  ensure (validNewLink link) .invalidAgentLink
  ensure (∀ project ∈ link.project, (project.bindingGeneration : Int) ≤ i64Max) .invalidAgentLink
  match s.findChild link.childInstanceId with
  | some existing => do
      let existing ← agentLinkFromRow existing
      ensure (existing = link) .agentLinkOwned
      return s
  | none => do
      let links ← sql (s.links.insert link)
      { s with links }.recordAgentLinkEvent link link.createdAt

def linkOrder (a b : AgentLinkRecord) : Prop :=
  a.createdAt < b.createdAt ∨ a.createdAt = b.createdAt ∧ a.linkId ≤ b.linkId
  deriving Decidable

variable (parentInstanceId : String)

def ownedLinks : List AgentLinkRecord :=
  s.links.select fun link => link.parentInstanceId = parentInstanceId ∧ link.state.ownsChild

def openAgentLinksForParent : Result (List AgentLinkRecord) :=
  ((s.ownedLinks parentInstanceId).insertionSort linkOrder).mapM agentLinkFromRow

def pathOf (instanceId : String) : Result String := do
  let link ← s.agentLinkForChild instanceId
  return (link.map AgentLinkRecord.agentPath).getD instanceId

/-- The children of an instance, counted by their parent, and its descendants, counted by
their paths. -/
def openAgentLinkDescendantCounts (instanceId : String) : Result (Nat × Nat) := do
  let direct := s.links.count fun link => link.parentInstanceId = instanceId ∧ link.state.ownsChild
  let path ← s.pathOf instanceId
  let descendants := s.links.count fun link =>
    like '\\' (escapeLike path ++ "/%") link.agentPath ∧ link.state.ownsChild
  return (direct, descendants)

def currentLink (linkId : String) : Result AgentLinkRecord := do
  let current ← s.agentLinkById linkId
  orError current (.corruptRecord "lien agent absent")

def rewriteLink (current : AgentLinkRecord) (change : AgentLinkRecord → AgentLinkRecord)
    (observedAt : Int) : Result (AgentLinkRecord × LinkStore) := do
  let (links, changed) ← sql (s.links.update
    (fun link => link.linkId = current.linkId ∧ link.revision = current.revision)
    (fun link => { change link with revision := link.revision + 1 }))
  ensure (changed = 1) .dispatchUnavailable
  let updated ← orError ({ s with links }.findId current.linkId) (.sqlite .noRows)
  let updated ← agentLinkFromRow updated
  let s ← { s with links }.recordAgentLinkEvent updated observedAt
  return (updated, s)

def transitionAgentLink (linkId : String) (allowed : List AgentLinkState)
    (next : AgentLinkState) (changedAt : Int) : Result (AgentLinkRecord × LinkStore) := do
  let current ← s.currentLink linkId
  if current.state = next then
    return (current, s)
  else
    ensure (current.state ∈ allowed) .invalidAgentLink
    let changedAt := max changedAt current.createdAt
    s.rewriteLink current
      (fun link => { link with
        state := next, closedAt := if next = .closed then some changedAt else none })
      changedAt

def orphanAgentLinksForParent (parentInstanceId : String) (observedAt : Int) :
    Result (Nat × LinkStore) := do
  let active ← (s.ownedLinks parentInstanceId).mapM agentLinkFromRow
  let (links, changed) ← sql (s.links.update
    (fun link => link.parentInstanceId = parentInstanceId ∧ link.state.ownsChild)
    (fun link => { link with state := .orphaned, revision := link.revision + 1 }))
  let s ← active.foldlM
    (fun s link => recordAgentLinkEvent s
      { link with state := .orphaned, revision := link.revision + 1, closedAt := none } observedAt)
    { s with links }
  return (changed, s)

def transferAgentLink (linkId parentInstanceId agentPath : String) (observedAt : Int) :
    Result (AgentLinkRecord × LinkStore) := do
  ensure (isBlank parentInstanceId = false ∧ isBlank agentPath = false) .invalidAgentLink
  let current ← s.currentLink linkId
  ensure (current.state ≠ .closed) .invalidAgentLink
  s.rewriteLink current
    (fun link => { link with
      parentInstanceId, agentPath, state := .transferred, closedAt := none })
    observedAt

variable {s s' : LinkStore} {link row current updated : AgentLinkRecord} {observedAt : Int}

theorem findChild_eq_some {childInstanceId : String} :
    s.findChild childInstanceId = some row ↔
      row ∈ s.links ∧ row.childInstanceId = childInstanceId := by
  rw [findChild, find?_eq_some (pinsKey_field ?_), decide_eq_true_iff]
  exact fun _ _ => .inr

theorem findChild_of_mem (h : row ∈ s.links) : s.findChild row.childInstanceId = some row :=
  findChild_eq_some.mpr ⟨h, rfl⟩

theorem findId_eq_some {linkId : String} :
    s.findId linkId = some row ↔ row ∈ s.links ∧ row.linkId = linkId := by
  rw [findId, find?_eq_some (pinsKey_field ?_), decide_eq_true_iff]
  exact fun _ _ => .inl

theorem findChild_congr (h : s'.links = s.links) : s'.findChild = s.findChild := by
  funext childInstanceId
  rw [findChild, findChild, h]

@[simp] theorem agentLinkFromRow_eq_ok :
    agentLinkFromRow row = .ok link ↔ row.Readable ∧ row = link := by
  simp only [agentLinkFromRow, ok_iff, exists_and_left, exists_const]

theorem readOptional_eq_ok {found read : Option AgentLinkRecord}
    (h : readOptional found = .ok read) : read = found := by
  cases found with
  | none =>
    cases h
    rfl
  | some =>
    simp only [readOptional, whenSome, ok_iff, agentLinkFromRow_eq_ok] at h
    obtain ⟨_, ⟨-, rfl⟩, rfl⟩ := h
    rfl

def pathText (s : LinkStore) (instanceId : String) : String :=
  ((s.findChild instanceId).map AgentLinkRecord.agentPath).getD instanceId

theorem pathOf_eq_ok {instanceId path : String} (h : s.pathOf instanceId = .ok path) :
    path = s.pathText instanceId := by
  simp only [pathOf, ok_iff] at h
  obtain ⟨_, hfound, rfl⟩ := h
  rw [readOptional_eq_ok hfound, pathText]

theorem pathOf_of_readable (h : ∀ link ∈ s.links, link.Readable) (instanceId : String) :
    s.pathOf instanceId = .ok (s.pathText instanceId) := by
  unfold pathOf agentLinkForChild pathText
  cases hfind : s.findChild instanceId with
  | none => rfl
  | some link =>
    have hread : agentLinkFromRow link = .ok link :=
      agentLinkFromRow_eq_ok.mpr ⟨h link (findChild_eq_some.mp hfind).1, rfl⟩
    simp [readOptional, whenSome, hread, ok_bind, pure, Except.pure]

theorem recordAgentLinkEvent_links (h : s.recordAgentLinkEvent link observedAt = .ok s') :
    s'.links = s.links := by
  simp only [recordAgentLinkEvent, ok_iff] at h
  obtain ⟨-, -, rfl⟩ := h
  rfl

theorem currentLink_eq_ok {linkId : String} (h : s.currentLink linkId = .ok current) :
    s.findId linkId = some current := by
  simp only [currentLink, ok_iff] at h
  obtain ⟨_, hfound, rfl⟩ := h
  exact (readOptional_eq_ok hfound).symm

theorem rewriteLink_spec {change : AgentLinkRecord → AgentLinkRecord} (hcurrent : current ∈ s.links)
    (h : s.rewriteLink current change observedAt = .ok (updated, s'))
    (hchange : ∀ link, (change link).childInstanceId = link.childInstanceId) :
    s'.findChild = update s.findChild current.childInstanceId
      (some { change current with revision := current.revision + 1 }) := by
  simp only [rewriteLink, ok_iff, pair_iff, sql_eq_ok, agentLinkFromRow_eq_ok] at h
  obtain ⟨links, _, hupdate, -, -, _, -, _, -, _, hrecord, -, rfl⟩ := h
  rw [findChild_congr (recordAgentLinkEvent_links hrecord)]
  funext childInstanceId
  have hfound : { s with links }.findChild childInstanceId = _ :=
    find?_update hupdate fun link => by simp [hchange]
  rw [hfound]
  change Option.map _ (s.findChild childInstanceId) = _
  by_cases hchild : childInstanceId = current.childInstanceId
  · subst hchild
    rw [findChild_of_mem hcurrent, update_self, Option.map_some, rewrite, if_pos (by simp)]
  rw [update_of_ne hchild]
  cases hrow : s.findChild childInstanceId with
  | none => rfl
  | some =>
    obtain ⟨hmem, rfl⟩ := findChild_eq_some.mp hrow
    rw [Option.map_some, rewrite, if_neg]
    intro hselected
    simp only [test_iff] at hselected
    have hsame := eq_of_conflicts hmem hcurrent (.inl hselected.1)
    exact hchild (congrArg AgentLinkRecord.childInstanceId hsame)

/-- A new link is the first one of its child, or the same link given again. -/
theorem createAgentLink_spec (h : s.createAgentLink link = .ok s') :
    s' = s ∨ s.findChild link.childInstanceId = none ∧
      s'.findChild = update s.findChild link.childInstanceId (some link) := by
  simp only [createAgentLink, ok_iff] at h
  obtain ⟨-, -, -, -, h⟩ := h
  split at h
  · simp only [ok_iff, agentLinkFromRow_eq_ok] at h
    obtain ⟨_, -, -, -, rfl⟩ := h
    exact .inl rfl
  rename_i hfree
  simp only [bind_eq_ok, sql_eq_ok] at h
  obtain ⟨links, hinsert, hrecord⟩ := h
  refine .inr ⟨hfree, ?_⟩
  rw [findChild_congr (recordAgentLinkEvent_links hrecord)]
  funext childInstanceId
  have hfound : { s with links }.findChild childInstanceId = _ := find?_insert hinsert
  rw [hfound]
  change (s.findChild childInstanceId).or _ = _
  by_cases hchild : childInstanceId = link.childInstanceId
  · subst hchild
    simp [hfree]
  · rw [update_of_ne hchild]
    simp [Ne.symm hchild]

/-- The links of the parent become orphans; the others stay. -/
theorem orphanAgentLinksForParent_spec {parentInstanceId : String} {n : Nat}
    (h : s.orphanAgentLinksForParent parentInstanceId observedAt = .ok (n, s'))
    (childInstanceId : String) :
    s'.findChild childInstanceId = (s.findChild childInstanceId).map fun link =>
      if link.parentInstanceId = parentInstanceId ∧ link.state.ownsChild = true then
        { link with state := .orphaned, revision := link.revision + 1 }
      else link := by
  simp only [orphanAgentLinksForParent, ok_iff, pair_iff, sql_eq_ok] at h
  obtain ⟨_, -, links, _, hupdate, recorded, hrecord, -, rfl⟩ := h
  have hlinks : recorded.links = links := by
    refine foldlM_invariant (fun s => s.links = links) ?_ rfl hrecord
    intro _ _ link _ hlinks hstep
    rw [recordAgentLinkEvent_links hstep, hlinks]
  rw [findChild, hlinks]
  refine (find?_update hupdate fun link => rfl).trans ?_
  congr 1
  funext link
  simp [rewrite]

end LinkStore

end Bridget.Idempotency
