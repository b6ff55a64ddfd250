import Bridget.Fleet.Ownership
import Bridget.Foundation.Forest
import Bridget.Foundation.Run

/-!
# The ownership graph

Every operation on links spawns a fresh child, moves one child under another parent, or
leaves parents and paths alone. The graph of owned children stays free of cycles as long as
the path that is read for a new parent names the moved instance whenever that instance really
lies above it. Paths of descendants are not rewritten by a transfer, so this can fail.
-/

namespace Bridget.Fleet

open Foundation Idempotency Relation LinkStore Function Option

/-- A link that keeps its place; it can only stop owning its child. -/
structure StaysInPlace (row row' : AgentLinkRecord) : Prop where
  linkId : row'.linkId = row.linkId
  child : row'.childInstanceId = row.childInstanceId
  parent : row'.parentInstanceId = row.parentInstanceId
  path : row'.agentPath = row.agentPath
  project : row'.project = row.project
  owns : row'.state.ownsChild = true → row.state.ownsChild = true

theorem StaysInPlace.refl (row : AgentLinkRecord) : StaysInPlace row row :=
  ⟨rfl, rfl, rfl, rfl, rfl, id⟩

inductive LinkEffect (s : LinkStore) : LinkOp → LinkStore → Prop
  | spawned {linkId childInstanceId : String} {ownership : SpawnOwnership}
      {project : Option ProjectReference} {now : Int} {s' : LinkStore} (link : AgentLinkRecord)
      (hparent : link.parentInstanceId = ownership.parentInstanceId)
      (hpath : link.agentPath = s.pathText ownership.parentInstanceId ++ "/" ++ childInstanceId)
      (howns : link.state.ownsChild = true)
      (hchild : link.childInstanceId = childInstanceId) (hreadable : link.Readable)
      (hfree : s.findChild childInstanceId = none)
      (hfind : s'.findChild = update s.findChild childInstanceId (some link)) :
      LinkEffect s (.spawn linkId childInstanceId ownership project now) s'
  | moved {linkId newParentInstanceId : String} {now : Int} {s' : LinkStore}
      (current link : AgentLinkRecord) (hcurrent : s.findId linkId = some current)
      (hopen : current.state ≠ .closed)
      (hself : newParentInstanceId ≠ current.childInstanceId)
      (hunnamed : current.childInstanceId ∉ split '/' (s.pathText newParentInstanceId))
      (hparent : link.parentInstanceId = newParentInstanceId)
      (hpath : link.agentPath = s.pathText newParentInstanceId ++ "/" ++ current.childInstanceId)
      (howns : link.state.ownsChild = true)
      (hchild : link.childInstanceId = current.childInstanceId)
      (hproject : link.project = current.project)
      (hfind : s'.findChild = update s.findChild current.childInstanceId (some link)) :
      LinkEffect s (.transfer linkId newParentInstanceId now) s'
  | inPlace {op : LinkOp} {s' : LinkStore}
      (hstays : ∀ x, Rel StaysInPlace (s.findChild x) (s'.findChild x)) :
      LinkEffect s op s'

variable {s s' : LinkStore} {op : LinkOp} {linkId x : String} {allowed : List AgentLinkState}
  {next : AgentLinkState} {updated : AgentLinkRecord}

theorem LinkEffect.same (s : LinkStore) (op : LinkOp) : LinkEffect s op s := by
  refine .inPlace fun x => ?_
  cases s.findChild x with
  | none => exact .none
  | some row => exact .some (.refl row)

/-- A change of state that does not give a child back to its parent. -/
theorem transitionAgentLink_inPlace {now : Int}
    (hallowed : next.ownsChild = true → ∀ state ∈ allowed, state.ownsChild = true)
    (h : s.transitionAgentLink linkId allowed next now = .ok (updated, s')) (x : String) :
    Rel StaysInPlace (s.findChild x) (s'.findChild x) := by
  simp only [transitionAgentLink, bind_eq_ok] at h
  obtain ⟨current, hcurrent, h⟩ := h
  obtain ⟨hmem, -⟩ := findId_eq_some.mp (currentLink_eq_ok hcurrent)
  split at h
  · cases h
    cases s.findChild x with
    | none => exact .none
    | some row => exact .some (.refl row)
  simp only [ok_iff] at h
  obtain ⟨-, hstate, hrewrite⟩ := h
  rw [rewriteLink_spec hmem hrewrite fun _ => rfl]
  by_cases hx : x = current.childInstanceId
  · subst hx
    rw [findChild_of_mem hmem, update_self]
    exact .some ⟨rfl, rfl, rfl, rfl, rfl, fun howns => hallowed howns _ hstate⟩
  · rw [update_of_ne hx]
    cases s.findChild x with
    | none => exact .none
    | some row => exact .some (.refl row)

theorem transitionAgentLink_state {now : Int}
    (h : s.transitionAgentLink linkId allowed next now = .ok (updated, s')) {row : AgentLinkRecord}
    (hrow : s'.findChild x = some row) (hid : row.linkId = linkId) : row.state = next := by
  simp only [transitionAgentLink, bind_eq_ok] at h
  obtain ⟨current, hcurrent, h⟩ := h
  obtain ⟨hmem, hcurrentId⟩ := findId_eq_some.mp (currentLink_eq_ok hcurrent)
  have hsame : ∀ row ∈ s.links, row.linkId = linkId → row = current := fun row hrow hid =>
    Table.eq_of_conflicts hrow hmem (.inl (hid.trans hcurrentId.symm))
  split at h
  next hstate =>
    cases h
    rw [hsame row (findChild_eq_some.mp hrow).1 hid, hstate]
  simp only [ok_iff] at h
  obtain ⟨-, -, hrewrite⟩ := h
  rw [rewriteLink_spec hmem hrewrite fun _ => rfl] at hrow
  by_cases hx : x = current.childInstanceId
  · subst hx
    rw [update_self] at hrow
    cases hrow
    rfl
  · rw [update_of_ne hx] at hrow
    obtain ⟨hrowMem, hchild⟩ := findChild_eq_some.mp hrow
    exact absurd (hchild ▸ congrArg AgentLinkRecord.childInstanceId (hsame row hrowMem hid)) hx

theorem agentPathContains_eq_false {path instanceId : String} :
    agentPathContains path instanceId = false ↔ instanceId ∉ split '/' path := by
  rw [agentPathContains, List.any_eq_false]
  simp only [test_iff]
  constructor
  · intro h hmem
    exact h _ hmem rfl
  · rintro h _ hmem rfl
    exact h hmem

theorem execLink_effect (h : execLink s op = .ok s') : LinkEffect s op s' := by
  cases op with
  | spawn =>
    simp only [execLink, validateOwnership, reserveAgentLink, ok_iff, pair_iff, store_eq_ok] at h
    obtain ⟨-, ⟨-, -, hproject⟩, link, _,
      ⟨children, -, -, -, path, hpath, -, -, created, hcreate, rfl, rfl⟩, rfl⟩ := h
    rcases createAgentLink_spec hcreate with rfl | ⟨hfree, hfind⟩
    · exact .same _ _
    · refine .spawned _ rfl ?_ rfl rfl ?_ hfree hfind
      · rw [pathOf_eq_ok hpath]
      · intro p hp
        exact ⟨(hproject p hp).1, Nat.pos_of_ne_zero (hproject p hp).2⟩
  | transfer =>
    obtain ⟨_, h⟩ := map_snd_eq_ok.mp h
    simp only [transferAgentLink, LinkStore.transferAgentLink, ok_iff, store_eq_ok] at h
    obtain ⟨_, hfound, current, rfl, path, hpath, -, ⟨hself, hcontains⟩, -, -, current', hcurrent,
      -, hopen, hrewrite⟩ := h
    have hid := (readOptional_eq_ok hfound).symm
    cases hid.symm.trans (currentLink_eq_ok hcurrent)
    obtain ⟨hmem, -⟩ := findId_eq_some.mp hid
    obtain rfl := pathOf_eq_ok hpath
    have hfind := rewriteLink_spec hmem hrewrite fun _ => rfl
    refine .moved current _ hid hopen hself (agentPathContains_eq_false.mp hcontains) ?_ ?_ ?_ ?_
      ?_ hfind <;> rfl
  | orphan =>
    obtain ⟨_, h⟩ := map_snd_eq_ok.mp h
    refine .inPlace fun x => ?_
    rw [orphanAgentLinksForParent_spec (store_eq_ok.mp h) x]
    cases s.findChild x with
    | none => exact .none
    | some row =>
      refine .some ?_
      dsimp only
      split
      next hselected => exact ⟨rfl, rfl, rfl, rfl, rfl, fun _ => hselected.2⟩
      · exact .refl row
  | connect | close =>
    obtain ⟨_, h⟩ := map_snd_eq_ok.mp h
    exact .inPlace (transitionAgentLink_inPlace (by decide) (store_eq_ok.mp h))

theorem stepLink_effect (s : LinkStore) (op : LinkOp) : LinkEffect s op (stepLink s op) := by
  unfold stepLink
  split
  next h => exact execLink_effect h
  · exact .same s op

def owner (s : LinkStore) (x : String) : Option String :=
  (s.findChild x).bind fun link => if link.state.ownsChild then some link.parentInstanceId else none

/-- A link in force makes `x` a child of `y`. -/
def OwnedBy (s : LinkStore) (x y : String) : Prop :=
  ∃ link ∈ s.links, link.state.ownsChild = true ∧ link.childInstanceId = x ∧
    link.parentInstanceId = y

instance (s : LinkStore) : DecidableRel (OwnedBy s) :=
  fun _ _ => inferInstanceAs (Decidable (∃ link ∈ s.links.rows, _ ∧ _ ∧ _))

theorem up_owner (s : LinkStore) : Up (owner s) = OwnedBy s := by
  ext x y
  simp only [Up, owner, bind_eq_some_iff, findChild_eq_some, OwnedBy,
    ite_none_right_eq_some, some.injEq]
  constructor
  · rintro ⟨link, ⟨hmem, hchild⟩, howns, hparent⟩
    exact ⟨link, hmem, howns, hchild, hparent⟩
  · rintro ⟨link, hmem, howns, hchild, hparent⟩
    exact ⟨link, ⟨hmem, hchild⟩, howns, hparent⟩

/-- A link put in the place of a child's link becomes its only way up. -/
theorem owner_update {link : AgentLinkRecord}
    (hfind : s'.findChild = update s.findChild x (some link))
    (howns : link.state.ownsChild = true) :
    owner s' = update (owner s) x (some link.parentInstanceId) := by
  funext y
  by_cases hy : y = x
  · subst hy
    rw [owner, hfind, update_self, update_self]
    simp [howns]
  · rw [owner, hfind, update_of_ne hy, update_of_ne hy, owner]

theorem owner_inPlace (hstays : ∀ x, Rel StaysInPlace (s.findChild x) (s'.findChild x))
    (x : String) : owner s' x = owner s x ∨ owner s' x = none := by
  have hx := hstays x
  unfold owner
  generalize s.findChild x = found at hx ⊢
  generalize s'.findChild x = found' at hx ⊢
  cases hx with
  | none => exact .inl rfl
  | @some _ row' hrow =>
    by_cases howns : row'.state.ownsChild = true
    · simp [howns, hrow.owns howns, hrow.parent]
    · simp [howns]

/-- A spawned child has a name without separator that no link mentions yet. -/
def LinkOp.Fresh (s : LinkStore) : LinkOp → Prop
  | .spawn _ childInstanceId ownership _ _ =>
    '/' ∉ childInstanceId.toList ∧ childInstanceId ≠ ownership.parentInstanceId ∧
      ∀ link ∈ s.links, link.childInstanceId ≠ childInstanceId ∧
        link.parentInstanceId ≠ childInstanceId
  | _ => True

instance (s : LinkStore) : DecidablePred (LinkOp.Fresh s)
  | .spawn .. => inferInstanceAs (Decidable (_ ∧ _ ∧ ∀ link ∈ s.links.rows, _ ∧ _))
  | .transfer .. | .orphan .. | .connect .. | .close .. => .isTrue trivial

/-- The path stored for the new parent names the moved instance if that one lies above it. -/
def LinkOp.Sighted (s : LinkStore) : LinkOp → Prop
  | .transfer linkId newParentInstanceId _ =>
    ∀ link, s.findId linkId = some link →
      ReflTransGen (OwnedBy s) newParentInstanceId link.childInstanceId →
      newParentInstanceId = link.childInstanceId ∨
        link.childInstanceId ∈ split '/' (s.pathText newParentInstanceId)
  | _ => True

/-- A transfer of an instance that owns no child is sighted, whatever the paths say. -/
theorem LinkOp.sighted_of_leaf {newParentInstanceId : String} {now : Int}
    (hleaf : ∀ link ∈ s.findId linkId, ∀ x, ¬ OwnedBy s x link.childInstanceId) :
    (LinkOp.transfer linkId newParentInstanceId now).Sighted s := by
  intro link hlink habove
  rcases habove.cases_tail with heq | ⟨x, -, howned⟩
  · exact .inl heq.symm
  · exact absurd howned (hleaf link hlink x)

theorem acyclic_stepLink (h : Acyclic (owner s)) (hfresh : op.Fresh s) (hsighted : op.Sighted s) :
    Acyclic (owner (stepLink s op)) := by
  cases stepLink_effect s op with
  | spawned link hparent _ howns _ _ _ hfind =>
    rw [owner_update hfind howns, hparent, h.hang_iff, up_owner]
    intro hbelow
    rcases hbelow.cases_tail with heq | ⟨_, -, link, hmem, -, -, hparent'⟩
    · exact hfresh.2.1 heq
    · exact (hfresh.2.2 link hmem).2 hparent'
  | moved current _ hcurrent _ hself hunnamed hparent _ howns _ _ hfind =>
    rw [owner_update hfind howns, hparent, h.hang_iff, up_owner]
    intro hbelow
    rcases hsighted current hcurrent hbelow with heq | hnamed
    · exact hself heq
    · exact hunnamed hnamed
  | inPlace hstays => exact h.cut (owner_inPlace hstays)

/-- In every run whose transfers are sighted, no instance lies above itself. -/
theorem ownership_acyclic_in_sighted_runs {ops : List LinkOp}
    (hrun : Run stepLink (fun s op => op.Fresh s ∧ op.Sighted s) LinkStore.init ops s)
    (x : String) : ¬ TransGen (OwnedBy s) x x := by
  have hacyclic : Acyclic (owner s) := Run.invariant (fun s => Acyclic (owner s)) hrun
      (fun _ _ h hop => acyclic_stepLink h hop.1 hop.2) acyclic_none
  rw [← up_owner]
  exact hacyclic x

def sampleOwnership (parentInstanceId : String) : SpawnOwnership :=
  ⟨parentInstanceId, none, none, none, none, "dev", none, none⟩

def plantedOps : List LinkOp :=
  [.spawn "l1" "c" (sampleOwnership "x") none 1, .spawn "l2" "d" (sampleOwnership "c") none 2,
    .spawn "l3" "b" (sampleOwnership "y") none 3]

/-- The first transfer is refused, since the path of `d` names `c`; the second one moves `d`. -/
def sightedOps : List LinkOp := plantedOps ++ [.transfer "l1" "d" 4, .transfer "l2" "y" 5]

/-- `c` moves under `b`, which leaves the path of `d` as it was, and then `b` moves under `d`. -/
def blindOps : List LinkOp := plantedOps ++ [.transfer "l1" "b" 4, .transfer "l3" "d" 5]

/-- A transfer to a parent that is in sight. -/
theorem sighted_run_acyclic :
    OwnedBy (sightedOps.foldl stepLink LinkStore.init) "d" "y" ∧
      ¬ TransGen (OwnedBy (sightedOps.foldl stepLink LinkStore.init)) "d" "d" := by
  obtain ⟨s, hrun⟩ : ∃ s, Run stepLink (fun s op => op.Fresh s ∧ op.Sighted s) init
      sightedOps s := by
    refine ⟨_, .cons ⟨by decide, trivial⟩ (.cons ⟨by decide, trivial⟩ (.cons ⟨by decide, trivial⟩
      (.cons ⟨trivial, ?_⟩ (.cons ⟨trivial, ?_⟩ (.nil _)))))⟩
    · rintro _ hlink -
      obtain ⟨_, rfl⟩ := hlink
      exact .inr (by decide)
    apply LinkOp.sighted_of_leaf
    rintro _ hlink x ⟨row, hmem, -, -, hparent⟩
    obtain ⟨_, rfl⟩ := hlink
    revert row
    decide
  obtain rfl := hrun.eq_foldl
  exact ⟨by decide, ownership_acyclic_in_sighted_runs hrun "d"⟩

/-- A transfer onto a parent that no open link shows closes a cycle. -/
theorem blind_transfer_closes_cycle :
    ∃ s, Run stepLink (fun s op => op.Fresh s) LinkStore.init blindOps s ∧
      TransGen (OwnedBy s) "b" "b" := by
  obtain ⟨s, hrun⟩ : ∃ s, Run stepLink (fun s op => op.Fresh s) init blindOps s :=
    ⟨_, .cons (by decide) (.cons (by decide) (.cons (by decide) (.cons trivial (.cons trivial
      (.nil _)))))⟩
  obtain rfl := hrun.eq_foldl
  have hbd : OwnedBy (blindOps.foldl stepLink init) "b" "d" := by decide
  have hdc : OwnedBy (blindOps.foldl stepLink init) "d" "c" := by decide
  have hcb : OwnedBy (blindOps.foldl stepLink init) "c" "b" := by decide
  exact ⟨_, hrun, .head hbd (.head hdc (.single hcb))⟩

end Bridget.Fleet
