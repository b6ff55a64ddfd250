import Bridget.Delegation.Runs

/-!
# The forest along runs

Every call keeps the forest: an insertion attaches the task by the lineage of its parent, a
save keeps the place of the task, and a purge takes whole trees.
-/

namespace Bridget.Delegation

open Foundation Relation List

namespace DelegationStore

variable {env : TaskEnvironment} {codec : MetadataCodec} {s s' : DelegationStore}
  {op : DelegationOp} {row row' : DelegationRow} {task : Task}

def Attaches (s : DelegationStore) (task : Task) : Prop :=
  task.parentTaskId = none ∨ ∃ parent, s.get parent.taskId = some parent ∧
    s.parentLineage parent = .ok (task.rootOwnerAgentId, task.parentTaskId)

def Places (s : DelegationStore) : DelegationOp → Prop
  | .insert task _ _ _ _ | .admitTask _ task _ _ _ _ _ => Attaches s task
  | .commitRemoteResult expected next _ _ _ _ => next.parentTaskId = expected.parentTaskId
  | _ => True

/-! ## Whole trees -/

/-- What a purge takes: whole trees, settled, each task leaving a tombstone. -/
structure TakesTrees (s : DelegationStore) (roots : List String) (s' : DelegationStore) :
    Prop where
  parentless : ∀ root ∈ roots, ∃ row, s.rowAt root = some row ∧ row.payload.parentTaskId = none
  settled : ∀ root ∈ roots, ∀ {id row}, s.rowAt id = some row →
    ReflTransGen (Up s.parentOf) id root → row.payload.settled = true
  removed : ∀ root ∈ roots, ∀ {id}, ReflTransGen (Up s.parentOf) id root → s'.rowAt id = none
  kept : ∀ {id}, (∀ root ∈ roots, ¬ ReflTransGen (Up s.parentOf) id root) → s'.rowAt id = s.rowAt id
  tombstones : ∀ root ∈ roots, ∀ {id row}, s.rowAt id = some row →
    ReflTransGen (Up s.parentOf) id root → s'.tombstoned row.key = true

def rootIds (trees : List (List Task)) : List String :=
  trees.filterMap fun tree => tree.head?.map Task.taskId

section

variable (h : Planted s) {gone trees : List (List Task)}

include h

theorem Planted.mem_rootIds {root : String}
    (htrees : s.settledTrees = .ok trees) (hgone : gone ⊆ trees) :
    root ∈ rootIds gone ↔ ∃ tree ∈ gone, ∃ row ∈ s.tasks, row.taskId = root ∧
      row.payload.parentTaskId = none ∧ s.treeOf row.payload = .ok tree := by
  simp only [rootIds, mem_filterMap, Option.map_eq_some_iff]
  constructor
  · rintro ⟨_, hmem, _, hfirst, rfl⟩
    obtain ⟨-, row, hrow, hparent, htreeOf⟩ := (mem_settledTrees htrees).mp (hgone hmem)
    obtain ⟨-, rfl⟩ := treeOf_eq_ok.mp htreeOf
    cases hfirst
    exact ⟨_, hmem, row, hrow, (h.named (rowAt_of_mem hrow)).symm, hparent, htreeOf⟩
  · rintro ⟨_, hmem, row, hrow, rfl, _, htreeOf⟩
    obtain ⟨-, rfl⟩ := treeOf_eq_ok.mp htreeOf
    exact ⟨_, hmem, row.payload, rfl, h.named (rowAt_of_mem hrow)⟩

theorem Planted.treeOf_stored {tree : List Task} (hrow : row ∈ s.tasks)
    (htree : s.treeOf row.payload = .ok tree) :
    ∀ t ∈ tree, ∃ r, s.rowAt t.taskId = some r ∧ r.payload = t := by
  obtain ⟨-, rfl⟩ := treeOf_eq_ok.mp htree
  intro t ht
  rcases mem_cons.mp ht with rfl | ht
  · exact ⟨row, by rw [h.named (rowAt_of_mem hrow), rowAt_of_mem hrow], rfl⟩
  · obtain ⟨r, hr, rfl⟩ := mem_map.mp ht
    have hmem := (h.mem_listBelow.mp hr).1
    exact ⟨r, by rw [h.named (rowAt_of_mem hmem), rowAt_of_mem hmem], rfl⟩

theorem Planted.takesTrees_of_purged (htrees : s.settledTrees = .ok trees) (hgone : gone ⊆ trees)
    (hpurged : Purged s gone s') : TakesTrees s (rootIds gone) s' := by
  have hroot : ∀ root, root ∈ rootIds gone ↔ _ := fun _ => h.mem_rootIds htrees hgone
  constructor
  · intro root hmem
    obtain ⟨-, -, row, hrow, rfl, hparent, -⟩ := (hroot root).mp hmem
    exact ⟨row, rowAt_of_mem hrow, hparent⟩
  · intro root hmem id found hfound hup
    obtain ⟨_, htreeMem, _, hrow, rfl, -, htreeOf⟩ := (hroot root).mp hmem
    have hsettled := ((mem_settledTrees htrees).mp (hgone htreeMem)).1
    have hid := (h.mem_treeOf hrow htreeOf).mpr ⟨by simp [hfound], hup⟩
    obtain ⟨member, hmember, hname⟩ := mem_map.mp hid
    obtain ⟨_, hr, rfl⟩ := h.treeOf_stored hrow htreeOf member hmember
    rw [hname, hfound] at hr
    cases hr
    exact all_eq_true.mp hsettled _ hmember
  · intro root hmem id hup
    obtain ⟨tree, htreeMem, _, hrow, rfl, -, htreeOf⟩ := (hroot root).mp hmem
    rw [hpurged.rowAt]
    by_cases hstored : (s.rowAt id).isSome
    · exact if_pos ⟨tree, htreeMem, (h.mem_treeOf hrow htreeOf).mpr ⟨hstored, hup⟩⟩
    · rw [Option.not_isSome_iff_eq_none.mp hstored, ite_self]
  · intro id hfree
    rw [hpurged.rowAt, if_neg]
    rintro ⟨tree, htreeMem, hid⟩
    obtain ⟨-, row, hrow, hparent, htreeOf⟩ := (mem_settledTrees htrees).mp (hgone htreeMem)
    refine hfree row.taskId ((hroot _).mpr ⟨tree, htreeMem, row, hrow, rfl, hparent, htreeOf⟩) ?_
    exact ((h.mem_treeOf hrow htreeOf).mp hid).2
  · intro root hmem id found hfound hup
    obtain ⟨tree, htreeMem, _, hrow, rfl, -, htreeOf⟩ := (hroot root).mp hmem
    have hid := (h.mem_treeOf hrow htreeOf).mpr ⟨by simp [hfound], hup⟩
    exact hpurged.tombstoned (.inr ⟨tree, htreeMem, id, hid, found, hfound, rfl⟩)

theorem Planted.takesTrees {request : PurgeRequest} {count : Nat}
    (hpurge : s.purgeTrees request = .ok (count, s')) : ∃ roots, TakesTrees s roots s' := by
  obtain ⟨_, gone, htrees, hgone, hpurged⟩ := purgeTrees_cases hpurge
  exact ⟨rootIds gone, h.takesTrees_of_purged htrees hgone hpurged⟩

open Classical in
theorem Planted.of_takesTrees {roots : List String}
    (htakes : TakesTrees s roots s') : Planted s' := by
  refine h.delete (fun id => ∃ root ∈ roots, ReflTransGen (Up s.parentOf) id root) ?_ ?_
  · intro id
    split
    next hgone =>
      obtain ⟨root, hroot, hup⟩ := hgone
      exact htakes.removed root hroot hup
    next hfree =>
      push Not at hfree
      exact htakes.kept hfree
  · rintro _ _ hp ⟨root, hroot, hup⟩
    exact ⟨root, hroot, .head hp hup⟩

theorem Planted.of_tasks (htasks : s'.tasks = s.tasks) : Planted s' := by
  have hrows : s'.rowAt = s.rowAt := by
    funext id
    rw [rowAt, htasks, ← rowAt]
  have hup : s'.parentOf = s.parentOf := by
    funext id
    rw [parentOf, hrows, ← parentOf]
  obtain ⟨hnamed, hhung, hshort⟩ := h
  rw [← hrows] at hnamed hhung hshort
  rw [← hup] at hhung hshort
  exact ⟨hnamed, hhung, hshort⟩

theorem Planted.attached (hplace : Attaches s task) :
    task.parentTaskId = none ∨ ∃ p ids, task.parentTaskId = some p ∧ (s.rowAt p).isSome ∧
      Lineage s.parentOf p ids ∧ ids.length ≤ 7 := by
  refine hplace.imp_right ?_
  rintro ⟨parent, hparent, hlineage⟩
  obtain ⟨-, hup, ids, hids, hlength⟩ := parentLineage_cases h hparent hlineage
  obtain ⟨_, hrow, -⟩ := get_eq_some.mp hparent
  exact ⟨parent.taskId, ids, hup, by simp [hrow], hids, hlength⟩

theorem Planted.apply (hplaces : Places s op)
    (happly : s.apply env codec op = .ok s') : Planted s' := by
  by_cases hwrites : op.writesTasks = false
  · exact h.of_tasks (ReceiptEffect.of_apply happly hwrites).tasks
  cases op <;> try exact absurd rfl hwrites
  case insert task _ _ _ _ =>
    obtain ⟨_, hinsert⟩ := map_snd_eq_ok.mp happly
    obtain ⟨rfl, hinserted⟩ := insertProjectedIn_cases hinsert
    have hplace := h.attached (show Attaches s task from hplaces)
    exact h.insert hinserted rfl hplace
  case save =>
    obtain ⟨_, hrow, -, -, -, hwritten⟩ := save_cases happly
    exact h.rewrite hwritten (h.named hrow).symm rfl
  case commitRemoteResult =>
    obtain ⟨_, _, _, rfl, hid, -, -, hwritten⟩ := commitRemoteResult_cases happly
    exact h.rewrite hwritten hid hplaces
  case beginRound =>
    obtain ⟨_, hbegin⟩ := map_snd_eq_ok.mp happly
    obtain ⟨_, rfl, hwritten⟩ := beginRound_cases hbegin
    exact h.rewrite hwritten rfl rfl
  case purgeTrees =>
    obtain ⟨_, hpurge⟩ := map_snd_eq_ok.mp happly
    obtain ⟨_, htakes⟩ := h.takesTrees hpurge
    exact h.of_takesTrees htakes
  case admitTask task _ _ _ _ _ =>
    obtain ⟨_, _, _, middle, -, -, -, rfl, -, -, -, hinserted, hwritten⟩ :=
      admitAutoTask_cases happly
    have hplace := h.attached (show Attaches s task from hplaces)
    have hmiddle : Planted middle := h.insert hinserted rfl hplace
    refine hmiddle.of_tasks ?_
    rw [hwritten.beside]

theorem Planted.step (hplaces : Places s op) : Planted (s.step env codec op) := by
  rcases step_cases env codec s op with happly | hsame
  · exact h.apply hplaces happly
  · rw [hsame]
    exact h

end

/-! ## Root owners -/

/-- Every task has a root owner, and shares it with its parent. -/
structure Rooted (s : DelegationStore) : Prop where
  owned : ∀ {id row}, s.rowAt id = some row → row.payload.rootOwnerAgentId ≠ ""
  shared : ∀ {id p row parent}, s.rowAt id = some row → row.payload.parentTaskId = some p →
    s.rowAt p = some parent → parent.payload.rootOwnerAgentId = row.payload.rootOwnerAgentId

/-- The calls of the lineage, with insertions that attach the task. -/
def Grows (s : DelegationStore) : DelegationOp → Prop
  | .insert task _ _ _ _ => Attaches s task
  | .save .. | .beginRound .. | .purgeTrees .. => True
  | _ => False

/-- A task that is inserted as a root has a root owner. -/
def NamesRoot : DelegationOp → Prop
  | .insert task _ _ _ _ => task.parentTaskId = none → task.rootOwner ≠ ""
  | _ => True

/-- The condition on the operations of a run. -/
def Plants (s : DelegationStore) (op : DelegationOp) : Prop := Grows s op ∧ NamesRoot op

theorem Grows.places (h : Grows s op) : Places s op := by
  cases op <;> try exact trivial
  case insert => exact h
  all_goals exact h.elim

theorem Rooted.init (generation : String) : Rooted (DelegationStore.init generation) := by
  constructor
  · intro id row hrow
    cases hrow
  · intro id _ row _ hrow
    cases hrow

theorem Rooted.rewrite (h : Rooted s) (hwrite : Rewritten s row row' s')
    (hroot : row'.payload.rootOwnerAgentId = row.payload.rootOwnerAgentId)
    (hparent : row'.payload.parentTaskId = row.payload.parentTaskId) : Rooted s' := by
  -- every row of the new store has an old one with the same place
  have hold : ∀ {id found}, s'.rowAt id = some found → ∃ old, s.rowAt id = some old ∧
      found.payload.rootOwnerAgentId = old.payload.rootOwnerAgentId ∧
      found.payload.parentTaskId = old.payload.parentTaskId := by
    intro id found hfound
    rcases update_some_cases (hwrite.rows ▸ hfound) with ⟨rfl, rfl⟩ | ⟨-, hfound⟩
    · exact ⟨row, hwrite.stored, hroot, hparent⟩
    · exact ⟨found, hfound, rfl, rfl⟩
  constructor
  · intro id found hfound
    obtain ⟨_, hold, hsame, -⟩ := hold hfound
    rw [hsame]
    exact h.owned hold
  intro id _ found _ hfound hp hparent
  obtain ⟨_, holdRow, hsame, hup⟩ := hold hfound
  obtain ⟨_, holdParent, hsameParent, -⟩ := hold hparent
  rw [hsame, hsameParent]
  exact h.shared holdRow (hup ▸ hp) holdParent

theorem Rooted.insert (h : Rooted s) (hplanted : Planted s) (hinsert : Inserted s row s')
    (howned : row.payload.rootOwnerAgentId ≠ "")
    (hshared : ∀ {p parent}, row.payload.parentTaskId = some p → s.rowAt p = some parent →
      parent.payload.rootOwnerAgentId = row.payload.rootOwnerAgentId)
    (hhung : ∀ {p}, row.payload.parentTaskId = some p → (s.rowAt p).isSome) : Rooted s' := by
  have hnew : ∀ {id found}, s'.rowAt id = some found →
      id = row.taskId ∧ found = row ∨ id ≠ row.taskId ∧ s.rowAt id = some found :=
    fun hfound => update_some_cases (hinsert.rows ▸ hfound)
  constructor
  · intro id found hfound
    rcases hnew hfound with ⟨-, rfl⟩ | ⟨-, hfound⟩
    · exact howned
    · exact h.owned hfound
  intro id p found parent hfound hp hparent
  -- the parent was stored before, under another id than the new task
  have hstored : (s.rowAt p).isSome := by
    rcases hnew hfound with ⟨-, rfl⟩ | ⟨-, hfound⟩
    · exact hhung hp
    · exact hplanted.hung (by rw [parentOf, hfound, Option.bind_some, hp])
  have hparentOld : s.rowAt p = some parent := by
    rcases hnew hparent with ⟨rfl, -⟩ | ⟨-, hparent⟩
    · simp [hinsert.free] at hstored
    · exact hparent
  rcases hnew hfound with ⟨-, rfl⟩ | ⟨-, hfound⟩
  · exact hshared hp hparentOld
  · exact h.shared hfound hp hparentOld

theorem TakesTrees.rows {roots : List String} {id : String} (h : TakesTrees s roots s')
    (hrow : s'.rowAt id = some row) : s.rowAt id = some row := by
  by_cases hgone : ∃ root ∈ roots, ReflTransGen (Up s.parentOf) id root
  · obtain ⟨root, hroot, hup⟩ := hgone
    rw [h.removed root hroot hup] at hrow
    cases hrow
  · push Not at hgone
    rwa [← h.kept hgone]

theorem Rooted.apply (h : Rooted s) (hplanted : Planted s) (hplants : Plants s op)
    (happly : s.apply env codec op = .ok s') : Rooted s' := by
  obtain ⟨hattached, howner⟩ := hplants
  cases op <;> try exact hattached.elim
  case insert task _ _ now _ =>
    obtain ⟨_, hinsert⟩ := map_snd_eq_ok.mp happly
    obtain ⟨rfl, hinserted⟩ := insertProjectedIn_cases hinsert
    rcases hattached with hnone | ⟨_, hparent, hlineage⟩
    · refine h.insert hplanted hinserted (howner hnone) ?_ ?_
      · intro p found hp
        exact absurd (hp.symm.trans hnone) (by simp)
      · intro p hp
        exact absurd (hp.symm.trans hnone) (by simp)
    obtain ⟨hroot, hup, -⟩ := parentLineage_cases hplanted hparent hlineage
    obtain ⟨prow, hprow, rfl⟩ := get_eq_some.mp hparent
    have hnonempty := h.owned hprow
    have hrootOwner : task.rootOwnerAgentId = prow.payload.rootOwnerAgentId := by
      rw [hroot, Task.rootOwner, if_neg hnonempty]
    have hinsertedRoot : (insertedTask env now task).rootOwnerAgentId =
        prow.payload.rootOwnerAgentId := by
      simp only [insertedTask]
      rw [hrootOwner, if_neg hnonempty]
    refine h.insert hplanted hinserted ?_ ?_ ?_
    · exact hinsertedRoot ▸ hnonempty
    · intro p found hp hfound
      cases hup.symm.trans hp
      rw [hprow] at hfound
      cases hfound
      exact hinsertedRoot.symm
    · intro p hp
      cases hup.symm.trans hp
      simp [hprow]
  case save =>
    obtain ⟨_, -, -, -, -, hwritten⟩ := save_cases happly
    exact h.rewrite hwritten rfl rfl
  case beginRound =>
    obtain ⟨_, hbegin⟩ := map_snd_eq_ok.mp happly
    obtain ⟨_, rfl, hwritten⟩ := beginRound_cases hbegin
    exact h.rewrite hwritten rfl rfl
  case purgeTrees =>
    obtain ⟨_, hpurge⟩ := map_snd_eq_ok.mp happly
    obtain ⟨_, htakes⟩ := hplanted.takesTrees hpurge
    constructor
    · intro id row hrow
      exact h.owned (htakes.rows hrow)
    · intro id _ row _ hrow hp hparent
      exact h.shared (htakes.rows hrow) hp (htakes.rows hparent)

/-- The delegation forest is well formed in every run whose insertions attach their task and
give every root a root owner: parents are stored under the same root owner, chains are short
and free of cycles, the list of descendants is exact with parents first, and a purge takes
whole settled trees. -/
theorem forest_well_formed {generation : String} {ops : List DelegationOp}
    (hrun : Run (step env codec) Plants (init generation) ops s) :
    (∀ id task p, s.get id = some task → task.parentTaskId = some p →
      ∃ parent, s.get p = some parent ∧ parent.rootOwner = task.rootOwner) ∧
    Acyclic s.parentOf ∧
    (∀ id task, s.get id = some task → ∃ ids, Lineage s.parentOf id ids ∧ ids.length ≤ 8) ∧
    (s.tasks.rows.length ≤ 4096 → ∀ id, ∃ tree, s.descendants id = .ok tree ∧
      (tree.map Task.taskId).Nodup ∧
      (∀ task, task ∈ tree ↔
        s.get task.taskId = some task ∧ TransGen (Up s.parentOf) task.taskId id) ∧
      tree.Pairwise fun a b => a.parentTaskId ≠ some b.taskId) ∧
    ∀ request count s', s.purgeTrees request = .ok (count, s') →
      (∃ roots, TakesTrees s roots s') ∧ ∀ id p, s'.parentOf id = some p → (s'.rowAt p).isSome := by
  obtain ⟨hplanted, hrooted⟩ : Planted s ∧ Rooted s := by
    refine hrun.invariant (fun s => Planted s ∧ Rooted s) ?_ ⟨.init _, .init _⟩
    rintro s op ⟨hplanted, hrooted⟩ hplants
    refine ⟨hplanted.step hplants.1.places, ?_⟩
    rcases step_cases env codec s op with happly | hsame
    · exact hrooted.apply hplanted hplants happly
    · rw [hsame]
      exact hrooted
  refine ⟨?_, ?_, ?_, ?_, ?_⟩
  · intro id task p htask hp
    obtain ⟨_, hrow, rfl⟩ := get_eq_some.mp htask
    obtain ⟨parent, hparent⟩ := Option.isSome_iff_exists.mp
      (hplanted.hung (show s.parentOf id = some p by rw [parentOf, hrow, Option.bind_some, hp]))
    refine ⟨parent.payload, get_eq_some.mpr ⟨parent, hparent, rfl⟩, ?_⟩
    rw [Task.rootOwner, Task.rootOwner, if_neg (hrooted.owned hparent), if_neg (hrooted.owned hrow)]
    exact hrooted.shared hrow hp hparent
  · intro id hcycle
    -- a task on a cycle has a parent, so it is stored and has a lineage
    obtain ⟨_, hp, -⟩ := TransGen.head'_iff.mp hcycle
    obtain ⟨_, hrow, -⟩ := stored_of_parentOf hp
    obtain ⟨_, hids, -⟩ := hplanted.short hrow
    exact hids.not_cycle hcycle
  · intro id task htask
    obtain ⟨_, hrow, -⟩ := get_eq_some.mp htask
    exact hplanted.short hrow
  · intro hsmall id
    have hnamed : ∀ row ∈ s.listBelow id, row.payload.taskId = row.taskId :=
      fun row hrow => hplanted.named (rowAt_of_mem (hplanted.mem_listBelow.mp hrow).1)
    refine ⟨_, descendants_eq_ok.mpr ⟨hplanted.listBelow_length.trans hsmall, rfl⟩, ?_, ?_, ?_⟩
    · rw [List.map_map, List.map_congr_left (f := Task.taskId ∘ DelegationRow.payload) hnamed]
      refine hplanted.listBelow_nodup.map_on fun a ha b hb heq => ?_
      exact eq_of_taskId (hplanted.mem_listBelow.mp ha).1 (hplanted.mem_listBelow.mp hb).1 heq
    · intro task
      rw [mem_map]
      constructor
      · rintro ⟨row, hrow, rfl⟩
        obtain ⟨hmem, hup⟩ := hplanted.mem_listBelow.mp hrow
        rw [hnamed row hrow]
        exact ⟨get_eq_some.mpr ⟨row, rowAt_of_mem hmem, rfl⟩, hup⟩
      · rintro ⟨htask, hup⟩
        obtain ⟨row, hrow, rfl⟩ := get_eq_some.mp htask
        obtain ⟨hmem, hid⟩ := rowAt_eq_some.mp hrow
        exact ⟨row, hplanted.mem_listBelow.mpr ⟨hmem, hid ▸ hup⟩, rfl⟩
    · refine pairwise_map.mpr (hplanted.listBelow_ordered.imp_of_mem ?_)
      intro a b _ hb _
      rwa [hnamed b hb]
  · intro request count s' hpurge
    obtain ⟨roots, htakes⟩ := hplanted.takesTrees hpurge
    exact ⟨⟨roots, htakes⟩, fun id p => (hplanted.of_takesTrees htakes).hung⟩

/-! ### A tree that grows and is purged -/

def plainEnvironment : TaskEnvironment := ⟨fun _ => false, fun _ => true, fun _ => true⟩

/-- It knows one JSON object, the empty one. -/
def plainCodec : MetadataCodec :=
  ⟨fun bytes => bytes = [0x7b, 0x7d], fun _ => none, fun _ _ => none⟩

def cancelledTask (taskId owner : String) : Task where
  taskId := taskId
  owner := owner
  ownerInstance := "instance-" ++ taskId
  request := .other
  protocol := "cli"
  cwd := "/src"
  child := "child-" ++ taskId
  mission := "mission-" ++ taskId
  createdAt := 0
  state := "cancelled"
  resultSent := false
  cleanupDone := true

def sampleRoot : Task := cancelledTask "root" "human"

def sampleChild : Task :=
  { cancelledTask "child" "child-root" with
    rootOwnerAgentId := "human", parentTaskId := some "root" }

def sampleGrowth : List DelegationOp :=
  [.insert sampleRoot "r1" [] 10 "g1", .insert sampleChild "r2" [] 10 "g1"]

def samplePurge : PurgeRequest := ⟨20, some 1, 8, fun _ => true, fun _ => "g2"⟩

def sampleGrown : DelegationStore :=
  sampleGrowth.foldl (step plainEnvironment plainCodec) (init "g0")

def samplePurged : DelegationStore :=
  sampleGrown.step plainEnvironment plainCodec (.purgeTrees samplePurge)

theorem sampleGrowth_run :
    Run (step plainEnvironment plainCodec) Plants (init "g0") sampleGrowth sampleGrown := by
  refine .cons ⟨.inl rfl, fun _ => by decide⟩ (.cons ⟨?_, nofun⟩ (.nil _))
  refine .inr ⟨insertedTask plainEnvironment 10 sampleRoot, ?_, ?_⟩
  · decide +kernel
  · rfl

/-- A root and its child go together, and both leave a tombstone. -/
theorem purged_tree_was_whole :
    sampleGrown.purgeTrees samplePurge = .ok (1, samplePurged) ∧
      (∃ roots, TakesTrees sampleGrown roots samplePurged) ∧ samplePurged.tasks.rows = [] ∧
      samplePurged.tombstoned ("human", "r1") = true ∧
      samplePurged.tombstoned ("child-root", "r2") = true := by
  have hpurge : sampleGrown.purgeTrees samplePurge = .ok (1, samplePurged) := rfl
  have hforest := forest_well_formed sampleGrowth_run
  refine ⟨hpurge, (hforest.2.2.2.2 _ _ _ hpurge).1, ?_, ?_, ?_⟩
  · decide +kernel
  · decide +kernel
  · decide +kernel

/-- A root without any owner: its child takes the owner of its own request as root owner. -/
def orphanGrowth : List DelegationOp :=
  [.insert (cancelledTask "root" "") "r1" [] 10 "g1",
    .insert { cancelledTask "child" "child-root" with parentTaskId := some "root" } "r2" [] 10 "g1"]

/-- A root without a root owner does not share the one of its child. -/
theorem ownerless_root_not_shared : ∃ s,
    Run (step plainEnvironment plainCodec) Grows (init "g0") orphanGrowth s ∧
      ∃ task parent, s.get "child" = some task ∧ task.parentTaskId = some "root" ∧
        s.get "root" = some parent ∧ parent.rootOwner ≠ task.rootOwner := by
  refine ⟨orphanGrowth.foldl (step plainEnvironment plainCodec) (init "g0"), ?_, ?_⟩
  · refine .cons (.inl rfl) (.cons ?_ (.nil _))
    refine .inr ⟨insertedTask plainEnvironment 10 (cancelledTask "root" ""), ?_, ?_⟩
    · decide +kernel
    · rfl
  refine ⟨insertedTask plainEnvironment 10
    { cancelledTask "child" "child-root" with parentTaskId := some "root" },
    insertedTask plainEnvironment 10 (cancelledTask "root" ""), ?_, rfl, ?_, ?_⟩
  · decide +kernel
  · decide +kernel
  · decide +kernel

end DelegationStore

end Bridget.Delegation
