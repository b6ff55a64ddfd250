import Bridget.Delegation.Forest
import Bridget.Delegation.Transitions

/-!
# Purging trees

A purge deletes some of the settled trees, each of them whole. The trees of two roots share no
task, so what is read before the purge still stands when a tree is deleted.
-/

namespace Bridget.Delegation

open Foundation Relation List Table
open Bridget.Delegation.Task

namespace DelegationStore

variable {s s' : DelegationStore} {row : DelegationRow} {id : String} {task : Task}
  {tree : List Task} {trees : List (List Task)} {now : Int} {fresh : String} {key : AdmissionKey}

theorem generations_nil {depth : Nat} : s.generations depth [] = [] := by
  induction depth with
  | zero => rfl
  | succ _ ih => exact ih

theorem treeOf_eq_ok : s.treeOf task = .ok tree ↔ (s.listBelow task.taskId).length ≤ 4096 ∧
      tree = task :: (s.listBelow task.taskId).map DelegationRow.payload := by
  unfold treeOf
  split
  · simp only [ok_iff, descendants_eq_ok]
    constructor
    · rintro ⟨_, ⟨hlength, rfl⟩, rfl⟩
      exact ⟨hlength, rfl⟩
    · rintro ⟨hlength, rfl⟩
      exact ⟨_, ⟨hlength, rfl⟩, rfl⟩
  next hchildless =>
    have hnone : s.childrenOf task.taskId = [] := by
      refine filter_eq_nil_iff.mpr fun row hrow => ?_
      simp only [any_eq_true, not_exists, not_and] at hchildless
      exact hchildless row hrow
    have hempty : s.listBelow task.taskId = [] := by rw [listBelow, hnone, generations_nil]
    simp only [hempty, ok_iff, length_nil, Nat.zero_le, map_nil, true_and, exists_eq_left']
    exact eq_comm

theorem Planted.mem_treeOf (h : Planted s) (hrow : row ∈ s.tasks)
    (htree : s.treeOf row.payload = .ok tree) :
    id ∈ tree.map taskId ↔ (s.rowAt id).isSome ∧ ReflTransGen (Up s.parentOf) id row.taskId := by
  obtain ⟨-, rfl⟩ := treeOf_eq_ok.mp htree
  have hnamed : row.payload.taskId = row.taskId := h.named (rowAt_of_mem hrow)
  rw [hnamed, map_cons, mem_cons, hnamed, reflTransGen_iff_eq_or_transGen]
  constructor
  · rintro (rfl | hbelow)
    · exact ⟨by simp [rowAt_of_mem hrow], .inl rfl⟩
    simp only [mem_map, exists_exists_and_eq_and] at hbelow
    obtain ⟨_, hfound, rfl⟩ := hbelow
    obtain ⟨hmem, hup⟩ := h.mem_listBelow.mp hfound
    rw [h.named (rowAt_of_mem hmem)]
    exact ⟨by simp [rowAt_of_mem hmem], .inr hup⟩
  · rintro ⟨hstored, rfl | hup⟩
    · exact .inl rfl
    obtain ⟨found, hfound⟩ := Option.isSome_iff_exists.mp hstored
    obtain ⟨hmem, rfl⟩ := rowAt_eq_some.mp hfound
    refine .inr ?_
    simp only [List.mem_map, exists_exists_and_eq_and]
    exact ⟨found, h.mem_listBelow.mpr ⟨hmem, hup⟩, h.named hfound⟩

theorem mem_settledTrees (h : s.settledTrees = .ok trees) : tree ∈ trees ↔ treeSettled tree = true ∧
      ∃ row ∈ s.tasks, row.payload.parentTaskId = none ∧ s.treeOf row.payload = .ok tree := by
  unfold settledTrees at h
  simp only [ok_iff] at h
  obtain ⟨_, hall, rfl⟩ := h
  rw [mem_filter, and_comm]
  refine and_congr_right fun hsettled => ?_
  constructor
  · intro htree
    obtain ⟨_, hroot, htree⟩ := (mapM_eq_ok hall).2 tree htree
    obtain ⟨row, hrow, rfl⟩ := mem_map.mp hroot
    obtain ⟨hmem, hselected⟩ := mem_select.mp hrow
    simp only [test_iff, Option.isNone_iff_eq_none] at hselected
    exact ⟨row, hmem, hselected.1, htree⟩
  rintro ⟨row, hrow, hparent, htree⟩
  have hterminal : row.payload.terminal = true := by
    obtain ⟨-, rfl⟩ := treeOf_eq_ok.mp htree
    have hroot : row.payload.settled = true := all_eq_true.mp hsettled _ mem_cons_self
    simp only [settled, test_iff] at hroot
    exact hroot.1.1.1.1.1
  have hselected : row.payload ∈ (s.tasks.select fun row =>
      row.payload.parentTaskId.isNone && row.payload.terminal).map DelegationRow.payload :=
    mem_map.mpr ⟨row, mem_select.mpr ⟨hrow, by simp [hparent, hterminal]⟩, rfl⟩
  obtain ⟨_, hfound, htree'⟩ := (mapM_eq_ok hall).1 _ hselected
  rw [htree] at htree'
  cases htree'
  exact hfound

@[simp] theorem rowAt_deleteTask : (s.deleteTask now task).rowAt id =
    if id = task.taskId then none else s.rowAt id := by
  have hfind : (s.deleteTask now task).rowAt id =
      (s.rowAt id).filter fun row => !decide (row.taskId = task.taskId) :=
    find?_delete (pins_taskId id)
  rw [hfind]
  cases hrow : s.rowAt id with
  | none => simp
  | some row =>
    obtain ⟨-, rfl⟩ := rowAt_eq_some.mp hrow
    by_cases heq : row.taskId = task.taskId <;> simp [heq, Option.filter]

theorem rowAt_foldl_deleteTask : (tree.foldl (fun s task => s.deleteTask now task) s).rowAt id =
    if id ∈ tree.map taskId then none else s.rowAt id := by
  induction tree generalizing s with
  | nil => simp
  | cons task _ ih =>
    rw [foldl_cons, ih, rowAt_deleteTask]
    by_cases heq : id = task.taskId <;> simp [heq]

theorem rowAt_deleteTree : (s.deleteTree tree now fresh).rowAt id =
    if id ∈ tree.map taskId then none else s.rowAt id :=
  rowAt_foldl_deleteTask

/-- The deletion of a task leaves a tombstone for the request of its row and keeps the others. -/
theorem tombstoned_deleteTask
    (h : s.tombstoned key = true ∨ ∃ row, s.rowAt task.taskId = some row ∧ row.key = key) :
    (s.deleteTask now task).tombstoned key = true := by
  have hstones : (s.deleteTask now task).tombstones =
      (s.tasks.select (·.taskId = task.taskId)).foldl (fun tombstones row =>
        tombstones.insertOrReplace ⟨row.payload.owner, row.requestId, now⟩) s.tombstones := rfl
  rw [tombstoned_iff, hstones]
  cases hrow : s.rowAt task.taskId with
  | none =>
    have hnone : s.tasks.select (·.taskId = task.taskId) = [] := by
      refine filter_eq_nil_iff.mpr fun row hmem => ?_
      simpa using Table.find?_eq_none.mp hrow row hmem
    rw [hnone]
    simpa [hrow, tombstoned_iff] using h
  | some =>
    obtain ⟨hmem, hid⟩ := rowAt_eq_some.mp hrow
    rw [select_pinned (pins_taskId _) hmem (by simp [hid])]
    refine exists_insertOrReplace.mpr ?_
    rcases h with hstone | ⟨_, hrow', rfl⟩
    · exact .inl (tombstoned_iff.mp hstone)
    · rw [hrow] at hrow'
      cases hrow'
      exact .inr rfl

section

variable (h : s.tombstoned key = true ∨
  ∃ id ∈ tree.map taskId, ∃ row, s.rowAt id = some row ∧ row.key = key)

include h

theorem tombstoned_foldl_deleteTask :
    (tree.foldl (fun s task => s.deleteTask now task) s).tombstoned key = true := by
  induction tree generalizing s with
  | nil => simpa using h
  | cons task _ ih =>
    refine ih ?_
    rcases h with hstone | ⟨id, hid, row, hrow, hkey⟩
    · exact .inl (tombstoned_deleteTask (.inl hstone))
    by_cases heq : id = task.taskId
    · exact .inl (tombstoned_deleteTask (.inr ⟨row, heq ▸ hrow, hkey⟩))
    · refine .inr ⟨id, ?_, row, ?_, hkey⟩
      · simpa [heq] using hid
      · rw [rowAt_deleteTask, if_neg heq, hrow]

theorem tombstoned_deleteTree : (s.deleteTree tree now fresh).tombstoned key = true :=
  tombstoned_foldl_deleteTask h

end

@[simp] theorem deleteTree_receipts : (s.deleteTree tree now fresh).receipts = s.receipts := by
  rw [deleteTree]
  induction tree generalizing s with
  | nil => rfl
  | cons _ _ ih => exact ih

inductive Purged : DelegationStore → List (List Task) → DelegationStore → Prop
  | nil (s : DelegationStore) : Purged s [] s
  | cons {s s' : DelegationStore} {tree : List Task} {trees : List (List Task)} {now : Int}
      {fresh : String} (hrest : Purged (s.deleteTree tree now fresh) trees s') :
      Purged s (tree :: trees) s'

theorem purgeLoop_purged (request : PurgeRequest) (aged : List (Int × List Task))
    (s : DelegationStore) (total purged : Nat) : ∃ gone, gone.Sublist (aged.map Prod.snd) ∧
      Purged s gone (purgeLoop request aged s total purged).2 := by
  induction aged generalizing s total purged with
  | nil => exact ⟨[], by simp, .nil s⟩
  | cons entry _ ih =>
    unfold purgeLoop
    split
    · exact ⟨[], by simp, .nil s⟩
    split
    · exact ⟨[], by simp, .nil s⟩
    split
    · obtain ⟨gone, hgone, hpurged⟩ := ih (s.deleteTree entry.2 request.now _) _ (purged + 1)
      exact ⟨entry.2 :: gone, hgone.cons_cons entry.2, .cons hpurged⟩
    · obtain ⟨gone, hgone, hpurged⟩ := ih s total purged
      exact ⟨gone, hgone.cons entry.2, hpurged⟩

theorem purgeTrees_cases {request : PurgeRequest} {count : Nat}
    (h : s.purgeTrees request = .ok (count, s')) :
    ∃ trees gone, s.settledTrees = .ok trees ∧ gone ⊆ trees ∧ Purged s gone s' := by
  unfold purgeTrees at h
  simp only [ok_iff] at h
  obtain ⟨trees, htrees, hloop⟩ := h
  obtain ⟨gone, hgone, hpurged⟩ := purgeLoop_purged request
    ((trees.map fun tree => (treeAge tree, tree)).insertionSort purgeOrder) s
    s.tasks.rows.length 0
  rw [hloop] at hpurged
  refine ⟨trees, gone, htrees, ?_, hpurged⟩
  intro tree htree
  have hmem := hgone.subset htree
  simpa [mem_map, mem_insertionSort] using hmem

namespace Purged

theorem rowAt (h : Purged s trees s') :
    s'.rowAt id = if ∃ tree ∈ trees, id ∈ tree.map taskId then none else s.rowAt id := by
  induction h with
  | nil => simp
  | @cons _ _ tree _ _ _ _ ih =>
    rw [ih, rowAt_deleteTree]
    simp only [exists_mem_cons_iff]
    by_cases hhead : id ∈ tree.map taskId <;> simp [hhead]

theorem receipts (h : Purged s trees s') : s'.receipts = s.receipts := by
  induction h with
  | nil => rfl
  | cons _ ih => rw [ih, deleteTree_receipts]

theorem tombstoned (h : Purged s trees s')
    (hkey : s.tombstoned key = true ∨ ∃ tree ∈ trees, ∃ id ∈ tree.map taskId,
      ∃ row, s.rowAt id = some row ∧ row.key = key) : s'.tombstoned key = true := by
  induction h with
  | nil => simpa using hkey
  | @cons _ _ tree _ _ _ _ ih =>
    refine ih ?_
    rcases hkey with hstone | ⟨gone, hgone, id, hid, row, hrow, hkey⟩
    · exact .inl (tombstoned_deleteTree (.inl hstone))
    by_cases hhead : id ∈ tree.map taskId
    · exact .inl (tombstoned_deleteTree (.inr ⟨id, hhead, row, hrow, hkey⟩))
    · rcases mem_cons.mp hgone with rfl | hrest
      · exact absurd hid hhead
      · refine .inr ⟨gone, hrest, id, hid, row, ?_, hkey⟩
        rw [rowAt_deleteTree, if_neg hhead, hrow]

end Purged

end DelegationStore

end Bridget.Delegation
