import Bridget.Delegation.Admissions
import Bridget.Foundation.Numerals

/-!
# Relieving retention

An admission that finds the retained keys at their bound first gives up refused receipts and
then purges settled trees. The first step counts keys, the second one stops by the number of
tasks, and neither removes the receipt of a purged task: receipts that no task shares its key
with stand in the way. Counting them tells exactly when the two steps help.
-/

namespace Bridget.Delegation

open Foundation Relation List Option Table

namespace DelegationStore

variable {env : TaskEnvironment} {codec : MetadataCodec} {s s' : DelegationStore}
  {key : AdmissionKey} {keys : List AdmissionKey} {row : DelegationRow} {now : Int} {id : String}
  {tree : List Task} {trees : List (List Task)} {request : PurgeRequest} {bound purged : Nat}
  {aged : List (Int × List Task)}

/-! ## Giving up refused receipts -/

def purgeableReceipts (s : DelegationStore) : List AutoAdmissionReceipt :=
  s.receipts.select s.purgeable

theorem RefusalsPurged.tasks (h : RefusalsPurged s keys s') : s'.tasks = s.tasks := by
  induction h with
  | nil => rfl
  | cons hfirst _ ih => rw [ih, hfirst.beside]

theorem RefusalsPurged.receipt? (h : RefusalsPurged s keys s') :
    s'.receipt? key = if key ∈ keys then none else s.receipt? key := by
  induction h with
  | nil => simp
  | @cons _ _ _ first _ hfirst _ ih =>
    rw [ih, hfirst.lookup]
    by_cases heq : key = first
    · simp [heq]
    · simp [heq]

theorem exists_purgeRefusals (now : Int) (hnodup : keys.Nodup)
    (hkeys : ∀ key ∈ keys, ∃ receipt, s.receipt? key = some receipt ∧ s.purgeable receipt = true) :
    ∃ s', keys.foldlM (purgeRefusal now) s = .ok s' := by
  induction keys generalizing s with
  | nil => exact ⟨s, rfl⟩
  | cons key _ ih =>
    obtain ⟨hnew, hrest⟩ := nodup_cons.mp hnodup
    obtain ⟨receipt, hstored, hpurgeable⟩ := hkeys key mem_cons_self
    obtain ⟨hmem, rfl⟩ := receipt?_eq_some.mp hstored
    have hcount : s.receipts.count
        (fun r => decide (r.key = receipt.key) && s.purgeable r) = 1 := by
      refine count_eq_one (pins_receipt receipt.key) ?_ hmem (by simp [hpurgeable])
      intro r hr
      exact (Bool.and_eq_true_iff.mp hr).1
    obtain ⟨middle, hmiddle⟩ : ∃ middle, purgeRefusal now s receipt.key = .ok middle := by
      simp only [purgeRefusal, ok_iff]
      exact ⟨_, (), hcount, rfl⟩
    have hpurged := purgeRefusal_cases hmiddle
    have htasks : middle.tasks = s.tasks := by rw [hpurged.beside]
    obtain ⟨s', hs'⟩ := ih hrest (s := middle) <| by
      intro key hkey
      obtain ⟨other, hother, hpurge⟩ := hkeys key (mem_cons_of_mem _ hkey)
      refine ⟨other, ?_, by simpa only [purgeable, taskWithKey, htasks] using hpurge⟩
      rw [hpurged.lookup, Function.update_of_ne, hother]
      rintro rfl
      exact hnew hkey
    exact ⟨s', by rw [foldlM_cons, hmiddle]; exact hs'⟩

theorem mem_iff_rowAt : row ∈ s.tasks ↔ s.rowAt row.taskId = some row :=
  ⟨rowAt_of_mem, fun h => (rowAt_eq_some.mp h).1⟩

theorem mem_retainedKeys : key ∈ s.retainedKeys ↔
    (∃ row ∈ s.tasks, row.key = key) ∨ (s.receipt? key).isSome := by
  have hreceipt : (s.receipt? key).isSome ↔ ∃ receipt ∈ s.receipts, receipt.key = key := by
    rw [isSome_iff_exists]
    exact exists_congr fun receipt => receipt?_eq_some
  simp [retainedKeys, hreceipt]

theorem RefusalsPurged.retainedKeys (h : RefusalsPurged s keys s')
    (hkeys : ∀ key ∈ keys, ∃ receipt, s.receipt? key = some receipt ∧ s.purgeable receipt = true) :
    s'.retainedKeys = s.retainedKeys \ keys.toFinset := by
  ext key
  rw [Finset.mem_sdiff, mem_retainedKeys, mem_retainedKeys, h.tasks, h.receipt?, List.mem_toFinset]
  by_cases hkey : key ∈ keys
  · obtain ⟨receipt, hstored, hpurgeable⟩ := hkeys key hkey
    obtain ⟨-, rfl⟩ := receipt?_eq_some.mp hstored
    have hfree : ¬ ∃ row ∈ s.tasks, row.key = receipt.key := by
      simp only [purgeable, test_iff, Bool.not_eq_true'] at hpurgeable
      rw [← taskWithKey_iff, hpurgeable.2]
      simp
    simp [hkey, hfree]
  · simp [hkey]

theorem purgeAutoRefusalsUnderPressure_eq :
    s.purgeAutoRefusalsUnderPressure now maxRetainedTasks =
      if s.retainedKeys.card < maxRetainedTasks then .ok (0, s)
      else s.purgeAutoRefusalsIn now (s.retainedKeys.card - maxRetainedTasks + 1) none := rfl

/-- Under pressure the receipts that are given up suffice, or all purgeable ones are given up. -/
theorem exists_purgeUnderPressure (now : Int) (hcounted : (s.retainedKeys.card : Int) ≤ i64Max) :
    ∃ count keys s', s.purgeAutoRefusalsUnderPressure now maxRetainedTasks = .ok (count, s') ∧
      RefusalsPurged s keys s' ∧ (s'.retainedKeys.card < maxRetainedTasks ∧
          s.retainedKeys.card < maxRetainedTasks + s.purgeableReceipts.length ∨
        maxRetainedTasks + s.purgeableReceipts.length ≤ s.retainedKeys.card ∧
        ∀ key receipt, s'.receipt? key = some receipt ↔
          s.receipt? key = some receipt ∧ s.purgeable receipt = false) := by
  by_cases hroom : s.retainedKeys.card < maxRetainedTasks
  · refine ⟨0, [], s, ?_, .nil s, .inl ⟨hroom, by omega⟩⟩
    rw [purgeAutoRefusalsUnderPressure_eq, if_pos hroom]
  set limit := s.retainedKeys.card - maxRetainedTasks + 1 with hlimit
  set sorted := s.purgeableReceipts.insertionSort refusalOrder with hsorted
  have hmem : ∀ receipt, receipt ∈ sorted ↔ receipt ∈ s.receipts ∧ s.purgeable receipt = true := by
    intro receipt
    rw [hsorted, mem_insertionSort]
    exact mem_select
  have hpairwise : sorted.Pairwise fun a b => a.key ≠ b.key := by
    have hselected : s.purgeableReceipts.Pairwise fun a b => a.key ≠ b.key :=
      s.receipts.unique.filter _
    exact (perm_insertionSort _ _).symm.pairwise hselected fun h => h.symm
  -- the oldest go, as many as there are too many
  set keys := (sorted.take limit).map AutoAdmissionReceipt.key with hkeys
  have hpurgeable : ∀ key ∈ keys, ∃ receipt, s.receipt? key = some receipt ∧
      s.purgeable receipt = true := by
    intro key hkey
    obtain ⟨receipt, hreceipt, rfl⟩ := mem_map.mp hkey
    obtain ⟨hstored, hpurge⟩ := (hmem receipt).mp (mem_of_mem_take hreceipt)
    exact ⟨receipt, receipt?_of_mem hstored, hpurge⟩
  have hnodup : keys.Nodup := pairwise_map.mpr (hpairwise.sublist (take_sublist _ _))
  obtain ⟨s', hfold⟩ := exists_purgeRefusals now hnodup hpurgeable
  have hpurged := foldlM_purgeRefusal_cases hfold
  refine ⟨keys.length, keys, s', ?_, hpurged, ?_⟩
  · rw [purgeAutoRefusalsUnderPressure_eq, if_neg hroom, purgeAutoRefusalsIn,
      if_neg (Nat.succ_ne_zero _)]
    simp only [ok_iff, pair_iff, all_none, Bool.and_true]
    have hbound : 0 < maxRetainedTasks := by decide
    exact ⟨(), by omega, s', hfold, rfl, rfl⟩
  have hcard : s'.retainedKeys.card + keys.length = s.retainedKeys.card := by
    rw [hpurged.retainedKeys hpurgeable, ← toFinset_card_of_nodup hnodup]
    refine Finset.card_sdiff_add_card_eq_card ?_
    intro key hkey
    obtain ⟨_, hstored, -⟩ := hpurgeable key (mem_toFinset.mp hkey)
    exact mem_retainedKeys.mpr (.inr (by simp [hstored]))
  have hlength : keys.length = min limit s.purgeableReceipts.length := by
    rw [hkeys, length_map, length_take, hsorted, length_insertionSort]
  -- they suffice, or all that can be purged are gone
  by_cases hall : s.purgeableReceipts.length < limit
  · refine .inr ⟨by omega, fun key receipt => ?_⟩
    rw [hpurged.receipt?]
    split
    next hgone =>
      obtain ⟨_, hstored, hpurge⟩ := hpurgeable key hgone
      refine iff_of_false (by simp) ?_
      rintro ⟨hfound, hkept⟩
      cases hstored.symm.trans hfound
      cases hpurge.symm.trans hkept
    rename_i hkept
    refine ⟨fun hstored => ⟨hstored, ?_⟩, And.left⟩
    obtain ⟨hreceipt, rfl⟩ := receipt?_eq_some.mp hstored
    by_contra hpurge
    refine hkept (mem_map_of_mem ?_)
    rw [take_of_length_le]
    · exact (hmem receipt).mpr ⟨hreceipt, by simpa using hpurge⟩
    · rw [hsorted, length_insertionSort]
      exact hall.le
  · exact .inl ⟨by omega, by omega⟩

/-! ## Purging settled trees -/

/-- The trees that a purge takes from these while at least the bound is left of so many tasks. -/
def takeTrees (bound : Nat) : Nat → List (List Task) → List (List Task)
  | _, [] => []
  | total, tree :: rest =>
    if total < bound then [] else tree :: takeTrees bound (total - tree.length) rest

theorem takeTrees_sublist {total : Nat} : (takeTrees bound total trees).Sublist trees := by
  induction trees generalizing total with
  | nil => exact .slnil
  | cons tree _ ih =>
    unfold takeTrees
    split
    · exact nil_sublist _
    · exact ih.cons_cons tree

theorem purgeLoop_takes {total : Nat} (hbound : request.bound = some bound)
    (hall : ∀ tree, request.releasable tree) (hmax : purged + aged.length ≤ request.maxTrees) :
    Purged s (takeTrees bound total (aged.map Prod.snd))
      (purgeLoop request aged s total purged).2 := by
  induction aged generalizing s total purged with
  | nil => exact .nil s
  | cons _ _ ih =>
    rw [length_cons] at hmax
    unfold purgeLoop
    simp only [hbound, mem_some_iff, exists_eq_left', reduceCtorEq, false_and, if_false,
      hall, if_true]
    rw [map_cons, takeTrees]
    by_cases hfew : total < bound
    · rw [if_pos hfew, if_pos (.inr hfew)]
      exact .nil s
    · rw [if_neg hfew, if_neg (by omega)]
      exact .cons (ih (by omega))

/-- The trees that the second step takes: the oldest settled ones, until fewer tasks than the
bound are left. -/
def spentTrees (s : DelegationStore) (trees : List (List Task)) : List (List Task) :=
  takeTrees maxRetainedTasks s.tasks.rows.length
    (((trees.map fun tree => (treeAge tree, tree)).insertionSort purgeOrder).map Prod.snd)

theorem spentTrees_subset : s.spentTrees trees ⊆ trees := by
  intro tree htree
  simpa [mem_insertionSort] using takeTrees_sublist.subset htree

/-- No root that has ended has more descendants than one query lists. -/
def Narrow (s : DelegationStore) : Prop :=
  ∀ row ∈ s.tasks, row.payload.parentTaskId = none → row.payload.terminal = true →
    (s.listBelow row.payload.taskId).length ≤ 4096

/-- The settled trees can be listed exactly when no tree is too wide. -/
theorem narrow_iff : s.Narrow ↔ ∃ trees, s.settledTrees = .ok trees := by
  constructor
  · intro hnarrow
    have htrees : ∀ root ∈ (s.tasks.select fun row =>
        row.payload.parentTaskId.isNone && row.payload.terminal).map DelegationRow.payload,
        ∃ tree, s.treeOf root = .ok tree := by
      intro root hroot
      obtain ⟨row, hrow, rfl⟩ := List.mem_map.mp hroot
      obtain ⟨hmem, hselected⟩ := mem_select.mp hrow
      simp only [test_iff, isNone_iff_eq_none] at hselected
      exact ⟨_, treeOf_eq_ok.mpr ⟨hnarrow row hmem hselected.1 hselected.2, rfl⟩⟩
    obtain ⟨all, hall, -⟩ := exists_mapM_eq_ok htrees
    refine ⟨all.filter treeSettled, ?_⟩
    simp only [settledTrees, ok_iff]
    exact ⟨all, hall, rfl⟩
  · rintro ⟨_, htrees⟩ row hrow hparent hterminal
    simp only [settledTrees, ok_iff] at htrees
    obtain ⟨_, hall, -⟩ := htrees
    obtain ⟨_, -, htree⟩ := (mapM_eq_ok hall).1 row.payload (mem_map_of_mem
      (mem_select.mpr ⟨hrow, by simp [hparent, hterminal]⟩))
    exact (treeOf_eq_ok.mp htree).1

theorem settledTrees_length (h : s.settledTrees = .ok trees) :
    trees.length ≤ s.tasks.rows.length := by
  simp only [settledTrees, ok_iff] at h
  obtain ⟨all, hall, rfl⟩ := h
  obtain ⟨_, hall', hlength⟩ := exists_mapM_eq_ok fun root hroot =>
    ((mapM_eq_ok hall).1 root hroot).imp fun _ htree => htree.2
  cases hall.symm.trans hall'
  calc (all.filter treeSettled).length
      ≤ all.length := length_filter_le _ _
    _ = (s.tasks.select _).length := by rw [hlength, length_map]
    _ ≤ s.tasks.rows.length := length_filter_le _ _

/-! ## Trees that are not settled -/

section

variable (s : DelegationStore)

def OpenTree (root : String) : Prop :=
  ∃ id row, s.rowAt id = some row ∧ ReflTransGen (Up s.parentOf) id root ∧
    row.payload.settled = false

def HeldByTask (key : AdmissionKey) : Prop :=
  ∃ row ∈ s.tasks, row.key = key ∧ ∃ root, s.parentOf root = none ∧
    ReflTransGen (Up s.parentOf) row.taskId root ∧ s.OpenTree root

def HeldByReceipt (key : AdmissionKey) : Prop :=
  ∃ receipt, s.receipt? key = some receipt ∧ receipt.state.holdsSlot = true

end

section

variable {roots : List String} {root : String}

section

variable (h : TakesTrees s roots s')

include h

theorem TakesTrees.parentOf_root (hroot : root ∈ roots) : s.parentOf root = none := by
  obtain ⟨_, hrow, hparent⟩ := h.parentless root hroot
  rw [parentOf, hrow, bind_some, hparent]

theorem TakesTrees.kept_tree (hroot : s.parentOf root = none)
    (hkept : root ∉ roots) (hup : ReflTransGen (Up s.parentOf) id root) :
    s'.rowAt id = s.rowAt id ∧ ReflTransGen (Up s'.parentOf) id root := by
  have hrows : ∀ {id}, ReflTransGen (Up s.parentOf) id root → s'.rowAt id = s.rowAt id := by
    intro id hup
    refine h.kept fun _ hother hup' => hkept ?_
    rwa [root_unique hup hup' hroot (h.parentOf_root hother)]
  refine ⟨hrows hup, ?_⟩
  induction hup using ReflTransGen.head_induction_on with
  | refl => exact .refl
  | @head _ _ hstep hrest ih =>
    refine .head ?_ ih
    rw [Up, parentOf, hrows (.head hstep hrest), ← parentOf]
    exact hstep

theorem TakesTrees.heldByTask (hheld : s.HeldByTask key) : s'.HeldByTask key := by
  obtain ⟨row, hrow, rfl, root, hroot, hup, id, member, hmember, habove, hopen⟩ := hheld
  have hkept : root ∉ roots := by
    intro hgone
    rw [h.settled root hgone hmember habove] at hopen
    cases hopen
  obtain ⟨hsame, hup'⟩ := h.kept_tree hroot hkept hup
  obtain ⟨hsame', habove'⟩ := h.kept_tree hroot hkept habove
  obtain ⟨hrootRow, -⟩ := h.kept_tree hroot hkept .refl
  rw [rowAt_of_mem hrow] at hsame
  refine ⟨row, (rowAt_eq_some.mp hsame).1, rfl, root, ?_, hup', id, member, ?_, habove', hopen⟩
  · rw [parentOf, hrootRow, ← parentOf, hroot]
  · rw [hsame', hmember]

/-- Work that is open was open before. -/
theorem TakesTrees.heldByTask_iff (hplanted : Planted s') :
    s'.HeldByTask key ↔ s.HeldByTask key := by
  refine ⟨?_, h.heldByTask⟩
  rintro ⟨row, hrow, rfl, root, hroot, hup, id, member, hmember, habove, hopen⟩
  have hsame : ∀ {id row}, s'.rowAt id = some row → s.parentOf id = s'.parentOf id := by
    intro id row hrow
    rw [parentOf, parentOf, hrow, h.rows hrow]
  have hclimbs : ∀ {id}, ReflTransGen (Up s'.parentOf) id root →
      ReflTransGen (Up s.parentOf) id root := by
    refine fun hup => ReflTransGen.mono (fun a b hstep => ?_) _ _ hup
    have hstored : s'.parentOf a = some b := hstep
    obtain ⟨_, hfound, -⟩ := bind_eq_some_iff.mp hstored
    exact (hsame hfound).trans hstored
  have hstored := rowAt_of_mem hrow
  obtain ⟨_, hfound⟩ := isSome_iff_exists.mp (hplanted.stored_above (by simp [hstored]) hup)
  exact ⟨row, (rowAt_eq_some.mp (h.rows hstored)).1, rfl, root, (hsame hfound).trans hroot,
    hclimbs hup, id, member, h.rows hmember, hclimbs habove, hopen⟩

end

end

/-! ## The two steps of an admission -/

/-- What an admission does when the retained keys are at their bound. -/
def relieve (s : DelegationStore) (now : Int) (fresh : Nat → String) : Result DelegationStore := do
  let (_, s) ← s.purgeAutoRefusalsUnderPressure now maxRetainedTasks
  let (_, s) ← s.purgeTrees ⟨now, some maxRetainedTasks, u64Max, fun _ => true, fresh⟩
  pure s

/-- There is room again, or every key is held by work that is still open. -/
def Relieved (s : DelegationStore) : Prop :=
  s.retainedKeys.card < maxRetainedTasks ∨
    ∀ key ∈ s.retainedKeys, s.HeldByTask key ∨ s.HeldByReceipt key

/-- The keys that the two steps leave when these trees go and all purgeable receipts with them. -/
def keysLeft (s : DelegationStore) (gone : List (List Task)) : Finset AdmissionKey :=
  ((s.tasks.select fun row => ∀ tree ∈ gone, row.taskId ∉ tree.map Task.taskId).map
      DelegationRow.key).toFinset ∪
    ((s.receipts.select fun receipt => !s.purgeable receipt).map
      AutoAdmissionReceipt.key).toFinset

theorem mem_keysLeft {gone : List (List Task)} : key ∈ s.keysLeft gone ↔
    (∃ row ∈ s.tasks, row.key = key ∧ ∀ tree ∈ gone, row.taskId ∉ tree.map Task.taskId) ∨
      ∃ receipt ∈ s.receipts, receipt.key = key ∧ s.purgeable receipt = false := by
  rw [keysLeft, Finset.mem_union, List.mem_toFinset, List.mem_toFinset, List.mem_map, List.mem_map]
  simp only [mem_select, decide_eq_true_iff, Bool.not_eq_true']
  exact or_congr (exists_congr fun _ => by rw [and_right_comm, and_assoc])
    (exists_congr fun _ => by rw [and_right_comm, and_assoc])

theorem keysLeft_subset {gone : List (List Task)} : s.keysLeft gone ⊆ s.retainedKeys := by
  intro key hkey
  rw [mem_retainedKeys]
  rcases mem_keysLeft.mp hkey with ⟨row, hrow, hsame, -⟩ | ⟨_, hreceipt, rfl, -⟩
  · exact .inl ⟨row, hrow, hsame⟩
  · exact .inr (by simp [receipt?_of_mem hreceipt])

/-- The two steps relieve the store: no tree is too wide, and refused receipts make enough room,
or the oldest settled trees do, with all receipts counted that are left without a task; or
nothing but open work is left. -/
structure Relievable (s : DelegationStore) : Prop where
  narrow : s.Narrow
  room : s.retainedKeys.card < maxRetainedTasks + s.purgeableReceipts.length ∨
    ∀ trees, s.settledTrees = .ok trees →
      (s.keysLeft (s.spentTrees trees)).card < maxRetainedTasks ∨
      ∀ key ∈ s.keysLeft (s.spentTrees trees), s.HeldByTask key ∨ s.HeldByReceipt key

theorem tasks_only {middle : DelegationStore} (htasks : middle.tasks = s.tasks) :
    middle.settledTrees = s.settledTrees ∧ middle.HeldByTask = s.HeldByTask ∧
      (middle.Narrow ↔ s.Narrow) := by
  obtain ⟨tasks, _, _, _, _, _, _⟩ := middle
  subst htasks
  exact ⟨rfl, rfl, Iff.rfl⟩

section

variable {middle : DelegationStore} {gone : List (List Task)} (hpurged : Purged middle gone s')
  (htasks : middle.tasks = s.tasks) (hreceipts : ∀ key receipt, middle.receipt? key = some receipt ↔
    s.receipt? key = some receipt ∧ s.purgeable receipt = false)

include hpurged htasks hreceipts

theorem retainedKeys_eq_keysLeft : s'.retainedKeys = s.keysLeft gone := by
  ext key
  rw [mem_retainedKeys, mem_keysLeft]
  refine or_congr (exists_congr fun row => ?_) ?_
  · rw [mem_iff_rowAt, hpurged.rowAt, mem_iff_rowAt, rowAt, htasks, ← rowAt]
    by_cases hgone : ∃ tree ∈ gone, row.taskId ∈ tree.map Task.taskId
    · rw [if_pos hgone]
      obtain ⟨tree, htree, hid⟩ := hgone
      refine iff_of_false (by simp) ?_
      rintro ⟨-, -, hkept⟩
      exact hkept tree htree hid
    · rw [if_neg hgone]
      push Not at hgone
      rw [and_iff_left hgone]
  · rw [receipt?, hpurged.receipts, ← receipt?, isSome_iff_exists]
    refine exists_congr fun receipt => ?_
    rw [hreceipts, receipt?_eq_some, and_assoc]

theorem Planted.relieved_iff (h : Planted s) (htrees : s.settledTrees = .ok trees)
    (hgone : gone ⊆ trees) : s'.Relieved ↔ (s.keysLeft gone).card < maxRetainedTasks ∨
      ∀ key ∈ s.keysLeft gone, s.HeldByTask key ∨ s.HeldByReceipt key := by
  obtain ⟨htreesEq, hheldEq, -⟩ := tasks_only htasks
  have hplanted : Planted middle := h.of_tasks htasks
  have htakes := hplanted.takesTrees_of_purged (htreesEq.trans htrees) hgone hpurged
  have htask (key : AdmissionKey) : s'.HeldByTask key ↔ s.HeldByTask key := by
    rw [htakes.heldByTask_iff (hplanted.of_takesTrees htakes), hheldEq]
  have hreceipt (key : AdmissionKey) : s'.HeldByReceipt key ↔ s.HeldByReceipt key := by
    refine exists_congr fun receipt => and_congr_left fun hslot => ?_
    rw [receipt?, hpurged.receipts, ← receipt?, hreceipts]
    refine and_iff_left ?_
    cases hstate : receipt.state <;> simp_all [purgeable, AutoAdmissionState.holdsSlot]
  rw [Relieved, retainedKeys_eq_keysLeft hpurged htasks hreceipts]
  simp only [htask, hreceipt]

end

theorem Planted.relieves_iff (h : Planted s) (hcounted : (s.retainedKeys.card : Int) ≤ i64Max)
    (hlisted : (s.tasks.rows.length : Int) ≤ i64Max) (now : Int) (fresh : Nat → String) :
    (∃ s', s.relieve now fresh = .ok s' ∧ s'.Relieved) ↔ s.Relievable := by
  obtain ⟨_, _, middle, hpressure, hrefusals, hmade⟩ := exists_purgeUnderPressure now hcounted
  have htasks := hrefusals.tasks
  obtain ⟨htreesEq, -, -⟩ := tasks_only htasks
  -- the second step, when the trees can be listed
  have hsecond : ∀ trees, s.settledTrees = .ok trees →
      ∃ s', s.relieve now fresh = .ok s' ∧ Purged middle (s.spentTrees trees) s' := by
    intro trees htrees
    have hlength := settledTrees_length htrees
    refine ⟨(purgeLoop ⟨now, some maxRetainedTasks, u64Max, fun _ => true, fresh⟩ _ middle _ 0).2,
      ?_, purgeLoop_takes rfl (fun _ => rfl) ?_⟩
    · simp only [relieve, hpressure, ok_bind, purgeTrees, htreesEq, htrees, htasks]
      rfl
    · simp only [length_insertionSort, length_map, u64Max, i64Max] at *
      omega
  have hkept : ∀ trees s', s.settledTrees = .ok trees → Purged middle (s.spentTrees trees) s' →
      (s'.Relieved ↔ s.retainedKeys.card < maxRetainedTasks + s.purgeableReceipts.length ∨
        ((s.keysLeft (s.spentTrees trees)).card < maxRetainedTasks ∨
          ∀ key ∈ s.keysLeft (s.spentTrees trees), s.HeldByTask key ∨ s.HeldByReceipt key)) := by
    intro trees s' htrees hpurged
    rcases hmade with ⟨hroomy, hroom⟩ | ⟨hfull, hreceipts⟩
    · -- trees only make more room
      refine iff_of_true (.inl (lt_of_le_of_lt (Finset.card_le_card ?_) hroomy)) (.inl hroom)
      intro key hkey
      rw [mem_retainedKeys] at hkey ⊢
      refine hkey.imp ?_ ?_
      · rintro ⟨row, hrow, rfl⟩
        have hstored := rowAt_of_mem hrow
        rw [hpurged.rowAt] at hstored
        split at hstored
        · cases hstored
        · exact ⟨row, (rowAt_eq_some.mp hstored).1, rfl⟩
      · rw [receipt?, hpurged.receipts, ← receipt?]
        exact id
    · rw [h.relieved_iff hpurged htasks hreceipts htrees spentTrees_subset]
      exact (or_iff_right (by omega)).symm
  constructor
  · rintro ⟨s', hrelieve, hrelieved⟩
    have hlist : ∃ trees, s.settledTrees = .ok trees := by
      simp only [relieve, hpressure, ok_bind, purgeTrees, htreesEq, ok_iff] at hrelieve
      obtain ⟨_, ⟨trees, htrees, -⟩, -⟩ := hrelieve
      exact ⟨trees, htrees⟩
    obtain ⟨trees, htrees⟩ := hlist
    obtain ⟨_, hrelieve', hpurged⟩ := hsecond trees htrees
    cases hrelieve.symm.trans hrelieve'
    refine ⟨narrow_iff.mpr ⟨trees, htrees⟩, ?_⟩
    refine ((hkept trees _ htrees hpurged).mp hrelieved).imp_right fun hleft _ htrees' => ?_
    cases htrees.symm.trans htrees'
    exact hleft
  · rintro ⟨hnarrow, hroom⟩
    obtain ⟨trees, htrees⟩ := narrow_iff.mp hnarrow
    obtain ⟨s', hrelieve, hpurged⟩ := hsecond trees htrees
    refine ⟨s', hrelieve, (hkept trees s' htrees hpurged).mpr ?_⟩
    exact hroom.imp_right fun h => h trees htrees

/-- In every state of a run whose insertions attach their task, the two steps relieve retention
pressure exactly when the receipts that are left without a task leave enough room. -/
theorem retention_pressure_relieved {generation : String} {ops : List DelegationOp}
    (hrun : Run (step env codec) Places (init generation) ops s)
    (hcounted : (s.retainedKeys.card : Int) ≤ i64Max)
    (hlisted : (s.tasks.rows.length : Int) ≤ i64Max) (now : Int) (fresh : Nat → String) :
    (∃ s', s.relieve now fresh = .ok s' ∧ s'.Relieved) ↔ s.Relievable := by
  have hplanted : Planted s :=
    hrun.invariant Planted (fun _ _ h hplaces => h.step hplaces) (.init generation)
  exact hplanted.relieves_iff hcounted hlisted now fresh

/-! ## Full stores -/

def fillTask (n : Nat) : Task := cancelledTask n.repr "desk"

def filling (n : Nat) : List DelegationOp :=
  (range n).map fun i => .insert (fillTask i) i.repr [] 10 "g"

def fillRow (n : Nat) : DelegationRow :=
  ⟨n.repr, "instance-" ++ n.repr, n.repr, [], insertedTask plainEnvironment 10 (fillTask n)⟩

def Filled (s : DelegationStore) (n : Nat) : Prop := s.tasks.rows = (range n).map fillRow

/-- Filling an empty store of tasks stores every task and touches no receipt. -/
theorem filled (hempty : s.tasks.rows = []) (n : Nat) :
    ∃ s', Run (step plainEnvironment plainCodec) Places s (filling n) s' ∧ s'.Filled n ∧
      s'.receipts = s.receipts := by
  induction n with
  | zero => exact ⟨s, .nil s, hempty, rfl⟩
  | succ n ih =>
    obtain ⟨s', hrun, hrows, hreceipts⟩ := ih
    have hfree : ∀ row ∈ s'.tasks, ¬ UniqueKeys.conflicts row (fillRow n) := by
      intro row hrow
      rw [← mem_rows, hrows] at hrow
      obtain ⟨i, hi, rfl⟩ := mem_map.mp hrow
      have hne : i.repr ≠ n.repr := fun heq => (mem_range.mp hi).ne (repr_injective heq)
      rintro (heq | ⟨-, heq⟩ | heq | ⟨-, heq⟩ | heq)
      · exact hne heq
      · exact hne heq
      · exact hne (String.append_right_inj "mission-" |>.mp heq)
      · exact hne heq
      · exact hne (String.append_right_inj "child-" |>.mp heq)
    obtain ⟨tasks, htasks⟩ := insert_eq_ok hfree
    have hstep : s'.step plainEnvironment plainCodec (.insert (fillTask n) n.repr [] 10 "g") =
        { s' with tasks }.increment "g" := by
      have hinsert : s'.insertProjectedIn plainEnvironment (fillTask n) n.repr [] 10 "g" =
          .ok ((fillRow n).payload, { s' with tasks }.increment "g") := by
        simp only [insertProjectedIn, ok_iff, sqlite_eq_ok]
        exact ⟨tasks, htasks, rfl⟩
      rw [step, apply, insert, hinsert]
      rfl
    refine ⟨{ s' with tasks }.increment "g", ?_, ?_, hreceipts⟩
    · rw [filling, range_succ, map_append]
      exact hrun.append (hstep ▸ .single (.inl rfl))
    · refine (insert_rows htasks).trans ?_
      rw [hrows, range_succ, map_append]
      rfl

section

variable {n : Nat}

section

variable (h : s.Filled n)

include h

theorem Filled.mem (hrow : row ∈ s.tasks) : ∃ i, row = fillRow i := by
  rw [← mem_rows, h] at hrow
  obtain ⟨i, -, rfl⟩ := mem_map.mp hrow
  exact ⟨i, rfl⟩

theorem Filled.listBelow (id : String) : s.listBelow id = [] := by
  have hnone : s.childrenOf id = [] := by
    refine filter_eq_nil_iff.mpr fun _ hfound => ?_
    obtain ⟨_, rfl⟩ := h.mem hfound
    simp [fillRow, insertedTask, stamp, fillTask, cancelledTask]
  rw [DelegationStore.listBelow, hnone, generations_nil]

theorem Filled.narrow : s.Narrow := by
  intro row _ _ _
  rw [h.listBelow]
  exact Nat.zero_le _

theorem Filled.treeOf (task : Task) : s.treeOf task = .ok [task] := by
  rw [treeOf_eq_ok, h.listBelow]
  exact ⟨Nat.zero_le _, rfl⟩

theorem Filled.settled (hrow : row ∈ s.tasks) : row.payload.settled = true := by
  obtain ⟨_, rfl⟩ := h.mem hrow
  rfl

theorem Filled.length : s.tasks.rows.length = n := by rw [h, length_map, length_range]

theorem Filled.taskKeys : (s.tasks.rows.map DelegationRow.key).toFinset.card = n := by
  have hkeys : s.tasks.rows.map DelegationRow.key = (range n).map fun i => ("desk", i.repr) := by
    rw [h, List.map_map]
    rfl
  rw [hkeys, toFinset_card_of_nodup, length_map, length_range]
  refine nodup_range.map fun _ _ heq => ?_
  exact repr_injective (Prod.ext_iff.mp heq).2

end

end

/-- Of a store that is filled to its bound the oldest task is given up. -/
theorem Filled.spends (h : s.Filled maxRetainedTasks) (htrees : s.settledTrees = .ok trees) :
    ∃ row ∈ s.tasks, [row.payload] ∈ s.spentTrees trees := by
  have hmem : fillRow 0 ∈ s.tasks := by
    rw [← mem_rows, h]
    exact mem_map_of_mem (mem_range.mpr (by decide))
  have htree : [(fillRow 0).payload] ∈ trees :=
    (mem_settledTrees htrees).mpr ⟨rfl, _, hmem, rfl, h.treeOf _⟩
  have hsubset : s.spentTrees trees ⊆ trees := spentTrees_subset
  unfold spentTrees at hsubset ⊢
  rw [h.length] at hsubset ⊢
  generalize hsorted : ((trees.map fun tree => (treeAge tree, tree)).insertionSort purgeOrder).map
    Prod.snd = sorted at hsubset ⊢
  cases sorted with
  | nil =>
    have hnone : trees = [] := by simpa using congrArg List.length hsorted
    rw [hnone] at htree
    cases htree
  | cons =>
    rw [takeTrees, if_neg (lt_irrefl _)] at hsubset ⊢
    obtain ⟨-, row, hrow, -, htreeOf⟩ := (mem_settledTrees htrees).mp (hsubset mem_cons_self)
    cases (h.treeOf row.payload).symm.trans htreeOf
    exact ⟨row, hrow, mem_cons_self⟩

/-- A store filled to its bound with settled tasks is relieved. -/
theorem filled_store_relieved : ∃ s s' : DelegationStore, s.Filled maxRetainedTasks ∧
    s.retainedKeys.card = maxRetainedTasks ∧ s.relieve 20 (fun _ => "g") = .ok s' ∧
    s'.Relieved := by
  obtain ⟨s, hrun, hfilled, hreceipts⟩ := filled (s := init "g0") rfl maxRetainedTasks
  have hkeys : s.retainedKeys.card = maxRetainedTasks := by
    rw [retainedKeys, hreceipts]
    exact (congrArg Finset.card (Finset.union_empty _)).trans hfilled.taskKeys
  have hrelievable : s.Relievable := by
    refine ⟨hfilled.narrow, .inr fun trees htrees => .inl ?_⟩
    obtain ⟨row, hrow, hspent⟩ := hfilled.spends htrees
    obtain ⟨i, rfl⟩ := hfilled.mem hrow
    rw [← hkeys]
    refine Finset.card_lt_card ((Finset.ssubset_iff_of_subset keysLeft_subset).mpr ?_)
    refine ⟨(fillRow i).key, mem_retainedKeys.mpr (.inl ⟨_, hrow, rfl⟩), fun hleft => ?_⟩
    rcases mem_keysLeft.mp hleft with ⟨other, hother, hkey, hkept⟩ | ⟨receipt, hreceipt, -⟩
    · obtain ⟨j, rfl⟩ := hfilled.mem hother
      have hsame : j.repr = i.repr := (Prod.ext_iff.mp hkey).2
      exact hkept _ hspent (mem_singleton.mpr hsame)
    · rw [hreceipts] at hreceipt
      exact not_mem_empty hreceipt
  obtain ⟨s', hrelieve, hrelieved⟩ := (retention_pressure_relieved hrun (by rw [hkeys]; decide)
    (by rw [hfilled.length]; decide) 20 fun _ => "g").mpr hrelievable
  exact ⟨s, s', hfilled, hkeys, hrelieve, hrelieved⟩

/-! ## The receipt of a purged task -/

def samplePurgedAdmission : DelegationStore :=
  sampleAdmitted.step plainEnvironment plainCodec (.purgeTrees samplePurge)

theorem samplePurgedAdmission_run : ∃ ops,
    Run (step plainEnvironment plainCodec) Places (init "g0") ops samplePurgedAdmission := by
  refine ⟨[.reserve sampleReceipt 5, .choose ("human", "r1") [1] "c01" [3] .automatic none 6,
    .admitTask { sampleReceipt with revision := 1 } sampleRoot "r1" [3] 7 7 "g1",
    .purgeTrees samplePurge], ?_⟩
  exact .cons trivial (.cons trivial (.cons (.inl rfl) (.cons trivial (.nil _))))

/-- Every task is settled and the one receipt is final, yet the two steps remove nothing: the
receipt outlives its task, and one task less than the bound stops the purge of trees. -/
theorem settled_store_stays_saturated : ∃ ops s,
    Run (step plainEnvironment plainCodec) Places (init "g0") ops s ∧
      maxRetainedTasks ≤ s.retainedKeys.card ∧
      (∀ row ∈ s.tasks, row.payload.settled = true) ∧
      (∀ receipt ∈ s.receipts, receipt.state.holdsSlot = false) ∧
      s.relieve 30 (fun _ => "g") = .ok s ∧ ¬ s.Relieved := by
  obtain ⟨_, hbefore⟩ := samplePurgedAdmission_run
  obtain ⟨s, hrun, hfilled, hreceipts⟩ :=
    filled (s := samplePurgedAdmission) (by decide +kernel) 4095
  have hrows : s.receipts.rows = [sampleLater] := by
    rw [hreceipts]
    decide +kernel
  have hstate : ∀ receipt ∈ s.receipts, receipt.state = .admitted := by
    intro receipt hmem
    rw [← mem_rows, hrows, mem_singleton] at hmem
    rw [hmem]
    rfl
  have hkey : ("human", "r1") ∉ (s.tasks.rows.map DelegationRow.key).toFinset := by
    rw [List.mem_toFinset]
    intro hmem
    obtain ⟨_, hrow, heq⟩ := mem_map.mp hmem
    obtain ⟨_, rfl⟩ := hfilled.mem hrow
    have howner : "desk" = "human" := (Prod.ext_iff.mp heq).1
    exact absurd howner (by decide)
  have hcard : s.retainedKeys.card = 4096 := by
    have hone : ([sampleLater].map AutoAdmissionReceipt.key).toFinset = {("human", "r1")} := rfl
    rw [retainedKeys, hrows, hone, Finset.card_union_of_disjoint, hfilled.taskKeys,
      Finset.card_singleton]
    exact Finset.disjoint_singleton_right.mpr hkey
  refine ⟨_, s, hbefore.append hrun, hcard.ge, fun _ => hfilled.settled, ?_, ?_, ?_⟩
  · intro receipt hmem
    rw [hstate receipt hmem]
    rfl
  · have hnone : s.purgeableReceipts = [] := by
      refine filter_eq_nil_iff.mpr fun receipt hmem => ?_
      simp [purgeable, hstate receipt hmem]
    have hpressure : s.purgeAutoRefusalsUnderPressure 30 maxRetainedTasks = .ok (0, s) := by
      rw [purgeAutoRefusalsUnderPressure_eq, if_neg (by rw [hcard]; decide), purgeAutoRefusalsIn,
        if_neg (Nat.succ_ne_zero _)]
      simp only [all_none, Bool.and_true]
      rw [show s.receipts.select s.purgeable = [] from hnone, hcard]
      rfl
    obtain ⟨_, htrees⟩ := narrow_iff.mp hfilled.narrow
    simp only [relieve, ok_iff, pair_iff, exists_eq_right]
    refine ⟨0, s, hpressure, 0, ?_⟩
    rw [purgeTrees, htrees, ok_bind]
    have hfew : s.tasks.rows.length < maxRetainedTasks := by
      rw [hfilled.length]
      decide
    refine congrArg Except.ok ?_
    generalize insertionSort purgeOrder _ = aged
    cases aged with
    | nil => rfl
    | cons => rw [purgeLoop, if_pos (.inr ⟨_, rfl, hfew⟩)]
  · rintro (hroom | hheld)
    · rw [hcard] at hroom
      exact absurd hroom (by decide)
    have hstored : s.receipt? ("human", "r1") = some sampleLater :=
      receipt?_eq_some.mpr ⟨by rw [← mem_rows, hrows]; exact mem_singleton_self _, rfl⟩
    have hretained : ("human", "r1") ∈ s.retainedKeys :=
      mem_retainedKeys.mpr (.inr (by rw [hstored]; rfl))
    rcases hheld _ hretained with htask | hreceipt
    · obtain ⟨row, hrow, heq, -⟩ := htask
      exact hkey (mem_toFinset.mpr (mem_map.mpr ⟨row, hrow, heq⟩))
    · obtain ⟨_, hfound, hslot⟩ := hreceipt
      rw [hstored] at hfound
      cases hfound
      cases hslot

end DelegationStore

end Bridget.Delegation
