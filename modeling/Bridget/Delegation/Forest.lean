import Bridget.Delegation.Writes
import Bridget.Foundation.Forest

/-!
# The forest is well formed

Every parent is stored, and the way up from any task ends after at most eight tasks. Then the
recursive query lists exactly the tasks below a task, and a purge takes whole trees.
-/

namespace Bridget.Delegation

open Foundation Relation Function List Option

namespace DelegationStore

variable {s s' : DelegationStore} {row row' : DelegationRow} {id root : String}
  {rows : List DelegationRow} {n depth : Nat}

def parentOf (s : DelegationStore) (id : String) : Option String :=
  (s.rowAt id).bind fun row => row.payload.parentTaskId

theorem parentOf_of_mem (h : row ∈ s.tasks) : s.parentOf row.taskId = row.payload.parentTaskId := by
  rw [parentOf, rowAt_of_mem h, bind_some]

theorem stored_of_parentOf {p : String} (h : s.parentOf id = some p) :
    ∃ row, s.rowAt id = some row ∧ row.payload.parentTaskId = some p :=
  bind_eq_some_iff.mp h

structure Planted (s : DelegationStore) : Prop where
  named : ∀ {id row}, s.rowAt id = some row → row.payload.taskId = id
  hung : ∀ {id p}, s.parentOf id = some p → (s.rowAt p).isSome
  short : ∀ {id row}, s.rowAt id = some row → ∃ ids, Lineage s.parentOf id ids ∧ ids.length ≤ 8

namespace Planted

theorem init (generation : String) : Planted (DelegationStore.init generation) := by
  constructor
  · intro id row hrow
    cases hrow
  · intro id _ hp
    cases hp
  · intro id row hrow
    cases hrow

theorem stored_above {z : String} (h : Planted s) (hid : (s.rowAt id).isSome)
    (habove : ReflTransGen (Up s.parentOf) id z) : (s.rowAt z).isSome := by
  rcases habove.cases_tail with rfl | ⟨_, -, hup⟩
  · exact hid
  · exact h.hung hup

/-- A change that keeps the way up from every task that stays keeps the forest. -/
theorem of_agree (h : Planted s)
    (hnamed : ∀ {id row}, s'.rowAt id = some row → row.payload.taskId = id)
    (hkept : ∀ {id}, (s'.rowAt id).isSome → (s.rowAt id).isSome ∧ s'.parentOf id = s.parentOf id)
    (hclosed : ∀ {id p}, s'.parentOf id = some p → (s'.rowAt p).isSome) : Planted s' := by
  refine ⟨hnamed, hclosed, ?_⟩
  intro id row hrow
  have hstored : (s'.rowAt id).isSome := by simp [hrow]
  obtain ⟨_, hold⟩ := isSome_iff_exists.mp (hkept hstored).1
  obtain ⟨ids, hids, hlength⟩ := h.short hold
  refine ⟨ids, ?_, hlength⟩
  -- every ancestor stays, so the lineage is read off the new parents
  have hup : ∀ z, ReflTransGen (Up s.parentOf) id z → (s'.rowAt z).isSome := by
    intro z habove
    induction habove with
    | refl => exact hstored
    | tail _ hstep ih => exact hclosed (((hkept ih).2).trans hstep)
  refine hids.congr fun z hz => (hkept (hup z (hids.above hz).1)).2

theorem rewrite (h : Planted s) (hwrite : Rewritten s row row' s')
    (hid : row'.payload.taskId = row.payload.taskId)
    (hparent : row'.payload.parentTaskId = row.payload.parentTaskId) : Planted s' := by
  have hrows : ∀ {id}, (s'.rowAt id).isSome ↔ (s.rowAt id).isSome := by
    intro id
    rw [hwrite.rows]
    by_cases heq : id = row.taskId
    · simp [heq, hwrite.stored]
    · rw [update_of_ne heq]
  have hup : ∀ id, s'.parentOf id = s.parentOf id := by
    intro id
    unfold parentOf
    rw [hwrite.rows]
    by_cases heq : id = row.taskId
    · simp [heq, hwrite.stored, hparent]
    · rw [update_of_ne heq]
  refine h.of_agree ?_ ?_ ?_
  · intro id _ hfound
    rcases update_some_cases (hwrite.rows ▸ hfound) with ⟨rfl, rfl⟩ | ⟨-, hfound⟩
    · exact hid.trans (h.named hwrite.stored)
    · exact h.named hfound
  · intro id hstored
    exact ⟨hrows.mp hstored, hup id⟩
  · intro id _ hp
    rw [hup] at hp
    exact hrows.mpr (h.hung hp)

theorem insert (h : Planted s) (hinsert : Inserted s row s') (hid : row.payload.taskId = row.taskId)
    (hplace : row.payload.parentTaskId = none ∨ ∃ p ids, row.payload.parentTaskId = some p ∧
      (s.rowAt p).isSome ∧ Lineage s.parentOf p ids ∧ ids.length ≤ 7) : Planted s' := by
  have hup : s'.parentOf = update s.parentOf row.taskId row.payload.parentTaskId := by
    funext id
    unfold parentOf
    rw [hinsert.rows]
    by_cases heq : id = row.taskId
    · simp [heq]
    · simp [update_of_ne heq]
  have hold : ∀ {id}, (s.rowAt id).isSome → id ≠ row.taskId := by
    rintro _ hstored rfl
    simp [hinsert.free] at hstored
  have hnew : ∀ {id}, (s.rowAt id).isSome → (s'.rowAt id).isSome := by
    intro id hstored
    rwa [hinsert.rows, update_of_ne (hold hstored)]
  -- the new row is on no chain that was stored
  have hkeep : ∀ {id ids}, (s.rowAt id).isSome → Lineage s.parentOf id ids →
      Lineage s'.parentOf id ids := by
    intro id ids hstored hids
    refine hids.congr fun _ hz => ?_
    rw [hup, update_of_ne (hold (h.stored_above hstored (hids.above hz).1))]
  constructor
  · intro id found hfound
    rcases update_some_cases (hinsert.rows ▸ hfound) with ⟨rfl, rfl⟩ | ⟨-, hfound⟩
    · exact hid
    · exact h.named hfound
  · intro id p hp
    rw [hup] at hp
    by_cases heq : id = row.taskId
    · rw [heq, update_self] at hp
      rcases hplace with hnone | ⟨_, _, hq, hstored, -, -⟩
      · simp [hnone] at hp
      · cases hp.symm.trans hq
        exact hnew hstored
    · rw [update_of_ne heq] at hp
      exact hnew (h.hung hp)
  · intro id found hfound
    rw [hinsert.rows] at hfound
    by_cases heq : id = row.taskId
    · subst heq
      rcases hplace with hnone | ⟨_, ids, hp, hstored, hids, _⟩
      · refine ⟨[row.taskId], .root ?_, by simp⟩
        rw [hup, update_self, hnone]
      · refine ⟨ids ++ [row.taskId], .child ?_ (hkeep hstored hids), ?_⟩
        · rw [hup, update_self, hp]
        · rw [length_append, length_singleton]
          omega
    · rw [update_of_ne heq] at hfound
      obtain ⟨ids, hids, hlength⟩ := h.short hfound
      exact ⟨ids, hkeep (by simp [hfound]) hids, hlength⟩

theorem delete (gone : String → Prop) [DecidablePred gone] (h : Planted s)
    (hrows : ∀ id, s'.rowAt id = if gone id then none else s.rowAt id)
    (hbelow : ∀ {id p}, s.parentOf id = some p → gone p → gone id) : Planted s' := by
  have hstays : ∀ {id}, (s'.rowAt id).isSome → ¬ gone id ∧ s'.rowAt id = s.rowAt id := by
    intro id hstored
    rw [hrows] at hstored ⊢
    split at hstored
    · simp at hstored
    next hgone => exact ⟨hgone, if_neg hgone⟩
  refine h.of_agree ?_ ?_ ?_
  · intro id row hrow
    have hstored : (s'.rowAt id).isSome := by simp [hrow]
    rw [(hstays hstored).2] at hrow
    exact h.named hrow
  · intro id hstored
    obtain ⟨-, heq⟩ := hstays hstored
    refine ⟨heq ▸ hstored, ?_⟩
    rw [parentOf, parentOf, heq]
  · intro id p hp
    obtain ⟨_, hrow, hparent⟩ := stored_of_parentOf hp
    have hstored : (s'.rowAt id).isSome := by simp [hrow]
    obtain ⟨hgone, heq⟩ := hstays hstored
    have hup : s.parentOf id = some p := by rw [parentOf, ← heq, hrow, bind_some, hparent]
    rw [hrows, if_neg fun hgoneP => hgone (hbelow hup hgoneP)]
    exact h.hung hup

end Planted

/-- What `parent_lineage` has walked: every ancestor lies under the same root owner, and the
task is at most seven deep. -/
theorem climb_lineage {fuel : Nat} {visited : List String} {current : Task}
    (hplanted : Planted s) (hcurrent : s.get current.taskId = some current)
    (h : s.climb root fuel visited current = .ok ()) :
    ∃ ids, Lineage s.parentOf current.taskId ids ∧ visited.length + ids.length ≤ 7 := by
  induction fuel generalizing visited current with
  | zero => cases h
  | succ _ ih =>
    obtain ⟨_, hrow, hpayload⟩ := get_eq_some.mp hcurrent
    have hup : s.parentOf current.taskId = current.parentTaskId := by
      rw [parentOf, hrow, bind_some, hpayload]
    unfold climb at h
    split at h
    · cases h
    rename_i hfree
    push Not at hfree
    split at h
    next hnone => exact ⟨[current.taskId], .root (hup.trans hnone), by simp; omega⟩
    rename_i parent hparent
    split at h
    · cases h
    rename_i next hnext
    obtain ⟨_, hrow', hpayload'⟩ := get_eq_some.mp hnext
    have hnamed : next.taskId = parent := hpayload' ▸ hplanted.named hrow'
    subst hnamed
    split at h
    · cases h
    · obtain ⟨ids, hids, hlength⟩ := ih hnext h
      refine ⟨ids ++ [current.taskId], .child (hup.trans hparent) hids, ?_⟩
      simp only [length_cons, length_append, length_nil] at hlength ⊢
      omega

theorem parentLineage_cases {parent : Task} {up : Option String} (hplanted : Planted s)
    (hparent : s.get parent.taskId = some parent) (h : s.parentLineage parent = .ok (root, up)) :
    root = parent.rootOwner ∧ up = some parent.taskId ∧
      ∃ ids, Lineage s.parentOf parent.taskId ids ∧ ids.length ≤ 7 := by
  unfold parentLineage at h
  simp only [ok_iff, pair_iff] at h
  obtain ⟨_, hclimb, rfl, rfl⟩ := h
  obtain ⟨ids, hids, hlength⟩ := climb_lineage hplanted hparent hclimb
  refine ⟨rfl, rfl, ids, hids, ?_⟩
  simpa using hlength

theorem mem_childrenOf : row ∈ s.childrenOf id ↔
    row ∈ s.tasks ∧ row.payload.parentTaskId = some id := by
  rw [childrenOf, Table.mem_select, decide_eq_true_iff]

/-- The rows of one generation are those that climb to the task in as many steps. -/
theorem mem_below_iterate : row ∈ s.below^[n] (s.childrenOf id) ↔
    row ∈ s.tasks ∧ Climbs s.parentOf (n + 1) row.taskId id := by
  induction n generalizing row with
  | zero =>
    rw [iterate_zero_apply, mem_childrenOf]
    refine and_congr_right fun hrow => ?_
    rw [← parentOf_of_mem hrow]
    constructor
    · intro hup
      exact .up hup (.refl id)
    intro hclimbs
    cases hclimbs with
    | up hup hrest =>
      cases hrest
      exact hup
  | succ _ ih =>
    rw [iterate_succ_apply', below, mem_flatMap]
    constructor
    · rintro ⟨_, hparent, hrow⟩
      obtain ⟨hmem, hup⟩ := mem_childrenOf.mp hrow
      exact ⟨hmem, .up ((parentOf_of_mem hmem).trans hup) (ih.mp hparent).2⟩
    rintro ⟨hmem, hclimbs⟩
    cases hclimbs with
    | @up _ _ _ _ hup hrest =>
      cases hrest with
      | up hup' hrest' =>
        obtain ⟨parent, hparent, -⟩ := stored_of_parentOf hup'
        obtain ⟨hparentMem, rfl⟩ := rowAt_eq_some.mp hparent
        refine ⟨parent, ih.mpr ⟨hparentMem, .up hup' hrest'⟩, ?_⟩
        exact mem_childrenOf.mpr ⟨hmem, (parentOf_of_mem hmem).symm.trans hup⟩

theorem mem_generations : row ∈ s.generations depth rows ↔ ∃ n < depth, row ∈ s.below^[n] rows := by
  induction depth generalizing rows with
  | zero => simp [generations]
  | succ _ ih =>
    rw [generations, mem_append, mem_insertionSort, ih]
    constructor
    · rintro (hrow | ⟨n, hn, hrow⟩)
      · exact ⟨0, by omega, hrow⟩
      · exact ⟨n + 1, by omega, hrow⟩
    · rintro ⟨n, _, hrow⟩
      cases n with
      | zero => exact .inl hrow
      | succ n => exact .inr ⟨n, by omega, hrow⟩

/-- What holds inside each generation and from each generation to the later ones holds along
the whole list. -/
theorem generations_pairwise {rel : DelegationRow → DelegationRow → Prop}
    (hlevel : ∀ n, ((s.below^[n] rows).insertionSort (·.taskId ≤ ·.taskId)).Pairwise rel)
    (hlevels : ∀ n m, n < m → ∀ a ∈ s.below^[n] rows, ∀ b ∈ s.below^[m] rows, rel a b) :
    (s.generations depth rows).Pairwise rel := by
  induction depth generalizing rows with
  | zero => exact .nil
  | succ _ ih =>
    refine pairwise_append.mpr ⟨hlevel 0, ?_, ?_⟩
    · refine ih (fun n => hlevel (n + 1)) fun n m hnm => ?_
      exact hlevels (n + 1) (m + 1) (by omega)
    · intro a ha b hb
      obtain ⟨n, -, hb⟩ := mem_generations.mp hb
      exact hlevels 0 (n + 1) (by omega) a ((mem_insertionSort _).mp ha) b hb

theorem tasks_nodup : s.tasks.rows.Nodup := by
  refine s.tasks.unique.imp fun {_ _} hfree heq => hfree ?_
  subst heq
  exact .inl rfl

theorem eq_of_taskId {a b : DelegationRow} (ha : a ∈ s.tasks) (hb : b ∈ s.tasks)
    (h : a.taskId = b.taskId) : a = b :=
  Table.eq_of_conflicts ha hb (.inl h)

theorem below_iterate_nodup : (s.below^[n] (s.childrenOf id)).Nodup := by
  induction n with
  | zero => exact tasks_nodup.filter _
  | succ _ ih =>
    rw [iterate_succ_apply']
    refine nodup_flatMap.mpr ⟨fun _ _ => tasks_nodup.filter _, ?_⟩
    refine ih.imp_of_mem fun {a _} ha hb hne => ?_
    -- a task has one parent, so two parents share no child
    intro child hchildA hchildB
    have hids := (mem_childrenOf.mp hchildA).2.symm.trans (mem_childrenOf.mp hchildB).2
    exact hne (eq_of_taskId (mem_below_iterate.mp ha).1 (mem_below_iterate.mp hb).1
      (some.inj hids))

def listBelow (s : DelegationStore) (id : String) : List DelegationRow :=
  s.generations 8 (s.childrenOf id)

section

variable (h : Planted s)

include h

/-- In a planted forest a task is in one generation below another only. -/
theorem Planted.generation_unique {m : Nat} (hrow : row ∈ s.tasks)
    (hn : Climbs s.parentOf n row.taskId id) (hm : Climbs s.parentOf m row.taskId id) : n = m := by
  obtain ⟨_, hids, -⟩ := h.short (rowAt_of_mem hrow)
  obtain ⟨_, hids'⟩ := hids.of_climbs hn
  have hlength := hids.length_of_climbs hn hids'
  have hlength' := hids.length_of_climbs hm hids'
  omega

theorem Planted.mem_listBelow :
    row ∈ s.listBelow id ↔ row ∈ s.tasks ∧ TransGen (Up s.parentOf) row.taskId id := by
  rw [listBelow, mem_generations, Climbs.transGen_iff]
  constructor
  · rintro ⟨n, -, hrow⟩
    obtain ⟨hmem, hclimbs⟩ := mem_below_iterate.mp hrow
    exact ⟨hmem, n, hclimbs⟩
  rintro ⟨hmem, n, hclimbs⟩
  refine ⟨n, ?_, mem_below_iterate.mpr ⟨hmem, hclimbs⟩⟩
  obtain ⟨_, hids, _⟩ := h.short (rowAt_of_mem hmem)
  obtain ⟨_, hids'⟩ := hids.of_climbs hclimbs
  have hlength := hids.length_of_climbs hclimbs hids'
  omega

theorem Planted.listBelow_nodup : (s.listBelow id).Nodup := by
  refine generations_pairwise (fun n => ?_) ?_
  · exact (perm_insertionSort _ _).nodup_iff.mpr below_iterate_nodup
  rintro _ _ _ _ ha _ hb rfl
  obtain ⟨hmem, hn⟩ := mem_below_iterate.mp ha
  have hm := (mem_below_iterate.mp hb).2
  have heq := h.generation_unique hmem hn hm
  omega

/-- No task stands after one of its children. -/
theorem Planted.listBelow_ordered :
    (s.listBelow id).Pairwise fun a b => a.payload.parentTaskId ≠ some b.taskId := by
  have hearlier : ∀ n m, n ≤ m → ∀ a ∈ s.below^[n] (s.childrenOf id),
      ∀ b ∈ s.below^[m] (s.childrenOf id), a.payload.parentTaskId ≠ some b.taskId := by
    intro n m hnm a ha b hb hparent
    obtain ⟨hmemA, hn⟩ := mem_below_iterate.mp ha
    obtain ⟨-, hm⟩ := mem_below_iterate.mp hb
    have heq := h.generation_unique hmemA hn (.up ((parentOf_of_mem hmemA).trans hparent) hm)
    omega
  refine generations_pairwise (fun n => ?_) fun n m hnm => hearlier n m (by omega)
  refine List.Pairwise.imp_of_mem (R := fun _ _ => True) ?_
    (pairwise_of_forall fun _ _ => trivial)
  intro a b ha hb _
  exact hearlier n n le_rfl a ((mem_insertionSort _).mp ha) b
    ((mem_insertionSort _).mp hb)

theorem Planted.listBelow_length : (s.listBelow id).length ≤ s.tasks.rows.length := by
  refine (h.listBelow_nodup.subperm fun _ hrow => ?_).length_le
  exact (h.mem_listBelow.mp hrow).1

end

theorem descendants_eq_ok {tree : List Task} : s.descendants id = .ok tree ↔
    (s.listBelow id).length ≤ 4096 ∧ tree = (s.listBelow id).map DelegationRow.payload := by
  unfold descendants
  simp only [ok_iff, exists_const, length_take]
  rw [← listBelow]
  constructor
  · rintro ⟨_, rfl⟩
    have hlength : (s.listBelow id).length ≤ 4096 := by omega
    rw [take_of_length_le (by omega)]
    exact ⟨hlength, rfl⟩
  · rintro ⟨_, rfl⟩
    rw [take_of_length_le (by omega)]
    exact ⟨by omega, rfl⟩

end DelegationStore

end Bridget.Delegation
