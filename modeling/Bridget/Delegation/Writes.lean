import Bridget.Delegation.Receipts

/-!
# What the writes do to the rows

Seen through its id, a task is inserted, rewritten or deleted; no write touches two tasks
except the deletion of a tree.
-/

namespace Bridget.Delegation

open Foundation Table

namespace DelegationStore

variable {env : TaskEnvironment} {s s' : DelegationStore} {row : DelegationRow} {id : String}
  {task t old new : Task} {now : Int} {fresh : String} {tasks : Table DelegationRow}

def rowAt (s : DelegationStore) (id : String) : Option DelegationRow :=
  s.tasks.find? (·.taskId = id)

theorem pins_taskId (id : String) : PinsKey fun row : DelegationRow => decide (row.taskId = id) :=
  pinsKey_field fun _ _ => .inl

theorem rowAt_eq_some : s.rowAt id = some row ↔ row ∈ s.tasks ∧ row.taskId = id := by
  rw [rowAt, find?_eq_some (pins_taskId id), decide_eq_true_iff]

theorem rowAt_of_mem (h : row ∈ s.tasks) : s.rowAt row.taskId = some row :=
  rowAt_eq_some.mpr ⟨h, rfl⟩

theorem get_eq_some : s.get id = some t ↔ ∃ row, s.rowAt id = some row ∧ row.payload = t := by
  exact Option.map_eq_some_iff

/-- Everything but the tasks, the past missions and the counter of the projection is the
same. -/
structure SameBeside (s s' : DelegationStore) : Prop where
  receipts : s'.receipts = s.receipts
  refusals : s'.refusals = s.refusals
  tombstones : s'.tombstones = s.tombstones
  childRequests : s'.childRequests = s.childRequests

structure Inserted (s : DelegationStore) (row : DelegationRow) (s' : DelegationStore) : Prop where
  free : s.rowAt row.taskId = none
  table : s.tasks.insert row = .ok s'.tasks
  rows : s'.rowAt = Function.update s.rowAt row.taskId (some row)
  beside : SameBeside s s'

/-- One stored row was replaced by another one of the same id and request. -/
structure Rewritten (s : DelegationStore) (row row' : DelegationRow) (s' : DelegationStore) :
    Prop where
  stored : s.rowAt row.taskId = some row
  taskId : row'.taskId = row.taskId
  requestId : row'.requestId = row.requestId
  table : ∀ r, r ∈ s'.tasks ↔ r = row' ∨ r ≠ row ∧ r ∈ s.tasks
  length : s'.tasks.rows.length = s.tasks.rows.length
  rows : s'.rowAt = Function.update s.rowAt row.taskId (some row')
  beside : SameBeside s s'

theorem Inserted.of_insert (h : s.tasks.insert row = .ok tasks)
    (htasks : s'.tasks = tasks) (hbeside : SameBeside s s') : Inserted s row s' := by
  subst htasks
  have hfree : s.rowAt row.taskId = none :=
    find?_eq_none_of_insert h fun _ hr => .inl (of_decide_eq_true hr)
  exact ⟨hfree, h, lookup_insert DelegationRow.taskId hfree h, hbeside⟩

theorem Rewritten.of_update {p : DelegationRow → Bool} {n : Nat}
    {f : DelegationRow → DelegationRow} (h : s.tasks.update p f = .ok (tasks, n))
    (hp : ∀ r, p r = true → r.taskId = id) (hrow : s.rowAt id = some row) (hprow : p row = true)
    (hid : ∀ r, (f r).taskId = r.taskId) (hrequest : ∀ r, (f r).requestId = r.requestId)
    (htasks : s'.tasks = tasks) (hbeside : SameBeside s s') : Rewritten s row (f row) s' := by
  subst htasks
  obtain ⟨hmem, rfl⟩ := rowAt_eq_some.mp hrow
  have hpq : ∀ r, p r = true → decide (r.taskId = row.taskId) = true := by
    intro r hr
    simpa using hp r hr
  have hone : n = 1 := (update_rows h).2.trans (count_eq_one (pins_taskId _) hpq hmem hprow)
  subst hone
  obtain ⟨found, hfound, -, hrows⟩ :=
    lookup_update DelegationRow.taskId row.taskId pins_taskId h hp hid
  cases hrow.symm.trans hfound
  refine ⟨hrow, hid row, hrequest row, ?_, ?_, hrows, hbeside⟩
  · obtain ⟨h0, -⟩ | ⟨-, r₀, hr₀, hpr₀, htable⟩ := update_pinned (pins_taskId _) hpq h
    · cases h0
    · obtain rfl : r₀ = row := eq_of_conflicts hr₀ hmem (.inl (hp r₀ hpr₀))
      exact htable
  · rw [(update_rows h).1, List.length_map]

theorem insertProjectedIn_cases {requestId : String} {canonical : List UInt8}
    (h : s.insertProjectedIn env task requestId canonical now fresh = .ok (t, s')) :
    t = insertedTask env now task ∧
      Inserted s ⟨t.taskId, t.ownerInstance, requestId, canonical, t⟩ s' := by
  unfold insertProjectedIn at h
  simp only [ok_iff, sqlite_eq_ok, pair_iff] at h
  obtain ⟨_, hinsert, rfl, rfl⟩ := h
  exact ⟨rfl, .of_insert hinsert rfl ⟨rfl, rfl, rfl, rfl⟩⟩

theorem writeTask_cases {ownerInstance : String → String}
    (h : s.writeTask env old new ownerInstance fresh = .ok s')
    (hrow : s.rowAt new.taskId = some row) :
    Rewritten s row
      { row with payload := new, ownerInstance := ownerInstance row.ownerInstance } s' := by
  unfold writeTask at h
  simp only [ok_iff, sqlite_eq_ok] at h
  obtain ⟨⟨_, _⟩, hupdate, rfl⟩ := h
  have htaskId := (rowAt_eq_some.mp hrow).2
  refine .of_update hupdate (fun _ hr => of_decide_eq_true hr) hrow (by simp [htaskId])
    (fun _ => rfl) (fun _ => rfl) ?_ ?_
  · split <;> rfl
  · split <;> exact ⟨rfl, rfl, rfl, rfl⟩

theorem save_cases (h : s.save env task now fresh = .ok s') :
    ∃ row, s.rowAt task.taskId = some row ∧
      task.remoteResultReceipts = row.payload.remoteResultReceipts ∧
      (∀ slot ∈ row.payload.remoteResultSlots, slot ∈ task.remoteResultSlots) ∧
      task.remoteResultSlots.Pairwise (·.identity ≠ ·.identity) ∧
      Rewritten s row { row with
        payload := savedTask env now task row.payload
        ownerInstance := task.ownerInstance } s' := by
  unfold save at h
  simp only [ok_iff] at h
  obtain ⟨_, hold, -, hreceipts, -, ⟨-, hslots⟩, -, hvalid, hwrite⟩ := h
  obtain ⟨row, hrow, rfl⟩ := get_eq_some.mp hold
  exact ⟨row, hrow, hreceipts, hslots, hvalid.2, writeTask_cases hwrite hrow⟩

theorem commitRemoteResult_cases {expected next : Task} {result : RemoteResultEnvelope}
    {disposition : RemoteResultDisposition}
    (h : s.commitRemoteResult env expected next result disposition now fresh = .ok s') :
    ∃ row receipts, s.rowAt expected.taskId = some row ∧ row.payload = expected ∧
      next.taskId = expected.taskId ∧
      (∃ slot ∈ expected.remoteResultSlots, slot.identity = result.identity) ∧
      recordDisposition expected.remoteResultReceipts result disposition = .ok receipts ∧
      Rewritten s row { row with
        payload := stamp env now { next with remoteResultReceipts := receipts }
          (some expected) } s' := by
  unfold commitRemoteResult at h
  simp only [ok_iff] at h
  obtain ⟨-, -, _, hold, -, ⟨rfl, hid, hslot⟩, receipts, hreceipts, hwrite⟩ := h
  obtain ⟨row, hrow, hpayload⟩ := get_eq_some.mp hold
  have hrow' : s.rowAt next.taskId = some row := by
    rw [hid]
    exact hrow
  exact ⟨row, receipts, hrow, hpayload, hid, hslot, hreceipts, writeTask_cases hwrite hrow'⟩

theorem beginRound_cases {taskId : String} {expectedRound : Nat} {clock : Int}
    {record : RoundRecord} {mission roundBody : String}
    (h : s.beginRound env taskId expectedRound clock record mission roundBody now fresh =
      .ok (t, s')) :
    ∃ row, t = nextRound env now row.payload record mission roundBody ∧
      Rewritten s row { row with payload := t } s' := by
  unfold beginRound at h
  simp only [bind_eq_ok, orError_eq_ok, ensure_eq_ok, sqlite_eq_ok, pure_eq_ok, Prod.mk.injEq] at h
  obtain ⟨old, hold, -, hround, -, -, -, -, -, hstate, -, -, deadline, hdeadline, -, -, -, -, -, -,
    pastMissions, -, ⟨tasks, changed⟩, hupdate, -, hchanged, rfl, rfl⟩ := h
  obtain ⟨row, hrow, rfl⟩ := get_eq_some.mp hold
  refine ⟨row, rfl, ?_⟩
  refine .of_update hupdate ?_ hrow ?_ (fun _ => rfl) (fun _ => rfl) rfl ⟨rfl, rfl, rfl, rfl⟩
  · intro _ hr
    simp only [test_iff] at hr
    exact hr.1.1
  · simp [hround, hstate, (rowAt_eq_some.mp hrow).2]

end DelegationStore

end Bridget.Delegation
