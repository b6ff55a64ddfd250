import Bridget.Delegation.ForestRuns

/-!
# Receipts of remote results

Only `commitRemoteResult` writes the receipts of a task, and it compares the stored record
with the one its caller read. A save carries the stored receipts along.
-/

namespace Bridget.Delegation

open Foundation List

variable {receipts receipts' : List RemoteResultReceipt} {result : RemoteResultEnvelope}
  {disposition : RemoteResultDisposition} {task task' task'' : Task} {i : Nat}
  {f : RemoteResultReceipt → RemoteResultReceipt}

/-- The receipt is about this result, not about another one of the same identity. -/
def RemoteResultReceipt.Proves (receipt : RemoteResultReceipt) (result : RemoteResultEnvelope) :
    Prop :=
  receipt.worker = result.worker ∧ receipt.messageId = result.messageId ∧
    receipt.digest = result.digest

/-- Two states of one receipt: the disposition changes only while it is deferred. -/
def RemoteResultReceipt.Kept (receipt receipt' : RemoteResultReceipt) : Prop :=
  receipt' = { receipt with
    disposition := receipt'.disposition, conflictSeen := receipt'.conflictSeen } ∧
    (receipt.disposition.isDeferred = false → receipt'.disposition = receipt.disposition)

theorem recordDisposition_cases
    (h : recordDisposition receipts result disposition = .ok receipts') :
    (∃ i f receipt, receipts' = receipts.modify i f ∧ receipts[i]? = some receipt ∧
      receipt.identity = result.identity ∧ receipt.Kept (f receipt) ∧ (¬ receipt.Proves result →
        disposition = .rejectedConflict ∧ f = ({ · with conflictSeen := true }))) ∨
    result.identity ∉ receipts.map (·.identity) ∧ receipts.length < maxRemoteResultSlots ∧
      ∃ receipt, receipt.identity = result.identity ∧ receipts' = receipts ++ [receipt] := by
  unfold recordDisposition at h
  simp only at h
  split at h
  case h_1 found hfound =>
    have hidentity := find?_some hfound
    rw [decide_eq_true_iff] at hidentity
    rw [find?_eq_getElem?_findIdx] at hfound
    refine .inl ⟨receipts.findIdx fun receipt => decide (receipt.identity = result.identity), ?_⟩
    split at h
    · split at h <;> cases h
      next hconflict =>
        exact ⟨_, found, rfl, hfound, hidentity, ⟨rfl, fun _ => rfl⟩,
          fun _ => ⟨not_not.mp hconflict, rfl⟩⟩
    rename_i hproves
    have hproves : found.Proves result := not_not.mp hproves
    split at h
    · rename_i hdeferred
      cases h
      refine ⟨_, found, rfl, hfound, hidentity, ⟨rfl, fun hfinal => ?_⟩, absurd hproves⟩
      cases hdeferred.symm.trans hfinal
    · split at h <;> cases h
      exact ⟨id, found, (modify_id ..).symm, hfound, hidentity, ⟨rfl, fun _ => rfl⟩, absurd hproves⟩
  case h_2 hnone =>
    split at h <;> cases h
    next hroom =>
      refine .inr ⟨fun hmem => ?_, not_le.mp hroom, _, rfl, rfl⟩
      obtain ⟨receipt, hreceipt, heq⟩ := mem_map.mp hmem
      simpa [heq] using find?_eq_none.mp hnone receipt hreceipt

namespace Task

def resultIdentities (task : Task) : List WorkerResultIdentity :=
  task.remoteResultReceipts.map (·.identity)

/-- At most one receipt for each result, and each result has a slot. -/
structure Recorded (task : Task) : Prop where
  distinct : task.resultIdentities.Nodup
  bounded : task.resultIdentities.length ≤ maxRemoteResultSlots
  slotted : task.resultIdentities ⊆ task.remoteResultSlots.map (·.identity)

/-- No two slots are for one result. -/
def DistinctSlots (task : Task) : Prop := task.remoteResultSlots.Pairwise (·.identity ≠ ·.identity)

/-- No slot is removed, and slots that are distinct stay distinct. -/
structure SlotsGrow (task task' : Task) : Prop where
  subset : task.remoteResultSlots ⊆ task'.remoteResultSlots
  distinct : task.DistinctSlots → task'.DistinctSlots

/-- Each receipt keeps its place and what is `Kept` of it. -/
def ReceiptsGrow (task task' : Task) : Prop :=
  ∀ (i : Nat) (receipt : RemoteResultReceipt), task.remoteResultReceipts[i]? = some receipt →
    ∃ receipt', task'.remoteResultReceipts[i]? = some receipt' ∧ receipt.Kept receipt'

/-- What a run keeps of the results of a task. -/
structure Grows (task task' : Task) : Prop where
  slots : task.SlotsGrow task'
  receipts : task.ReceiptsGrow task'
  recorded : task'.Recorded

theorem SlotsGrow.of_eq (h : task'.remoteResultSlots = task.remoteResultSlots) :
    task.SlotsGrow task' := by
  constructor
  · rw [h]
    exact Subset.refl _
  · rw [DistinctSlots, DistinctSlots, h]
    exact id

theorem SlotsGrow.trans (h : task.SlotsGrow task') (h' : task'.SlotsGrow task'') :
    task.SlotsGrow task'' :=
  ⟨Subset.trans h.subset h'.subset, h'.distinct ∘ h.distinct⟩

theorem Recorded.grows_modify (h : task.Recorded)
    (hreceipts : task'.remoteResultReceipts = task.remoteResultReceipts.modify i f)
    (hkept : ∀ receipt, task.remoteResultReceipts[i]? = some receipt → receipt.Kept (f receipt))
    (hslots : task.SlotsGrow task') : task.Grows task' := by
  have hplaces : task.ReceiptsGrow task' := by
    intro j receipt hj
    rw [hreceipts, getElem?_modify, hj]
    refine ⟨_, rfl, ?_⟩
    split
    · next hij => exact hkept receipt (hij ▸ hj)
    · exact ⟨rfl, fun _ => rfl⟩
  have hidentities : task'.resultIdentities = task.resultIdentities := by
    refine ext_getElem? fun j => ?_
    rw [resultIdentities, resultIdentities, getElem?_map, getElem?_map]
    cases hj : task.remoteResultReceipts[j]? with
    | none => simpa [hreceipts] using hj
    | some receipt =>
      obtain ⟨receipt', hj', hkept', -⟩ := hplaces j receipt hj
      rw [hj', hkept']
      rfl
  refine ⟨hslots, hplaces, ⟨?_, ?_, ?_⟩⟩ <;> rw [hidentities]
  · exact h.distinct
  · exact h.bounded
  · exact Subset.trans h.slotted (map_subset _ hslots.subset)

theorem Recorded.grows (h : task.Recorded)
    (hreceipts : task'.remoteResultReceipts = task.remoteResultReceipts)
    (hslots : task.SlotsGrow task') : task.Grows task' :=
  h.grows_modify (hreceipts.trans (modify_id 0 _).symm) (fun _ _ => ⟨rfl, fun _ => rfl⟩) hslots

theorem Recorded.grows_of_recordDisposition (h : task.Recorded)
    (hslot : ∃ slot ∈ task.remoteResultSlots, slot.identity = result.identity)
    (hdisposed : recordDisposition task.remoteResultReceipts result disposition =
      .ok task'.remoteResultReceipts)
    (hslots : task'.remoteResultSlots = task.remoteResultSlots) : task.Grows task' := by
  obtain ⟨i, f, old, hmodify, hi, -, hkept, -⟩ | ⟨hfresh, hroom, receipt, hidentity, hadded⟩ :=
    recordDisposition_cases hdisposed
  · refine h.grows_modify hmodify (fun receipt hreceipt => ?_) (.of_eq hslots)
    cases hi.symm.trans hreceipt
    exact hkept
  have hidentities : task'.resultIdentities = task.resultIdentities ++ [result.identity] := by
    rw [resultIdentities, hadded, map_append, map_singleton, hidentity]
    rfl
  refine ⟨.of_eq hslots, fun i old hi => ⟨old, ?_, rfl, fun _ => rfl⟩, ?_⟩
  · rw [hadded, getElem?_append_left (List.getElem?_eq_some_iff.mp hi).1, hi]
  refine ⟨?_, ?_, ?_⟩ <;> rw [hidentities]
  · rw [← concat_eq_append]
    exact h.distinct.concat hfresh
  · simpa [resultIdentities] using hroom
  · rw [hslots]
    exact append_subset.mpr ⟨h.slotted, by simpa using hslot⟩

end Task

/-- The calls that write the receipts or the slots of a task. -/
def DelegationOp.WritesResults : DelegationOp → Prop
  | .commitRemoteResult expected next .. => next.remoteResultSlots = expected.remoteResultSlots
  | .save .. => True
  | _ => False

namespace DelegationStore

variable {env : TaskEnvironment} {codec : MetadataCodec} {s s' : DelegationStore}
  {row row' : DelegationRow} {op : DelegationOp} {ops : List DelegationOp} {id : String} {t : Task}

theorem Rewritten.get_eq (h : Rewritten s row row' s') :
    s'.get = Function.update s.get row.taskId (some row'.payload) := by
  funext id
  change (s'.rowAt id).map _ = _
  rw [h.rows, Function.update_apply, Function.update_apply]
  split <;> rfl

theorem Rewritten.grows (h : Rewritten s row row' s') (hget : s.get id = some t)
    (ht : t.Recorded) (hgrows : t = row.payload → t.Grows row'.payload) :
    ∃ t', s'.get id = some t' ∧ t.Grows t' := by
  rw [h.get_eq]
  by_cases hid : id = row.taskId
  · subst hid
    obtain ⟨_, hrow, rfl⟩ := get_eq_some.mp hget
    cases h.stored.symm.trans hrow
    exact ⟨_, Function.update_self .., hgrows rfl⟩
  · rw [Function.update_of_ne hid]
    exact ⟨t, hget, ht.grows rfl (.of_eq rfl)⟩

theorem step_grows (hop : op.WritesResults) (hget : s.get id = some t) (ht : t.Recorded) :
    ∃ t', (s.step env codec op).get id = some t' ∧ t.Grows t' := by
  rcases step_cases env codec s op with hok | hsame
  · generalize s.step env codec op = s' at hok ⊢
    cases op with
    | save =>
      obtain ⟨_, -, hreceipts, hslots, hdistinct, hwritten⟩ := save_cases hok
      refine hwritten.grows hget ht fun heq => ?_
      subst heq
      exact ht.grows hreceipts ⟨hslots, fun _ => hdistinct⟩
    | commitRemoteResult =>
      obtain ⟨_, _, -, rfl, -, hslot, hdisposed, hwritten⟩ := commitRemoteResult_cases hok
      refine hwritten.grows hget ht fun heq => ?_
      subst heq
      exact ht.grows_of_recordDisposition hslot hdisposed hop
    | _ => exact hop.elim
  · rw [hsame]
    exact ⟨t, hget, ht.grows rfl (.of_eq rfl)⟩

def sampleSlot : WorkerResultSlot := ⟨⟨⟨"c1", "root", "i1", 1⟩, "m1", 1, "e1", 1⟩, "d1"⟩

/-- The task after the operations; each of them is handed the copy that the earlier ones left. -/
def taskAfter (ops : List DelegationOp) : Task :=
  ((ops.foldl (step plainEnvironment plainCodec) sampleGrown).get "root").getD sampleRoot

def sampleResult (messageId : String) : RemoteResultEnvelope :=
  ⟨⟨"h1", "w1", 1⟩, sampleSlot.identity, messageId, "done", messageId⟩

def sampleSave : DelegationOp := .save { sampleRoot with remoteResultSlots := [sampleSlot] } 20 "g2"

def sampleCommit (ops : List DelegationOp) (messageId : String)
    (disposition : RemoteResultDisposition) : DelegationOp :=
  .commitRemoteResult (taskAfter ops) (taskAfter ops) (sampleResult messageId) disposition 21 "g3"

/-- A result is accepted, another one of the same identity is rejected, and the copy of the
first save comes again. -/
def sampleResults : List DelegationOp :=
  let accepted := [sampleSave, sampleCommit [sampleSave] "m1" .accepted]
  accepted ++ [sampleCommit accepted "m2" .rejectedConflict, sampleSave]

end DelegationStore

end Bridget.Delegation
