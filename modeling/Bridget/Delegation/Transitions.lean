import Bridget.Delegation.Writes

/-!
# Transitions of a receipt

Whatever the caller passes, a transition writes over the receipt it has just read, so it is
described by the receipt before and the receipt after.
-/

namespace Bridget.Delegation

open Foundation AutoAdmissionReceipt Table Function

variable {codec : MetadataCodec}

/-- The states that a receipt can go to. Only the first contract decides without having
started, and only a started decision stays where it is, to change its level. -/
inductive Edge (version : Nat) : AutoAdmissionState → AutoAdmissionState → Prop
  | start : Edge version .pending .decisionStarted
  | advance : Edge version .decisionStarted .decisionStarted
  | decide (hversion : version = 1) : Edge version .pending .chosen
  | choose : Edge version .decisionStarted .chosen
  | enter : Edge version .chosen .admitted
  | refuse {state : AutoAdmissionState} (hopen : state.holdsSlot = true) :
      Edge version state .refused

theorem Edge.holdsSlot {version : Nat} {state state' : AutoAdmissionState}
    (h : Edge version state state') : state.holdsSlot = true := by
  cases h <;> first | rfl | assumption

/-- One transition: along an edge, with the next revision, to a valid receipt. -/
structure Moved (codec : MetadataCodec) (current next : AutoAdmissionReceipt) : Prop where
  key : next.key = current.key
  canonical : next.canonical = current.canonical
  version : next.metadataVersion = current.metadataVersion
  createdAt : next.createdAt = current.createdAt
  revision : next.revision = current.revision + 1
  edge : Edge current.metadataVersion current.state next.state
  valid : next.Valid codec

namespace AutoAdmissionReceipt

variable {receipt next : AutoAdmissionReceipt} {now : Int}

theorem advanced_eq_ok (h : receipt.advanced now = .ok next) :
    next = { receipt with
      revision := receipt.revision + 1, updatedAt := max now receipt.createdAt } := by
  unfold advanced at h
  simp only [ok_iff, checkedAdd_eq_some] at h
  obtain ⟨_, ⟨-, -, rfl⟩, rfl⟩ := h
  rfl

@[simp] theorem validate_eq_ok {u : Unit} : receipt.validate codec = .ok u ↔ receipt.Valid codec :=
  ensure_eq_ok

theorem Valid.wellShaped (h : receipt.Valid codec) : receipt.WellShaped :=
  h.2.2.2.2.2.2.2.2.2.2.2.2.2.2.2.2.2.2.2

end AutoAdmissionReceipt

namespace DelegationStore

variable {s s' : DelegationStore} {current next receipt : AutoAdmissionReceipt}
  {key : AdmissionKey} {canonical : List UInt8} {now : Int}

theorem pins_receipt (key : AdmissionKey) :
    Table.PinsKey fun receipt : AutoAdmissionReceipt => decide (receipt.key = key) :=
  pinsKey_field fun _ _ => id

theorem receipt?_eq_some :
    s.receipt? key = some receipt ↔ receipt ∈ s.receipts ∧ receipt.key = key := by
  rw [receipt?, find?_eq_some (pins_receipt key), decide_eq_true_iff]

theorem receipt?_of_mem (h : receipt ∈ s.receipts) : s.receipt? receipt.key = some receipt :=
  receipt?_eq_some.mpr ⟨h, rfl⟩

structure ReceiptWritten (s : DelegationStore) (current next : AutoAdmissionReceipt)
    (s' : DelegationStore) : Prop where
  stored : s.receipt? current.key = some current
  key : next.key = current.key
  lookup : s'.receipt? = update s.receipt? current.key (some next)
  beside : s' = { s with receipts := s'.receipts }

theorem currentReceipt_eq_ok : s.currentReceipt key canonical = .ok current ↔
    s.receipt? key = some current ∧ current.canonical = canonical := by
  unfold currentReceipt
  simp only [ok_iff]
  constructor
  · rintro ⟨_, hfound, _, hcanonical, rfl⟩
    exact ⟨hfound, hcanonical⟩
  · rintro ⟨hfound, hcanonical⟩
    exact ⟨_, hfound, (), hcanonical, rfl⟩

theorem ReceiptWritten.of_compareAndSet {condition : AutoAdmissionReceipt → Bool}
    {change : AutoAdmissionReceipt → AutoAdmissionReceipt}
    (h : s.compareAndSet condition change = .ok s') (hcurrent : s.receipt? key = some current)
    (hcondition : ∀ r, condition r = true → r.key = current.key)
    (hkeeps : ∀ r, (change r).key = r.key) : ReceiptWritten s current (change current) s' := by
  unfold compareAndSet at h
  simp only [ok_iff, sqlite_eq_ok] at h
  obtain ⟨⟨_, _⟩, hupdate, _, rfl, rfl⟩ := h
  obtain ⟨-, rfl⟩ := receipt?_eq_some.mp hcurrent
  obtain ⟨row, hrow, -, hlookup⟩ := lookup_update AutoAdmissionReceipt.key _ pins_receipt
    hupdate hcondition hkeeps
  cases hcurrent.symm.trans hrow
  exact ⟨hcurrent, hkeeps current, hlookup, rfl⟩

/-- The stored receipt of the key moved in one transaction of its own, which inserts no
task. -/
def Transition (codec : MetadataCodec) (s : DelegationStore) (key : AdmissionKey)
    (next : AutoAdmissionReceipt) (s' : DelegationStore) : Prop :=
  ∃ current, s.receipt? key = some current ∧ Moved codec current next ∧ next.state ≠ .admitted ∧
    ReceiptWritten s current next s'

theorem startAutoDecision_cases (h : s.startAutoDecision codec receipt now = .ok (next, s')) :
    Transition codec s receipt.key next s' := by
  unfold startAutoDecision at h
  simp only [ok_iff, currentReceipt_eq_ok, pair_iff, validate_eq_ok] at h
  obtain ⟨current, ⟨hcurrent, -⟩, _, -, _, ⟨hstate, -⟩, _, hnext, _, hvalid, _, hwrite, rfl,
    rfl⟩ := h
  obtain rfl := advanced_eq_ok hnext
  refine ⟨current, hcurrent, ⟨rfl, rfl, rfl, rfl, rfl, hstate ▸ .start, hvalid⟩, by simp, ?_⟩
  exact .of_compareAndSet hwrite hcurrent
    (by simp +contextual [AutoAdmissionReceipt.key]) fun _ => rfl

variable {level : AutoAdmissionDecisionLevel} {epoch revision : Int} {metadata : List UInt8}

theorem startAutoDecisionLevel_cases
    (h : s.startAutoDecisionLevel codec receipt epoch revision level now = .ok (next, s')) :
    Transition codec s receipt.key next s' := by
  unfold startAutoDecisionLevel at h
  simp only [ok_iff, currentReceipt_eq_ok, pair_iff, validate_eq_ok] at h
  obtain ⟨current, ⟨hcurrent, -⟩, _, ⟨-, -, hstate⟩, _, -, _, -, _, hnext, _, hvalid, _, hwrite,
    rfl, rfl⟩ := h
  obtain rfl := advanced_eq_ok hnext
  refine ⟨current, hcurrent, ⟨rfl, rfl, rfl, rfl, rfl, hstate ▸ .start, hvalid⟩, by simp, ?_⟩
  exact .of_compareAndSet hwrite hcurrent
    (by simp +contextual [AutoAdmissionReceipt.key]) fun _ => rfl

theorem advanceAutoAdmissionDecisionLevel_cases
    (h : s.advanceAutoAdmissionDecisionLevel codec receipt epoch revision level metadata now =
      .ok (next, s')) : Transition codec s receipt.key next s' := by
  unfold advanceAutoAdmissionDecisionLevel at h
  simp only [ok_iff, currentReceipt_eq_ok, pair_iff, validate_eq_ok] at h
  obtain ⟨current, ⟨hcurrent, -⟩, _, ⟨-, -, -, hstate⟩, _, -, _, -, _, hnext, _, hvalid, _, -, _, -,
    _, hwrite, rfl, rfl⟩ := h
  obtain rfl := advanced_eq_ok hnext
  refine ⟨current, hcurrent, ⟨rfl, rfl, rfl, rfl, rfl, ?_, hvalid⟩, by simp [hstate], ?_⟩
  · simp only [hstate]
    exact .advance
  exact .of_compareAndSet hwrite hcurrent
    (by simp +contextual [AutoAdmissionReceipt.key]) fun _ => rfl

variable {delegateCanonical : List UInt8} {candidateId : String} {mode : AutoAdmissionMode}
  {reason : Option String} {inserted : Bool}

theorem chooseAutoAdmission_cases
    (h : s.chooseAutoAdmission codec key canonical candidateId delegateCanonical mode reason now =
      .ok (next, s')) : Transition codec s key next s' := by
  unfold chooseAutoAdmission at h
  simp only [ok_iff, currentReceipt_eq_ok, pair_iff, validate_eq_ok] at h
  obtain ⟨current, ⟨hcurrent, -⟩, _, hversion, _, hstate, _, hnext, _, hvalid, _, hwrite, rfl,
    rfl⟩ := h
  obtain rfl := advanced_eq_ok hnext
  refine ⟨current, hcurrent, ⟨rfl, rfl, rfl, rfl, rfl, ?_, hvalid⟩, by simp, ?_⟩
  · rcases hstate with hstate | hstate <;> rw [hstate]
    · exact .decide hversion
    · exact .choose
  refine .of_compareAndSet hwrite hcurrent (fun _ hr => ?_) fun _ => rfl
  simp only [test_iff] at hr
  exact hr.1.trans (receipt?_eq_some.mp hcurrent).2.symm

theorem chooseAutoAdmissionAt_cases
    (h : s.chooseAutoAdmissionAt codec receipt epoch revision level candidateId delegateCanonical
      mode reason metadata now = .ok (next, s')) : Transition codec s receipt.key next s' := by
  unfold chooseAutoAdmissionAt at h
  simp only [ok_iff, currentReceipt_eq_ok, pair_iff, validate_eq_ok] at h
  obtain ⟨current, ⟨hcurrent, -⟩, _, ⟨-, -, hstate⟩, _, -, _, -, _, hnext, _, hvalid, _, -, _, -, _,
    -, _, hwrite, rfl, rfl⟩ := h
  obtain rfl := advanced_eq_ok hnext
  refine ⟨current, hcurrent, ⟨rfl, rfl, rfl, rfl, rfl, hstate ▸ .choose, hvalid⟩, by simp, ?_⟩
  exact .of_compareAndSet hwrite hcurrent
    (by simp +contextual [AutoAdmissionReceipt.key]) fun _ => rfl

/-- A refusal moves an open receipt, and answers a refused one as it is. -/
theorem refuseAutoAdmissionInner_cases {code : String} {proof : Option String}
    (h : s.refuseAutoAdmissionInner codec receipt code proof now = .ok (next, s')) :
    s' = s ∨ Transition codec s receipt.key next s' := by
  unfold refuseAutoAdmissionInner at h
  simp only [bind_eq_ok, currentReceipt_eq_ok] at h
  obtain ⟨current, ⟨hcurrent, -⟩, h⟩ := h
  split at h
  · cases h
    exact .inl rfl
  simp only [ok_iff, pair_iff, validate_eq_ok] at h
  obtain ⟨_, ⟨hstate, -⟩, metadata, hmetadata, _, hnext, _, hvalid, _, hwrite, rfl, rfl⟩ := h
  obtain rfl := advanced_eq_ok hnext
  refine .inr ⟨current, hcurrent, ⟨rfl, rfl, rfl, rfl, rfl, .refuse ?_, hvalid⟩, by simp, ?_⟩
  · rcases hstate with hstate | hstate | hstate <;> rw [hstate] <;> rfl
  have hwritten := ReceiptWritten.of_compareAndSet hwrite hcurrent
    (by simp +contextual [AutoAdmissionReceipt.key]) fun _ => rfl
  -- without a proof the metadata is the one that was read
  cases proof with
  | some => exact hwritten
  | none =>
    cases hmetadata
    exact hwritten

theorem admitAutoTask_cases {env : TaskEnvironment} {task : Task} {requestId : String} {clock : Int}
    {fresh : String}
    (h : s.admitAutoTask env codec receipt task requestId delegateCanonical now clock fresh =
      .ok s') :
    ∃ current next row middle, task.owner = receipt.owner ∧ s.receipt? receipt.key = some current ∧
      next.state = .admitted ∧ row = ⟨task.taskId, task.ownerInstance, requestId, delegateCanonical,
        insertedTask env clock task⟩ ∧
      next.taskId = some task.taskId ∧ next.delegateCanonical = some delegateCanonical ∧
      Moved codec current next ∧ Inserted s row middle ∧ ReceiptWritten middle current next s' := by
  unfold admitAutoTask at h
  simp only [ok_iff, currentReceipt_eq_ok, validate_eq_ok] at h
  obtain ⟨_, howner, current, ⟨hcurrent, -⟩, _, ⟨hstate, -, hdelegate⟩, ⟨stored, middle⟩,
    hinsert, _, hnext, _, hvalid, hwrite⟩ := h
  obtain ⟨rfl, hinserted⟩ := insertProjectedIn_cases hinsert
  obtain rfl := advanced_eq_ok hnext
  have hmiddle : middle.receipt? receipt.key = some current := by
    rw [receipt?, hinserted.beside.receipts]
    exact hcurrent
  refine ⟨current, _, _, middle, howner, hcurrent, ?_, rfl, ?_, ?_,
    ⟨?_, ?_, ?_, ?_, ?_, ?_, hvalid⟩, hinserted, .of_compareAndSet hwrite hmiddle ?_ fun _ => rfl⟩
  all_goals try rfl
  · exact hdelegate
  · rw [hstate]
    exact .enter
  · intro _ hr
    simp only [test_iff] at hr
    exact hr.1

theorem insertAutoAdmissionReceiptIn_cases
    (h : s.insertAutoAdmissionReceiptIn codec receipt = .ok (inserted, s')) :
    s' = s ∨ receipt.Valid codec ∧ s.tombstoned receipt.key = false ∧
      s.nativeAdmissionKeyReserved receipt.key = false ∧ s.receipt? receipt.key = none ∧
      s'.receipt? = update s.receipt? receipt.key (some receipt) ∧
      s' = { s with receipts := s'.receipts } := by
  unfold insertAutoAdmissionReceiptIn at h
  simp only [ok_iff, validate_eq_ok] at h
  obtain ⟨_, hvalid, _, hstone, _, hreserved, h⟩ := h
  split at h
  next hchanged =>
    cases h
    have hinsert := insertOrIgnore_inserted hchanged
    have hfree : s.receipt? receipt.key = none :=
      find?_eq_none_of_insert hinsert fun _ => of_decide_eq_true
    exact .inr ⟨hvalid, hstone, hreserved, hfree, lookup_insert key hfree hinsert, rfl⟩
  · simp only [ok_iff, pair_iff] at h
    obtain ⟨_, -, _, -, -, rfl⟩ := h
    exact .inl rfl

structure RefusalPurged (s : DelegationStore) (key : AdmissionKey) (s' : DelegationStore) :
    Prop where
  refused : ∃ receipt, s.receipt? key = some receipt ∧ s.purgeable receipt = true
  lookup : s'.receipt? = update s.receipt? key none
  tombstones : ∀ key', s'.tombstoned key' = true ↔ s.tombstoned key' = true ∨ key' = key
  beside : s' = { s with receipts := s'.receipts, tombstones := s'.tombstones }

theorem tombstoned_iff :
    s.tombstoned key = true ↔ ∃ row ∈ s.tombstones, (row.owner, row.requestId) = key := by
  simp [tombstoned]

/-- A tombstone that is written again keeps its key, and no other key is touched. -/
theorem exists_insertOrReplace {t : Table TombstoneRow} {stone : TombstoneRow} :
    (∃ row ∈ t.insertOrReplace stone, (row.owner, row.requestId) = key) ↔
      (∃ row ∈ t, (row.owner, row.requestId) = key) ∨ key = (stone.owner, stone.requestId) := by
  constructor
  · rintro ⟨row, hrow, rfl⟩
    rcases mem_insertOrReplace.mp hrow with ⟨hmem, -⟩ | rfl
    · exact .inl ⟨row, hmem, rfl⟩
    · exact .inr rfl
  rintro (⟨row, hrow, rfl⟩ | rfl)
  · by_cases hsame : UniqueKeys.conflicts row stone
    · exact ⟨stone, mem_insertOrReplace.mpr (.inr rfl), Prod.ext hsame.1.symm hsame.2.symm⟩
    · exact ⟨row, mem_insertOrReplace.mpr (.inl ⟨hrow, hsame⟩), rfl⟩
  · exact ⟨stone, mem_insertOrReplace.mpr (.inr rfl), rfl⟩

theorem purgeRefusal_cases (h : purgeRefusal now s key = .ok s') : RefusalPurged s key s' := by
  unfold purgeRefusal at h
  simp only [ok_iff] at h
  obtain ⟨_, hcount, rfl⟩ := h
  obtain ⟨receipt, hmem, hreceipt⟩ := exists_of_count_eq_one hcount
  simp only [test_iff] at hreceipt
  obtain ⟨rfl, hpurgeable⟩ := hreceipt
  have hstored := receipt?_of_mem hmem
  refine ⟨⟨receipt, hstored, hpurgeable⟩, ?_, ?_, rfl⟩
  · funext key'
    have hfind := find?_delete (t := s.receipts)
      (p := fun r => decide (r.key = receipt.key) && s.purgeable r) (pins_receipt key')
    refine hfind.trans ?_
    by_cases heq : key' = receipt.key
    · subst heq
      rw [update_self, ← receipt?, hstored]
      simp [Option.filter, hpurgeable]
    rw [update_of_ne heq, ← receipt?]
    cases hfound : s.receipt? key' with
    | none => rfl
    | some =>
      obtain ⟨-, rfl⟩ := receipt?_eq_some.mp hfound
      simp [Option.filter, heq]
  · intro key'
    rw [tombstoned_iff, tombstoned_iff]
    exact exists_insertOrReplace

inductive RefusalsPurged : DelegationStore → List AdmissionKey → DelegationStore → Prop
  | nil (s : DelegationStore) : RefusalsPurged s [] s
  | cons {s middle s' : DelegationStore} {key : AdmissionKey} {keys : List AdmissionKey}
      (hfirst : RefusalPurged s key middle) (hrest : RefusalsPurged middle keys s') :
      RefusalsPurged s (key :: keys) s'

theorem foldlM_purgeRefusal_cases {keys : List AdmissionKey}
    (h : keys.foldlM (purgeRefusal now) s = .ok s') : RefusalsPurged s keys s' := by
  induction keys generalizing s with
  | nil =>
    cases h
    exact .nil _
  | cons _ _ ih =>
    simp only [List.foldlM_cons, bind_eq_ok] at h
    obtain ⟨_, hfirst, hrest⟩ := h
    exact .cons (purgeRefusal_cases hfirst) (ih hrest)

theorem purgeAutoRefusalsIn_cases {limit count : Nat} {olderThan : Option Int}
    (h : s.purgeAutoRefusalsIn now limit olderThan = .ok (count, s')) :
    ∃ keys, RefusalsPurged s keys s' := by
  unfold purgeAutoRefusalsIn at h
  split at h
  · cases h
    exact ⟨[], .nil _⟩
  · simp only [ok_iff, pair_iff] at h
    obtain ⟨_, -, _, hfold, -, rfl⟩ := h
    exact ⟨_, foldlM_purgeRefusal_cases hfold⟩

end DelegationStore

end Bridget.Delegation
