import Bridget.Delegation.Purge
import Bridget.Foundation.Run

/-!
# Runs of the delegation store

A label is one call with all its arguments. A call that fails leaves the store as it was.
-/

namespace Bridget.Delegation

open Foundation

/-- The calls that write to the store. -/
inductive DelegationOp where
  | insert (task : Task) (requestId : String) (canonical : List UInt8) (now : Int)
      (fresh : String)
  | save (task : Task) (now : Int) (fresh : String)
  | commitRemoteResult (expected next : Task) (result : RemoteResultEnvelope)
      (disposition : RemoteResultDisposition) (now : Int) (fresh : String)
  | beginRound (taskId : String) (expectedRound : Nat) (clock : Int) (record : RoundRecord)
      (mission roundBody : String) (now : Int) (fresh : String)
  | purgeTrees (request : DelegationStore.PurgeRequest)
  | reserve (receipt : AutoAdmissionReceipt) (now : Int)
  | startDecision (receipt : AutoAdmissionReceipt) (now : Int)
  | startDecisionLevel (receipt : AutoAdmissionReceipt) (epoch revision : Int)
      (level : AutoAdmissionDecisionLevel) (now : Int)
  | advanceDecisionLevel (receipt : AutoAdmissionReceipt) (epoch revision : Int)
      (level : AutoAdmissionDecisionLevel) (metadata : List UInt8) (now : Int)
  | choose (key : AdmissionKey) (canonical : List UInt8) (candidateId : String)
      (delegateCanonical : List UInt8) (mode : AutoAdmissionMode) (reason : Option String)
      (now : Int)
  | chooseAt (receipt : AutoAdmissionReceipt) (epoch revision : Int)
      (level : AutoAdmissionDecisionLevel) (candidateId : String)
      (delegateCanonical : List UInt8) (mode : AutoAdmissionMode) (reason : Option String)
      (metadata : List UInt8) (now : Int)
  | refuse (receipt : AutoAdmissionReceipt) (code : String) (now : Int)
  | refuseWithCapacity (receipt : AutoAdmissionReceipt) (proof : String) (now : Int)
  | admitTask (receipt : AutoAdmissionReceipt) (task : Task) (requestId : String)
      (delegateCanonical : List UInt8) (now clock : Int) (fresh : String)
  | recordRefusal (key : AdmissionKey) (canonical : List UInt8) (code : String) (now : Int)
  | purgeExpiredRefusals (now : Int)
  | purgeRefusalsUnderPressure (now : Int) (bound : Nat)
  | purgeExpiredAutoRefusals (now : Int) (limit : Nat)

def DelegationOp.writesTasks : DelegationOp → Bool
  | .insert .. | .save .. | .commitRemoteResult .. | .beginRound .. | .purgeTrees ..
  | .admitTask .. => true
  | _ => false

namespace DelegationStore

section

variable (env : TaskEnvironment) (codec : MetadataCodec)

def apply (s : DelegationStore) : DelegationOp → Result DelegationStore
  | .insert task requestId canonical now fresh => s.insert env task requestId canonical now fresh
  | .save task now fresh => s.save env task now fresh
  | .commitRemoteResult expected next result disposition now fresh =>
    s.commitRemoteResult env expected next result disposition now fresh
  | .beginRound taskId expectedRound clock record mission roundBody now fresh =>
    (s.beginRound env taskId expectedRound clock record mission roundBody now fresh).map Prod.snd
  | .purgeTrees request => (s.purgeTrees request).map Prod.snd
  | .reserve receipt now => (s.reserveAutoAdmissionReceipt codec receipt now).map Prod.snd
  | .startDecision receipt now => (s.startAutoDecision codec receipt now).map Prod.snd
  | .startDecisionLevel receipt epoch revision level now =>
    (s.startAutoDecisionLevel codec receipt epoch revision level now).map Prod.snd
  | .advanceDecisionLevel receipt epoch revision level metadata now =>
    (s.advanceAutoAdmissionDecisionLevel codec receipt epoch revision level metadata now).map
      Prod.snd
  | .choose key canonical candidateId delegateCanonical mode reason now =>
    (s.chooseAutoAdmission codec key canonical candidateId delegateCanonical mode reason now).map
      Prod.snd
  | .chooseAt receipt epoch revision level candidateId delegateCanonical mode reason metadata now =>
    (s.chooseAutoAdmissionAt codec receipt epoch revision level candidateId delegateCanonical
      mode reason metadata now).map Prod.snd
  | .refuse receipt code now => (s.refuseAutoAdmission codec receipt code now).map Prod.snd
  | .refuseWithCapacity receipt proof now =>
    (s.refuseAutoAdmissionWithCapacity codec receipt proof now).map Prod.snd
  | .admitTask receipt task requestId delegateCanonical now clock fresh =>
    s.admitAutoTask env codec receipt task requestId delegateCanonical now clock fresh
  | .recordRefusal key canonical code now => .ok (s.recordRefusal key canonical code now).2
  | .purgeExpiredRefusals now => .ok (s.purgeExpiredRefusals now)
  | .purgeRefusalsUnderPressure now bound =>
    (s.purgeAutoRefusalsUnderPressure now bound).map Prod.snd
  | .purgeExpiredAutoRefusals now limit =>
    (s.purgeExpiredAutoAdmissionRefusals now limit).map Prod.snd

def step (s : DelegationStore) (op : DelegationOp) : DelegationStore :=
  match s.apply env codec op with
  | .ok s' => s'
  | .error _ => s

end

variable {env : TaskEnvironment} {codec : MetadataCodec} {s s' : DelegationStore}
  {op : DelegationOp} {keys : List AdmissionKey} {now : Int}

theorem step_cases (env : TaskEnvironment) (codec : MetadataCodec) (s : DelegationStore)
    (op : DelegationOp) :
    s.apply env codec op = .ok (s.step env codec op) ∨ s.step env codec op = s := by
  unfold step
  cases h : s.apply env codec op with
  | ok => exact .inl rfl
  | error => exact .inr rfl

theorem Transition.beside {key : AdmissionKey} {next : AutoAdmissionReceipt}
    (h : Transition codec s key next s') : s' = { s with receipts := s'.receipts } := by
  obtain ⟨_, -, -, -, hwritten⟩ := h
  exact hwritten.beside

theorem RefusalsPurged.beside (h : RefusalsPurged s keys s') :
    s' = { s with receipts := s'.receipts, tombstones := s'.tombstones } := by
  induction h with
  | nil => rfl
  | cons hfirst _ ih => rw [ih, hfirst.beside]

inductive ReceiptEffect (codec : MetadataCodec) (s : DelegationStore) : DelegationOp →
    DelegationStore → Prop
  | same (op : DelegationOp) : ReceiptEffect codec s op s
  | moved {op : DelegationOp} {key : AdmissionKey} {next : AutoAdmissionReceipt}
      {s' : DelegationStore} (h : Transition codec s key next s') : ReceiptEffect codec s op s'
  | purged {op : DelegationOp} {keys : List AdmissionKey} {s' : DelegationStore}
      (h : RefusalsPurged s keys s') : ReceiptEffect codec s op s'
  | reserved {receipt : AutoAdmissionReceipt} {now : Int} {keys : List AdmissionKey}
      {middle s' : DelegationStore} (hpurged : RefusalsPurged s keys middle)
      (hvalid : receipt.Valid codec) (hstone : middle.tombstoned receipt.key = false)
      (hfree : middle.nativeAdmissionKeyReserved receipt.key = false)
      (hnew : middle.receipt? receipt.key = none)
      (hlookup : s'.receipt? = Function.update middle.receipt? receipt.key (some receipt))
      (hbeside : s' = { middle with receipts := s'.receipts }) :
      ReceiptEffect codec s (.reserve receipt now) s'
  | refusals {op : DelegationOp} {s' : DelegationStore}
      (h : s' = { s with refusals := s'.refusals }) : ReceiptEffect codec s op s'

/-- A new receipt is written over a free key, perhaps after refused receipts gave way; a
replay changes nothing. -/
theorem ReceiptEffect.of_reserve {receipt : AutoAdmissionReceipt} {inserted : Bool}
    (h : s.reserveAutoAdmissionReceipt codec receipt now = .ok (inserted, s')) :
    ReceiptEffect codec s (.reserve receipt now) s' := by
  unfold reserveAutoAdmissionReceipt at h
  simp only [bind_eq_ok, AutoAdmissionReceipt.validate_eq_ok] at h
  obtain ⟨_, _, h⟩ := h
  split at h
  · simp only [ok_iff, pair_iff] at h
    obtain ⟨_, -, -, rfl⟩ := h
    exact .same _
  simp only [ok_iff] at h
  obtain ⟨_, -, _, -, _, -, middle, hmiddle, hinsert⟩ := h
  have hpurged : ∃ keys, RefusalsPurged s keys middle := by
    unfold makeRoom at hmiddle
    split at hmiddle
    · simp only [ok_iff] at hmiddle
      obtain ⟨⟨_, _⟩, hpurge, _, -, rfl⟩ := hmiddle
      exact purgeAutoRefusalsIn_cases hpurge
    · simp only [pure_eq_ok] at hmiddle
      exact ⟨[], hmiddle ▸ .nil s⟩
  obtain ⟨_, hkeys⟩ := hpurged
  rcases insertAutoAdmissionReceiptIn_cases hinsert with
    rfl | ⟨hvalid, hstone, hfree, hnew, hlookup, hbeside⟩
  · exact .purged hkeys
  · exact .reserved hkeys hvalid hstone hfree hnew hlookup hbeside

theorem ReceiptEffect.of_apply (h : s.apply env codec op = .ok s')
    (hop : op.writesTasks = false) : ReceiptEffect codec s op s' := by
  cases op <;> try cases hop
  all_goals simp only [apply, map_snd_eq_ok, Except.ok.injEq] at h
  case reserve =>
    obtain ⟨_, h⟩ := h
    exact .of_reserve h
  case startDecision =>
    obtain ⟨_, h⟩ := h
    exact .moved (startAutoDecision_cases h)
  case startDecisionLevel =>
    obtain ⟨_, h⟩ := h
    exact .moved (startAutoDecisionLevel_cases h)
  case advanceDecisionLevel =>
    obtain ⟨_, h⟩ := h
    exact .moved (advanceAutoAdmissionDecisionLevel_cases h)
  case choose =>
    obtain ⟨_, h⟩ := h
    exact .moved (chooseAutoAdmission_cases h)
  case chooseAt =>
    obtain ⟨_, h⟩ := h
    exact .moved (chooseAutoAdmissionAt_cases h)
  case refuse =>
    obtain ⟨_, h⟩ := h
    rcases refuseAutoAdmissionInner_cases h with rfl | hmoved
    · exact .same _
    · exact .moved hmoved
  case refuseWithCapacity =>
    obtain ⟨_, h⟩ := h
    rcases refuseAutoAdmissionInner_cases h with rfl | hmoved
    · exact .same _
    · exact .moved hmoved
  case recordRefusal =>
    subst h
    refine .refusals ?_
    unfold recordRefusal
    split
    · rfl
    split <;> rfl
  case purgeExpiredRefusals => exact .refusals (h ▸ rfl)
  case purgeRefusalsUnderPressure =>
    simp only [purgeAutoRefusalsUnderPressure, bind_eq_ok] at h
    obtain ⟨_, _, -, h⟩ := h
    split at h
    · cases h
      exact .purged (.nil _)
    · obtain ⟨_, hkeys⟩ := purgeAutoRefusalsIn_cases h
      exact .purged hkeys
  case purgeExpiredAutoRefusals =>
    simp only [purgeExpiredAutoAdmissionRefusals, bind_eq_ok] at h
    obtain ⟨_, _, -, h⟩ := h
    obtain ⟨_, hkeys⟩ := purgeAutoRefusalsIn_cases h
    exact .purged hkeys

theorem ReceiptEffect.tasks (h : ReceiptEffect codec s op s') : s'.tasks = s.tasks := by
  cases h with
  | same => rfl
  | moved h | purged h => rw [h.beside]
  | reserved hpurged _ _ _ _ _ hbeside => rw [hbeside, hpurged.beside]
  | refusals h => rw [h]

end DelegationStore

end Bridget.Delegation
