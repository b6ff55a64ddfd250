import Bridget.Idempotency.Operations

/-!
# Changes of deliveries

Every operation edits the deliveries that are there, begins new ones, or takes a delivery away
together with its record.
-/

namespace Bridget.Idempotency

open Foundation Table Option

namespace Store

variable {env : Envelopes} {s s' s'' : Store} {op : QueueOp}

/-- Every delivery was edited from one that was there, and no record was deleted. -/
structure Revises (op : QueueOp) (s s' : Store) : Prop where
  rows : ∀ d' ∈ s'.deliveries, ∃ d ∈ s.deliveries, Edits op d d'
  records : ∀ key, (s.loadRecord key).isSome = true → (s'.loadRecord key).isSome = true

theorem Revises.refl (s : Store) : Revises op s s := ⟨fun d hd => ⟨d, hd, .refl⟩, fun _ h => h⟩

theorem Revises.trans (h : Revises op s s') (h' : Revises op s' s'') : Revises op s s'' := by
  constructor
  · intro d'' hd''
    obtain ⟨d', hd', hlast⟩ := h'.rows d'' hd''
    obtain ⟨d, hd, hfirst⟩ := h.rows d' hd'
    exact ⟨d, hd, hfirst.trans hlast⟩
  · exact fun key hkey => h'.records key (h.records key hkey)

theorem Revises.then (h : Revises op s s') (hsame : SameTables s' s'') : Revises op s s'' := by
  constructor
  · rw [hsame.deliveries]
    exact h.rows
  · intro key hkey
    unfold loadRecord
    rw [hsame.records]
    exact h.records key hkey

theorem Writes.revises (h : Writes op s s') : Revises op s s' := ⟨h.rows, fun _ => h.keeps_records⟩

variable {key : IdempotencyKey} {request : BeginRequest} {taken : Option (String × SendDelivery)}

theorem revises_updateRecord {state : RecordState} {f : RecordRow → RecordRow}
    {records : Table RecordRow} {n : Nat} (h : s.updateRecord key state f = .ok (records, n))
    (hkey : ∀ r, (f r).key = r.key) : Revises op s { s with records } := by
  refine ⟨fun d hd => ⟨d, hd, .refl⟩, ?_⟩
  intro k hk
  change (records.find? fun r => decide (r.key = k)).isSome = true
  rw [loadRecord_update h hkey, isSome_map]
  exact hk

def Referenced (s : Store) : Prop := ∀ d ∈ s.deliveries, (s.loadRecord d.key).isSome = true

structure Begun (s : Store) (d' : DeliveryRow) : Prop where
  fresh : ∀ d ∈ s.deliveries, d.deliveryId ≠ d'.deliveryId
  gated : Gated d'

/-- Every delivery was there before, or is a new one, and has its record. -/
structure Evolves (op : QueueOp) (s s' : Store) : Prop where
  rows : ∀ d' ∈ s'.deliveries, (∃ d ∈ s.deliveries, Edits op d d') ∨ Begun s d'
  referenced : s.Referenced → s'.Referenced

theorem Revises.evolves (h : Revises op s s') : Evolves op s s' := by
  refine ⟨fun d' hd' => .inl (h.rows d' hd'), ?_⟩
  intro hreferenced d' hd'
  obtain ⟨d, hd, hedits⟩ := h.rows d' hd'
  rw [hedits.same.2.1]
  exact h.records _ (hreferenced d hd)

/-- Only a delivery that is sent at once may begin with the turn. -/
theorem begunRow_gated {message : BridgetMessage}
    (hexclusive : ¬ (request.heldForAgent.isSome = true ∧ request.executionLink.isSome = true)) :
    Gated (s.begunRow key request message) := by
  intro hgate
  left
  cases hlink : request.executionLink with
  | none => simp [begunRow, resumedGate, hlink] at hgate
  | some =>
    have hsent : request.heldForAgent.isSome = false := by simpa [hlink] using hexclusive
    simp [begunRow, hsent]

theorem beginSendDelivery_evolves {nowSecs : Int}
    (h : s.beginSendDeliveryWithGuidance env key request nowSecs = .ok s') : Evolves op s s' := by
  obtain ⟨_, records, deliveries, hkind, hexclusive, hupdate, hinsert, hsame⟩ :=
    beginSendDeliveryWithGuidance_spec h
  have hrecords : Revises op s { s with records } := revises_updateRecord hupdate fun _ => rfl
  have hload : ∀ k, s'.loadRecord k = records.find? fun r => decide (r.key = k) := by
    intro k
    rw [loadRecord, hsame.records]
  constructor
  · rw [hsame.deliveries]
    intro d' hd'
    obtain hold | rfl := (mem_insert hinsert).mp hd'
    · exact .inl ⟨d', hold, .refl⟩
    · refine .inr ⟨?_, begunRow_gated hexclusive⟩
      intro _ hd hid
      exact not_conflicts_of_insert hinsert hd (.inr (.inl hid))
  · intro hreferenced d' hd'
    rw [hsame.deliveries] at hd'
    rw [hload]
    obtain hold | rfl := (mem_insert hinsert).mp hd'
    · exact hrecords.records _ (hreferenced d' hold)
    · obtain ⟨_, -, -, hafter⟩ := loadRecord_update_self hupdate fun _ => rfl
      rw [begunRow_key hkind, hafter]
      rfl

theorem deleteRecords_evolves (p : RecordRow → Bool) : Evolves op s (s.deleteRecords p) := by
  constructor
  · intro d hd
    exact .inl ⟨d, (mem_delete.mp hd).1, .refl⟩
  intro hreferenced d hd
  obtain ⟨hstored, hkept⟩ := mem_delete.mp hd
  obtain ⟨r, hload⟩ := isSome_iff_exists.mp (hreferenced d hstored)
  obtain ⟨hr, hkey⟩ := loadRecord_eq_some.mp hload
  -- the record stays, since its deletion would have taken the delivery along
  have hstays : p r = false := by
    have hnone := List.any_eq_false.mp hkept r hr
    simpa [hkey] using hnone
  change ((s.records.delete p).find? fun r => decide (r.key = d.key)).isSome = true
  rw [find?_delete (pinsKey_record d.key)]
  change ((s.loadRecord d.key).filter fun r => !p r).isSome = true
  rw [hload, filter_some, hstays]
  rfl

theorem exec_evolves {op : Op} (h : s.exec env op = .ok s') : Evolves (.store op) s s' := by
  cases op with
  | reserve =>
    obtain ⟨_, hreturn⟩ := map_snd_eq_ok.mp h
    apply Revises.evolves
    obtain rfl | ⟨_, records, hinsert, rfl⟩ := reserve_cases hreturn
    · exact .refl _
    refine ⟨fun d hd => ⟨d, hd, .refl⟩, ?_⟩
    intro k hk
    change (records.find? fun r => decide (r.key = k)).isSome = true
    rw [find?_insert hinsert, isSome_or]
    exact Bool.or_eq_true_iff.mpr (.inl hk)
  | beginSendDelivery => exact beginSendDelivery_evolves h
  | rejectPrepared =>
    obtain ⟨_, _, hfirst, hsecond, rfl⟩ := rejectPrepared_updates h
    exact ((revises_updateRecord hfirst fun _ => rfl).trans
      (revises_updateRecord hsecond fun _ => rfl)).evolves
  | transition =>
    obtain ⟨_, hupdate, rfl⟩ := transition_updates h
    exact (revises_updateRecord hupdate fun _ => rfl).evolves
  | finalize =>
    obtain ⟨_, hupdate, rfl⟩ := finalize_updates h
    exact (revises_updateRecord hupdate fun _ => rfl).evolves
  | purgeExpired now =>
    cases h
    have hdeleted : Evolves (.store (.purgeExpired now)) s
        (s.deleteRecords fun r => r.expiresAt ≤ now) := deleteRecords_evolves _
    exact ⟨hdeleted.rows, hdeleted.referenced⟩
  | purgeExpiredSends =>
    cases h
    exact deleteRecords_evolves _
  | _ =>
    obtain ⟨_, hwrites, hsame, -⟩ := exec_writes h rfl
    exact (hwrites.revises.then hsame).evolves

theorem exec_of_execQueue {op : Op}
    (h : s.execQueue env (.store op) = .ok (taken, s')) : s.exec env op = .ok s' := by
  cases op <;> simp only [execQueue, ok_iff, pair_iff] at h
  case releaseNextHeld =>
    obtain ⟨_, _, _, hrelease, -, rfl⟩ := h
    exact map_snd_eq_ok.mpr ⟨_, hrelease⟩
  case promote =>
    obtain ⟨_, _, _, _, hpromote, -, rfl⟩ := h
    exact map_snd_eq_ok.mpr ⟨_, hpromote⟩
  all_goals
    obtain ⟨_, hexec, -, rfl⟩ := h
    exact hexec

theorem execQueue_evolves (h : s.execQueue env op = .ok (taken, s')) : Evolves op s s' := by
  cases op with
  | store => exact exec_evolves (exec_of_execQueue h)
  | reclassify =>
    simp only [execQueue, reclassifyDispatching, ok_iff, sql_eq_ok, pair_iff] at h
    obtain ⟨_, ⟨_, _, hupdate, rfl⟩, -, rfl⟩ := h
    apply (Writes.update hupdate (fun _ => rfl) (fun _ => .inr (.inr rfl)) ?_).revises.evolves
    intro d _ hselected
    simp only [test_iff] at hselected
    exact .lose hselected.2.1 ⟨rfl, hselected.1⟩
  | link =>
    simp only [execQueue, linkSendDelivery, ok_iff, pair_iff] at h
    obtain ⟨_, ⟨-, -, -, -, -, -, rfl⟩, -, rfl⟩ := h
    refine (Writes.revises (.beside ?_)).evolves
    exact ⟨⟨rfl, rfl⟩, rfl⟩
  | replace =>
    simp only [execQueue, replaceHeldMessage, ok_iff, sql_eq_ok, pair_iff] at h
    obtain ⟨_, ⟨_, _, hupdate, rfl⟩, -, rfl⟩ := h
    apply (Writes.update hupdate (fun _ => rfl) (fun _ => .inl rfl) ?_).revises.evolves
    intro d _ hselected
    simp only [test_iff] at hselected
    exact .replace _ hselected.2

end Store

end Bridget.Idempotency
