import Bridget.Idempotency.Refinement
import Bridget.Foundation.Run

/-!
# Operations on records, and runs of the store

Reserving, beginning, finalizing and purging complete the operations. `exec_follows` is the
single fact about a step from which the results on whole runs are derived.
-/

namespace Bridget.Idempotency

open Foundation Table

namespace Store

variable {env : Envelopes} {s s' : Store} {key k : IdempotencyKey} {records : Table RecordRow}
  {action : Action}

theorem reads_prepared {r : RecordRow} {e : Entry} (h : s.Reads key e)
    (hload : s.loadRecord key = some r) (hr : r.state = .prepared) :
    e = .prepared ∧ s.deliveryAt key = none := by
  unfold Reads at h
  rw [hload] at h
  generalize s.deliveryAt key = delivery at h
  cases h with
  | prepared => exact ⟨rfl, rfl⟩
  | dispatching hr' | concluded _ hr' | live _ hr' | closed _ hr' | lost _ hr' => simp [hr] at hr'

theorem reads_absent {e : Entry} (h : s.Reads key e) (hload : s.loadRecord key = none) :
    e = .absent ∧ s.deliveryAt key = none := by
  unfold Reads at h
  rw [hload] at h
  generalize s.deliveryAt key = delivery at h
  cases h
  exact ⟨rfl, rfl⟩

theorem follows_record
    (hother : ∀ k, k ≠ key → records.find? (fun r => decide (r.key = k)) = s.loadRecord k)
    (hself : ∀ e, s.Reads key e → ∃ e',
      Entry.Reads (records.find? fun r => decide (r.key = key)) (s.deliveryAt key) e' ∧
        Entry.Step action e e') (henvelope : action ≠ .reserve →
      ∀ r', records.find? (fun r => decide (r.key = key)) = some r' →
        ∃ r, s.loadRecord key = some r ∧ r'.envelope = r.envelope) :
    Follows (only key action) s { s with records } := by
  constructor
  · intro k e hreads
    by_cases hk : k = key
    · subst hk
      obtain ⟨e', hreads', hstep⟩ := hself e hreads
      exact ⟨e', hreads', .single ⟨rfl, rfl⟩ hstep⟩
    · refine ⟨e, ?_, Entry.Moves.refl e⟩
      unfold Reads loadRecord
      rw [hother k hk]
      exact hreads
  · intro k r' hreserve hload
    by_cases hk : k = key
    · subst hk
      exact henvelope (fun haction => hreserve ⟨rfl, haction.symm⟩) r' hload
    · exact ⟨r', (hother k hk).symm.trans hload, rfl⟩

variable {canonicalBytes : Bytes} {issuedAt horizonSecs tolerance : Int} {reservation : Reservation}
  {current target : RecordState}

theorem insertPrepared_follows {expiresAt : Int}
    (h : s.records.insert (preparedRow key canonicalBytes issuedAt expiresAt) = .ok records) :
    Follows (only key .reserve) s { s with records } := by
  apply follows_record
  · intro _ hk
    rw [find?_insert h]
    simp [preparedRow, Ne.symm hk, loadRecord]
  · intro _ hreads
    have hload : s.loadRecord key = none := find?_eq_none_of_insert h fun _ => of_decide_eq_true
    obtain ⟨rfl, hdelivery⟩ := reads_absent hreads hload
    refine ⟨.prepared, ?_, .reserve⟩
    have hfind : s.records.find? (fun r => decide (r.key = key)) = none := hload
    rw [find?_insert h, hfind, hdelivery]
    simp only [preparedRow, decide_true, if_true, Option.none_or]
    exact .prepared rfl
  · exact fun hreserve => absurd rfl hreserve

section

variable {now : Int}
  (h : s.reserve key canonicalBytes issuedAt horizonSecs now tolerance = .ok (reservation, s'))

include h

theorem reserve_cases :
    s' = s ∨ ∃ expiresAt records,
      s.records.insert (preparedRow key canonicalBytes issuedAt expiresAt) = .ok records ∧
        s' = { s with records } := by
  simp only [reserve, bind_eq_ok] at h
  obtain ⟨-, -, _, -, h⟩ := h
  split at h
  · cases h
    exact .inl rfl
  simp only [bind_eq_ok] at h
  obtain ⟨expiresAt, -, h⟩ := h
  split at h
  · cases h
    exact .inl rfl
  split at h
  next hinserted =>
    cases h
    exact .inr ⟨expiresAt, _, insertOrIgnore_inserted hinserted, rfl⟩
  · simp only [ok_iff, pair_iff] at h
    obtain ⟨_, -, _, -, -, rfl⟩ := h
    exact .inl rfl

theorem reserve_follows : Follows (only key .reserve) s s' := by
  obtain rfl | ⟨_, _, hinsert, rfl⟩ := reserve_cases h
  · exact Follows.refl _
  · exact insertPrepared_follows hinsert

end

theorem transition_updates (h : s.transition key current target = .ok s') :
    ∃ records, s.updateRecord key .prepared (fun r => { r with state := .dispatching }) =
      .ok (records, 1) ∧ s' = { s with records } := by
  simp only [transition, ok_iff, sql_eq_ok, pair_iff] at h
  obtain ⟨-, ⟨rfl, rfl⟩, records, _, hupdate, h⟩ := h
  split at h
  next hone =>
    cases h
    exact ⟨records, hone ▸ hupdate, rfl⟩
  · split at h <;> simp at h

theorem transition_follows
    (h : s.transition key current target = .ok s') : Follows (only key .transition) s s' := by
  obtain ⟨_, hupdate, rfl⟩ := transition_updates h
  apply follows_record
  · intro _ hk
    exact loadRecord_update_ne hupdate (fun _ => rfl) hk
  · intro _ hreads
    obtain ⟨_, hload, hr, hrecord⟩ := loadRecord_update_self hupdate (fun _ => rfl)
    obtain ⟨rfl, hdelivery⟩ := reads_prepared hreads hload hr
    rw [hrecord, hdelivery]
    exact ⟨.dispatching, .dispatching rfl, .transition⟩
  · intro _ _ hload
    exact envelope_update hupdate (fun _ => rfl) (fun _ => rfl) hload

variable {result : PublicResult} {category reason : String}

section

variable (h : s.finalize key result = .ok s')

include h

theorem finalize_updates : ∃ records, s.updateRecord key .dispatching
        (fun r => { r with state := .terminal, result := result.columns }) = .ok (records, 1) ∧
      s' = { s with records } := by
  simp only [finalize, ok_iff, sql_eq_ok, pair_iff] at h
  obtain ⟨records, _, hupdate, h⟩ := h
  split at h
  next hone =>
    cases h
    exact ⟨records, hone ▸ hupdate, rfl⟩
  · split at h <;> simp at h

/-- What `finalize` does to the record of its key, whatever the delivery of that key. -/
theorem finalize_moves
    (hmoves : ∀ (r r' : RecordRow) (e : Entry), r.state = .dispatching → r'.state = .terminal →
      r'.result = result.outcome.columns → Entry.Reads (some r) (s.deliveryAt key) e →
      ∃ e', Entry.Reads (some r') (s.deliveryAt key) e' ∧ Entry.Step action e e') :
    Follows (only key action) s s' := by
  obtain ⟨_, hupdate, rfl⟩ := finalize_updates h
  obtain ⟨r, hload, hr, hrecord⟩ := loadRecord_update_self hupdate (fun _ => rfl)
  apply follows_record
  · exact fun _ hk => loadRecord_update_ne hupdate (fun _ => rfl) hk
  · intro e hreads
    unfold Reads at hreads
    rw [hload] at hreads
    rw [hrecord]
    exact hmoves r _ e hr rfl result.columns_eq hreads
  · intro _ r' hload
    exact envelope_update hupdate (fun _ => rfl) (fun _ => rfl) hload

theorem finalize_follows (hdelivery : s.deliveryAt key = none) :
    Follows (only key .finalize) s s' := by
  refine finalize_moves h fun _ _ _ hr hr' hresult hreads => ?_
  rw [hdelivery] at hreads ⊢
  cases hreads with
  | prepared hr₁ => simp [hr] at hr₁
  | dispatching => exact ⟨_, .concluded _ hr' hresult, .finalize _⟩
  | concluded _ hr₁ => simp [hr] at hr₁

/-- Finalizing the record of an indeterminate delivery abandons that delivery. -/
theorem finalize_follows_abandon {d : DeliveryRow} (hdelivery : s.deliveryAt key = some d)
    (hphase : d.phase = .indeterminate) : Follows (only key .abandon) s s' := by
  refine finalize_moves h fun _ _ _ hr hr' hresult hreads => ?_
  rw [hdelivery] at hreads ⊢
  cases hreads with
  | live p _ hd =>
    have hp : LivePhase.indeterminate = p := LivePhase.phase_injective (hphase.symm.trans hd)
    subst hp
    exact ⟨_, .lost _ hr' hresult hphase, .abandon _⟩
  | closed _ hr₁ | lost _ hr₁ => simp [hr] at hr₁

end

section

variable (h : s.rejectPrepared key category reason = .ok s')

include h

theorem rejectPrepared_updates :
    ∃ dispatched records, s.updateRecord key .prepared
        (fun r => { r with state := .dispatching }) = .ok (dispatched, 1) ∧
      ({ s with records := dispatched } : Store).updateRecord key .dispatching
        (fun r => { r with
          state := .terminal, result := (PublicResult.rejected category reason).columns }) =
          .ok (records, 1) ∧ s' = { s with records } := by
  simp only [rejectPrepared, ok_iff, sql_eq_ok, pair_iff] at h
  obtain ⟨dispatched, _, hfirst, -, rfl, records, _, hsecond, -, rfl, rfl⟩ := h
  exact ⟨dispatched, records, hfirst, hsecond, rfl⟩

theorem rejectPrepared_follows : Follows (only key .reject) s s' := by
  obtain ⟨_, _, hfirst, hsecond, rfl⟩ := rejectPrepared_updates h
  obtain ⟨_, hload, hr, _⟩ := loadRecord_update_self hfirst (fun _ => rfl)
  obtain ⟨_, _, _, hrecord'⟩ := loadRecord_update_self hsecond (fun _ => rfl)
  refine follows_record ?_ ?_ ?_
  · intro _ hk
    rw [loadRecord_update_ne hsecond (fun _ => rfl) hk]
    exact loadRecord_update_ne hfirst (fun _ => rfl) hk
  · intro _ hreads
    obtain ⟨rfl, hdelivery⟩ := reads_prepared hreads hload hr
    rw [hrecord', hdelivery]
    exact ⟨_, .concluded (.rejected category reason) rfl rfl, .reject category reason⟩
  · intro _ _ hafter
    obtain ⟨_, hmiddle, henvelope⟩ := envelope_update hsecond (fun _ => rfl) (fun _ => rfl) hafter
    obtain ⟨r₀, hbefore, henvelope'⟩ := envelope_update hfirst (fun _ => rfl) (fun _ => rfl) hmiddle
    exact ⟨r₀, hbefore, henvelope.trans henvelope'⟩

end

/-- The keys of the records that are deleted are purged. -/
def purging (s : Store) (p : RecordRow → Bool) (key : IdempotencyKey) (a : Action) : Prop :=
  a = .purge ∧ ∃ r ∈ s.records, r.key = key ∧ p r = true

/-- Deleting records purges their keys together with the deliveries that reference them. -/
theorem deleteRecords_follows (p : RecordRow → Bool) :
    Follows (s.purging p) s (s.deleteRecords p) := by
  have hrecord : ∀ k, (s.deleteRecords p).loadRecord k = (s.loadRecord k).filter (fun r => !p r) :=
    fun k => find?_delete (pinsKey_record k)
  refine ⟨?_, fun k r _ hload => ?keeps⟩
  case keeps =>
    rw [hrecord, Option.filter_eq_some_iff] at hload
    exact ⟨r, hload.1, rfl⟩
  intro k e hreads
  have hdelivery : (s.deleteRecords p).deliveryAt k = (s.deliveryAt k).filter (fun d =>
      !s.records.rows.any fun r => decide (r.key = d.key) && p r) :=
    find?_delete (pinsKey_delivery k)
  unfold Reads
  rw [hrecord, hdelivery]
  cases hload : s.loadRecord k with
  | none =>
    obtain ⟨rfl, hnone⟩ := reads_absent hreads hload
    rw [hnone]
    exact ⟨.absent, .absent, Entry.Moves.refl _⟩
  | some r =>
    obtain ⟨hr, hkey⟩ := loadRecord_eq_some.mp hload
    -- the deliveries of the key go exactly when its record goes
    have hcascade : ∀ d : DeliveryRow, d.key = k →
        (s.records.rows.any fun r => decide (r.key = d.key) && p r) = p r := by
      intro d hd
      rw [Bool.eq_iff_iff, List.any_eq_true]
      constructor
      · rintro ⟨r', hr', hmatch⟩
        simp only [test_iff] at hmatch
        have hsame : r' = r := eq_of_conflicts hr' hr (hmatch.1.trans (hd.trans hkey.symm))
        exact hsame ▸ hmatch.2
      · intro hp
        exact ⟨r, hr, by simp [hkey, hd, hp]⟩
    cases hp : p r with
    | true =>
      refine ⟨.absent, ?_, .single ⟨rfl, r, hr, hkey, hp⟩ (.purge e)⟩
      have hgone : (s.deliveryAt k).filter (fun d =>
          !s.records.rows.any fun r => decide (r.key = d.key) && p r) = none := by
        cases hd : s.deliveryAt k with
        | none => rfl
        | some d => simp [Option.filter, hcascade d (deliveryAt_eq_some.mp hd).2, hp]
      rw [hgone]
      simp [Option.filter, hp, Entry.Reads.absent]
    | false =>
      refine ⟨e, ?_, Entry.Moves.refl e⟩
      have hkept : (s.deliveryAt k).filter (fun d =>
          !s.records.rows.any fun r => decide (r.key = d.key) && p r) = s.deliveryAt k := by
        cases hd : s.deliveryAt k with
        | none => rfl
        | some d => simp [Option.filter, hcascade d (deliveryAt_eq_some.mp hd).2, hp]
      unfold Reads at hreads
      rw [hload] at hreads
      rw [hkept]
      simpa [Option.filter, hp] using hreads

variable {request : BeginRequest} {nowSecs : Int}

theorem begunRow_key {message : BridgetMessage} (hkind : key.operationKind = .send) :
    (s.begunRow key request message).key = key := by
  cases key
  simp_all [begunRow, DeliveryRow.key]

section

variable (h : s.beginSendDeliveryWithGuidance env key request nowSecs = .ok s')

include h

/-- The record of the key is dispatched and its delivery inserted. -/
theorem beginSendDeliveryWithGuidance_spec :
    ∃ message records deliveries, key.operationKind = .send ∧
      ¬ (request.heldForAgent.isSome = true ∧ request.executionLink.isSome = true) ∧
      s.updateRecord key .prepared (fun r => { r with state := .dispatching }) = .ok (records, 1) ∧
      s.deliveries.insert (s.begunRow key request message) = .ok deliveries ∧
      Beside { s with records, deliveries } s' := by
  simp only [beginSendDeliveryWithGuidance, ok_iff, sql_eq_ok, pair_iff] at h
  obtain ⟨message, hguard, -, -, records, n, hupdate, -, rfl, -, -, -, -, deliveries, hinsert,
    hemission⟩ := h
  simp only [beginGuard, ok_iff] at hguard
  obtain ⟨-, ⟨hkind, -⟩, -, -, -, -, -, ⟨-, hexclusive⟩, -⟩ := hguard
  simp only [recordEmission, ok_iff] at hemission
  obtain ⟨_, _, _, _, _, _, rfl⟩ := hemission
  exact ⟨message, records, deliveries, hkind, hexclusive, hupdate, hinsert, ⟨rfl, rfl⟩, rfl⟩

theorem beginSendDeliveryWithGuidance_follows : Follows (only key .start) s s' := by
  obtain ⟨message, _, deliveries, hkind, -, hupdate, hinsert, hsame⟩ :=
    beginSendDeliveryWithGuidance_spec h
  have hrow : (s.begunRow key request message).key = key := begunRow_key hkind
  refine Follows.then ?_ hsame.toSameTables
  refine ⟨?_, fun _ _ _ => envelope_update hupdate (fun _ => rfl) (fun _ => rfl)⟩
  intro k e hreads
  unfold Reads at hreads ⊢
  simp only [loadRecord, deliveryAt]
  rw [find?_insert hinsert]
  by_cases hk : k = key
  · subst hk
    obtain ⟨_, hload, hr, hrecord⟩ := loadRecord_update_self hupdate (fun _ => rfl)
    obtain ⟨rfl, hdelivery⟩ := reads_prepared hreads hload hr
    have hnone : s.deliveries.find? (fun d => decide (d.key = k)) = none := hdelivery
    rw [hrecord, hnone]
    simp only [hrow, decide_true, if_true, Option.none_or]
    cases hheld : request.heldForAgent with
    | none =>
      refine ⟨.live .dispatching, .live .dispatching rfl ?_, .single ⟨rfl, rfl⟩ .startDispatching⟩
      simp [begunRow, hheld, LivePhase.phase]
    | some =>
      refine ⟨.live .held, .live .held rfl ?_, .single ⟨rfl, rfl⟩ .startHeld⟩
      simp [begunRow, hheld, LivePhase.phase]
  · refine ⟨e, ?_, Entry.Moves.refl e⟩
    rw [loadRecord_update_ne hupdate (fun _ => rfl) hk]
    simpa [hrow, Ne.symm hk, deliveryAt] using hreads

end

end Store

/-- The edges of each operation, and the keys it takes them on: the key it is given, those of
the records it deletes, or those of the rows it moves. -/
def Op.permits (s : Store) : Op → IdempotencyKey → Action → Prop
  | .reserve key .. => only key .reserve
  | .beginSendDelivery key .. => only key .start
  | .rejectPrepared key .. => only key .reject
  | .transition key .. => only key .transition
  | .finalize key .. => only key .finalize
  | .purgeExpired now => s.purging fun r => r.expiresAt ≤ now
  | .purgeExpiredSends now grace =>
    s.purging fun r => r.key.operationKind = .send && r.expiresAt ≤ saturatingSub now grace
  | op => (QueueOp.store op).permits s

/-- Records are moved by hand only under keys that have no delivery. -/
def Op.Admitted (s : Store) : Op → Prop
  | .transition key .. | .finalize key .. => s.deliveryAt key = none
  | _ => True

theorem Store.exec_follows {env : Envelopes} {s s' : Store} {op : Op} (hadmitted : op.Admitted s)
    (h : s.exec env op = .ok s') : Store.Follows (op.permits s) s s' := by
  cases op with
  | reserve =>
    obtain ⟨_, hreturn⟩ := map_snd_eq_ok.mp h
    exact reserve_follows hreturn
  | beginSendDelivery => exact beginSendDeliveryWithGuidance_follows h
  | rejectPrepared => exact rejectPrepared_follows h
  | transition => exact transition_follows h
  | finalize => exact finalize_follows h hadmitted
  | purgeExpired =>
    cases h
    exact (deleteRecords_follows _).congr rfl rfl
  | purgeExpiredSends =>
    cases h
    exact deleteRecords_follows _
  | _ =>
    obtain ⟨_, hwrites, hsame, -⟩ := exec_writes h rfl
    exact hwrites.follows.then hsame

theorem Store.step_follows (env : Envelopes) {s : Store} {op : Op} (hadmitted : op.Admitted s) :
    Store.Follows (op.permits s) s (s.step env op) := by
  unfold Store.step
  split
  next h => exact exec_follows hadmitted h
  · exact Follows.refl s

def sampleBytes : Bytes :=
  utf8 "\x7b\"id\":\"m1\",\"from\":\"alice\",\"to\":\"bob\",\"body\":\"bonjour\"\x7d"

def sampleEnvelopes : Envelopes where
  decode bytes :=
    if bytes = sampleBytes then some ⟨"m1", "alice", "bob", "bonjour", false, none⟩ else none
  jsonValid bytes := bytes = sampleBytes
  extractId bytes := if bytes = sampleBytes then some "m1" else none
  threadNotice _ := false
  replySummary _ := ""

end Bridget.Idempotency
