import Bridget.Idempotency.Operations

/-!
# Settling a delivery completes

Closing a delivery fails only when its row or its record is not in the expected state. So
as long as every delivery in flight has a dispatching record, an acknowledgement goes
through, and orphaning an instance runs its loop to the end.
-/

namespace Bridget.Idempotency

open Foundation Table

namespace Store

variable {env : Envelopes} {s s' : Store} {key : IdempotencyKey}

/-- Every delivery in flight has its dispatching record. -/
def Backed (s : Store) : Prop :=
  ∀ d ∈ s.deliveries, d.phase.inFlight = true →
    ∃ r ∈ s.records, r.key = d.key ∧ r.state = .dispatching

/-- A row that is in the expected phase, with a dispatching record, can be closed; every
other row stays. -/
theorem closeDelivery_completes {d : DeliveryRow} {r : RecordRow}
    (phases : DeliveryPhase → Bool) (close : DeliveryRow → DeliveryRow) (result : PublicResult)
    (hd : d ∈ s.deliveries) (hphase : phases d.phase = true) (hr : r ∈ s.records)
    (hkey : r.key = d.key) (hstate : r.state = .dispatching)
    (hclose : ∀ d, (close d).queueRank = d.queueRank ∧ (close d).deliveryId = d.deliveryId ∧
      (close d).key = d.key) :
    ∃ s', s.closeDelivery d.deliveryId phases close d.key result = .ok s' ∧
      close d ∈ s'.deliveries ∧
      (∀ x ∈ s.deliveries, x.deliveryId ≠ d.deliveryId → x ∈ s'.deliveries) ∧
      (∀ x ∈ s.records, x.key ≠ d.key → x ∈ s'.records) ∧
      s'.trackedRequests = s.trackedRequests := by
  obtain ⟨deliveries, hdeliveries⟩ := update_eq_ok (t := s.deliveries)
    (p := fun x => decide (x.deliveryId = d.deliveryId ∧ phases x.phase = true))
    (f := close) fun _ _ => by simp [UniqueKeys.conflicts, hclose]
  obtain ⟨records, hrecords⟩ := update_eq_ok (t := s.records)
    (p := fun x => decide (x.key = d.key ∧ x.state = .dispatching))
    (f := fun r => { r with state := .terminal, result := result.columns }) fun _ _ => ⟨.rfl, .rfl⟩
  have hone : s.deliveries.count
      (fun x => decide (x.deliveryId = d.deliveryId ∧ phases x.phase = true)) = 1 := by
    refine count_eq_one (pinsKey_deliveryId d.deliveryId) ?_ hd (by simp [hphase])
    intro x hx
    simp only [test_iff] at hx ⊢
    exact hx.1
  have hone' : s.records.count
      (fun x => decide (x.key = d.key ∧ x.state = .dispatching)) = 1 := by
    refine count_eq_one (pinsKey_record d.key) ?_ hr (by simp [hkey, hstate])
    intro x hx
    simp only [test_iff] at hx ⊢
    exact hx.1
  refine ⟨{ s with deliveries, records }, ?_, ?_, ?_, ?_, rfl⟩
  · rw [hone] at hdeliveries
    rw [hone'] at hrecords
    simp only [closeDelivery, updateRecord, hdeliveries, hrecords, ok_iff, sql_eq_ok, pair_iff]
    exact ⟨deliveries, 1, rfl, records, 1, rfl, (), ⟨rfl, rfl⟩, rfl⟩
  · exact (mem_update hdeliveries).mpr ⟨d, hd, by simp [rewrite, hphase]⟩
  · intro x hx hne
    exact (mem_update hdeliveries).mpr ⟨x, hx, by simp [rewrite, hne]⟩
  · intro x hx hne
    exact (mem_update hrecords).mpr ⟨x, hx, by simp [rewrite, hne]⟩

def orphanedRow (d : DeliveryRow) : DeliveryRow := { d with phase := .orphaned, turnGate := false }

structure Orphanable (s : Store) (row : DeliveryRow) : Prop where
  mem : row ∈ s.deliveries
  inFlight : row.phase.inFlight = true
  backed : ∃ r ∈ s.records, r.key = row.key ∧ r.state = .dispatching

theorem orphanDelivery_completes (env : Envelopes) (reason : String) (createdAt : Int)
    {acc : Store × List OrphanedDeliveryNotice} {row : DeliveryRow} (h : Orphanable acc.1 row) :
    ∃ acc', orphanDelivery env reason createdAt acc row = .ok acc' ∧
      orphanedRow row ∈ acc'.1.deliveries ∧
      (∀ x ∈ acc.1.deliveries, x.deliveryId ≠ row.deliveryId → x ∈ acc'.1.deliveries) ∧
      (∀ x ∈ acc.1.records, x.key ≠ row.key → x ∈ acc'.1.records) := by
  obtain ⟨_, hr, hkey, hstate⟩ := h.backed
  obtain ⟨s', hclose, horphaned, hothers, hrecords, -⟩ :=
    closeDelivery_completes DeliveryPhase.inFlight orphanedRow (.orphaned reason) h.mem h.inFlight
      hr hkey hstate (fun _ => ⟨rfl, rfl, rfl⟩)
  simp only [orphanDelivery, ok_iff]
  exact ⟨_, ⟨s', hclose, rfl⟩, horphaned, hothers, hrecords⟩

theorem orphanLoop_completes (env : Envelopes) (reason : String) (createdAt : Int)
    (rows : List DeliveryRow) (acc : Store × List OrphanedDeliveryNotice)
    (hdistinct : rows.Pairwise fun a b => a.deliveryId ≠ b.deliveryId ∧ a.key ≠ b.key)
    (hrows : ∀ row ∈ rows, Orphanable acc.1 row) :
    ∃ acc', rows.foldlM (orphanDelivery env reason createdAt) acc = .ok acc' ∧
      (∀ row ∈ rows, orphanedRow row ∈ acc'.1.deliveries) ∧
      (∀ x ∈ acc.1.deliveries, (∀ row ∈ rows, x.deliveryId ≠ row.deliveryId) →
        x ∈ acc'.1.deliveries) := by
  induction rows generalizing acc with
  | nil => exact ⟨acc, rfl, by simp, fun x hx _ => hx⟩
  | cons row rest ih =>
    obtain ⟨hfirst, hrest⟩ := List.pairwise_cons.mp hdistinct
    obtain ⟨middle, hround, horphaned, hothers, hrecords⟩ :=
      orphanDelivery_completes env reason createdAt (hrows row (by simp))
    -- the rounds to come find their rows as they were
    have hnext : ∀ x ∈ rest, Orphanable middle.1 x := by
      intro x hx
      obtain ⟨hmem, hflight, r, hr, hkey, hstate⟩ := hrows x (by simp [hx])
      obtain ⟨hid, hne⟩ := hfirst x hx
      exact ⟨hothers x hmem (Ne.symm hid), hflight, r,
        hrecords r hr (by rw [hkey]; exact Ne.symm hne), hkey, hstate⟩
    obtain ⟨acc', hloop, hdone, hkept⟩ := ih middle hrest hnext
    refine ⟨acc', ?_, ?_, ?_⟩
    · rw [List.foldlM_cons, hround]
      exact hloop
    · intro x hx
      rcases List.mem_cons.mp hx with rfl | hx
      · exact hkept _ horphaned fun y hy => (hfirst y hy).1
      · exact hdone x hx
    · intro x hx hne
      exact hkept x (hothers x hx (hne row (by simp))) fun y hy => hne y (by simp [hy])

/-- Orphaning an instance returns, and everything in flight for it is orphaned. -/
theorem orphanDispatchingForInstance_completes (h : s.Backed)
    (recipientInstanceId reason : String) (createdAt : Int) :
    ∃ notices s', s.orphanDispatchingForInstance env recipientInstanceId reason createdAt
        = .ok (notices, s') ∧ ∀ d ∈ s.deliveries, d.recipientInstanceId = recipientInstanceId →
        d.phase.inFlight = true → orphanedRow d ∈ s'.deliveries := by
  have hselected : ∀ d, d ∈ s.deliveries.select (fun d => decide
      (d.recipientInstanceId = recipientInstanceId ∧ d.phase.inFlight = true)) ↔
      d ∈ s.deliveries ∧ d.recipientInstanceId = recipientInstanceId ∧ d.phase.inFlight = true := by
    intro d
    rw [mem_select, decide_eq_true_eq]
  have hdistinct := (s.deliveries.unique.filter (fun d => decide
      (d.recipientInstanceId = recipientInstanceId ∧ d.phase.inFlight = true))).imp
    (S := fun a b => a.deliveryId ≠ b.deliveryId ∧ a.key ≠ b.key)
    (fun hab => ⟨fun hid => hab (.inr (.inl hid)), fun hkey => hab (.inr (.inr hkey))⟩)
  obtain ⟨acc', hloop, hdone, -⟩ :=
    orphanLoop_completes env reason createdAt _ (s, []) hdistinct (by
      intro row hrow
      obtain ⟨hmem, -, hflight⟩ := (hselected row).mp hrow
      exact ⟨hmem, hflight, h row hmem hflight⟩)
  refine ⟨acc'.2, acc'.1, ?_, ?_⟩
  · simp only [orphanDispatchingForInstance, ok_iff, pair_iff]
    exact ⟨acc'.1, acc'.2, hloop, rfl, rfl⟩
  · intro d hd hinstance hflight
    exact hdone d ((hselected d).mpr ⟨hd, hinstance, hflight⟩)

theorem answerRequest_completes (env : Envelopes) (s : Store) (message : Option BridgetMessage)
    (nowSecs : Int) : ∃ answered s', s.answerRequest env message nowSecs = .ok (answered, s') := by
  unfold answerRequest
  split
  · exact ⟨none, s, rfl⟩
  rename_i message
  split
  · exact ⟨none, s, rfl⟩
  rename_i requestId _
  obtain ⟨trackedRequests, hupdate⟩ := update_eq_ok (t := s.trackedRequests)
    (p := fun q => decide (q.id = requestId ∧ q.sender = message.toAgent ∧
      q.target = message.fromAgent ∧ q.state = .opened))
    (f := fun q =>
      { q with state := .answered, completedAt := some nowSecs
               replySummary := some (env.replySummary message) }) fun _ _ => ⟨.rfl, .rfl⟩
  have hmark : ∃ changed, s.markAnswered requestId message.fromAgent message.toAgent
      (env.replySummary message) nowSecs = .ok (changed, { s with trackedRequests }) := by
    simp only [markAnswered, ok_iff, sql_eq_ok, pair_iff]
    exact ⟨_, trackedRequests, _, hupdate, rfl, rfl⟩
  obtain ⟨_, hmark⟩ := hmark
  rw [hmark]
  exact ⟨_, _, rfl⟩

theorem acknowledgeSendDeliveryAt_completes (h : s.Backed) {d : DeliveryRow}
    (hd : d ∈ s.deliveries) (hphase : d.phase = .dispatching) (now nowSecs : Int) :
    ∃ answered s', s.acknowledgeSendDeliveryAt env d.deliveryId d.recipientInstanceId
      d.deliveryGeneration now nowSecs = .ok (answered, s') := by
  obtain ⟨_, hr, hkey, hstate⟩ := h d hd (by rw [hphase]; rfl)
  have hfind : s.deliveries.find? (fun x => decide (x.deliveryId = d.deliveryId)) = some d :=
    (find?_eq_some (pinsKey_deliveryId d.deliveryId)).mpr ⟨hd, by simp⟩
  obtain ⟨closed, hclose, -⟩ := closeDelivery_completes (fun p => decide (p = .dispatching))
    (fun d => { d with phase := .acked, ackedAt := some (d.ackedAt.getD now) })
    (.accepted d.expiresAt) hd (by simp [hphase]) hr hkey hstate (fun _ => ⟨rfl, rfl, rfl⟩)
  obtain ⟨answered, s', hanswer⟩ :=
    answerRequest_completes env closed (d.messageBytes.bind env.decode) nowSecs
  refine ⟨answered, s', ?_⟩
  have hnot : ¬ d.phase = .acked := by simp [hphase]
  simp only [acknowledgeSendDeliveryAt, ok_iff]
  refine ⟨d, hfind, (), ⟨rfl, rfl⟩, ?_⟩
  rw [if_neg hnot]
  simp only [ok_iff]
  exact ⟨(), hphase, closed, hclose, hanswer⟩

end Store

end Bridget.Idempotency
