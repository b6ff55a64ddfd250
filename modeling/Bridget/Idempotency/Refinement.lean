import Bridget.Idempotency.Calls

/-!
# The store follows the machine of each key

Every operation of the store moves every key along edges of its machine. The statements
on one table come first, then the paired updates that settle a delivery with its record;
`Writes` says that an operation is made of these, with one lemma for each operation.
-/

namespace Bridget.Idempotency

open Foundation Table Option

/-- The edges that an operation on existing deliveries may take, and the keys it may move. -/
def QueueOp.permits (s : Store) (op : QueueOp) (key : IdempotencyKey) (a : Action) : Prop :=
  ∃ d ∈ s.deliveries, d.key = key ∧ op.moves a d

/-- Only this action, and only on this key. -/
def only (key : IdempotencyKey) (action : Action) (k : IdempotencyKey) (a : Action) : Prop :=
  k = key ∧ a = action

variable {op : QueueOp} {d d' : DeliveryRow}

theorem inFlight_live {phase : DeliveryPhase} (h : phase.inFlight = true) :
    ∃ p : LivePhase, phase = p.phase ∧ p ≠ .indeterminate := by
  cases phase with
  | dispatching => exact ⟨.dispatching, rfl, by decide⟩
  | held => exact ⟨.held, rfl, by decide⟩
  | _ => cases h

/-- A delivery that is not settled stays in its phase, is released, or is lost. -/
theorem Edit.moves (h : Edit op d d')
    (hopen : d'.phase = d.phase ∨ d'.phase = .dispatching ∨ d'.phase = .indeterminate) :
    d'.phase = d.phase ∨ d.phase = .held ∧ d'.phase = .dispatching ∧ op.moves .release d ∨
      d.phase = .dispatching ∧ d'.phase = .indeterminate ∧ op.moves .lose d := by
  cases h with
  | take hphase hmoves => exact .inr (.inl ⟨hphase, rfl, hmoves⟩)
  | lose hphase hmoves => exact .inr (.inr ⟨hphase, rfl, hmoves⟩)
  | acknowledge | orphan | cancel => exact .inl (hopen.resolve_right nofun)
  | _ => exact .inl rfl

/-- An edit that ends a delivery in flight is an edge of the machine. -/
theorem Edit.settles {o : Outcome} (h : Edit op d d')
    (hlive : d.phase.inFlight = true) (hphase : d'.phase = o.phase) :
    ∃ (action : Action) (p : LivePhase), op.moves action d ∧ d.phase = p.phase ∧
      p ≠ .indeterminate ∧ Entry.Step action (.live p) (.closed o) := by
  have hended : d'.phase.inFlight = false := by
    rw [hphase]
    cases o <;> rfl
  cases h with
  | take => cases hended
  | lose => cases o <;> cases hphase
  | acknowledge _ hdispatching hmoves =>
    cases o with
    | accepted => exact ⟨_, .dispatching, hmoves, hdispatching, nofun, .acknowledge⟩
    | _ => cases hphase
  | orphan _ hmoves =>
    cases o with
    | orphaned reason =>
      obtain ⟨p, hp, hlive⟩ := inFlight_live hlive
      exact ⟨_, p, hmoves, hp, hlive, .orphan p reason hlive⟩
    | _ => cases hphase
  | cancel hheld hmoves =>
    cases o with
    | rejected => exact ⟨_, .held, hmoves, hheld, nofun, .cancel _ _⟩
    | _ => cases hphase
  | _ => exact absurd hlive (Bool.eq_false_iff.mp hended)

namespace Store

variable {env : Envelopes} {s s' s'' : Store} {key k : IdempotencyKey} {nowSecs : Int}
  {answered : Option String}

section Statements

variable {deliveries : Table DeliveryRow} {records : Table RecordRow} {n : Nat}
  {p : DeliveryRow → Bool} {f : DeliveryRow → DeliveryRow} {g : RecordRow → RecordRow}
  {state : RecordState}

theorem deliveryAt_update (h : s.deliveries.update p f = .ok (deliveries, n))
    (hkey : ∀ d, (f d).key = d.key) :
    deliveries.find? (fun d => decide (d.key = k)) = (s.deliveryAt k).map (rewrite p f) := by
  apply find?_update h
  intro d
  rw [hkey]

section

variable (h : s.updateRecord key state g = .ok (records, n)) (hkey : ∀ r, (g r).key = r.key)

include h hkey

theorem loadRecord_update :
    records.find? (fun r => decide (r.key = k)) =
      (s.loadRecord k).map (rewrite (fun r => r.key = key ∧ r.state = state) g) := by
  apply find?_update h
  intro r
  rw [hkey]

theorem loadRecord_update_ne (hne : k ≠ key) :
    records.find? (fun r => decide (r.key = k)) = s.loadRecord k := by
  rw [loadRecord_update h hkey]
  cases hload : s.loadRecord k with
  | none => rfl
  | some r =>
    have hr : r.key ≠ key := (loadRecord_eq_some.mp hload).2 ▸ hne
    simp [rewrite, hr]

theorem envelope_update {r' : RecordRow} (henvelope : ∀ r, (g r).envelope = r.envelope)
    (hload : records.find? (fun r => decide (r.key = k)) = some r') :
    ∃ r, s.loadRecord k = some r ∧ r'.envelope = r.envelope := by
  rw [loadRecord_update h hkey, map_eq_some_iff] at hload
  obtain ⟨r, hr, rfl⟩ := hload
  refine ⟨r, hr, ?_⟩
  unfold rewrite
  split
  · exact henvelope r
  · rfl

end

theorem loadRecord_update_self (h : s.updateRecord key state g = .ok (records, 1))
    (hkey : ∀ r, (g r).key = r.key) :
    ∃ r, s.loadRecord key = some r ∧ r.state = state ∧
      records.find? (fun r => decide (r.key = key)) = some (g r) := by
  have hcount := (update_rows h).2
  obtain ⟨r, hr, hmatch⟩ := exists_of_count_eq_one hcount.symm
  simp only [test_iff] at hmatch
  have hload : s.loadRecord key = some r := loadRecord_eq_some.mpr ⟨hr, hmatch.1⟩
  refine ⟨r, hload, hmatch.2, ?_⟩
  rw [loadRecord_update h hkey, hload]
  simp [rewrite, hmatch]

/-- An update of deliveries that keeps their keys and moves phases only along edges. -/
theorem follows_update (h : s.deliveries.update p f = .ok (deliveries, n))
    (hkey : ∀ d, (f d).key = d.key)
    (hphase : ∀ d ∈ s.deliveries, p d = true → (f d).phase = d.phase ∨
      d.phase = .held ∧ (f d).phase = .dispatching ∧ op.moves .release d ∨
      d.phase = .dispatching ∧ (f d).phase = .indeterminate ∧ op.moves .lose d) :
    Follows (op.permits s) s { s with deliveries } := by
  refine ⟨?_, fun _ r _ hload => ⟨r, hload, rfl⟩⟩
  intro k e hreads
  have hafter : ∀ e', Entry.Reads (s.loadRecord k) ((s.deliveryAt k).map (rewrite p f)) e' →
      ({ s with deliveries } : Store).Reads k e' := by
    intro e' he'
    unfold Reads deliveryAt
    rw [deliveryAt_update h hkey]
    exact he'
  unfold Reads at hreads
  cases hdelivery : s.deliveryAt k with
  | none =>
    rw [hdelivery] at hreads hafter
    exact ⟨e, hafter e hreads, Entry.Moves.refl e⟩
  | some d =>
    rw [hdelivery] at hreads hafter
    obtain ⟨hmem, hk⟩ := deliveryAt_eq_some.mp hdelivery
    have hstill : (rewrite p f d).phase = d.phase →
        ∃ e', ({ s with deliveries } : Store).Reads k e' ∧ Entry.Moves (op.permits s k) e e' := by
      intro hsame
      refine ⟨e, hafter e (hreads.map_delivery ?_), Entry.Moves.refl e⟩
      rintro _ ⟨⟩
      exact hsame
    by_cases hp : p d = true
    · have hrewrite : rewrite p f d = f d := by simp [rewrite, hp]
      rw [map_some, hrewrite] at hafter
      rcases hphase d hmem hp with hsame | ⟨hheld, hnow, hmoves⟩ | ⟨hdispatching, hnow, hmoves⟩
      · exact hstill (by rw [hrewrite, hsame])
      · obtain ⟨rfl, _, hload, hr⟩ := hreads.of_phase (p := .held) hheld (by decide)
        rw [hload] at hafter
        exact ⟨_, hafter _ (.live .dispatching hr hnow), .single ⟨d, hmem, hk, hmoves⟩ .release⟩
      · obtain ⟨rfl, _, hload, hr⟩ := hreads.of_phase (p := .dispatching) hdispatching (by decide)
        rw [hload] at hafter
        exact ⟨_, hafter _ (.live .indeterminate hr hnow), .single ⟨d, hmem, hk, hmoves⟩ .lose⟩
    · exact hstill (by rw [rewrite, if_neg hp])

/-- Closing a delivery with its record settles the key of that delivery, and no other. -/
theorem closeDelivery_follows {deliveryId : String} {phases : DeliveryPhase → Bool}
    {close : DeliveryRow → DeliveryRow} {result : PublicResult}
    (h : s.closeDelivery deliveryId phases close key result = .ok s')
    (hrow : ∀ d ∈ s.deliveries, d.deliveryId = deliveryId → d.key = key)
    (hkey : ∀ d, (close d).key = d.key) (hclose : ∀ d, (close d).phase = result.outcome.phase)
    (hedit : ∀ d ∈ s.deliveries, d.deliveryId = deliveryId → phases d.phase = true →
      d.phase.inFlight = true ∧ Edit op d (close d)) : Follows (op.permits s) s s' := by
  simp only [closeDelivery, ok_iff, sql_eq_ok, pair_iff] at h
  obtain ⟨_, _, hdeliveries, _, _, hrecords, -, ⟨rfl, rfl⟩, rfl⟩ := h
  obtain ⟨_, hload, _, hrecord⟩ := loadRecord_update_self hrecords (fun _ => rfl)
  obtain ⟨d, hd, hmatch⟩ := exists_of_count_eq_one (update_rows hdeliveries).2.symm
  simp only [Bool.decide_and, Bool.decide_eq_true, test_iff] at hmatch
  have hat : s.deliveryAt key = some d := deliveryAt_eq_some.mpr ⟨hd, hrow d hd hmatch.1⟩
  refine ⟨?_, fun _ _ _ => envelope_update hrecords (fun _ => rfl) (fun _ => rfl)⟩
  intro k e hreads
  unfold Reads at hreads ⊢
  simp only [loadRecord, deliveryAt]
  rw [deliveryAt_update hdeliveries hkey]
  by_cases hk : k = key
  · subst hk
    rw [hload, hat] at hreads
    obtain ⟨hlive, hends⟩ := hedit d hd hmatch.1 hmatch.2
    obtain ⟨_, _, hmoves, hphase, hp, hstep⟩ := hends.settles hlive (hclose d)
    obtain ⟨rfl, -⟩ := hreads.of_phase hphase hp
    rw [hrecord, hat]
    refine ⟨_, .closed result.outcome rfl result.columns_eq ?_,
      .single ⟨d, hd, hrow d hd hmatch.1, hmoves⟩ hstep⟩
    simp [rewrite, hmatch, hclose]
  · rw [loadRecord_update_ne hrecords (fun _ => rfl) hk]
    refine ⟨e, hreads.map_delivery ?_, Entry.Moves.refl e⟩
    intro d' hd'
    obtain ⟨hmem, hkey'⟩ := deliveryAt_eq_some.mp hd'
    have hother : d'.deliveryId ≠ deliveryId := fun hid => hk (hkey' ▸ hrow d' hmem hid)
    simp [rewrite, hother]

end Statements

/-! ## Writes to other tables -/

structure SameTables (s s' : Store) : Prop where
  records : s'.records = s.records
  deliveries : s'.deliveries = s.deliveries

theorem SameTables.trans (h : SameTables s s') (h' : SameTables s' s'') : SameTables s s'' :=
  ⟨h'.records.trans h.records, h'.deliveries.trans h.deliveries⟩

theorem Follows.then {permits : IdempotencyKey → Action → Prop} (h : Follows permits s s')
    (hsame : SameTables s' s'') : Follows permits s s'' :=
  h.congr hsame.records hsame.deliveries

/-- The receipts of queue edits are the same as well. -/
structure Beside (s s' : Store) : Prop extends SameTables s s' where
  queueEdits : s'.queueEdits = s.queueEdits

theorem Beside.refl (s : Store) : Beside s s := ⟨⟨rfl, rfl⟩, rfl⟩

theorem Beside.trans (h : Beside s s') (h' : Beside s' s'') : Beside s s'' :=
  ⟨h.toSameTables.trans h'.toSameTables, h'.queueEdits.trans h.queueEdits⟩

theorem answerRequest_beside {message : Option BridgetMessage}
    (h : s.answerRequest env message nowSecs = .ok (answered, s')) : Beside s s' := by
  unfold answerRequest at h
  split at h
  · cases h
    exact .refl s
  split at h
  · cases h
    exact .refl s
  simp only [markAnswered, bind_eq_ok, sql_eq_ok, Prod.exists, pure_eq_ok] at h
  obtain ⟨_, _, ⟨_, _, _, hs⟩, h⟩ := h
  cases hs
  cases h
  exact ⟨⟨rfl, rfl⟩, rfl⟩

theorem recordLifecycleEvent_beside {issuerScope requestId eventId : String}
    {state : LifecycleState} {observedAt : Int} {inReplyTo : Option String}
    (h : s.recordLifecycleEvent issuerScope requestId state observedAt inReplyTo eventId
      = .ok s') : Beside s s' := by
  unfold recordLifecycleEvent at h
  split at h
  · cases h
    exact .refl s
  · simp only [ok_iff, sql_eq_ok] at h
    obtain ⟨_, _, rfl⟩ := h
    exact ⟨⟨rfl, rfl⟩, rfl⟩

variable {now : Int} {eventIds : Nat → String} {message : BridgetMessage} {reason : String}
  {n : Nat}

theorem closeRequest_beside
    (h : s.closeRequest message reason now eventIds = .ok s') : Beside s s' := by
  unfold closeRequest at h
  split at h
  · simp only [ok_iff, sql_eq_ok, pair_iff] at h
    obtain ⟨_, _, -, h⟩ := h
    split at h
    · refine foldlM_invariant (Beside s) ?_ ?_ h
      · intro _ _ _ _ hsame hstep
        exact hsame.trans (recordLifecycleEvent_beside hstep)
      · exact ⟨⟨rfl, rfl⟩, rfl⟩
    · cases h
      exact ⟨⟨rfl, rfl⟩, rfl⟩
  · cases h
    exact .refl s

/-! ## What operations on existing deliveries are made of -/

/-- Deliveries are edited in place, or closed together with their records; the rest is written
to other tables. -/
inductive Writes (op : QueueOp) : Store → Store → Prop
  | beside {s s' : Store} (h : Beside s s') : Writes op s s'
  | update {s : Store} {p : DeliveryRow → Bool} {f : DeliveryRow → DeliveryRow}
      {deliveries : Table DeliveryRow} {n : Nat}
      (h : s.deliveries.update p f = .ok (deliveries, n)) (hkey : ∀ d, (f d).key = d.key)
      (hopen : ∀ d, (f d).phase = d.phase ∨ (f d).phase = .dispatching ∨
        (f d).phase = .indeterminate)
      (hedit : ∀ d ∈ s.deliveries, p d = true → Edit op d (f d)) :
      Writes op s { s with deliveries }
  | close {s s' : Store} {deliveryId : String} {phases : DeliveryPhase → Bool}
      {close : DeliveryRow → DeliveryRow} {key : IdempotencyKey} {result : PublicResult}
      (h : s.closeDelivery deliveryId phases close key result = .ok s')
      (hrow : ∀ d ∈ s.deliveries, d.deliveryId = deliveryId → d.key = key)
      (hkey : ∀ d, (close d).key = d.key) (hphase : ∀ d, (close d).phase = result.outcome.phase)
      (hedit : ∀ d ∈ s.deliveries, d.deliveryId = deliveryId → phases d.phase = true →
        d.phase.inFlight = true ∧ Edit op d (close d)) : Writes op s s'
  | trans {s s' s'' : Store} (first : Writes op s s') (second : Writes op s' s'') :
      Writes op s s''

theorem Writes.refl : Writes op s s := .beside (Beside.refl s)

theorem Writes.queueEdits (h : Writes op s s') : s'.queueEdits = s.queueEdits := by
  induction h with
  | beside h => exact h.queueEdits
  | update => rfl
  | close h =>
    simp only [closeDelivery, ok_iff, sql_eq_ok, pair_iff] at h
    obtain ⟨_, _, _, _, _, _, _, _, rfl⟩ := h
    rfl
  | trans _ _ ih ih' => exact ih'.trans ih

theorem edits_of_update {p : DeliveryRow → Bool} {f : DeliveryRow → DeliveryRow}
    {deliveries : Table DeliveryRow} (h : s.deliveries.update p f = .ok (deliveries, n))
    (hedit : ∀ d ∈ s.deliveries, p d = true → Edit op d (f d)) (hd' : d' ∈ deliveries) :
    ∃ d ∈ s.deliveries, Edits op d d' := by
  obtain ⟨d, hd, rfl⟩ := (mem_update h).mp hd'
  refine ⟨d, hd, ?_⟩
  unfold rewrite
  split
  next hselected => exact .single (hedit d hd hselected)
  · exact .refl

theorem Writes.rows (h : Writes op s s') :
    ∀ d' ∈ s'.deliveries, ∃ d ∈ s.deliveries, Edits op d d' := by
  induction h with
  | beside h =>
    rw [h.deliveries]
    exact fun d hd => ⟨d, hd, .refl⟩
  | update h _ _ hedit => exact fun d' hd' => edits_of_update h hedit hd'
  | close h _ _ _ hedit =>
    simp only [closeDelivery, ok_iff, sql_eq_ok, pair_iff] at h
    obtain ⟨_, _, hdeliveries, _, _, _, _, _, rfl⟩ := h
    intro d' hd'
    refine edits_of_update hdeliveries ?_ hd'
    intro d hd hselected
    simp only [test_iff] at hselected
    exact (hedit d hd hselected.1 hselected.2).2
  | trans _ _ ih ih' =>
    intro d'' hd''
    obtain ⟨d', hd', hlast⟩ := ih' d'' hd''
    obtain ⟨d, hd, hfirst⟩ := ih d' hd'
    exact ⟨d, hd, hfirst.trans hlast⟩

/-- An operation moves keys only along its own edges, and only the keys of its own rows. -/
theorem Writes.follows (h : Writes op s s') : Follows (op.permits s) s s' := by
  induction h with
  | beside h => exact Follows.of_eq h.records h.deliveries
  | update h hkey hopen hedit =>
    exact follows_update h hkey fun d hd hselected => (hedit d hd hselected).moves (hopen d)
  | close h hrow hkey hphase hedit => exact closeDelivery_follows h hrow hkey hphase hedit
  | trans hfirst _ ih ih' =>
    refine ih.trans (ih'.mono ?_)
    rintro k a ⟨d', hd', hkey, hmoves⟩
    obtain ⟨d, hd, hedits⟩ := hfirst.rows d' hd'
    exact ⟨d, hd, hedits.same.2.1.symm.trans hkey, hedits.moves hmoves⟩

theorem Writes.keeps_records (h : Writes op s s') :
    (s.loadRecord key).isSome = true → (s'.loadRecord key).isSome = true := by
  induction h with
  | beside h =>
    unfold loadRecord
    rw [h.records]
    exact id
  | update => exact id
  | close h =>
    simp only [closeDelivery, ok_iff, sql_eq_ok, pair_iff] at h
    obtain ⟨_, _, _, records, _, hrecords, _, _, rfl⟩ := h
    intro hkey
    change (records.find? fun r => decide (r.key = key)).isSome = true
    rw [loadRecord_update hrecords fun _ => rfl, isSome_map]
    exact hkey
  | trans _ _ ih ih' => exact ih' ∘ ih

/-! ## Operations on existing deliveries -/

theorem key_eq_of_deliveryId (hd : d ∈ s.deliveries) (hd' : d' ∈ s.deliveries)
    (hid : d'.deliveryId = d.deliveryId) : d'.key = d.key := by
  rw [eq_of_conflicts hd' hd (.inr (.inl hid))]

variable {recipientInstanceId deliveryId agent : String} {deliveryGeneration : Nat}

theorem acknowledgeSendDeliveryAt_writes
    (h : s.acknowledgeSendDeliveryAt env deliveryId recipientInstanceId deliveryGeneration now
      nowSecs = .ok (answered, s')) :
    Writes (.store (.acknowledge deliveryId recipientInstanceId deliveryGeneration now nowSecs))
      s s' := by
  simp only [acknowledgeSendDeliveryAt, ok_iff] at h
  obtain ⟨row, hfind, _, _, h⟩ := h
  have hrow := mem_of_find? hfind
  have hid : row.deliveryId = deliveryId := by simpa using find?_some hfind
  split at h
  · cases h
    exact .refl
  simp only [ok_iff] at h
  obtain ⟨-, -, _, hclose, hanswer⟩ := h
  refine (Writes.close hclose ?_ (fun _ => rfl) (fun _ => rfl) ?_).trans
    (.beside (answerRequest_beside hanswer))
  · intro d hd hdid
    exact key_eq_of_deliveryId hrow hd (hdid.trans hid.symm)
  · intro d _ hdid hphase
    have hdispatching : d.phase = .dispatching := by simpa using hphase
    exact ⟨by rw [hdispatching]; rfl, .acknowledge now hdispatching ⟨rfl, hdid⟩⟩

theorem markDeliveryIndeterminate_writes
    (h : s.markDeliveryIndeterminate deliveryId recipientInstanceId deliveryGeneration = .ok s') :
    Writes (.store (.markIndeterminate deliveryId recipientInstanceId deliveryGeneration))
      s s' := by
  simp only [markDeliveryIndeterminate, ok_iff, sql_eq_ok, pair_iff] at h
  obtain ⟨_, _, hupdate, _, _, rfl⟩ := h
  refine .update hupdate (fun _ => rfl) (fun _ => .inr (.inr rfl)) ?_
  intro _ _ hd
  simp only [test_iff] at hd
  exact .lose hd.2.2.2 ⟨rfl, hd.1⟩

theorem settleExpiredDispatching_writes (h : s.settleExpiredDispatching now = .ok (n, s')) :
    Writes (.store (.settleExpired now)) s s' := by
  simp only [settleExpiredDispatching, ok_iff, sql_eq_ok, pair_iff] at h
  obtain ⟨_, _, hupdate, -, rfl⟩ := h
  refine .update hupdate (fun _ => rfl) (fun _ => .inr (.inr rfl)) ?_
  intro _ _ hd
  simp only [test_iff] at hd
  exact .lose hd.1 ⟨rfl, hd.2⟩

theorem clearHeldTurnGate_writes (h : s.clearHeldTurnGate agent = .ok s')
    (hclears : op.clears agent = true) : Writes op s s' := by
  simp only [clearHeldTurnGate, ok_iff, sql_eq_ok, pair_iff] at h
  obtain ⟨_, _, hupdate, rfl⟩ := h
  refine .update hupdate (fun _ => rfl) (fun _ => .inl rfl) ?_
  intro _ _ hselected
  simp only [test_iff] at hselected
  exact .clear (by rw [hselected.1]; exact hclears)

variable {id : String}

theorem heldWithRecord_eq_some {r : RecordRow} (h : s.heldWithRecord id = some (d, r)) :
    d ∈ s.deliveries ∧ d.deliveryId = id ∧ d.phase = .held ∧ s.loadRecord d.key = some r := by
  simp only [heldWithRecord, bind, bind_eq_some_iff, pure, some.injEq, Prod.mk.injEq] at h
  obtain ⟨_, hfind, _, hload, rfl, rfl⟩ := h
  have hmatch := find?_some hfind
  simp only [test_iff] at hmatch
  exact ⟨mem_of_find? hfind, hmatch.1, hmatch.2, hload⟩

/-- A held delivery is left alone, or closed with its record. -/
theorem settleHeldInTransaction_writes {notice : Option OrphanedDeliveryNotice}
    (h : s.settleHeldInTransaction env id reason now eventIds = .ok (notice, s'))
    (hmoves : ∀ d ∈ s.deliveries, d.deliveryId = id → op.moves .cancel d) : Writes op s s' := by
  simp only [settleHeldInTransaction, ok_iff] at h
  obtain ⟨-, -, h⟩ := h
  split at h
  · cases h
    exact .refl
  rename_i hheld
  simp only [ok_iff] at h
  obtain ⟨_, -, h⟩ := h
  split at h
  · cases h
    exact .refl
  simp only [ok_iff] at h
  obtain ⟨_, -, h⟩ := h
  split at h
  · cases h
    exact .refl
  simp only [ok_iff, pair_iff] at h
  obtain ⟨_, hclose, _, hrequest, -, rfl⟩ := h
  obtain ⟨hd, hid, -, -⟩ := heldWithRecord_eq_some hheld
  have hsame := closeRequest_beside hrequest
  refine (Writes.close hclose ?_ (fun _ => rfl) (fun _ => rfl) ?_).trans
    (.beside { hsame with })
  · intro d' hd' hid'
    exact key_eq_of_deliveryId hd hd' (hid'.trans hid.symm)
  · intro d' hd' hid' hphase
    have hheld : d'.phase = .held := by simpa using hphase
    exact ⟨by rw [hheld]; rfl, .cancel hheld (hmoves d' hd' hid')⟩

def turnOver (agent : String) (now : Int) (d : DeliveryRow) : Bool :=
  d.recipientAgent = agent ∧ d.turnGate ∧ d.phase = .acked ∧
    ∃ ackedAt ∈ d.ackedAt, ackedAt < saturatingSub now 30

def nextHeld (s : Store) (agent : String) : Option (DeliveryRow × RecordRow) :=
  (s.heldByRank agent).findSome? fun d => (s.loadRecord d.key).map fun r => (d, r)

theorem nextHeld_eq_some {r : RecordRow} (h : s.nextHeld agent = some (d, r)) :
    d ∈ s.deliveries ∧ d.recipientAgent = agent ∧ d.phase = .held := by
  obtain ⟨_, hx, hmap⟩ := List.exists_of_findSome?_eq_some h
  obtain ⟨_, -, hpair⟩ := map_eq_some_iff.mp hmap
  cases hpair
  obtain ⟨hstored, hselected⟩ := mem_select.mp (List.mem_insertionSort _ |>.mp hx)
  simp only [test_iff] at hselected
  exact ⟨hstored, hselected⟩

variable {released : Option SendDelivery × Option OrphanedDeliveryNotice}

section

variable (h : s.releaseNextHeld env agent now eventIds = .ok (released, s'))

include h

/-- Nothing is released while a turn is reserved; then the next held delivery is closed, or
takes the turn. -/
theorem releaseNextHeld_cases :
    released.1 = none ∧ s' = s ∨
      ∃ deliveries n, s.deliveries.update (turnOver agent now)
          (fun d => { d with turnGate := false }) = .ok (deliveries, n) ∧
        ({ s with deliveries } : Store).turnReserved agent = false ∧
        (released.1 = none ∧ s' = { s with deliveries } ∨
          ∃ d r, ({ s with deliveries } : Store).nextHeld agent = some (d, r) ∧
            ((∃ reason notice, released.1 = none ∧
              ({ s with deliveries } : Store).settleHeldInTransaction env d.deliveryId reason now
                eventIds = .ok (notice, s')) ∨
          ∃ delivery taken, released.1 = some delivery ∧ delivery.deliveryId = d.deliveryId ∧
            deliveries.update (fun x => x.deliveryId = d.deliveryId ∧ x.phase = .held ∧ !x.turnGate)
              takeTurn = .ok (taken, 1) ∧ s' = { s with deliveries := taken })) := by
  simp only [releaseNextHeld, ok_iff] at h
  obtain ⟨_, -, h⟩ := h
  split at h
  · cases h
    exact .inl ⟨rfl, rfl⟩
  simp only [ok_iff, sql_eq_ok, pair_iff] at h
  obtain ⟨deliveries, n, hungate, h⟩ := h
  split at h
  · cases h
    exact .inl ⟨rfl, rfl⟩
  rename_i hfree
  refine .inr ⟨deliveries, n, hungate, by simpa using hfree, ?_⟩
  split at h
  · cases h
    exact .inl ⟨rfl, rfl⟩
  rename_i d r hnext
  simp only [ok_iff] at h
  obtain ⟨_, -, _, -, _, -, h⟩ := h
  split at h
  next reason _ =>
    simp only [ok_iff, pair_iff] at h
    obtain ⟨notice, _, hsettle, rfl, rfl⟩ := h
    exact .inr ⟨d, r, hnext, .inl ⟨reason, notice, rfl, hsettle⟩⟩
  · simp only [ok_iff, sql_eq_ok, pair_iff] at h
    obtain ⟨taken, _, htake, _, rfl, rfl, rfl⟩ := h
    exact .inr ⟨d, r, hnext, .inr ⟨_, taken, rfl, rfl, htake, rfl⟩⟩

theorem releaseNextHeld_writes : Writes (.store (.releaseNextHeld agent now eventIds)) s s' := by
  obtain ⟨-, rfl⟩ | ⟨deliveries, _, hungate, -, hrest⟩ := releaseNextHeld_cases h
  · exact .refl
  have hopened : Writes (.store (.releaseNextHeld agent now eventIds)) s
      { s with deliveries } := by
    refine .update hungate (fun _ => rfl) (fun _ => .inl rfl) ?_
    intro d _ hover
    simp only [turnOver, test_iff] at hover
    obtain ⟨hagent, -, hphase, _, hacked, hold⟩ := hover
    exact .expire (by simp [QueueOp.rests, hagent]) hphase hacked hold
  obtain ⟨-, rfl⟩ | ⟨d, r, hnext, hrest⟩ := hrest
  · exact hopened
  -- only the delivery that is next for the agent is touched
  obtain ⟨hd, hagent, -⟩ := nextHeld_eq_some hnext
  have hown : ∀ x ∈ deliveries, x.deliveryId = d.deliveryId → x.recipientAgent = agent := by
    intro x hx hid
    rw [eq_of_conflicts hx hd (.inr (.inl hid)), hagent]
  obtain ⟨_, _, -, hsettle⟩ | ⟨_, _, -, -, htake, rfl⟩ := hrest
  · exact hopened.trans (settleHeldInTransaction_writes hsettle
      fun x hx hid => ⟨.inr rfl, hown x hx hid⟩)
  · refine hopened.trans (.update htake (fun _ => rfl) (fun _ => .inr (.inl rfl)) ?_)
    intro x hx hselected
    simp only [test_iff] at hselected
    exact .take hselected.2.1 ⟨.inl rfl, hown x hx hselected.1⟩

end

/-- Each round of the orphaning loop closes the record of its own delivery, since the rows are
still those of the store it began with. -/
theorem orphanDispatchingForInstance_writes {createdAt : Int}
    {notices : List OrphanedDeliveryNotice}
    (h : s.orphanDispatchingForInstance env recipientInstanceId reason createdAt =
      .ok (notices, s')) : Writes (.store (.orphan recipientInstanceId reason createdAt)) s s' := by
  simp only [orphanDispatchingForInstance, ok_iff, pair_iff] at h
  obtain ⟨_, _, hloop, -, rfl⟩ := h
  apply foldlM_invariant (fun acc => Writes (.store (.orphan recipientInstanceId reason createdAt))
    s acc.1) ?_ .refl hloop
  intro acc _ _ hrow hacc hround
  simp only [orphanDelivery, ok_iff] at hround
  obtain ⟨_, hclose, rfl⟩ := hround
  refine (hacc.trans (.close hclose ?_ (fun _ => rfl) (fun _ => rfl) ?_)).trans
    (.beside ⟨⟨rfl, rfl⟩, rfl⟩)
  · intro d hd hid
    obtain ⟨_, hd₀, hedits⟩ := hacc.rows d hd
    rw [hedits.same.2.1]
    exact key_eq_of_deliveryId (mem_select.mp hrow).1 hd₀ (hedits.same.1.symm.trans hid)
  intro d hd hid hphase
  obtain ⟨_, hd₀, hedits⟩ := hacc.rows d hd
  obtain ⟨hmem, hselected⟩ := mem_select.mp hrow
  simp only [test_iff] at hselected
  refine ⟨hphase, .orphan hphase ⟨rfl, ?_⟩⟩
  rw [hedits.instance rfl, eq_of_conflicts hd₀ hmem (.inr (.inl (hedits.same.1.symm.trans hid)))]
  exact hselected.1

/-! ## Edits of the held queue -/

variable {request : QueueEditRequest} {action : QueueEditAction}

/-- An edit keeps the tables as they are, or as its body has left them; only the latter comes
with an effect. -/
theorem queueEditOnce_cases {T : Type} {apply : Store → Result (QueueEditDecision T × Store)}
    {receipt : QueueEditReceipt × Option T × Option OrphanedDeliveryNotice}
    (h : s.queueEditOnce request action now apply = .ok (receipt, s')) :
    receipt.2.1 = none ∧ SameTables s s' ∨
      ∃ outcome edited, apply s = .ok (outcome, edited) ∧ SameTables edited s' ∧
        ∀ effect, receipt.2.1 = some effect → outcome.decision = .ok effect := by
  simp only [queueEditOnce, ok_iff] at h
  obtain ⟨-, -, -, -, -, -, _, -, h⟩ := h
  split at h
  · split at h <;> cases h <;> exact .inl ⟨rfl, rfl, rfl⟩
  simp only [ok_iff, pair_iff, sql_eq_ok] at h
  obtain ⟨outcome, edited, hedit, state, refusal, effect, notice, decided, hdecided, queueEdits,
    -, rfl, rfl⟩ := h
  unfold settleDecision at hdecided
  split at hdecided
  next hdecision =>
    cases hdecided
    refine .inr ⟨outcome, _, hedit, ⟨rfl, rfl⟩, ?_⟩
    rintro _ ⟨rfl⟩
    exact hdecision
  · cases hdecided
    exact .inl ⟨rfl, rfl, rfl⟩
  · simp only [ok_iff, pair_iff] at hdecided
    obtain ⟨-, -, ⟨-, -, rfl, -⟩, rfl⟩ := hdecided
    exact .inr ⟨outcome, _, hedit, ⟨rfl, rfl⟩, by simp⟩

variable {recipientAgent : String}

theorem setRank_writes {current : Int → Bool} {rank : Int}
    (h : s.setRank recipientAgent id current rank = .ok s') : Writes op s s' := by
  simp only [setRank, ok_iff, sql_eq_ok, pair_iff] at h
  obtain ⟨_, _, hupdate, _, -, rfl⟩ := h
  refine .update hupdate (fun _ => rfl) (fun _ => .inl rfl) ?_
  intro _ _ hselected
  simp only [test_iff] at hselected
  exact .rank rank hselected.2.2.1

theorem moveHeld_writes {beforeId : Option String} {outcome : QueueEditDecision Unit}
    (h : s.moveHeld recipientAgent id beforeId = .ok (outcome, s')) : Writes op s s' := by
  simp only [moveHeld, ok_iff] at h
  obtain ⟨-, -, -, -, h⟩ := h
  split at h
  · cases h
    exact .refl
  simp only [bind_eq_ok] at h
  obtain ⟨_, -, h⟩ := h
  split at h
  · cases h
    exact .refl
  simp only [ok_iff, pair_iff] at h
  obtain ⟨_, hmoved, -, rfl⟩ := h
  simp only [renumber, bind_eq_ok] at hmoved
  obtain ⟨middle, hfirst, hsecond⟩ := hmoved
  have hmiddle : Writes op s middle := by
    apply foldlM_invariant (Writes op s) ?_ .refl hfirst
    exact fun s₁ s₂ row _ hs₁ hstep => hs₁.trans (setRank_writes hstep)
  apply foldlM_invariant (Writes op s) ?_ hmiddle hsecond
  exact fun s₁ s₂ row _ hs₁ hstep => hs₁.trans (setRank_writes hstep)

variable {messageId : String}

theorem uniqueHeldPublicId_agent
    (h : s.uniqueHeldPublicId env recipientAgent messageId = .ok (some id))
    (hd : d ∈ s.deliveries) (hid : d.deliveryId = id) : d.recipientAgent = recipientAgent := by
  simp only [uniqueHeldPublicId, bind_eq_ok] at h
  obtain ⟨_, -, h⟩ := h
  split at h
  next d' hfound =>
    cases h
    obtain ⟨hheld, -⟩ := List.mem_filter.mp (hfound ▸ List.mem_singleton_self d')
    obtain ⟨hd', hselected⟩ := mem_select.mp (List.mem_insertionSort _ |>.mp hheld)
    simp only [test_iff] at hselected
    rw [eq_of_conflicts hd hd' (.inr (.inl hid))]
    exact hselected.1
  · cases h

variable {refusalCode : GuidanceRefusal → String} {outcome : QueueEditDecision SendDelivery}
  {rights : GuidanceFacts}

section

variable
  (h : s.promoteHeld env rights refusalCode recipientAgent id now eventIds = .ok (outcome, s'))

include h

/-- The held delivery is left alone or closed, or takes the turn of its agent. -/
theorem promoteHeld_cases :
    (∀ delivery, outcome.decision ≠ .ok delivery) ∧ (s' = s ∨
        ∃ reason notice, s.settleHeldInTransaction env id reason now eventIds = .ok (notice, s')) ∨
      ∃ delivery deliveries, outcome.decision = .ok delivery ∧ delivery.deliveryId = id ∧
        s.deliveries.update (fun x => x.deliveryId = id ∧ x.recipientAgent = recipientAgent ∧
          x.phase = .held ∧ !x.turnGate) takeTurn = .ok (deliveries, 1) ∧
        s' = { s with deliveries } := by
  simp only [promoteHeld, ok_iff, pair_iff] at h
  obtain ⟨_, _, -, _, -, _, -, h⟩ := h
  split at h
  next reason _ =>
    simp only [ok_iff, pair_iff] at h
    obtain ⟨_, _, hsettle, _, -, rfl, rfl⟩ := h
    exact .inl ⟨by simp, .inr ⟨reason, _, hsettle⟩⟩
  simp only [bind_eq_ok] at h
  obtain ⟨_, -, h⟩ := h
  split at h
  · cases h
    exact .inl ⟨by rintro _ ⟨⟩, .inl rfl⟩
  · simp only [ok_iff, sql_eq_ok, pair_iff] at h
    obtain ⟨deliveries, _, hupdate, _, rfl, rfl, rfl⟩ := h
    exact .inr ⟨_, deliveries, rfl, rfl, hupdate, rfl⟩

theorem promoteHeld_writes (request : QueueEditRequest) (facts : GuidanceFacts)
    (hfound : s.uniqueHeldPublicId env recipientAgent messageId = .ok (some id)) :
    Writes (.store (.promote request recipientAgent messageId facts refusalCode now eventIds))
      s s' := by
  have hown (d : DeliveryRow) := uniqueHeldPublicId_agent (d := d) hfound
  obtain ⟨-, rfl | ⟨_, _, hsettle⟩⟩ | ⟨_, _, -, -, hupdate, rfl⟩ := promoteHeld_cases h
  · exact .refl
  · exact settleHeldInTransaction_writes hsettle fun d hd hid => ⟨.inr rfl, hown d hd hid⟩
  · refine .update hupdate (fun _ => rfl) (fun _ => .inr (.inl rfl)) ?_
    intro x hx hselected
    simp only [test_iff] at hselected
    exact .take hselected.2.2.1 ⟨.inl rfl, hown x hx hselected.1⟩

end

theorem applyCancel_calls {receipt : QueueEditReceipt × Option OrphanedDeliveryNotice}
    (h : s.applyCancel env request recipientAgent messageId now eventIds = .ok (receipt, s')) :
    ∃ body notice, s.queueEditOnce request .cancel now body =
        .ok ((receipt.1, receipt.2, notice), s') ∧
      ∀ outcome edited, body s = .ok (outcome, edited) →
        Writes (.store (.cancel request recipientAgent messageId now eventIds)) s edited := by
  simp only [applyCancel, ok_iff, pair_iff] at h
  obtain ⟨_, _, notice, _, hedit, rfl, rfl⟩ := h
  refine ⟨_, notice, hedit, ?_⟩
  intro outcome edited happly
  simp only [bind_eq_ok] at happly
  obtain ⟨_, hfound, happly⟩ := happly
  split at happly
  · cases happly
    exact .refl
  · simp only [ok_iff, pair_iff] at happly
    obtain ⟨_, _, hsettle, _, -, -, rfl⟩ := happly
    exact settleHeldInTransaction_writes hsettle fun d hd hid =>
      ⟨rfl, uniqueHeldPublicId_agent hfound hd hid⟩

theorem applyReorder_calls {beforeMessageId : Option String}
    {receipt : QueueEditReceipt × Option Unit}
    (h : s.applyReorder env request recipientAgent messageId beforeMessageId now =
      .ok (receipt, s')) :
    ∃ body notice, s.queueEditOnce request .reorder now body =
        .ok ((receipt.1, receipt.2, notice), s') ∧
      ∀ outcome edited, body s = .ok (outcome, edited) →
        Writes (.store (.reorder request recipientAgent messageId beforeMessageId now))
          s edited := by
  simp only [applyReorder, ok_iff, pair_iff] at h
  obtain ⟨_, _, notice, _, hedit, rfl, rfl⟩ := h
  refine ⟨_, notice, hedit, ?_⟩
  intro outcome edited happly
  simp only [bind_eq_ok] at happly
  obtain ⟨_, -, happly⟩ := happly
  split at happly
  · cases happly
    exact .refl
  split at happly
  · exact moveHeld_writes happly
  simp only [bind_eq_ok] at happly
  obtain ⟨_, -, happly⟩ := happly
  split at happly
  · cases happly
    exact .refl
  · exact moveHeld_writes happly

/-- A promotion without the rights for it is refused before any table is read; the body of one
that has them finds no held delivery, or promotes it. -/
theorem applyPromote_calls {facts : GuidanceFacts}
    {receipt : QueueEditReceipt × Option SendDelivery × Option OrphanedDeliveryNotice}
    (h : s.applyPromote env request recipientAgent messageId facts refusalCode now eventIds =
      .ok (receipt, s')) :
    (∃ refusal, authorize { facts with action := .queuePromote } = .error refusal ∧
        receipt.1.state = .refused ∧ receipt.2 = (none, none) ∧ s' = s) ∨
      (∃ granted, authorize { facts with action := .queuePromote } = .ok granted) ∧
      ∃ body, s.queueEditOnce request .promote now body = .ok (receipt, s') ∧
        ∀ outcome edited, body s = .ok (outcome, edited) →
          edited = s ∧ outcome.decision = .error ("not_held", none) ∨
          ∃ id, s.uniqueHeldPublicId env recipientAgent messageId = .ok (some id) ∧
            s.promoteHeld env { facts with action := .queuePromote } refusalCode recipientAgent id
              now eventIds = .ok (outcome, edited) := by
  unfold applyPromote at h
  dsimp only at h
  split at h
  next refusal hrefusal =>
    cases h
    exact .inl ⟨refusal, hrefusal, rfl, rfl, rfl⟩
  rename_i granted hgranted
  refine .inr ⟨⟨granted, hgranted⟩, _, h, ?_⟩
  intro outcome edited happly
  simp only [bind_eq_ok] at happly
  obtain ⟨_, hfound, happly⟩ := happly
  split at happly
  · cases happly
    exact .inl ⟨rfl, rfl⟩
  next id => exact .inr ⟨id, hfound, happly⟩

variable {op : Op}

/-- An operation is made of writes, and an edit of the queue leaves its receipt as well. -/
def Done (op : Op) (s s' : Store) : Prop :=
  ∃ edited, Writes (.store op) s edited ∧ SameTables edited s' ∧
    (op.isEdit = false → s'.queueEdits = edited.queueEdits)

theorem Writes.done (h : Writes (.store op) s s') : Done op s s' :=
  ⟨s', h, ⟨rfl, rfl⟩, fun _ => rfl⟩

theorem queueEditOnce_done {T : Type} {apply : Store → Result (QueueEditDecision T × Store)}
    {receipt : QueueEditReceipt × Option T × Option OrphanedDeliveryNotice}
    (h : s.queueEditOnce request action now apply = .ok (receipt, s')) (hedit : op.isEdit = true)
    (hbody : ∀ outcome edited, apply s = .ok (outcome, edited) → Writes (.store op) s edited) :
    Done op s s' := by
  unfold Done
  rw [hedit]
  obtain ⟨-, hsame⟩ | ⟨outcome, edited, happly, hsame, -⟩ := queueEditOnce_cases h
  · exact ⟨s, .refl, hsame, by simp⟩
  · exact ⟨edited, hbody outcome edited happly, hsame, by simp⟩

theorem exec_writes (h : s.exec env op = .ok s') (hserves : op.serves = true) : Done op s s' := by
  cases op <;> cases hserves
  case markIndeterminate => exact (markDeliveryIndeterminate_writes h).done
  case clearTurnGate => exact (clearHeldTurnGate_writes h (by simp [QueueOp.clears])).done
  case others =>
    cases h
    exact ⟨s, .refl, ⟨rfl, rfl⟩, fun _ => rfl⟩
  all_goals obtain ⟨_, hreturn⟩ := map_snd_eq_ok.mp h
  case reassignDispatching =>
    apply Writes.done
    unfold reassignDispatchingDeliveries at hreturn
    split at hreturn
    · cases hreturn
      exact .refl
    · simp only [ok_iff, sql_eq_ok, pair_iff] at hreturn
      obtain ⟨_, _, hupdate, -, rfl⟩ := hreturn
      exact .update hupdate (fun _ => rfl) (fun _ => .inl rfl) fun _ _ _ => .address _ rfl
  case adoptHeld =>
    apply Writes.done
    simp only [adoptHeldForAgent, ok_iff, sql_eq_ok, pair_iff] at hreturn
    obtain ⟨_, _, _, _, hupdate, -, rfl⟩ := hreturn
    refine .update hupdate (fun _ => rfl) (fun _ => .inl rfl) ?_
    intro _ _ _
    split
    next hphase => exact .recover _ hphase rfl
    · exact .address _ rfl
  case releaseNextHeld => exact (releaseNextHeld_writes hreturn).done
  case promote request _ _ facts _ _ _ _ =>
    obtain ⟨-, -, -, -, rfl⟩ | ⟨-, _, hedit, hbody⟩ := applyPromote_calls hreturn
    · exact Writes.refl.done
    · refine queueEditOnce_done hedit rfl fun outcome edited happly => ?_
      obtain ⟨rfl, -⟩ | ⟨_, hfound, hpromote⟩ := hbody outcome edited happly
      · exact .refl
      · exact promoteHeld_writes hpromote request facts hfound
  case reorder =>
    obtain ⟨_, _, hedit, hbody⟩ := applyReorder_calls hreturn
    exact queueEditOnce_done hedit rfl hbody
  case cancel =>
    obtain ⟨_, _, hedit, hbody⟩ := applyCancel_calls hreturn
    exact queueEditOnce_done hedit rfl hbody
  case settleHeld =>
    apply Writes.done
    exact settleHeldInTransaction_writes hreturn fun _ _ hid => ⟨rfl, hid⟩
  case acknowledge => exact (acknowledgeSendDeliveryAt_writes hreturn).done
  case settleExpired => exact (settleExpiredDispatching_writes hreturn).done
  case orphan => exact (orphanDispatchingForInstance_writes hreturn).done

end Store

end Bridget.Idempotency
