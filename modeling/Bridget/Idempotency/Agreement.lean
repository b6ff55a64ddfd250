import Bridget.Idempotency.Operations

/-!
# Delivery phases and public results agree

In every state the store can reach, the phase of a delivery says which public result its
record holds, and neither changes again once the operation is settled. Everything follows
from the machine of a key: the store keeps each key in a state of the machine, and no
operation admitted here abandons a delivery.
-/

namespace Bridget.Idempotency

open Foundation

namespace Store

/-- Each key is in a state of its machine, and its delivery was not abandoned. -/
def Consistent (s : Store) : Prop := ∀ key, ∃ e, s.Reads key e ∧ ∀ o, e ≠ .lost o

/-- Deliveries and records tell the same story. -/
structure Agrees (s : Store) : Prop where
  unsettled : ∀ d ∈ s.deliveries,
    d.phase = .held ∨ d.phase = .dispatching ∨ d.phase = .indeterminate →
      ∃ r ∈ s.records, r.key = d.key ∧ r.state = .dispatching
  acked : ∀ d ∈ s.deliveries, d.phase = .acked →
    ∃ r ∈ s.records, r.key = d.key ∧ r.state = .terminal ∧ r.result.kind = some .accepted
  orphaned : ∀ d ∈ s.deliveries, d.phase = .orphaned →
    ∃ r ∈ s.records, r.key = d.key ∧ r.state = .terminal ∧ r.result.kind = some .orphaned
  cancelled : ∀ d ∈ s.deliveries, d.phase = .cancelled →
    ∃ r ∈ s.records, r.key = d.key ∧ r.state = .terminal ∧ r.result.kind = some .rejected
  prepared : ∀ r ∈ s.records, r.state = .prepared → ∀ d ∈ s.deliveries, d.key ≠ r.key
  unique : ∀ d ∈ s.deliveries, ∀ d' ∈ s.deliveries, d.key = d'.key → d = d'

/-- What is settled under a key in `s` is settled in the same way in `s'`. -/
structure StaysSettled (key : IdempotencyKey) (s s' : Store) : Prop where
  phase : ∀ d ∈ s.deliveries, d.key = key → d.phase.Absorbing →
    ∃ d' ∈ s'.deliveries, d'.key = key ∧ d'.phase = d.phase
  result : ∀ r ∈ s.records, r.key = key → r.state = .terminal →
    ∃ r' ∈ s'.records, r'.key = key ∧ r'.state = .terminal ∧ r'.result = r.result

variable {env : Envelopes} {s s' : Store} {op : Op} {key : IdempotencyKey} {d : DeliveryRow}

theorem Empty.reads (h : s.Empty) (key : IdempotencyKey) : s.Reads key .absent := by
  unfold Reads loadRecord deliveryAt
  rw [h.records, h.deliveries]
  exact .absent

theorem Empty.consistent (h : s.Empty) : s.Consistent := fun key => ⟨.absent, h.reads key, by simp⟩

theorem permits_ne_abandon {a : Action} (h : op.permits s key a) : a ≠ .abandon := by
  rintro rfl
  cases op <;> simp [Op.permits, only, purging, QueueOp.permits, QueueOp.moves] at h

theorem permits_start (h : op.permits s key .start) :
    ∃ request nowSecs, op = .beginSendDelivery key request nowSecs := by
  cases op with
  | beginSendDelivery _ request nowSecs =>
    obtain ⟨rfl, -⟩ := h
    exact ⟨request, nowSecs, rfl⟩
  | _ => simp [Op.permits, only, purging, QueueOp.permits, QueueOp.moves] at h

section

variable (h : s.Consistent)

include h

theorem Consistent.step (hadmitted : op.Admitted s) : (s.step env op).Consistent := by
  intro key
  obtain ⟨e, hreads, hlost⟩ := h key
  obtain ⟨e', hreads', hmoves⟩ := (step_follows env hadmitted).moves key e hreads
  refine ⟨e', hreads', ?_⟩
  apply Entry.Moves.invariant (P := fun e => ∀ o, e ≠ .lost o) hmoves ?_ hlost
  intro _ e e' hpermits hstep _ o hlost'
  subst hlost'
  cases hstep
  exact permits_ne_abandon hpermits rfl

section

variable (hd : d ∈ s.deliveries)

include hd

theorem Consistent.reads_of_mem :
    ∃ e, Entry.Reads (s.loadRecord d.key) (some d) e ∧ ∀ o, e ≠ .lost o := by
  obtain ⟨e, hreads, hlost⟩ := h d.key
  unfold Reads at hreads
  rw [deliveryAt_eq_some.mpr ⟨hd, rfl⟩] at hreads
  exact ⟨e, hreads, hlost⟩

theorem Consistent.unsettled {p : LivePhase}
    (hphase : d.phase = p.phase) : ∃ r ∈ s.records, r.key = d.key ∧ r.state = .dispatching := by
  obtain ⟨_, hreads, hlost⟩ := h.reads_of_mem hd
  generalize hload : s.loadRecord d.key = record at hreads
  cases hreads with
  | @live r _ _ hr =>
    obtain ⟨hmem, hkey⟩ := loadRecord_eq_some.mp hload
    exact ⟨r, hmem, hkey, hr⟩
  | closed o _ _ hd' =>
    rw [hd'] at hphase
    cases o <;> cases p <;> cases hphase
  | lost o => exact absurd rfl (hlost o)

theorem Consistent.settled {o : Outcome} (hphase : d.phase = o.phase) :
    ∃ r ∈ s.records, r.key = d.key ∧ r.state = .terminal ∧ r.result.kind = some o.kind := by
  obtain ⟨_, hreads, hlost⟩ := h.reads_of_mem hd
  generalize hload : s.loadRecord d.key = record at hreads
  cases hreads with
  | live p _ hd' =>
    rw [hd'] at hphase
    cases o <;> cases p <;> cases hphase
  | @closed r _ o' hr hresult hd' =>
    obtain ⟨hmem, hkey⟩ := loadRecord_eq_some.mp hload
    refine ⟨r, hmem, hkey, hr, ?_⟩
    have hsame := hd'.symm.trans hphase
    rw [hresult]
    cases o <;> cases o' <;> first | rfl | cases hsame
  | lost o => exact absurd rfl (hlost o)

end

theorem Consistent.agrees : s.Agrees where
  unsettled := by
    rintro d hd (hphase | hphase | hphase)
    · exact h.unsettled (p := .held) hd hphase
    · exact h.unsettled (p := .dispatching) hd hphase
    · exact h.unsettled (p := .indeterminate) hd hphase
  acked := fun _ hd hphase => h.settled (o := .accepted) hd hphase
  orphaned := fun _ hd hphase => h.settled (o := .orphaned "") hd hphase
  cancelled := fun _ hd hphase => h.settled (o := .rejected "" "") hd hphase
  prepared := by
    intro r hr hstate d hd hkey
    obtain ⟨_, hreads, -⟩ := h r.key
    obtain ⟨-, hnone⟩ := reads_prepared hreads (loadRecord_eq_some.mpr ⟨hr, rfl⟩) hstate
    rw [deliveryAt_eq_some.mpr ⟨hd, hkey⟩] at hnone
    cases hnone
  unique := by
    intro d hd _ hd' hkey
    exact Table.eq_of_conflicts hd hd' (.inr (.inr hkey))

end

/-- What is settled stays settled along a run that does not purge it. -/
theorem Consistent.staysSettled {ops : List Op} (h : s.Consistent)
    (hrun : Run (Store.step env) (fun s op => op.Admitted s ∧
      ((s.step env op).loadRecord key).isSome)
      s ops s') : StaysSettled key s s' := by
  obtain ⟨e, hreads, -⟩ := h key
  have hafter : e.Settled → s'.Reads key e := by
    intro hsettled
    refine Run.invariant (fun s => s.Reads key e) hrun ?_ hreads
    intro s op hreads hop
    obtain ⟨e', hreads', hmoves⟩ := (step_follows env hop.1).moves key e hreads
    have hexit : ∀ a e', op.permits s key a → Entry.Step a e e' → a = .purge := by
      intro a e' hpermits hstep
      exact (hsettled.exit hstep).resolve_right (permits_ne_abandon hpermits)
    have hpurge : op.permits s key .purge → ¬ op.permits s key .reserve := by
      cases op <;> simp [Op.permits, only, purging, QueueOp.permits, QueueOp.moves]
    rcases hmoves.absorbing hexit hpurge with rfl | rfl
    · exact hreads'
    · have hkept := hop.2
      rw [hreads'.record_absent] at hkept
      cases hkept
  constructor
  · intro d hd hkey habsorbing
    have hat : s.deliveryAt key = some d := deliveryAt_eq_some.mpr ⟨hd, hkey⟩
    have hsettled := hreads.settled_of_phase hat habsorbing
    obtain ⟨d', hat', hphase⟩ := hreads.phase_eq (hafter hsettled) hsettled hat
    obtain ⟨hmem, hkey'⟩ := deliveryAt_eq_some.mp hat'
    exact ⟨d', hmem, hkey', hphase⟩
  · intro r hr hkey hterminal
    have hload : s.loadRecord key = some r := loadRecord_eq_some.mpr ⟨hr, hkey⟩
    have hsettled := hreads.settled_of_terminal hload hterminal
    obtain ⟨r', hload', hstate, hresult⟩ := hreads.result_eq (hafter hsettled) hload hterminal
    obtain ⟨hmem, hkey'⟩ := loadRecord_eq_some.mp hload'
    exact ⟨r', hmem, hkey', hstate, hresult⟩

/-- Delivery phases and public results agree in every reachable state, and once settled
they do not change until the record is purged. -/
theorem delivery_phase_agrees_with_result {s₀ : Store} {ops : List Op} (hempty : s₀.Empty)
    (hrun : Run (Store.step env) (fun s op => op.Admitted s) s₀ ops s) :
    s.Agrees ∧ ∀ key ops' s',
      Run (Store.step env) (fun s op => op.Admitted s ∧ ((s.step env op).loadRecord key).isSome)
        s ops' s' → StaysSettled key s s' := by
  have hconsistent : s.Consistent :=
    Run.invariant Consistent hrun (fun _ _ h hadmitted => h.step hadmitted) hempty.consistent
  refine ⟨hconsistent.agrees, ?_⟩
  intro key ops' s' hkept
  exact hconsistent.staysSettled hkept

end Store

def sampleKey : IdempotencyKey := ⟨"issuer_scope_0123456789", .send, "k1"⟩

def sampleDelivery : SendDelivery := ⟨"d1", "i1", 1, 100, sampleBytes⟩

def acknowledgedRun : List Op :=
  [.reserve sampleKey [1] 0 100 0 0,
    .beginSendDelivery sampleKey ⟨sampleDelivery, none, none, none, none, none⟩ 5,
    .acknowledge "d1" "i1" 1 6 6]

/-- From its reservation to its acknowledgement. -/
theorem acknowledged_run_agrees :
    let s := acknowledgedRun.foldl (Store.step sampleEnvelopes) Store.init
    s.deliveries.rows.map DeliveryRow.phase = [.acked] ∧ s.Agrees := by
  intro s
  have hrun : Run (Store.step sampleEnvelopes) (fun s op => op.Admitted s) Store.init
      acknowledgedRun s :=
    .cons trivial (.cons trivial (.cons trivial (.nil _)))
  exact ⟨by decide, (Store.delivery_phase_agrees_with_result Store.init_empty hrun).1⟩

end Bridget.Idempotency
