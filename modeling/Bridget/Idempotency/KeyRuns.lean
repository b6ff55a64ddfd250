import Bridget.Idempotency.ReserveRace

/-!
# Runs of the store, key by key

Seen from one key, a run of the store is a run of the small machine of that key in which every
operation takes edges of its own, on the keys it is about. So whatever is found under a key has
come about in the order of the machine.
-/

namespace Bridget.Idempotency

open Foundation

/-- The machine of a key along a list of operations, each of which takes only the edges that it
is permitted on that key in the store it finds. -/
inductive Entry.Path (env : Envelopes) (key : IdempotencyKey) :
    Store → Entry → List Op → Entry → Prop
  | nil (s : Store) (e : Entry) : Path env key s e [] e
  | cons {s : Store} {e e' e'' : Entry} {op : Op} {ops : List Op}
      (hmoves : Entry.Moves (op.permits s key) e e')
      (hrest : Path env key (s.step env op) e' ops e'') : Path env key s e (op :: ops) e''

namespace Store

variable {env : Envelopes} {s s' : Store} {ops : List Op} {key : IdempotencyKey} {e : Entry}

theorem Reads.path (hrun : Run (Store.step env) (fun s op => op.Admitted s) s ops s')
    (h : s.Reads key e) : ∃ e', Entry.Path env key s e ops e' ∧ s'.Reads key e' := by
  induction hrun generalizing e with
  | nil => exact ⟨e, .nil _ e, h⟩
  | cons hadmitted _ ih =>
    obtain ⟨middle, hreads, hmoves⟩ := (step_follows env hadmitted).moves key e h
    obtain ⟨e', hpath, hlast⟩ := ih hreads
    exact ⟨e', .cons hmoves hpath, hlast⟩

theorem run_acknowledged : Run (Store.step sampleEnvelopes) (fun s op => op.Admitted s) Store.init
    acknowledgedRun (acknowledgedRun.foldl (Store.step sampleEnvelopes) Store.init) :=
  .cons trivial (.cons trivial (.cons trivial (.nil _)))

theorem Follows.begins {permits : IdempotencyKey → Action → Prop} (h : Follows permits s s')
    (hreads : s.Reads key e) (hnone : s.deliveryAt key = none) (hsome : s'.deliveryAt key ≠ none) :
    permits key .start := by
  by_contra hstart
  obtain ⟨e', hreads', hmoves⟩ := h.moves key e hreads
  refine hmoves.invariant (P := fun e => ¬ e.Delivered) ?_
    (mt hreads.delivered_iff.mpr (not_not.mpr hnone)) (hreads'.delivered_iff.mp hsome)
  intro _ _ _ hpermits hstep hbefore
  cases hstep <;> simp_all [Entry.Delivered]

theorem permits_reserve {op : Op} (h : op.permits s key .reserve) :
    ∃ bytes issuedAt horizonSecs now tolerance,
      op = .reserve key bytes issuedAt horizonSecs now tolerance := by
  cases op <;> simp_all [Op.permits, only, purging, QueueOp.permits, QueueOp.moves]

/-- The operations reserve the key, and begin its delivery some time after. -/
def Begins (key : IdempotencyKey) (ops : List Op) : Prop :=
  ∃ before between after bytes issuedAt horizonSecs now tolerance request nowSecs,
    ops = before ++ .reserve key bytes issuedAt horizonSecs now tolerance ::
      (between ++ .beginSendDelivery key request nowSecs :: after)

/-- What stands in the queue was reserved under its key and begun after that. -/
theorem deliveries_are_reserved_then_begun (hempty : s.Empty)
    (hrun : Run (Store.step env) (fun s op => op.Admitted s) s ops s') :
    ∀ d ∈ s'.deliveries, Begins d.key ops := by
  intro d hd
  have hsome : s'.deliveryAt d.key ≠ none := by simp [deliveryAt_eq_some.mpr ⟨hd, rfl⟩]
  -- the operation that brought the delivery, and the run up to it
  obtain ⟨first, begin, after, middle, rfl, hfirst, hadmitted, hnone, hbegun⟩ :=
    hrun.exists_step (fun s => s.deliveryAt d.key ≠ none)
      (by rw [(hempty.reads d.key).delivered_iff]; exact not_false) hsome
  obtain ⟨e, -, hreads⟩ := (hempty.reads d.key).path hfirst
  have hfollows := step_follows env hadmitted
  obtain ⟨request, nowSecs, rfl⟩ := permits_start (hfollows.begins hreads (not_not.mp hnone) hbegun)
  have hprepared := hfollows.creates hreads (by simp [Op.permits, only]) (not_not.mp hnone) hbegun
  -- the key was prepared there, so some earlier operation reserved it
  obtain ⟨before, op, between, earlier, rfl, -, hadmitted', hnone', hreserved⟩ :=
    hfirst.exists_step (fun s => s.loadRecord d.key ≠ none)
      (by rw [Ne, (hempty.reads d.key).absent_iff]; exact not_not.mpr rfl)
      (by rw [Ne, hreads.absent_iff, hprepared]; exact Entry.noConfusion)
  have hpermits : op.permits earlier d.key .reserve := by
    by_contra hreserve
    exact hreserved ((step_follows env hadmitted').record_none hreserve (not_not.mp hnone'))
  obtain ⟨bytes, issuedAt, horizonSecs, now, tolerance, rfl⟩ := permits_reserve hpermits
  exact ⟨before, between, after, bytes, issuedAt, horizonSecs, now, tolerance, request, nowSecs,
    by simp⟩

/-- The acknowledged delivery was reserved first and begun next. -/
theorem acknowledged_delivery_was_begun :
    let s := acknowledgedRun.foldl (Store.step sampleEnvelopes) Store.init
    s.deliveries.rows.map DeliveryRow.phase = [.acked] ∧
      ∀ d ∈ s.deliveries, Begins d.key acknowledgedRun :=
  ⟨by decide, deliveries_are_reserved_then_begun init_empty run_acknowledged⟩

end Store

end Bridget.Idempotency
