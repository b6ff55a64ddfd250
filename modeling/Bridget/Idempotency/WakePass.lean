import Bridget.Idempotency.Agreement
import Bridget.Idempotency.CliWake
import Bridget.Idempotency.Orphaning

/-!
# The wake pass beside the other operations

The pass of `scheduled_wakes_tick` over the command-line wakes, interleaved with every
other operation of the store. The pass finalizes records itself, so a delivery in flight
may lose its record to it. The runs in which it never asks about a wake whose own delivery
is past its grace keep every delivery in flight backed by a dispatching record.
-/

namespace Bridget.Idempotency

open Foundation IdempotencyKey Store Follows

inductive WakePc where
  | idle
  | departing (wake : FrozenWake) (target instanceId : String)
  | unsent (wake : FrozenWake) (deliveryId instanceId : String)
  | asked (wake : FrozenWake) (outcome : Except String WakePhase)

structure WakeState where
  store : Store
  cursor : Option (Int × String)
  /-- The wakes that the current tick still has to handle, and its reading of the clock. -/
  queue : List FrozenWake
  now : Int
  pc : WakePc

def WakePc.answered (wake : FrozenWake) : Except String WakeAnswer → WakePc
  | .ok (.depart target instanceId) => .departing wake target instanceId
  | .ok (.settled phase) => .asked wake (.ok phase)
  | .error code => .asked wake (.error code)

/-- The pass is about to finalize the record of this key. -/
def WakePc.Finalizes (key : IdempotencyKey) : WakePc → Prop
  | .asked wake outcome => terminalResult outcome ≠ none ∧ new cliWakeScope .send wake.id = .ok key
  | _ => False

def WakeState.init : WakeState :=
  { store := .init, cursor := none, queue := [], now := 0, pc := .idle }

inductive WakeLabel where
  | op (op : Op)
  | reserveCliWake (id owner : String) (target : WakeTarget) (label : String)
    (ownerProject : Option CommunicationProject) (threadOperationId : String) (now : Int)
  | tick (now : Int)
  | ask (facts : AskFacts)
  | depart (facts : DepartFacts)
  | markUnsent
  | settle

namespace WakeState

variable (codec : WakeCodec) (σ : WakeState)

/-- A tick reads the pending wakes once, when its previous round is over. -/
def tick (now : Int) : WakeState :=
  match σ.pc, σ.queue, σ.store.pendingCliWakes codec now σ.cursor with
  | .idle, [], .ok [] => { σ with cursor := none, now }
  | .idle, [], .ok pending => { σ with queue := pending, now }
  | _, _, _ => σ

def ask (facts : AskFacts) : WakeState :=
  match σ.pc, σ.queue with
  | .idle, wake :: queue =>
    let (answer, store) := σ.store.askWake codec wake σ.now facts
    { σ with store, queue, pc := .answered wake answer }
  | _, _ => σ

def depart (facts : DepartFacts) : WakeState :=
  match σ.pc with
  | .departing wake target instanceId =>
    let (committed, store) := σ.store.departWake codec wake target instanceId facts
    let pc :=
      if !committed then .asked wake (.ok .deferred)
      else if facts.pushed then .asked wake (.ok .dispatchingAgent)
      else .unsent wake facts.deliveryId instanceId
    { σ with store, pc }
  | _ => σ

/-- The frame of a committed delivery could not be written. -/
def markUnsent : WakeState :=
  match σ.pc with
  | .unsent wake deliveryId instanceId =>
    let store := match σ.store.markDeliveryIndeterminate deliveryId instanceId 1 with
      | .ok store => store
      | .error _ => σ.store
    { σ with store, pc := .asked wake (.ok .dispatchingAgent) }
  | _ => σ

def settle : WakeState :=
  match σ.pc with
  | .asked wake outcome =>
    let store := match terminalResult outcome with
      | some result => σ.store.settleWake codec wake result
      | none => σ.store
    { σ with store, cursor := some (wake.issuedAt, wake.id), pc := .idle }
  | _ => σ

def step (codec : WakeCodec) (σ : WakeState) : WakeLabel → WakeState
  | .op op => { σ with store := σ.store.step codec.envelopes op }
  | .reserveCliWake id owner target label ownerProject threadOperationId now =>
    match σ.store.reserveCliWake codec id owner target label ownerProject threadOperationId now with
    | .ok (_, store) => { σ with store }
    | .error _ => σ
  | .tick now => σ.tick codec now
  | .ask facts => σ.ask codec facts
  | .depart facts => σ.depart codec facts
  | .markUnsent => σ.markUnsent
  | .settle => σ.settle codec

end WakeState

def Store.Landed (s : Store) (key : IdempotencyKey) : Prop :=
  ∀ d, s.deliveryAt key = some d → d.phase.inFlight = false

/-- Asking about a wake is harmless while its own delivery has landed, or is being sent to
an agent within the grace of the wake. A refusal of the thread store is harmless too. -/
def FrozenWake.Askable (wake : FrozenWake) (s : Store) (now : Int) (facts : AskFacts) : Prop :=
  ∀ key, new cliWakeScope .send wake.id = .ok key →
    match wake.threadAnswer facts.threadReplay with
    | some (.error _) => True
    | some (.ok _) => s.Landed key
    | none => s.Landed key ∨
        (∃ d, s.deliveryAt key = some d ∧ d.phase = .dispatching) ∧ now < wake.graceUntil

/-- The condition on the steps of a run: transitions and finalizations by hand keep to keys
without a delivery, no one begins a delivery under the key of a wake that the pass is about
to finalize, and the pass asks only about askable wakes. -/
def WakeLabel.Safe (σ : WakeState) : WakeLabel → Prop
  | .op operation => operation.Admitted σ.store ∧
      ∀ key request nowSecs, operation = .beginSendDelivery key request nowSecs →
        ¬ σ.pc.Finalizes key
  | .ask facts => ∀ wake ∈ σ.queue.head?, wake.Askable σ.store σ.now facts
  | _ => True

variable {wake : FrozenWake} {s : Store} {now : Int} {facts : AskFacts}

theorem WakePc.finalizes_answered {answer : Except String WakeAnswer}
    {key : IdempotencyKey} (h : (WakePc.answered wake answer).Finalizes key) :
    new cliWakeScope .send wake.id = .ok key := by
  unfold WakePc.answered at h
  split at h
  · exact absurd h id
  · exact h.2
  · exact h.2

/-- No delivery is on its way in this state. -/
def Entry.Landed (e : Entry) : Prop := e ≠ .live .held ∧ e ≠ .live .dispatching

theorem Entry.Landed.step {a : Action} {e e' : Entry} (h : e.Landed) (hstep : Entry.Step a e e')
    (ha : a ≠ .start) : e'.Landed := by
  cases hstep with
  | startHeld | startDispatching => exact absurd rfl ha
  | release => exact absurd rfl h.1
  | _ => simp [Entry.Landed]

/-- A store without deliveries answers any question safely. -/
theorem FrozenWake.Askable.of_rows_nil (h : s.deliveries.rows = []) : wake.Askable s now facts := by
  intro key _
  have hlanded : s.Landed key := by
    intro d hd
    have hmem : d ∈ s.deliveries.rows := (deliveryAt_eq_some.mp hd).1
    rw [h] at hmem
    cases hmem
  split
  · trivial
  · exact hlanded
  · exact .inl hlanded

/-- What the pass does to the records of its wakes. -/
def byHand (key : IdempotencyKey) (k : IdempotencyKey) (a : Action) : Prop :=
  k = key ∧ (a = .transition ∨ a = .finalize ∨ a = .abandon)

namespace Store

variable {codec : WakeCodec} {s s' : Store} {key : IdempotencyKey} {e : Entry}

theorem Reads.landed_iff (h : s.Reads key e) : s.Landed key ↔ e.Landed := by
  unfold Reads at h
  unfold Landed
  generalize s.loadRecord key = record at h
  generalize s.deliveryAt key = delivery at h
  cases h with
  | live p _ hd => cases p <;> simp [Entry.Landed, hd, LivePhase.phase, DeliveryPhase.inFlight]
  | closed o _ _ hd => cases o <;> simp [Entry.Landed, hd, Outcome.phase, DeliveryPhase.inFlight]
  | lost _ _ _ hd => simp [Entry.Landed, hd, DeliveryPhase.inFlight]
  | _ => simp [Entry.Landed]

variable {permits : IdempotencyKey → Action → Prop}

/-- A landed key stays landed until a delivery is begun under it. -/
theorem Landed.follows (hlanded : s.Landed key) (hreads : s.Reads key e)
    (hfollows : Follows permits s s') (hstart : ¬ permits key .start) : s'.Landed key := by
  obtain ⟨e', hreads', hmoves⟩ := hfollows.moves key e hreads
  apply hreads'.landed_iff.mpr
  apply hmoves.invariant (P := Entry.Landed) ?_ (hreads.landed_iff.mp hlanded)
  intro _ e e' hpermits hstep he
  exact he.step hstep (fun ha => hstart (ha ▸ hpermits))

theorem Follows.toByHand {a : Action} (h : Follows (only key a) s s')
    (ha : a = .transition ∨ a = .finalize ∨ a = .abandon) : Follows (byHand key) s s' := by
  refine h.mono ?_
  rintro _ _ ⟨rfl, rfl⟩
  exact ⟨rfl, ha⟩

variable {result : PublicResult}

theorem finalize_landed_follows (hlanded : s.Landed key) (h : s.finalize key result = .ok s') :
    Follows (byHand key) s s' := by
  cases hdelivery : s.deliveryAt key with
  | none => exact (finalize_follows h hdelivery).toByHand (by simp)
  | some d =>
    by_cases hphase : d.phase = .indeterminate
    · exact (finalize_follows_abandon h hdelivery hphase).toByHand (by simp)
    -- a settled delivery has a terminal record, which cannot be finalized again
    have hrecord : Follows (only key .finalize) s s' := by
      refine finalize_moves h fun _ _ _ hr _ _ hreads => ?_
      have hland := hlanded d hdelivery
      rw [hdelivery] at hreads
      cases hreads with
      | live p => cases p <;> simp_all [LivePhase.phase, DeliveryPhase.inFlight]
      | closed _ hr' | lost _ hr' => simp [hr] at hr'
    exact hrecord.toByHand (by simp)

theorem transition_byHand {current target : RecordState}
    (h : s.transition key current target = .ok s') : Follows (byHand key) s s' :=
  (transition_follows h).toByHand (by simp)

theorem not_byHand_start (key k : IdempotencyKey) : ¬ byHand key k .start := by simp [byHand]

theorem dispatchPrepared_follows (wake : FrozenWake) :
    Follows (byHand key) s (s.dispatchPrepared codec key wake) := by
  unfold dispatchPrepared
  split
  · split
    next h => exact transition_byHand h
    · exact refl s
  · exact refl s

variable {wake : FrozenWake} {id : String}

theorem settleWake_follows (hkey : new cliWakeScope .send wake.id = .ok key)
    (hlanded : s.Landed key) (hreads : s.Reads key e) :
    Follows (byHand key) s (s.settleWake codec wake result) := by
  have hfirst : Follows (byHand key) s (s.dispatchPrepared codec key wake) :=
    dispatchPrepared_follows wake
  unfold settleWake
  rw [hkey]
  dsimp only
  split
  next h =>
    have hstill := hlanded.follows hreads hfirst (not_byHand_start key key)
    exact hfirst.trans (finalize_landed_follows hstill h)
  · exact hfirst

/-- A sub-step of a section that fails changes nothing. -/
theorem attempt_follows {α : Type} {result : Result Store} {next : Store → Except String α × Store}
    (hnext : ∀ middle, result = .ok middle → Follows permits s (next middle).2) :
    Follows permits s (s.attempt result next).2 := by
  cases result with
  | ok middle => exact hnext middle rfl
  | error => exact refl s

theorem storedSendDelivery_eq_deliveryAt (hkind : key.operationKind = .send) :
    s.storedSendDelivery key = s.deliveryAt key := by
  unfold storedSendDelivery deliveryAt
  congr 1
  funext d
  cases key
  simp_all [DeliveryRow.key]

theorem concludeReplay_follows (hlanded : s.Landed key) (hreads : s.Reads key e) :
    Follows (byHand key) s (s.concludeReplay codec key wake).2 := by
  unfold concludeReplay
  split
  · apply attempt_follows
    intro s₁ h₁
    have hfirst : Follows (byHand key) s s₁ := by
      split at h₁
      · exact transition_byHand h₁
      · cases h₁
        exact refl s
    refine hfirst.trans (attempt_follows ?_)
    intro _ h₂
    split at h₂
    · exact finalize_landed_follows (hlanded.follows hreads hfirst (not_byHand_start key key)) h₂
    · cases h₂
      exact refl s₁
  · exact refl s

theorem postToThread_follows (hlanded : s.Landed key) (hreads : s.Reads key e) :
    Follows (byHand key) s (s.postToThread codec key wake facts).2 := by
  unfold postToThread
  split
  · exact refl s
  split
  · exact refl s
  split
  · exact refl s
  apply attempt_follows
  intro s₁ h₁
  have hfirst : Follows (byHand key) s s₁ := by
    split at h₁
    · exact transition_byHand h₁
    · cases h₁
      exact refl s
  split
  · exact hfirst
  split
  · exact hfirst
  split
  · exact hfirst
  · refine hfirst.trans (attempt_follows ?_)
    intro _ h₂
    exact finalize_landed_follows
      (hlanded.follows hreads hfirst (not_byHand_start key key)) h₂

/-- Asking about an askable wake moves its record only by hand, and the pass goes on to
finalize it only if no delivery of the wake is in flight. -/
theorem askWake_spec (codec : WakeCodec) (hkey : new cliWakeScope .send wake.id = .ok key)
    (hask : wake.Askable s now facts) (hreads : s.Reads key e) :
    Follows (byHand key) s (s.askWake codec wake now facts).2 ∧
      ((WakePc.answered wake (s.askWake codec wake now facts).1).Finalizes key → s.Landed key) := by
  have hsafe := hask key hkey
  by_cases hlanded : s.Landed key
  · -- asking only moves the record of the wake by hand
    refine ⟨?_, fun _ => hlanded⟩
    unfold askWake
    rw [hkey]
    dsimp only
    split
    · exact refl s
    · exact concludeReplay_follows hlanded hreads
    split
    · exact refl s
    · split <;> exact refl s
    split
    · exact refl s
    split
    · exact refl s
    · exact refl s
    · exact refl s
    · exact postToThread_follows hlanded hreads
    · exact refl s
  · unfold askWake
    rw [hkey]
    cases hanswer : wake.threadAnswer facts.threadReplay with
    | some answer =>
      rw [hanswer] at hsafe
      cases answer with
      | ok => exact absurd hsafe hlanded
      | error =>
        refine ⟨refl s, fun hfinal => absurd ?_ hfinal.1⟩
        unfold FrozenWake.threadAnswer at hanswer
        split at hanswer <;> first | (cases hanswer; rfl) | cases hanswer
    | none =>
      rw [hanswer] at hsafe
      obtain ⟨⟨_, hd, hphase⟩, hnow⟩ := hsafe.resolve_left hlanded
      dsimp only
      have hkind : key.operationKind = .send := by
        simp only [new, ok_iff] at hkey
        obtain ⟨-, -, -, -, rfl⟩ := hkey
        rfl
      rw [storedSendDelivery_eq_deliveryAt hkind, hd]
      simp only [Option.map_some, hphase, true_and, hnow, if_true]
      exact ⟨refl s, fun hfinal => absurd rfl hfinal.1⟩

theorem reserveCliWake_follows {owner : String} {target : WakeTarget}
    {label threadOperationId : String} {ownerProject : Option CommunicationProject}
    {answer : Reservation × FrozenWake}
    (h : s.reserveCliWake codec id owner target label ownerProject threadOperationId now =
      .ok (answer, s')) : Follows (fun _ a => a = .reserve) s s' := by
  simp only [reserveCliWake, bind_eq_ok] at h
  obtain ⟨_, -, -, -, h⟩ := h
  split at h
  · simp only [bind_eq_ok] at h
    obtain ⟨_, -, h⟩ := h
    split at h
    · cases h
      exact refl s
    split at h
    · cases h
      exact refl s
    · simp only [ok_iff, pair_iff] at h
      obtain ⟨_, -, -, rfl⟩ := h
      exact refl s
  · simp only [ok_iff, sql_eq_ok, pair_iff] at h
    obtain ⟨-, -, _, -, _, -, _, -, -, -, _, hinsert, -, rfl⟩ := h
    exact (insertPrepared_follows hinsert).mono fun _ _ hpermits => hpermits.2

theorem departWake_follows (wake : FrozenWake) (target instanceId : String) (facts : DepartFacts) :
    Follows (fun _ a => a = .reserve ∨ a = .start) s
      (s.departWake codec wake target instanceId facts).2 := by
  unfold departWake
  split
  · split
    · exact refl s
    split
    · exact refl s
    rename_i s₁ hreserve
    have hfirst : Follows (fun _ a => a = .reserve ∨ a = .start) s s₁ :=
      (reserve_follows hreserve).mono fun _ _ hpermits => .inl hpermits.2
    split
    · split
      · exact hfirst
      split
      next hbegin =>
        exact hfirst.trans ((beginSendDeliveryWithGuidance_follows hbegin).mono
          fun _ _ hpermits => .inr hpermits.2)
      · exact hfirst
    · exact hfirst
  · exact refl s

end Store

/-- Every key is in a state of its machine. -/
def Store.Coherent (s : Store) : Prop := ∀ key, ∃ e, s.Reads key e

theorem Store.Follows.coherent {permits : IdempotencyKey → Action → Prop} {s' : Store}
    (hfollows : Store.Follows permits s s') (h : s.Coherent) : s'.Coherent := by
  intro key
  obtain ⟨e, hreads⟩ := h key
  obtain ⟨e', hreads', -⟩ := hfollows.moves key e hreads
  exact ⟨e', hreads'⟩

/-- Coherence is what backs the deliveries in flight. -/
theorem Store.Coherent.backed (h : s.Coherent) : s.Backed := by
  intro d hd hflight
  obtain ⟨_, hreads⟩ := h d.key
  unfold Store.Reads at hreads
  rw [deliveryAt_eq_some.mpr ⟨hd, rfl⟩] at hreads
  have hlive : ∃ p : LivePhase, d.phase = p.phase ∧ p ≠ .indeterminate := by
    cases hphase : d.phase with
    | held => exact ⟨.held, rfl, by simp⟩
    | dispatching => exact ⟨.dispatching, rfl, by simp⟩
    | _ => simp [hphase, DeliveryPhase.inFlight] at hflight
  obtain ⟨_, hphase, hp⟩ := hlive
  obtain ⟨-, r, hload, hstate⟩ := hreads.of_phase hphase hp
  obtain ⟨hmem, hkey⟩ := loadRecord_eq_some.mp hload
  exact ⟨r, hmem, hkey, hstate⟩

/-- The store is coherent, and a key that the pass is about to finalize has no delivery in
flight. -/
structure WakeState.Sound (σ : WakeState) : Prop where
  coherent : σ.store.Coherent
  landed : ∀ key, σ.pc.Finalizes key → σ.store.Landed key

namespace WakeState

variable {codec : WakeCodec} {σ σ' : WakeState} {permits : IdempotencyKey → Action → Prop}

section

variable (h : σ.Sound)

include h

/-- A step that begins no delivery under a key about to be finalized. -/
theorem Sound.follows (hfollows : Store.Follows permits σ.store σ'.store) (hpc : σ'.pc = σ.pc)
    (hstart : ∀ key, σ.pc.Finalizes key → ¬ permits key .start) : σ'.Sound := by
  refine ⟨hfollows.coherent h.coherent, ?_⟩
  intro key hfinal
  rw [hpc] at hfinal
  obtain ⟨_, hreads⟩ := h.coherent key
  exact (h.landed key hfinal).follows hreads hfollows (hstart key hfinal)

/-- A step after which the pass is not about to finalize anything. -/
theorem Sound.of_not_finalizes (hfollows : Store.Follows permits σ.store σ'.store)
    (hpc : ∀ key, ¬ σ'.pc.Finalizes key) : σ'.Sound :=
  ⟨hfollows.coherent h.coherent, fun key hfinal => absurd hfinal (hpc key)⟩

theorem Sound.op {operation : Op} (hsafe : WakeLabel.Safe σ (.op operation)) :
    (σ.step codec (.op operation)).Sound := by
  refine h.follows (step_follows codec.envelopes hsafe.1) rfl ?_
  intro key hfinal hpermits
  obtain ⟨request, nowSecs, rfl⟩ := permits_start hpermits
  exact hsafe.2 key request nowSecs rfl hfinal

theorem Sound.tick (now : Int) : (σ.tick codec now).Sound := by
  unfold WakeState.tick
  split
  · exact ⟨h.coherent, h.landed⟩
  · exact ⟨h.coherent, h.landed⟩
  · exact h

theorem Sound.ask (hsafe : WakeLabel.Safe σ (.ask facts)) : (σ.ask codec facts).Sound := by
  unfold WakeState.ask
  split
  next wake _ _ hqueue =>
    have hask : wake.Askable σ.store σ.now facts := hsafe wake (by simp [hqueue])
    cases hnew : new cliWakeScope .send wake.id with
    | error =>
      have hasked : σ.store.askWake codec wake σ.now facts
          = (.error "invalid_request", σ.store) := by
        unfold askWake
        rw [hnew]
      rw [hasked]
      exact ⟨h.coherent, fun key hfinal => absurd rfl hfinal.1⟩
    | ok key =>
      obtain ⟨_, hreads⟩ := h.coherent key
      obtain ⟨hfollows, hlanded⟩ := askWake_spec codec hnew hask hreads
      refine ⟨hfollows.coherent h.coherent, ?_⟩
      intro k hfinal
      cases hnew.symm.trans (WakePc.finalizes_answered hfinal)
      exact (hlanded hfinal).follows hreads hfollows (not_byHand_start key key)
  · exact h

theorem Sound.depart (facts : DepartFacts) : (σ.depart codec facts).Sound := by
  unfold WakeState.depart
  split
  next wake target instanceId _ =>
    refine h.of_not_finalizes (departWake_follows wake target instanceId facts) ?_
    intro _ hfinal
    dsimp only at hfinal
    split at hfinal
    · exact absurd rfl hfinal.1
    · split at hfinal
      · exact absurd rfl hfinal.1
      · exact hfinal
  · exact h

theorem Sound.markUnsent : σ.markUnsent.Sound := by
  unfold WakeState.markUnsent
  split
  next deliveryId instanceId _ =>
    have hfollows : Store.Follows
        ((QueueOp.store (.markIndeterminate deliveryId instanceId 1)).permits σ.store) σ.store
        (match σ.store.markDeliveryIndeterminate deliveryId instanceId 1 with
          | .ok store => store
          | .error _ => σ.store) := by
      split
      next hmark => exact (markDeliveryIndeterminate_writes hmark).follows
      · exact Store.Follows.refl _
    exact h.of_not_finalizes hfollows fun _ hfinal => absurd rfl hfinal.1
  · exact h

theorem Sound.settle : (σ.settle codec).Sound := by
  unfold WakeState.settle
  split
  next wake _ hpc =>
    refine ⟨?_, fun key hfinal => absurd hfinal id⟩
    split
    next result hresult =>
      cases hnew : new cliWakeScope .send wake.id with
      | error =>
        have hsettled : σ.store.settleWake codec wake result = σ.store := by
          unfold settleWake
          rw [hnew]
        rw [hsettled]
        exact h.coherent
      | ok key =>
        have hfinal : σ.pc.Finalizes key := by
          rw [hpc]
          exact ⟨by simp [hresult], hnew⟩
        obtain ⟨_, hreads⟩ := h.coherent key
        exact (settleWake_follows hnew (h.landed key hfinal) hreads).coherent h.coherent
    · exact h.coherent
  · exact h

theorem Sound.step {label : WakeLabel} (hsafe : label.Safe σ) :
    (WakeState.step codec σ label).Sound := by
  cases label with
  | op => exact h.op hsafe
  | reserveCliWake =>
    unfold WakeState.step
    dsimp only
    split
    next hreserve => exact h.follows (reserveCliWake_follows hreserve) rfl (by simp)
    · exact h
  | tick now => exact h.tick now
  | ask => exact h.ask hsafe
  | depart facts => exact h.depart facts
  | markUnsent => exact h.markUnsent
  | settle => exact h.settle

end

/-- In a run whose steps are all safe, every delivery in flight keeps its dispatching record.
So orphaning an instance always completes, and so does a late acknowledgement. -/
theorem orphaning_completes_in_safe_runs {σ₀ : WakeState} {labels : List WakeLabel}
    (hempty : σ₀.store.Empty) (hidle : σ₀.pc = .idle)
    (hrun : Run (WakeState.step codec) (fun σ label => label.Safe σ) σ₀ labels σ) :
    σ.store.Backed ∧
      (∀ instanceId reason createdAt, ∃ notices s',
        σ.store.orphanDispatchingForInstance codec.envelopes instanceId reason createdAt
          = .ok (notices, s') ∧
        ∀ d ∈ σ.store.deliveries, d.recipientInstanceId = instanceId →
          d.phase.inFlight = true → Store.orphanedRow d ∈ s'.deliveries) ∧
      ∀ d ∈ σ.store.deliveries, d.phase = .dispatching → ∀ now nowSecs, ∃ answered s',
        σ.store.acknowledgeSendDeliveryAt codec.envelopes d.deliveryId d.recipientInstanceId
          d.deliveryGeneration now nowSecs = .ok (answered, s') := by
  have hinit : σ₀.Sound := by
    refine ⟨fun key => ⟨.absent, hempty.reads key⟩, ?_⟩
    intro key hfinal
    rw [hidle] at hfinal
    exact absurd hfinal id
  have hsound : σ.Sound := Run.invariant Sound hrun (fun _ _ h hsafe => h.step hsafe) hinit
  have hbacked := hsound.coherent.backed
  refine ⟨hbacked, ?_, ?_⟩
  · intro instanceId reason createdAt
    exact orphanDispatchingForInstance_completes hbacked instanceId reason createdAt
  · intro d hd hphase now nowSecs
    exact acknowledgeSendDeliveryAt_completes hbacked hd hphase now nowSecs

end WakeState

def lateWake : FrozenWake :=
  FrozenWake.fresh "w1" "bridget-local-cli" (.agent "bob") "pause" none "" 1000 1600

def lateWakeBytes : Bytes :=
  ("\x7b\"version\":1,\"source\":\"cli_once\"," ++
    "\"target\":\x7b\"kind\":\"agent\",\"id\":\"bob\"\x7d," ++
    "\"owner\":\"bridget-local-cli\",\"owner_project\":null,\"owner_native\":null," ++
    "\"due_at\":1000,\"issued_at\":1000,\"grace_until\":1600,\"id\":\"w1\",\"label\":\"pause\"," ++
    "\"body\":\"Réveil déclenché par bridget-local-cli\\npause\",\"thread_operation_id\":null," ++
    "\"delivery_id\":null,\"phase\":\"prepared\"\x7d").toUTF8.data.toList

def lateMessageBytes : Bytes :=
  ("\x7b\"id\":\"w1\",\"from\":\"bridget\",\"to\":\"bob\"," ++
    "\"body\":\"Réveil déclenché par bridget-local-cli\\npause\",\"reply\":false,\"hops\":4," ++
    "\"deadline_at\":1600,\"from_declared\":false,\"origin\":\"system\"," ++
    "\"intent\":\"trigger_turn\"\x7d").toUTF8.data.toList

def lateWakeCodec : WakeCodec where
  envelopes :=
    { decode := fun bytes => if bytes = lateMessageBytes
        then some ⟨"w1", "bridget", "bob", lateWake.body, false, none⟩ else none
      jsonValid := fun bytes => bytes = lateMessageBytes
      extractId := fun bytes => if bytes = lateMessageBytes then some "w1" else none
      threadNotice := fun _ => false
      replySummary := fun _ => "" }
  decodeWake bytes := if bytes = lateWakeBytes then some lateWake else none
  toVec _ := some lateWakeBytes
  wakeMessage _ _ := lateMessageBytes

def routedTo (instanceId : String) : AskFacts :=
  { threadReplay := .absent, admission := .ok (), currentNow := some 1000, commitNow := some 1000
    threadPosted := false, dormant := some false, route := .ok (some instanceId) }

def departedAs (deliveryId : String) : DepartFacts :=
  { admitted := true, currentNow := some 1000, commitNow := some 1000, inTime := true, deliveryId
    nowSecs := 1000, pushed := true }

def sentWakeRun : List WakeLabel :=
  [.reserveCliWake "w1" "bridget-local-cli" (.agent "bob") "pause" none "" 1000,
    .tick 1000, .ask (routedTo "i1"), .depart (departedAs "d1"), .settle]

/-- The recipient has not answered when a later tick, past the grace, comes back to it. -/
def lateWakeRun : List WakeLabel :=
  sentWakeRun ++ [.tick 1600, .tick 1601, .ask (routedTo "i1"), .settle]

/-- A wake that was sent is still in flight, and its instance can be orphaned. -/
theorem sent_wake_run_orphans :
    let s := (sentWakeRun.foldl (WakeState.step lateWakeCodec) WakeState.init).store
    s.deliveries.rows.map (fun d => (d.recipientInstanceId, d.phase)) = [("i1", .dispatching)] ∧
      ∃ notices s', s.orphanDispatchingForInstance lateWakeCodec.envelopes "i1" "instance_lost" 1100
        = .ok (notices, s') := by
  intro s
  obtain ⟨σ, hrun⟩ : ∃ σ, Run (WakeState.step lateWakeCodec) (fun σ label => label.Safe σ)
      WakeState.init sentWakeRun σ := by
    refine ⟨_, .cons trivial (.cons trivial (.cons ?_ (.cons trivial (.cons trivial (.nil _)))))⟩
    intro _ _
    exact .of_rows_nil (by decide +kernel)
  obtain ⟨-, horphan, -⟩ := WakeState.orphaning_completes_in_safe_runs init_empty rfl hrun
  obtain ⟨notices, s', hok, -⟩ := horphan "i1" "instance_lost" 1100
  rw [hrun.eq_foldl] at hok
  exact ⟨by decide +kernel, notices, s', hok⟩

/-- The pass finalizes the record of a delivery that is still dispatching. Then neither the
orphaning of its instance nor its acknowledgement goes through. -/
theorem late_wake_blocks_orphaning :
    let s := (lateWakeRun.foldl (WakeState.step lateWakeCodec) WakeState.init).store
    s.deliveries.rows.map (fun d => (d.deliveryId, d.recipientInstanceId, d.phase))
        = [("d1", "i1", .dispatching)] ∧
      s.records.rows.map RecordRow.state = [.terminal] ∧ ¬ s.Backed ∧
      s.orphanDispatchingForInstance lateWakeCodec.envelopes "i1" "instance_lost" 1700
        = .error .dispatchUnavailable ∧
      s.acknowledgeSendDeliveryAt lateWakeCodec.envelopes "d1" "i1" 1 1700 1700
        = .error .dispatchUnavailable := by
  intro s
  have horphan : s.orphanDispatchingForInstance lateWakeCodec.envelopes "i1" "instance_lost" 1700
      = .error .dispatchUnavailable := errorOf_eq_some.mp (by decide +kernel)
  refine ⟨by decide +kernel, by decide +kernel, ?_, horphan, errorOf_eq_some.mp (by decide +kernel)⟩
  intro hbacked
  obtain ⟨_, _, hok, -⟩ := orphanDispatchingForInstance_completes hbacked "i1" "instance_lost" 1700
  rw [horphan] at hok
  cases hok

end Bridget.Idempotency
