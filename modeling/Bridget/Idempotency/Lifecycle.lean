import Bridget.Idempotency.Store

/-!
# The life of one key

What the two tables are for, seen from a single key: a small machine whose states say
how far the operation under that key has come. The store is correct when every key is in
one of these states at all times and moves only along the machine's edges; the tables of
the code are related to the machine by `Entry.Reads`.
-/

namespace Bridget.Idempotency

open Foundation Table

inductive Outcome where
  | accepted
  | rejected (category reason : String)
  | orphaned (reason : String)
  deriving DecidableEq

def Outcome.columns : Outcome → ResultColumns
  | .accepted => ⟨some .accepted, none, none⟩
  | .rejected category reason => ⟨some .rejected, some category, some reason⟩
  | .orphaned reason => ⟨some .orphaned, none, some reason⟩

def Outcome.phase : Outcome → DeliveryPhase
  | .accepted => .acked
  | .rejected _ _ => .cancelled
  | .orphaned _ => .orphaned

def Outcome.kind : Outcome → ResultKind
  | .accepted => .accepted
  | .rejected _ _ => .rejected
  | .orphaned _ => .orphaned

def PublicResult.outcome : PublicResult → Outcome
  | .accepted _ => .accepted
  | .rejected category reason => .rejected category reason
  | .orphaned reason => .orphaned reason

theorem PublicResult.columns_eq (result : PublicResult) :
    result.columns = result.outcome.columns := by
  cases result <;> rfl

inductive LivePhase where
  | held | dispatching | indeterminate
  deriving DecidableEq

def LivePhase.phase : LivePhase → DeliveryPhase
  | .held => .held
  | .dispatching => .dispatching
  | .indeterminate => .indeterminate

variable {p : LivePhase} {e : Entry} {record : Option RecordRow} {d : DeliveryRow}

theorem LivePhase.phase_injective {q : LivePhase} (h : p.phase = q.phase) : p = q := by
  cases p <;> cases q <;> first | rfl | cases h

/-- The states of a key. `lost` is an indeterminate delivery whose record was finalized
by someone other than the delivery. -/
inductive Entry where
  | absent
  | prepared
  | dispatching
  | concluded (outcome : Outcome)
  | live (phase : LivePhase)
  | closed (outcome : Outcome)
  | lost (outcome : Outcome)
  deriving DecidableEq

inductive Action where
  | reserve | start | reject | transition | finalize | release | lose | acknowledge | orphan
  | cancel | abandon | purge
  deriving DecidableEq

/-- The edges of the machine. -/
inductive Entry.Step : Action → Entry → Entry → Prop
  | reserve : Step .reserve .absent .prepared
  | startHeld : Step .start .prepared (.live .held)
  | startDispatching : Step .start .prepared (.live .dispatching)
  | reject (category reason : String) :
      Step .reject .prepared (.concluded (.rejected category reason))
  | transition : Step .transition .prepared .dispatching
  | finalize (outcome : Outcome) : Step .finalize .dispatching (.concluded outcome)
  | release : Step .release (.live .held) (.live .dispatching)
  | lose : Step .lose (.live .dispatching) (.live .indeterminate)
  | acknowledge : Step .acknowledge (.live .dispatching) (.closed .accepted)
  | orphan (phase : LivePhase) (reason : String) (hphase : phase ≠ .indeterminate) :
      Step .orphan (.live phase) (.closed (.orphaned reason))
  | cancel (category reason : String) :
      Step .cancel (.live .held) (.closed (.rejected category reason))
  | abandon (outcome : Outcome) : Step .abandon (.live .indeterminate) (.lost outcome)
  | purge (entry : Entry) : Step .purge entry .absent

/-- The states that only a purge leaves, or the abandonment of an indeterminate delivery. -/
def Entry.Settled : Entry → Prop
  | .concluded _ | .closed _ | .lost _ | .live .indeterminate => True
  | _ => False

theorem Entry.Settled.exit {e' : Entry} {a : Action} (h : e.Settled)
    (hstep : Entry.Step a e e') : a = .purge ∨ a = .abandon := by
  cases hstep with
  | purge => exact .inl rfl
  | abandon => exact .inr rfl
  | orphan phase _ hphase =>
    cases phase with
    | indeterminate => exact absurd rfl hphase
    | _ => exact absurd h (by simp [Entry.Settled])
  | _ => exact absurd h (by simp [Entry.Settled])

/-- Finitely many edges, all of them labelled by permitted actions. -/
def Entry.Moves (permits : Action → Prop) : Entry → Entry → Prop :=
  Relation.ReflTransGen fun e e' => ∃ action, permits action ∧ Entry.Step action e e'

namespace Entry.Moves

variable {permits permits' : Action → Prop} {e e' e'' : Entry}

theorem refl (e : Entry) : Moves permits e e := Relation.ReflTransGen.refl

theorem trans (h : Moves permits e e') (h' : Moves permits e' e'') : Moves permits e e'' :=
  Relation.ReflTransGen.trans h h'

theorem single {action : Action} (hpermits : permits action) (hstep : Entry.Step action e e') :
    Moves permits e e' :=
  Relation.ReflTransGen.single ⟨action, hpermits, hstep⟩

theorem mono (hmono : ∀ a, permits a → permits' a) (h : Moves permits e e') : Moves permits' e e' :=
  Relation.ReflTransGen.mono (fun _ _ ⟨a, ha, hstep⟩ => ⟨a, hmono a ha, hstep⟩) _ _ h

/-- A property of entries that no permitted edge leaves holds along every move. -/
theorem invariant {P : Entry → Prop} (h : Moves permits e e')
    (hstep : ∀ a e e', permits a → Entry.Step a e e' → P e → P e') (he : P e) : P e' := by
  induction h with
  | refl => exact he
  | tail _ hlast ih =>
    obtain ⟨action, hpermits, hedge⟩ := hlast
    exact hstep action _ _ hpermits hedge ih

/-- A settled entry leaves only by a purge, and an absent one returns only by a
reservation. -/
theorem absorbing {settled : Entry} (h : Moves permits settled e')
    (hexit : ∀ a e, permits a → Entry.Step a settled e → a = .purge)
    (hno : permits .purge → ¬ permits .reserve) : e' = settled ∨ e' = .absent := by
  by_cases hpurge : permits .purge
  · apply invariant (P := fun e => e = settled ∨ e = .absent) h ?_ (.inl rfl)
    intro a e e' hpermits hstep he
    rcases he with rfl | rfl
    · have ha := hexit a e' hpermits hstep
      subst ha
      cases hstep
      exact .inr rfl
    · cases hstep with
      | reserve => exact absurd hpermits (hno hpurge)
      | purge => exact .inr rfl
  · left
    apply invariant (P := fun e => e = settled) h ?_ rfl
    intro a e e' hpermits hstep he
    subst he
    exact absurd (hexit a e' hpermits hstep ▸ hpermits) hpurge

end Entry.Moves

/-- How the rows stored under a key are read as a state of the machine. -/
inductive Entry.Reads : Option RecordRow → Option DeliveryRow → Entry → Prop
  | absent : Reads none none .absent
  | prepared {r : RecordRow} (hr : r.state = .prepared) : Reads (some r) none .prepared
  | dispatching {r : RecordRow} (hr : r.state = .dispatching) : Reads (some r) none .dispatching
  | concluded {r : RecordRow} (o : Outcome) (hr : r.state = .terminal)
      (hresult : r.result = o.columns) : Reads (some r) none (.concluded o)
  | live {r : RecordRow} {d : DeliveryRow} (p : LivePhase) (hr : r.state = .dispatching)
      (hd : d.phase = p.phase) : Reads (some r) (some d) (.live p)
  | closed {r : RecordRow} {d : DeliveryRow} (o : Outcome) (hr : r.state = .terminal)
      (hresult : r.result = o.columns) (hd : d.phase = o.phase) :
      Reads (some r) (some d) (.closed o)
  | lost {r : RecordRow} {d : DeliveryRow} (o : Outcome) (hr : r.state = .terminal)
      (hresult : r.result = o.columns) (hd : d.phase = .indeterminate) :
      Reads (some r) (some d) (.lost o)

/-- A rewriting that leaves the phase alone is invisible to the machine. -/
theorem Entry.Reads.map_delivery {delivery : Option DeliveryRow} {f : DeliveryRow → DeliveryRow}
    (h : Entry.Reads record delivery e)
    (hf : ∀ d ∈ delivery, (f d).phase = d.phase) : Entry.Reads record (delivery.map f) e := by
  cases h with
  | absent => exact .absent
  | prepared hr => exact .prepared hr
  | dispatching hr => exact .dispatching hr
  | concluded o hr hresult => exact .concluded o hr hresult
  | live p hr hd => exact .live p hr ((hf _ rfl).trans hd)
  | closed o hr hresult hd => exact .closed o hr hresult ((hf _ rfl).trans hd)
  | lost o hr hresult hd => exact .lost o hr hresult ((hf _ rfl).trans hd)

def DeliveryPhase.Absorbing (phase : DeliveryPhase) : Prop :=
  phase = .acked ∨ phase = .orphaned ∨ phase = .cancelled ∨ phase = .indeterminate

namespace Entry.Reads

variable {record record' : Option RecordRow} {delivery delivery' : Option DeliveryRow}
  {e : Entry} {d : DeliveryRow} {r : RecordRow}

theorem record_absent (h : Entry.Reads record delivery .absent) : record = none := by
  cases h
  rfl

section

variable (h : Entry.Reads record delivery e)

include h

theorem settled_of_phase (hd : delivery = some d) (hphase : d.phase.Absorbing) : e.Settled := by
  subst hd
  cases h with
  | live p _ hd =>
    cases p with
    | indeterminate => trivial
    | _ => simp [DeliveryPhase.Absorbing, hd, LivePhase.phase] at hphase
  | closed => trivial
  | lost => trivial

theorem settled_of_terminal (hr : record = some r)
    (hterminal : r.state = .terminal) : e.Settled := by
  subst hr
  cases h with
  | prepared hr | dispatching hr | live _ hr => simp [hterminal] at hr
  | _ => trivial

theorem phase_eq (h' : Entry.Reads record' delivery' e) (hsettled : e.Settled)
    (hd : delivery = some d) : ∃ d', delivery' = some d' ∧ d'.phase = d.phase := by
  subst hd
  cases h with
  | live _ _ hd =>
    cases h' with
    | live _ _ hd' => exact ⟨_, rfl, hd'.trans hd.symm⟩
  | closed _ _ _ hd =>
    cases h' with
    | closed _ _ _ hd' => exact ⟨_, rfl, hd'.trans hd.symm⟩
  | lost _ _ _ hd =>
    cases h' with
    | lost _ _ _ hd' => exact ⟨_, rfl, hd'.trans hd.symm⟩

theorem result_eq (h' : Entry.Reads record' delivery' e)
    (hr : record = some r) (hterminal : r.state = .terminal) :
    ∃ r', record' = some r' ∧ r'.state = .terminal ∧ r'.result = r.result := by
  subst hr
  cases h with
  | prepared hr | dispatching hr | live _ hr => simp [hterminal] at hr
  | concluded _ _ hresult =>
    cases h' with
    | concluded _ hr' hresult' => exact ⟨_, rfl, hr', hresult'.trans hresult.symm⟩
  | closed _ _ hresult =>
    cases h' with
    | closed _ hr' hresult' => exact ⟨_, rfl, hr', hresult'.trans hresult.symm⟩
  | lost _ _ hresult =>
    cases h' with
    | lost _ hr' hresult' => exact ⟨_, rfl, hr', hresult'.trans hresult.symm⟩

end

end Entry.Reads

/-- A delivery that is held or dispatching pins the state of its key. -/
theorem Entry.Reads.of_phase (h : Entry.Reads record (some d) e) (hphase : d.phase = p.phase)
    (hp : p ≠ .indeterminate) : e = .live p ∧ ∃ r, record = some r ∧ r.state = .dispatching := by
  cases h with
  | @live r _ p' hr hd =>
    have hpp : p' = p := LivePhase.phase_injective (hd.symm.trans hphase)
    exact ⟨by rw [hpp], r, rfl, hr⟩
  | closed o _ _ hd =>
    rw [hd] at hphase
    cases o <;> cases p <;> simp [Outcome.phase, LivePhase.phase] at hphase
  | lost _ _ _ hd =>
    have hpp : LivePhase.indeterminate = p := LivePhase.phase_injective (hd.symm.trans hphase)
    exact absurd hpp.symm hp

namespace Store

variable {s s' s'' : Store} {key : IdempotencyKey}

def deliveryAt (s : Store) (key : IdempotencyKey) : Option DeliveryRow :=
  s.deliveries.find? fun d => d.key = key

/-- What the two tables say of a key. -/
def Reads (s : Store) (key : IdempotencyKey) (e : Entry) : Prop :=
  Entry.Reads (s.loadRecord key) (s.deliveryAt key) e

/-- One store follows another when every key moves along permitted edges, and the records
still there say what they said when they were reserved. -/
structure Follows (permits : IdempotencyKey → Action → Prop) (s s' : Store) : Prop where
  moves : ∀ key e, s.Reads key e → ∃ e', s'.Reads key e' ∧ Entry.Moves (permits key) e e'
  keeps : ∀ key r', ¬ permits key .reserve → s'.loadRecord key = some r' →
    ∃ r, s.loadRecord key = some r ∧ r'.envelope = r.envelope

theorem pinsKey_delivery (key : IdempotencyKey) :
    PinsKey fun d : DeliveryRow => decide (d.key = key) :=
  pinsKey_field fun _ _ => .inr ∘ .inr

theorem pinsKey_deliveryId (deliveryId : String) :
    PinsKey fun d : DeliveryRow => decide (d.deliveryId = deliveryId) :=
  pinsKey_field fun _ _ => .inr ∘ .inl

theorem loadRecord_eq_some {r : RecordRow} :
    s.loadRecord key = some r ↔ r ∈ s.records ∧ r.key = key := by
  simp [loadRecord, find?_eq_some (pinsKey_record key)]

theorem deliveryAt_eq_some : s.deliveryAt key = some d ↔ d ∈ s.deliveries ∧ d.key = key := by
  simp [deliveryAt, find?_eq_some (pinsKey_delivery key)]

namespace Follows

variable {permits permits' : IdempotencyKey → Action → Prop}

theorem refl (s : Store) : Follows permits s s :=
  ⟨fun _ e h => ⟨e, h, Entry.Moves.refl e⟩, fun _ r _ h => ⟨r, h, rfl⟩⟩

theorem trans (h : Follows permits s s') (h' : Follows permits s' s'') : Follows permits s s'' := by
  constructor
  · intro key e hreads
    obtain ⟨e', hreads', hmoves⟩ := h.moves key e hreads
    obtain ⟨e'', hreads'', hmoves'⟩ := h'.moves key e' hreads'
    exact ⟨e'', hreads'', hmoves.trans hmoves'⟩
  · intro key r'' hreserve hload''
    obtain ⟨r', hload', henvelope'⟩ := h'.keeps key r'' hreserve hload''
    obtain ⟨r, hload, henvelope⟩ := h.keeps key r' hreserve hload'
    exact ⟨r, hload, henvelope'.trans henvelope⟩

theorem mono (hmono : ∀ key a, permits key a → permits' key a) (h : Follows permits s s') :
    Follows permits' s s' := by
  constructor
  · intro key e hreads
    obtain ⟨e', hreads', hmoves⟩ := h.moves key e hreads
    exact ⟨e', hreads', hmoves.mono (hmono key)⟩
  · intro key r' hreserve
    exact h.keeps key r' fun hpermits => hreserve (hmono key _ hpermits)

/-- Tables beside the two of the machine do not matter. -/
theorem congr (h : Follows permits s s') (hrecords : s''.records = s'.records)
    (hdeliveries : s''.deliveries = s'.deliveries) : Follows permits s s'' := by
  have hload : ∀ key, s''.loadRecord key = s'.loadRecord key := by
    intro key
    rw [loadRecord, hrecords, loadRecord]
  constructor
  · intro key e hreads
    obtain ⟨e', hreads', hmoves⟩ := h.moves key e hreads
    refine ⟨e', ?_, hmoves⟩
    unfold Reads deliveryAt at hreads' ⊢
    rwa [hload, hdeliveries]
  · intro key r' hreserve hload'
    exact h.keeps key r' hreserve (hload key ▸ hload')

theorem of_eq (hrecords : s'.records = s.records) (hdeliveries : s'.deliveries = s.deliveries) :
    Follows permits s s' :=
  (refl s).congr hrecords hdeliveries

end Follows

end Store

end Bridget.Idempotency
