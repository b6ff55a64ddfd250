import Bridget.Delegation.ForestRuns

/-!
# Automatic admission is one-way

Along any run a stored receipt only moves forward, one revision at a time, and the move to
`admitted` is the insertion of its task. A purged key keeps its tombstone, so it never gets a
second receipt.
-/

namespace Bridget.Delegation

open Foundation Relation Function Table

namespace DelegationStore

variable {env : TaskEnvironment} {codec : MetadataCodec} {s s' : DelegationStore}
  {op : DelegationOp} {key : AdmissionKey} {receipt next : AutoAdmissionReceipt}
  {keys : List AdmissionKey} {ops : List DelegationOp}

/-- The calls of automatic admission, with native insertions under other keys. -/
def AdmissionCall (s : DelegationStore) : DelegationOp → Prop
  | .reserve receipt _ => receipt.state = .pending ∧ 0 ≤ receipt.revision ∧ receipt.taskId = none
  | .admitTask receipt _ requestId _ _ _ _ => requestId = receipt.requestId
  | .insert task requestId _ _ _ => s.receipt? (task.owner, requestId) = none
  | .save .. | .commitRemoteResult .. | .beginRound .. | .purgeTrees .. => False
  | _ => True

/-- The one task of an admitted receipt, inserted together with the last transition. -/
def InsertsTaskOf (s s' : DelegationStore) (receipt : AutoAdmissionReceipt) : Prop :=
  ∃ row, s.tasks.insert row = .ok s'.tasks ∧ receipt.taskId = some row.taskId ∧
    row.key = receipt.key ∧ receipt.delegateCanonical = some row.canonical

/-- What one call does to the receipts: a receipt stays, moves, or is purged once refused; a
new one is pending. -/
structure Follows (codec : MetadataCodec) (s s' : DelegationStore) : Prop where
  kept : ∀ {key receipt}, s.receipt? key = some receipt → s'.receipt? key = some receipt ∨
    (∃ next, s'.receipt? key = some next ∧ Moved codec receipt next ∧
      (next.state = .admitted → InsertsTaskOf s s' next)) ∨
    (s'.receipt? key = none ∧ receipt.state = .refused ∧ s'.tombstoned key = true)
  fresh : ∀ {key receipt}, s.receipt? key = none → s'.receipt? key = some receipt →
    receipt.state = .pending

/-- Between a receipt and the tasks and tombstones. -/
structure Tied (codec : MetadataCodec) (s : DelegationStore) : Prop where
  valid : ∀ {key receipt}, s.receipt? key = some receipt → receipt.Valid codec
  task : ∀ {key receipt}, s.receipt? key = some receipt → receipt.state = .admitted →
    ∃ row ∈ s.tasks, receipt.taskId = some row.taskId ∧ row.key = key ∧
      receipt.delegateCanonical = some row.canonical
  alone : ∀ {key receipt}, s.receipt? key = some receipt → receipt.state ≠ .admitted →
    ∀ row ∈ s.tasks, row.key ≠ key
  gone : ∀ {key}, s.tombstoned key = true → s.receipt? key = none

theorem Tied.init (generation : String) : Tied codec (DelegationStore.init generation) := by
  constructor
  case gone =>
    intro key h
    cases h
  all_goals
    intro key receipt h
    cases h

theorem taskWithKey_iff : s.taskWithKey key = true ↔ ∃ row ∈ s.tasks, row.key = key := by
  simp [taskWithKey]

/-! ## Purges of refusals -/

theorem RefusalsPurged.tombstoned (h : RefusalsPurged s keys s') (hkey : s.tombstoned key = true) :
    s'.tombstoned key = true := by
  induction h with
  | nil => exact hkey
  | cons hfirst _ ih => exact ih ((hfirst.tombstones key).mpr (.inl hkey))

theorem RefusalPurged.receipt?_cases (h : RefusalPurged s key s') (key' : AdmissionKey) :
    s'.receipt? key' = s.receipt? key' ∨ key' = key ∧ s'.receipt? key' = none := by
  rw [h.lookup]
  by_cases heq : key' = key
  · exact .inr ⟨heq, by rw [heq, update_self]⟩
  · exact .inl (update_of_ne heq ..)

theorem RefusalsPurged.receipt?_cases (h : RefusalsPurged s keys s') (key : AdmissionKey) :
    s'.receipt? key = s.receipt? key ∨ s'.receipt? key = none ∧ s'.tombstoned key = true ∧
      ∃ receipt, s.receipt? key = some receipt ∧ receipt.state = .refused := by
  induction h with
  | nil => exact .inl rfl
  | @cons _ _ s' _ _ hfirst hrest ih =>
    rcases hfirst.receipt?_cases key with hsame | ⟨rfl, hnone⟩
    · rwa [hsame] at ih
    obtain ⟨receipt, hstored, hpurgeable⟩ := hfirst.refused
    simp only [purgeable, test_iff] at hpurgeable
    have hstone : s'.tombstoned key = true :=
      hrest.tombstoned ((hfirst.tombstones key).mpr (.inr rfl))
    rw [hnone] at ih
    rcases ih with ih | ⟨ih, -, -⟩
    all_goals exact .inr ⟨ih, hstone, receipt, hstored, hpurgeable.1.1⟩

section

variable (h : Tied codec s) {row : DelegationRow}

include h

theorem Tied.refusalsPurged (hpurged : RefusalsPurged s keys s') : Tied codec s' := by
  induction hpurged with
  | nil => exact h
  | @cons s middle _ _ _ hfirst _ ih =>
    refine ih ?_
    have htasks : middle.tasks = s.tasks := by rw [hfirst.beside]
    have hold : ∀ {key receipt}, middle.receipt? key = some receipt →
        s.receipt? key = some receipt := by
      intro key receipt hfound
      rcases hfirst.receipt?_cases key with hsame | ⟨-, hnone⟩
      · rwa [← hsame]
      · rw [hnone] at hfound
        cases hfound
    refine ⟨fun hfound => h.valid (hold hfound), ?_, ?_, ?_⟩
    · rw [htasks]
      exact fun hfound => h.task (hold hfound)
    · rw [htasks]
      exact fun hfound => h.alone (hold hfound)
    intro key hstone
    rcases (hfirst.tombstones key).mp hstone with hstone | rfl
    · rcases hfirst.receipt?_cases key with hsame | ⟨-, hnone⟩
      · rw [hsame]
        exact h.gone hstone
      · exact hnone
    · rw [hfirst.lookup, update_self]

theorem Tied.transition (hmoved : Transition codec s key next s') : Tied codec s' := by
  obtain ⟨_, hcurrent, hmove, hnot, hwritten⟩ := hmoved
  obtain ⟨-, rfl⟩ := receipt?_eq_some.mp hcurrent
  have htasks : s'.tasks = s.tasks := by rw [hwritten.beside]
  have hstones : s'.tombstones = s.tombstones := by rw [hwritten.beside]
  have hlookup := hwritten.lookup
  constructor
  · intro key receipt hfound
    rcases update_some_cases (hlookup ▸ hfound) with ⟨-, rfl⟩ | ⟨-, hfound⟩
    · exact hmove.valid
    · exact h.valid hfound
  · rw [htasks]
    intro key receipt hfound hstate
    rcases update_some_cases (hlookup ▸ hfound) with ⟨-, rfl⟩ | ⟨-, hfound⟩
    · exact absurd hstate hnot
    · exact h.task hfound hstate
  · rw [htasks]
    intro key receipt hfound hstate
    rcases update_some_cases (hlookup ▸ hfound) with ⟨rfl, -⟩ | ⟨-, hfound⟩
    · refine h.alone hcurrent fun hadmitted => ?_
      have hopen := hmove.edge.holdsSlot
      rw [hadmitted] at hopen
      cases hopen
    · exact h.alone hfound hstate
  · intro key hstone
    rw [tombstoned, hstones, ← tombstoned] at hstone
    have hnone := h.gone hstone
    rw [hwritten.lookup, update_of_ne, hnone]
    rintro rfl
    rw [hcurrent] at hnone
    cases hnone

theorem Tied.reserved (hvalid : receipt.Valid codec)
    (hpending : receipt.state = .pending) (hstone : s.tombstoned receipt.key = false)
    (hfree : s.nativeAdmissionKeyReserved receipt.key = false)
    (hlookup : s'.receipt? = update s.receipt? receipt.key (some receipt))
    (hbeside : s' = { s with receipts := s'.receipts }) : Tied codec s' := by
  have htasks : s'.tasks = s.tasks := by rw [hbeside]
  have hstones : s'.tombstones = s.tombstones := by rw [hbeside]
  constructor
  · intro key found hfound
    rcases update_some_cases (hlookup ▸ hfound) with ⟨-, rfl⟩ | ⟨-, hfound⟩
    · exact hvalid
    · exact h.valid hfound
  · rw [htasks]
    intro key found hfound hstate
    rcases update_some_cases (hlookup ▸ hfound) with ⟨-, rfl⟩ | ⟨-, hfound⟩
    · rw [hpending] at hstate
      cases hstate
    · exact h.task hfound hstate
  · rw [htasks]
    intro key found hfound hstate row hrow hkey
    rcases update_some_cases (hlookup ▸ hfound) with ⟨rfl, -⟩ | ⟨-, hfound⟩
    · have hreserved : s.nativeAdmissionKeyReserved receipt.key = true := by
        rw [nativeAdmissionKeyReserved, taskWithKey_iff.mpr ⟨row, hrow, hkey⟩, Bool.true_or]
      rw [hfree] at hreserved
      cases hreserved
    · exact h.alone hfound hstate row hrow hkey
  · intro key hstone'
    rw [tombstoned, hstones, ← tombstoned] at hstone'
    rw [hlookup, update_of_ne, h.gone hstone']
    rintro rfl
    rw [hstone] at hstone'
    cases hstone'

/-! ## Insertions of tasks -/

theorem Tied.inserted (hinsert : Inserted s row s')
    (hother : ∀ receipt, s.receipt? row.key = some receipt → False) : Tied codec s' := by
  have hreceipts : s'.receipt? = s.receipt? := by
    funext key
    rw [receipt?, hinsert.beside.receipts, ← receipt?]
  constructor
  · rw [hreceipts]
    exact h.valid
  · rw [hreceipts]
    intro key receipt hfound hstate
    obtain ⟨found, hmem, hties⟩ := h.task hfound hstate
    exact ⟨found, (mem_insert hinsert.table).mpr (.inl hmem), hties⟩
  · rw [hreceipts]
    intro key receipt hfound hstate found hmem
    rcases (mem_insert hinsert.table).mp hmem with hmem | rfl
    · exact h.alone hfound hstate found hmem
    · rintro rfl
      exact hother receipt hfound
  · rw [hreceipts]
    intro key hstone
    rw [tombstoned, hinsert.beside.tombstones, ← tombstoned] at hstone
    exact h.gone hstone

/-- The last transition: the receipt and its task appear admitted together. -/
theorem Tied.entered {current : AutoAdmissionReceipt}
    {middle : DelegationStore} (hcurrent : s.receipt? current.key = some current)
    (hmove : Moved codec current next) (hinsert : Inserted s row middle)
    (hkey : row.key = current.key) (htask : next.taskId = some row.taskId)
    (hdelegate : next.delegateCanonical = some row.canonical) (hstate : next.state = .admitted)
    (hwritten : ReceiptWritten middle current next s') : Tied codec s' := by
  -- the insertion of the task leaves the receipts alone
  have hreceipts : middle.receipt? = s.receipt? := by
    funext key
    rw [receipt?, hinsert.beside.receipts, ← receipt?]
  have hlookup := hwritten.lookup
  rw [hreceipts] at hlookup
  have htasks : s'.tasks = middle.tasks := by rw [hwritten.beside]
  have hstones : s'.tombstones = s.tombstones := by
    rw [hwritten.beside]
    exact hinsert.beside.tombstones
  constructor
  · intro key receipt hfound
    rcases update_some_cases (hlookup ▸ hfound) with ⟨-, rfl⟩ | ⟨-, hfound⟩
    · exact hmove.valid
    · exact h.valid hfound
  · rw [htasks]
    intro key receipt hfound hadmitted
    rcases update_some_cases (hlookup ▸ hfound) with ⟨rfl, rfl⟩ | ⟨-, hfound⟩
    · exact ⟨row, (mem_insert hinsert.table).mpr (.inr rfl), htask, hkey, hdelegate⟩
    · obtain ⟨found, hmem, hties⟩ := h.task hfound hadmitted
      exact ⟨found, (mem_insert hinsert.table).mpr (.inl hmem), hties⟩
  · rw [htasks]
    intro key receipt hfound hopen found hmem
    rcases update_some_cases (hlookup ▸ hfound) with ⟨-, rfl⟩ | ⟨hne, hfound⟩
    · exact absurd hstate hopen
    · rcases (mem_insert hinsert.table).mp hmem with hmem | rfl
      · exact h.alone hfound hopen found hmem
      · rw [hkey]
        exact hne.symm
  · intro key hstone
    rw [tombstoned, hstones, ← tombstoned] at hstone
    have hnone := h.gone hstone
    rw [hlookup, update_of_ne, hnone]
    rintro rfl
    rw [hcurrent] at hnone
    cases hnone

end

theorem Follows.of_update {current : AutoAdmissionReceipt}
    (hcurrent : s.receipt? current.key = some current) (hmove : Moved codec current next)
    (hlookup : s'.receipt? = update s.receipt? current.key (some next))
    (htask : next.state = .admitted → InsertsTaskOf s s' next) : Follows codec s s' := by
  constructor
  · intro key receipt hfound
    rw [hlookup]
    by_cases heq : key = current.key
    · subst heq
      cases hcurrent.symm.trans hfound
      exact .inr (.inl ⟨next, by rw [update_self], hmove, htask⟩)
    · rw [update_of_ne heq]
      exact .inl hfound
  · intro key receipt hnone hfound
    rcases update_some_cases (hlookup ▸ hfound) with ⟨rfl, -⟩ | ⟨-, hfound⟩
    · rw [hcurrent] at hnone
      cases hnone
    · rw [hnone] at hfound
      cases hfound

theorem Follows.of_same (h : s'.receipts = s.receipts) : Follows codec s s' := by
  have hlookup : s'.receipt? = s.receipt? := by
    funext key
    rw [receipt?, h, ← receipt?]
  constructor
  · intro key receipt hfound
    rw [hlookup]
    exact .inl hfound
  · intro key receipt hnone hfound
    rw [hlookup, hnone] at hfound
    cases hfound

/-- Refused receipts are purged, and at most one new receipt is written afterwards. -/
theorem Follows.of_purged {middle : DelegationStore} (hpurged : RefusalsPurged s keys middle)
    (hnew : ∀ {key found}, middle.receipt? key = some found → s'.receipt? key = some found)
    (hpending : ∀ {key found}, s'.receipt? key = some found →
      middle.receipt? key = some found ∨ found.state = .pending ∧ middle.tombstoned key = false)
    (hstones : ∀ {key}, middle.tombstoned key = true → s'.tombstoned key = true) :
    Follows codec s s' := by
  constructor
  · intro key receipt hfound
    rcases hpurged.receipt?_cases key with hsame | ⟨hnone, hstone, _, hold, hrefused⟩
    · exact .inl (hnew (hsame.trans hfound))
    cases hold.symm.trans hfound
    refine .inr (.inr ⟨?_, hrefused, hstones hstone⟩)
    cases hafter : s'.receipt? key with
    | none => rfl
    | some =>
      rcases hpending hafter with hbefore | ⟨-, hfree⟩
      · rw [hnone] at hbefore
        cases hbefore
      · rw [hstone] at hfree
        cases hfree
  · intro key receipt hnone hfound
    rcases hpending hfound with hbefore | ⟨hstate, -⟩
    · rcases hpurged.receipt?_cases key with hsame | ⟨hgone, -, -⟩
      · rw [hsame, hnone] at hbefore
        cases hbefore
      · rw [hgone] at hbefore
        cases hbefore
    · exact hstate

/-- One call keeps the ties, moves receipts forward and loses no tombstone. -/
theorem Tied.apply (h : Tied codec s) (hcall : AdmissionCall s op)
    (happly : s.apply env codec op = .ok s') : Tied codec s' ∧ Follows codec s s' ∧
      ∀ key, s.tombstoned key = true → s'.tombstoned key = true := by
  by_cases hwrites : op.writesTasks = false
  · cases ReceiptEffect.of_apply happly hwrites with
    | same => exact ⟨h, .of_same rfl, fun _ hstone => hstone⟩
    | moved hmoved =>
      refine ⟨h.transition hmoved, ?_, ?_⟩
      · obtain ⟨_, _, hmove, hnot, hwritten⟩ := hmoved
        exact .of_update hwritten.stored hmove hwritten.lookup fun hstate => absurd hstate hnot
      · intro key hstone
        rw [hmoved.beside]
        exact hstone
    | purged hpurged =>
      exact ⟨h.refusalsPurged hpurged, .of_purged hpurged id .inl id, fun _ => hpurged.tombstoned⟩
    | @reserved _ _ _ middle s' hpurged hvalid hstone hfree hnone hlookup hbeside =>
      have hmiddle := h.refusalsPurged hpurged
      have hstones : ∀ {key}, middle.tombstoned key = true → s'.tombstoned key = true := by
        intro key hkey
        rw [hbeside]
        exact hkey
      refine ⟨hmiddle.reserved hvalid hcall.1 hstone hfree hlookup hbeside,
        .of_purged hpurged ?_ ?_ hstones, fun _ hkey => hstones (hpurged.tombstoned hkey)⟩
      · intro key found hfound
        rw [hlookup, update_of_ne, hfound]
        rintro rfl
        rw [hnone] at hfound
        cases hfound
      · intro key found hfound
        rcases update_some_cases (hlookup ▸ hfound) with ⟨rfl, rfl⟩ | ⟨-, hfound⟩
        · exact .inr ⟨hcall.1, hstone⟩
        · exact .inl hfound
    | refusals hsame =>
      rw [hsame]
      exact ⟨{ h with }, .of_same rfl, fun _ hstone => hstone⟩
  · cases op <;> try first | exact absurd rfl hwrites | exact hcall.elim
    case insert task requestId _ _ _ =>
      obtain ⟨_, hinsert⟩ := map_snd_eq_ok.mp happly
      obtain ⟨rfl, hinserted⟩ := insertProjectedIn_cases hinsert
      refine ⟨h.inserted hinserted ?_, .of_same hinserted.beside.receipts, ?_⟩
      · intro receipt hfound
        have hnone : s.receipt? (task.owner, requestId) = none := hcall
        exact absurd (hfound.symm.trans hnone) (by simp)
      · intro key hstone
        rwa [tombstoned, hinserted.beside.tombstones, ← tombstoned]
    case admitTask receipt _ requestId _ _ _ _ =>
      obtain ⟨current, next, row, middle, howner, hcurrent, hstate, hdef, htask, hdelegate, hmove,
        hinserted, hwritten⟩ := admitAutoTask_cases happly
      obtain ⟨-, hkey⟩ := receipt?_eq_some.mp hcurrent
      rw [← hkey] at hcurrent
      have hrequest : requestId = receipt.requestId := hcall
      have hrow : row.key = current.key := by
        rw [hkey, hdef, hrequest]
        exact congrArg (·, receipt.requestId) howner
      have hid : next.taskId = some row.taskId := by rw [htask, hdef]
      have hcanonical : next.delegateCanonical = some row.canonical := by rw [hdelegate, hdef]
      refine ⟨h.entered hcurrent hmove hinserted hrow hid hcanonical hstate hwritten, ?_, ?_⟩
      · have hreceipts : middle.receipt? = s.receipt? := by
          funext key
          rw [receipt?, hinserted.beside.receipts, ← receipt?]
        refine .of_update hcurrent hmove (hreceipts ▸ hwritten.lookup) fun _ => ?_
        refine ⟨row, ?_, hid, hrow.trans hmove.key.symm, hcanonical⟩
        rw [hwritten.beside]
        exact hinserted.table
      · intro key hstone
        rw [hwritten.beside]
        rwa [tombstoned, hinserted.beside.tombstones, ← tombstoned]

theorem Tied.of_step (h : Tied codec s) (hcall : AdmissionCall s op) :
    Tied codec (s.step env codec op) ∧ Follows codec s (s.step env codec op) ∧
      ∀ key, s.tombstoned key = true → (s.step env codec op).tombstoned key = true := by
  rcases step_cases env codec s op with happly | hsame
  · exact h.apply hcall happly
  · rw [hsame]
    exact ⟨h, .of_same rfl, fun _ hstone => hstone⟩

/-- Later in a run a receipt is reached by moves, or its key is closed by a tombstone. -/
theorem Tied.moves_of_run (h : Tied codec s) (hrun : Run (step env codec) AdmissionCall s ops s') :
    (∀ key, s.tombstoned key = true → s'.tombstoned key = true) ∧
      ∀ key receipt, s.receipt? key = some receipt → s'.tombstoned key = true ∨
        ∃ later, s'.receipt? key = some later ∧ ReflTransGen (Moved codec) receipt later := by
  refine hrun.relates (Tied codec)
    (fun s s' => (∀ key, s.tombstoned key = true → s'.tombstoned key = true) ∧
      ∀ key receipt, s.receipt? key = some receipt → s'.tombstoned key = true ∨
        ∃ later, s'.receipt? key = some later ∧ ReflTransGen (Moved codec) receipt later)
    ?_ ?_ (fun _ _ htied hcall => (htied.of_step hcall).1) ?_ h
  · intro s
    exact ⟨fun _ hstone => hstone, fun key receipt hfound => .inr ⟨receipt, hfound, .refl⟩⟩
  · rintro _ _ _ ⟨hstones, hmoves⟩ ⟨hstones', hmoves'⟩
    refine ⟨fun key hstone => hstones' key (hstones key hstone), ?_⟩
    intro key receipt hfound
    rcases hmoves key receipt hfound with hstone | ⟨middle, hmiddle, hmove⟩
    · exact .inl (hstones' key hstone)
    · rcases hmoves' key middle hmiddle with hstone | ⟨later, hlater, hmove'⟩
      · exact .inl hstone
      · exact .inr ⟨later, hlater, hmove.trans hmove'⟩
  · intro s op htied hcall
    obtain ⟨-, hfollows, hstones⟩ :=
      show _ ∧ Follows codec s (s.step env codec op) ∧ _ from htied.of_step hcall
    refine ⟨hstones, ?_⟩
    intro key receipt hfound
    rcases hfollows.kept hfound with hsame | ⟨next, hnext, hmove, -⟩ | ⟨-, -, hstone⟩
    · exact .inr ⟨receipt, hsame, .refl⟩
    · exact .inr ⟨next, hnext, .single hmove⟩
    · exact .inl hstone

/-- Automatic admission is one-way and tied to one task. In every state of a run a receipt names
a task exactly when it is admitted, and that task is stored under its key; a call moves a receipt
along one edge with the next revision, inserting the task with the move to `admitted`, or fails
and changes nothing; and a receipt found later under a key is reached from the earlier one by
such moves. -/
theorem automatic_admission_one_way {generation : String} {ops ops' : List DelegationOp}
    (hrun : Run (step env codec) AdmissionCall (init generation) ops s)
    (hrest : Run (step env codec) AdmissionCall s ops' s') :
    (∀ key receipt, s.receipt? key = some receipt →
      (receipt.taskId.isSome = true ↔ receipt.state = .admitted) ∧
      (receipt.state = .admitted → ∃ row ∈ s.tasks, receipt.taskId = some row.taskId ∧
        row.key = key ∧ receipt.delegateCanonical = some row.canonical) ∧
      (receipt.state ≠ .admitted → ∀ row ∈ s.tasks, row.key ≠ key)) ∧
    (∀ op, AdmissionCall s op → Follows codec s (s.step env codec op)) ∧
    (∀ op error, s.apply env codec op = .error error → s.step env codec op = s) ∧
    ∀ key receipt later, s.receipt? key = some receipt → s'.receipt? key = some later →
      ReflTransGen (Moved codec) receipt later := by
  have htied : Tied codec s :=
    hrun.invariant (Tied codec) (fun _ _ htied hcall => (htied.of_step hcall).1) (.init _)
  refine ⟨?_, ?_, ?_, ?_⟩
  · intro key receipt hfound
    refine ⟨?_, htied.task hfound, htied.alone hfound⟩
    have hshape := (htied.valid hfound).wellShaped
    unfold AutoAdmissionReceipt.WellShaped at hshape
    cases hstate : receipt.state <;> simp_all
  · intro op hcall
    exact (htied.of_step hcall).2.1
  · intro op error herror
    rw [step, herror]
  · intro key receipt later hfound hlater
    have htied' := hrest.invariant (Tied codec) (fun _ _ h hcall => (h.of_step hcall).1) htied
    rcases (htied.moves_of_run hrest).2 key receipt hfound with hstone | ⟨_, hfound', hmove⟩
    · rw [htied'.gone hstone] at hlater
      cases hlater
    · rw [hfound'] at hlater
      cases hlater
      exact hmove

/-! ## An admission from its reservation to its task -/

def sampleReceipt : AutoAdmissionReceipt where
  owner := "human"
  requestId := "r1"
  canonical := [1]
  metadata := [0x7b, 0x7d]
  metadataVersion := 1
  state := .pending
  coordinatorEpoch := 0
  revision := 0
  policyRevision := 1
  policyDigest := String.ofList (List.replicate 64 'a')
  candidateId := none
  delegateCanonical := none
  mode := none
  reason := none
  taskId := none
  refusalCode := none
  createdAt := 5
  updatedAt := 5

def sampleReservation : List DelegationOp := [.reserve sampleReceipt 5]

def sampleAdmission : List DelegationOp :=
  [.choose ("human", "r1") [1] "c01" [3] .automatic none 6,
    .admitTask { sampleReceipt with revision := 1 } sampleRoot "r1" [3] 7 7 "g1"]

def sampleReserved : DelegationStore :=
  sampleReservation.foldl (step plainEnvironment plainCodec) (init "g0")

def sampleAdmitted : DelegationStore :=
  sampleAdmission.foldl (step plainEnvironment plainCodec) sampleReserved

theorem sampleReservation_run :
    Run (step plainEnvironment plainCodec) AdmissionCall (init "g0") sampleReservation
      sampleReserved :=
  .cons ⟨rfl, by decide, rfl⟩ (.nil _)

theorem sampleAdmission_run :
    Run (step plainEnvironment plainCodec) AdmissionCall sampleReserved sampleAdmission
      sampleAdmitted :=
  .cons trivial (.cons rfl (.nil _))

def sampleLater : AutoAdmissionReceipt :=
  { sampleReceipt with
    state := .admitted, revision := 2, candidateId := some "c01", delegateCanonical := some [3],
    mode := some .automatic, taskId := some "root", updatedAt := 7 }

/-- From a reservation over a decision to the task. -/
theorem reserved_receipt_admitted :
    sampleAdmitted.receipt? ("human", "r1") = some sampleLater ∧
      ReflTransGen (Moved plainCodec) sampleReceipt sampleLater := by
  have hlater : sampleAdmitted.receipt? ("human", "r1") = some sampleLater := by decide +kernel
  have hone := automatic_admission_one_way sampleReservation_run sampleAdmission_run
  exact ⟨hlater, hone.2.2.2 _ _ _ (by decide +kernel) hlater⟩

end DelegationStore

end Bridget.Delegation
