import Bridget.Guidance.Events

/-!
# How often an agent may be interrupted

The journal forgets: old events are purged and refused requests are journalled with the
admitted ones. Still the counts that a decision reads are those of two limiters over everything
that was ever admitted, one for each pair of an actor and a target and one for each target.
-/

namespace Bridget.Guidance

open Foundation List GuidanceEvents
open Bridget.Idempotency (GuidanceAction GuidanceActor GuidanceFacts GuidanceRefusal authorize
  authorizeActor authorizeAgent interruptRetryAfter windowLeft)

structure Admission where
  atSecs : Int
  (actor target : String)
  deriving DecidableEq

def pairTimes (actor target : String) (admissions : List Admission) : List Int :=
  (admissions.filter fun a => a.actor = actor ∧ a.target = target).map Admission.atSecs

def targetTimes (target : String) (admissions : List Admission) : List Int :=
  (admissions.filter fun a => a.target = target).map Admission.atSecs

/-- The events that are counted. -/
def GuidanceEvent.admission (row : GuidanceEvent) : Option Admission :=
  if row.action = .interrupt ∧ row.actor ≠ "human" ∧ row.outcome = .admitted then
    some ⟨row.atSecs, row.actor, row.target⟩
  else none

def GuidanceEvents.admissions (events : GuidanceEvents) : List Admission :=
  events.rows.filterMap GuidanceEvent.admission

section

variable {events : GuidanceEvents} {actor target : String} {since : Int}

/-- A statement that counts admissions reads no more of the rows than the admissions. -/
theorem map_filter_admission (rows : List GuidanceEvent) (since : Int) (p : Admission → Bool)
    (q : GuidanceEvent → Bool)
    (hq : ∀ row, q row = row.admission.any fun a => p a && decide (since ≤ a.atSecs)) :
    (rows.filter q).map GuidanceEvent.atSecs =
      (((rows.filterMap GuidanceEvent.admission).filter p).map Admission.atSecs).filter
        fun time => since ≤ time := by
  induction rows with
  | nil => rfl
  | cons row _ ih =>
    have hrow := hq row
    cases hadmission : row.admission with
    | none =>
      rw [hadmission] at hrow
      rw [filter_cons_of_neg (by simpa using hrow), filterMap_cons_none hadmission]
      exact ih
    | some a =>
      have htime : row.atSecs = a.atSecs := by
        unfold GuidanceEvent.admission at hadmission
        split at hadmission
        · exact congrArg Admission.atSecs (Option.some.inj hadmission)
        · cases hadmission
      rw [hadmission, Option.any_some] at hrow
      rw [filterMap_cons_some hadmission, filter_cons, filter_cons, hrow]
      cases hp : p a with
      | false => simpa [hp] using ih
      | true =>
        by_cases hsince : since ≤ a.atSecs
        · simpa [hp, hsince, htime] using ih
        · simpa [hp, hsince] using ih

theorem countInterruptsPair_eq :
    events.countInterruptsPair actor target since =
      let window := (pairTimes actor target events.admissions).filter fun time => since ≤ time
      (window.length, window.max?) := by
  have hwindow := map_filter_admission events.rows since
    (fun a => a.actor = actor ∧ a.target = target)
    (fun row => row.actor = actor ∧ row.actor ≠ "human" ∧ row.target = target ∧
      row.action = .interrupt ∧ row.outcome = .admitted ∧ since ≤ row.atSecs) (by
    intro row
    unfold GuidanceEvent.admission
    split <;> grind)
  unfold pairTimes admissions
  rw [← hwindow, countInterruptsPair]
  simp only [length_map]

theorem map_insertionSort_eventOrder (rows : List GuidanceEvent) :
    (rows.insertionSort eventOrder).map GuidanceEvent.atSecs =
      (rows.map GuidanceEvent.atSecs).insertionSort (· ≥ ·) := by
  have : Std.Total eventOrder := ⟨fun a b => by unfold eventOrder; omega⟩
  have : IsTrans GuidanceEvent eventOrder := ⟨fun a b _ => by unfold eventOrder; omega⟩
  have hsorted : ((rows.insertionSort eventOrder).map GuidanceEvent.atSecs).Pairwise (· ≥ ·) := by
    rw [pairwise_map]
    apply (pairwise_insertionSort eventOrder rows).imp
    intro a b h
    unfold eventOrder at h
    omega
  apply List.Perm.eq_of_pairwise' hsorted (pairwise_insertionSort _ _)
  exact ((perm_insertionSort _ _).map _).trans (perm_insertionSort _ _).symm

theorem countInterruptsTarget_eq :
    events.countInterruptsTarget target since =
      let window := (targetTimes target events.admissions).filter fun time => since ≤ time
      (window.length, (window.insertionSort (· ≥ ·))[2]?) := by
  have hwindow := map_filter_admission events.rows since (fun a => a.target = target)
    (fun row => row.target = target ∧ row.action = .interrupt ∧ row.actor ≠ "human" ∧
      row.outcome = .admitted ∧ since ≤ row.atSecs) (by
    intro row
    unfold GuidanceEvent.admission
    split <;> grind)
  unfold targetTimes admissions
  rw [← hwindow, countInterruptsTarget]
  simp only [length_map, ← map_insertionSort_eventOrder, getElem?_map]

end

def interruptGuards (facts : GuidanceFacts) : Except GuidanceRefusal Unit := do
  ensure (!facts.childProof) (.intentNotPermitted "identity_unattested")
  ensure facts.identityAttested (.intentNotPermitted "identity_unattested")
  ensure (!facts.actorIsTarget) (.intentNotPermitted "self_target")
  ensure (!facts.crossProject) (.intentNotPermitted "cross_project")
  ensure facts.actorIsParent (.intentNotPermitted "not_parent")
  ensure (!facts.paused) .referentPaused
  ensure (!facts.targetHasActiveNativeTask) .missionActive

variable {facts : GuidanceFacts}

theorem authorize_interrupt {id : String} (haction : facts.action = .interrupt)
    (hactor : facts.actor = .agent id) :
    authorize facts = interruptGuards facts >>= fun _ => ensure (interruptRetryAfter facts = 0)
      (.interruptRateLimited (interruptRetryAfter facts)) := by
  simp [authorize, authorizeActor, authorizeAgent, interruptGuards, haction, hactor, ensure,
    ok_bind]

theorem rights_eq_ok {view : DaemonView} {request : GuidanceRequest}
    (h : rights view request = .ok facts) :
    facts.action = request.action ∧ facts.actor = request.actor := by
  simp only [rights, ok_iff] at h
  obtain ⟨_, -, _, -, _, -, rfl⟩ := h
  exact ⟨rfl, rfl⟩

def decision (events : GuidanceEvents) (view : DaemonView) (request : GuidanceRequest)
    (now : Int) : Except GuidanceRefusal Unit :=
  (checkGuidance events view request now).map fun _ => ()

/-- The admission of an interrupt by an agent, the name of the human apart. -/
def admitted (events : GuidanceEvents) (view : DaemonView) (request : GuidanceRequest)
    (now : Int) : Option Admission :=
  match request.actor, decision events view request now with
  | .agent id, .ok _ =>
    if request.action = .interrupt ∧ id ≠ "human" then
      some ⟨now, id, routingAgentId request.target⟩
    else none
  | _, _ => none

section

variable {events : GuidanceEvents} {view : DaemonView} {request : GuidanceRequest} {now : Int}

theorem decision_eq : decision events view request now =
    match rights view request with
    | .error _ => .error (.intentNotPermitted "identity_unattested")
    | .ok facts => authorize (counted events (routingAgentId request.target) now facts) := by
  unfold decision checkGuidance guidanceFacts
  cases rights view request with
  | error => rfl
  | ok facts =>
    simp only [ok_bind, pure, Except.pure]
    cases authorize (counted events (routingAgentId request.target) now facts) with
    | error => rfl
    | ok => rfl

variable {target : String} {facts : GuidanceFacts}

@[simp] theorem counted_action : (counted events target now facts).action = facts.action := by
  unfold counted
  split <;> rfl

@[simp] theorem counted_actor : (counted events target now facts).actor = facts.actor := by
  unfold counted
  split <;> rfl

@[simp] theorem interruptGuards_counted :
    interruptGuards (counted events target now facts) = interruptGuards facts := by
  unfold counted
  split <;> rfl

theorem admissions_recordGuidanceEvent {atSecs : Int} {actor : String} {action : EventAction}
    {path : GuidancePath} {messageId : Option String} {outcome : GuidanceOutcome} :
    (events.recordGuidanceEvent atSecs actor target action path messageId outcome).admissions =
      events.admissions ++ (if action = .interrupt ∧ actor ≠ "human" ∧ outcome = .admitted then
          [⟨atSecs, actor, target⟩] else []) := by
  unfold admissions recordGuidanceEvent
  unfold GuidanceEvent.admission
  split <;> simp_all

theorem admissions_recordGuidanceOutcome_refused {actor : GuidanceActor} {code : String} :
    (recordGuidanceOutcome events actor request now (.refused code)).admissions =
      events.admissions := by
  unfold recordGuidanceOutcome
  split
  · rfl
  · split
    all_goals simp [admissions_recordGuidanceEvent]

theorem admissions_guide : (guide events view request now).admissions =
    events.admissions ++ (admitted events view request now).toList := by
  unfold guide admitted
  rw [decision_eq, guidanceFacts]
  cases hrights : rights view request with
  | error =>
    have hnone : (recordGuidanceRefusal events request now "intent_not_permitted").admissions =
        events.admissions := by
      unfold recordGuidanceRefusal
      split
      · rfl
      · exact admissions_recordGuidanceOutcome_refused
    simpa [ok_bind] using hnone
  | ok facts =>
    obtain ⟨haction, hactor⟩ := rights_eq_ok hrights
    simp only [ok_bind, pure, Except.pure, counted_actor, hactor]
    cases hdecided : authorize (counted events (routingAgentId request.target) now facts) with
    | error => simp [admissions_recordGuidanceOutcome_refused]
    | ok =>
      have hbare : request.action = .interrupt → request.actor ≠ .bareClient := by
        intro hinterrupt hbare
        simp [authorize, authorizeActor, haction, hactor, hinterrupt, hbare] at hdecided
      unfold recordGuidanceOutcome
      cases hsource : request.actor with
      | internalPause => simp
      | agent =>
        cases request.action <;> simp [admissions_recordGuidanceEvent, actorLabel]
        split <;> rfl
      | attachedHuman => cases request.action <;> simp [admissions_recordGuidanceEvent, actorLabel]
      | bareClient => cases hact : request.action <;> simp_all [admissions_recordGuidanceEvent]

theorem admissions_purge : (events.purgeGuidanceEvents now).admissions =
    events.admissions.filter fun a => ¬ a.atSecs < saturatingSub now 86400 := by
  unfold admissions purgeGuidanceEvents
  rw [filter_filterMap, filterMap_filter]
  congr 1
  funext row
  unfold GuidanceEvent.admission
  split <;> grind

end

end Bridget.Guidance
