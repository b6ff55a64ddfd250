import Bridget.Guidance.Limits

/-!
# Interrupts over whole runs

Beside the journal a run remembers every interrupt that was admitted to an agent, newest first,
also when its event was purged. The delays that the facts lead to are those of the limiters over
this memory.
-/

namespace Bridget.Guidance

open Foundation List Admission
open Bridget.Idempotency (AgentLinkRecord GuidanceFacts GuidanceRefusal authorize
  interruptRetryAfter windowLeft)

/-- The journal, with all admissions that were made. -/
structure GuidanceLog where
  events : GuidanceEvents
  clock : Int
  admissions : List Admission

inductive GuidanceStep where
  | request (view : DaemonView) (request : GuidanceRequest) (now : Int)
  | purge (now : Int)

def GuidanceStep.now : GuidanceStep → Int
  | .request _ _ now | .purge now => now

def GuidanceLog.step (log : GuidanceLog) : GuidanceStep → GuidanceLog
  | .request view request now =>
    { events := guide log.events view request now
      clock := now
      admissions := (admitted log.events view request now).toList ++ log.admissions }
  | .purge now => { log with events := log.events.purgeGuidanceEvents now, clock := now }

/-- The clock does not go back, and every window that opens now closes within the integers. -/
def GuidanceLog.Ticks (log : GuidanceLog) (label : GuidanceStep) : Prop :=
  log.clock ≤ label.now ∧ i64Min ≤ label.now ∧ label.now + 600 ≤ i64Max
  deriving Decidable

/-- Nothing was admitted yet. -/
def GuidanceLog.Started (log : GuidanceLog) : Prop := log.events.rows = [] ∧ log.admissions = []

def decisions : GuidanceEvents → List GuidanceStep → List (Except GuidanceRefusal Unit)
  | _, [] => []
  | events, .request view request now :: later =>
    decision events view request now :: decisions (guide events view request now) later
  | events, .purge now :: later => decisions (events.purgeGuidanceEvents now) later

variable {events : GuidanceEvents} {span : Int}

theorem decisions_congr {events' : GuidanceEvents} (later : List GuidanceStep)
    (h : events.admissions = events'.admissions) :
    decisions events later = decisions events' later := by
  induction later generalizing events events' with
  | nil => rfl
  | cons label _ ih =>
    cases label with
    | request view request now =>
      have hdecision : decision events view request now = decision events' view request now := by
        simp only [decision_eq, counted, countInterruptsPair_eq, countInterruptsTarget_eq, h]
      rw [decisions, decisions, hdecision]
      congr 1
      apply ih
      rw [admissions_guide, admissions_guide, admitted, admitted, hdecision, h]
    | purge =>
      apply ih
      rw [admissions_purge, admissions_purge, h]

/-- The journal shows the admissions of the last day, and the two limits were kept. -/
structure GuidanceLog.Limited (log : GuidanceLog) : Prop where
  shows : ∀ since, i64Min ≤ since ∧ log.clock - 86400 ≤ since →
    (log.events.admissions.filter fun a => since ≤ a.atSecs).Perm
      (log.admissions.filter fun a => since ≤ a.atSecs)
  sorted : log.admissions.Pairwise fun later earlier => later.atSecs ≥ earlier.atSecs
  range : ∀ a ∈ log.admissions, i64Min ≤ a.atSecs ∧ a.atSecs + 600 ≤ i64Max ∧ a.atSecs ≤ log.clock
  pair : ∀ actor target, Spaced 0 30 (pairTimes actor target log.admissions)
  target : ∀ target, Spaced 2 600 (targetTimes target log.admissions)

def GuidanceLog.delay (log : GuidanceLog) (actor target : String) (now : Int) : Nat :=
  max (retryAfter 0 30 (pairTimes actor target log.admissions) now)
    (retryAfter 2 600 (targetTimes target log.admissions) now)

/-- What the facts hold about one window decides as the limiter does. -/
theorem windowRetry_eq {k count default : Nat} {now : Int} {nth : Option Int}
    {window : List Int} (hcount : count = window.length) (hnth : nth = window[k]?)
    (hleft : ∀ time ∈ window, windowLeft time span now = (time + span - now).toNat) :
    (if count ≤ k then 0 else (nth.map fun time => windowLeft time span now).getD default) =
      retryAfter k span window now := by
  subst hcount hnth
  unfold retryAfter
  split
  next hle => rw [getElem?_eq_none hle]
  · have hk : k < window.length := by omega
    rw [getElem?_eq_getElem hk]
    exact hleft _ (getElem_mem hk)

namespace GuidanceLog.Limited

variable {log : GuidanceLog} {now since : Int}

section

variable (h : log.Limited)

include h

theorem times_sorted (p : Admission → Bool) :
    ((log.admissions.filter p).map atSecs).Pairwise (· ≥ ·) :=
  pairwise_map.mpr (h.sorted.filter p)

theorem times_range (hnow : log.clock ≤ now) (p : Admission → Bool) :
    ∀ time ∈ (log.admissions.filter p).map atSecs,
      i64Min ≤ time ∧ time + 600 ≤ i64Max ∧ time ≤ now := by
  intro time htime
  obtain ⟨a, ha, rfl⟩ := mem_map.mp htime
  have := h.range a (mem_of_mem_filter ha)
  omega

theorem window_perm (hsince : i64Min ≤ since ∧ log.clock - 86400 ≤ since) (p : Admission → Bool) :
    (((log.events.admissions.filter p).map atSecs).filter fun time => since ≤ time).Perm
      (((log.admissions.filter p).map atSecs).filter fun time => since ≤ time) := by
  have hcomm : ∀ l : List Admission, ((l.filter p).map atSecs).filter (fun time => since ≤ time) =
        ((l.filter fun a => since ≤ a.atSecs).filter p).map atSecs := by
    intro l
    rw [filter_map, filter_comm]
    rfl
  rw [hcomm, hcomm]
  exact ((h.shows since hsince).filter p).map _

section

variable (hnow : log.clock ≤ now) {id : String}

include hnow

theorem retryAfter_window {k : Nat} (p : Admission → Bool) :
    retryAfter k span (((log.admissions.filter p).map atSecs).filter
        fun time => saturatingSub now span ≤ time) now =
      retryAfter k span ((log.admissions.filter p).map atSecs) now := by
  apply Foundation.retryAfter_window (h.times_sorted p)
  intro time htime _
  have := h.times_range hnow p time htime
  unfold saturatingSub i64Max i64Min at *
  omega

/-- The delay of an interrupt is the longer one of the two limiters. -/
theorem interruptRetryAfter_counted (hmax : now ≤ i64Max) {facts : GuidanceFacts}
    {target : String} (haction : facts.action = .interrupt) (hactor : facts.actor = .agent id) :
    interruptRetryAfter (counted log.events target now facts) = log.delay id target now := by
  -- in these windows nothing is forgotten yet, and no sum saturates
  have hsince : ∀ span, 0 ≤ span ∧ span ≤ 600 →
      i64Min ≤ saturatingSub now span ∧ log.clock - 86400 ≤ saturatingSub now span := by
    intro span hspan
    unfold saturatingSub i64Max i64Min at *
    omega
  have hleft : ∀ (p : Admission → Bool) (span : Int), 0 ≤ span ∧ span ≤ 600 →
      ∀ time ∈ ((log.admissions.filter p).map atSecs).filter
          (fun time => saturatingSub now span ≤ time),
        windowLeft time span now = (time + span - now).toNat := by
    intro p span hspan time htime
    have hrange := h.times_range hnow p time (mem_of_mem_filter htime)
    unfold windowLeft saturatingSub saturatingAdd i64Max i64Min at *
    omega
  have hpair := h.window_perm (hsince 30 (by omega)) fun a => a.actor = id ∧ a.target = target
  have htarget := h.window_perm (hsince 600 (by omega)) fun a => a.target = target
  have hpairSorted := (h.times_sorted fun a => a.actor = id ∧ a.target = target).filter
    fun time => decide (saturatingSub now 30 ≤ time)
  have htargetSorted := (h.times_sorted fun a => a.target = target).filter
    fun time => decide (saturatingSub now 600 ≤ time)
  rw [GuidanceLog.delay, pairTimes, targetTimes, ← h.retryAfter_window hnow,
    ← h.retryAfter_window hnow]
  unfold interruptRetryAfter counted
  rw [haction, hactor]
  simp only [countInterruptsPair_eq, countInterruptsTarget_eq]
  congr 1
  · rw [← windowRetry_eq hpair.length_eq (max?_eq_head? hpairSorted hpair) (hleft _ 30 (by omega))]
    simp only [Nat.le_zero]
    rfl
  have hthird := List.Perm.eq_of_pairwise' (pairwise_insertionSort (· ≥ ·) _)
    htargetSorted ((perm_insertionSort _ _).trans htarget)
  rw [← windowRetry_eq htarget.length_eq (congrArg (·[2]?) hthird) (hleft _ 600 (by omega))]
  simp only [Nat.le_iff_lt_add_one]
  rfl

/-- An interrupt by an agent is decided by its guards and then by the limiters. -/
theorem decision_eq (hmax : now ≤ i64Max) {view : DaemonView} {request : GuidanceRequest}
    (hactor : request.actor = .agent id) (haction : request.action = .interrupt) :
    decision log.events view request now =
      match rights view request with
      | .error _ => .error (.intentNotPermitted "identity_unattested")
      | .ok facts => interruptGuards facts >>= fun _ =>
        ensure (log.delay id (routingAgentId request.target) now = 0)
          (.interruptRateLimited (log.delay id (routingAgentId request.target) now)) := by
  rw [Guidance.decision_eq]
  cases hrights : rights view request with
  | error => rfl
  | ok =>
    obtain ⟨hfactsAction, hfactsActor⟩ := rights_eq_ok hrights
    have haction' := hfactsAction.trans haction
    have hactor' := hfactsActor.trans hactor
    simp only
    rw [authorize_interrupt (counted_action.trans haction') (counted_actor.trans hactor'),
      h.interruptRetryAfter_counted hnow hmax haction' hactor', interruptGuards_counted]

theorem advance (hshows : ∀ since, i64Min ≤ since ∧ now - 86400 ≤ since →
      (events.admissions.filter fun a => since ≤ a.atSecs).Perm
        (log.events.admissions.filter fun a => since ≤ a.atSecs)) :
    GuidanceLog.Limited ⟨events, now, log.admissions⟩ where
  shows since hsince := by
    simp only at hsince
    exact (hshows since hsince).trans (h.shows since (by omega))
  sorted := h.sorted
  range a ha := by
    have := h.range a ha
    simp only
    omega
  pair := h.pair
  target := h.target

end

theorem with_admission {a : Admission} (hnow : log.clock ≤ a.atSecs)
    (hrange : i64Min ≤ a.atSecs ∧ a.atSecs + 600 ≤ i64Max)
    (hfree : log.delay a.actor a.target a.atSecs = 0)
    (hevents : events.admissions = log.events.admissions ++ [a]) :
    GuidanceLog.Limited ⟨events, a.atSecs, a :: log.admissions⟩ where
  shows since hsince := by
    simp only at hsince
    rw [hevents, filter_append]
    have hold := h.shows since (by omega)
    simp only [filter_cons, filter_nil]
    split
    · exact (perm_append_singleton a _).trans (hold.cons a)
    · simpa using hold
  sorted := pairwise_cons.mpr ⟨fun b hb => (h.range b hb).2.2.trans hnow, h.sorted⟩
  range b hb := by
    rcases mem_cons.mp hb with rfl | hb
    · exact ⟨hrange.1, hrange.2, le_refl _⟩
    · have := h.range b hb
      simp only
      omega
  pair actor target := by
    unfold pairTimes
    rw [filter_cons]
    split
    next heq =>
      obtain ⟨rfl, rfl⟩ := of_decide_eq_true heq
      exact (h.pair _ _).cons (Nat.max_eq_zero_iff.mp hfree).1
    · exact h.pair actor target
  target target := by
    unfold targetTimes
    rw [filter_cons]
    split
    next heq =>
      obtain rfl := of_decide_eq_true heq
      exact (h.target _).cons (Nat.max_eq_zero_iff.mp hfree).2
    · exact h.target target

theorem step {label : GuidanceStep} (hticks : log.Ticks label) : (log.step label).Limited := by
  obtain ⟨hnow, hmin, hmax⟩ := hticks
  cases label with
  | request view request now =>
    simp only [GuidanceStep.now] at hnow hmin hmax
    simp only [GuidanceLog.step]
    have hadmissions : (guide log.events view request now).admissions = _ := admissions_guide
    cases hadmitted : admitted log.events view request now with
    | none =>
      rw [hadmitted, Option.toList_none, append_nil] at hadmissions
      apply h.advance hnow
      intro since _
      rw [hadmissions]
    | some =>
      rw [hadmitted] at hadmissions
      unfold admitted at hadmitted
      split at hadmitted
      swap
      · cases hadmitted
      rename_i hactor hdecision
      obtain ⟨⟨haction, -⟩, hadmission⟩ := Option.ite_none_right_eq_some.mp hadmitted
      cases hadmission
      refine h.with_admission hnow ⟨hmin, hmax⟩ ?_ hadmissions
      -- the decision was positive, so both limiters were free
      rw [h.decision_eq hnow (by omega) hactor haction] at hdecision
      split at hdecision
      · cases hdecision
      · obtain ⟨_, -, hfree⟩ := bind_eq_ok.mp hdecision
        exact ensure_eq_ok.mp hfree
  | purge now =>
    simp only [GuidanceStep.now] at hnow
    apply h.advance hnow
    intro since _
    rw [admissions_purge, filter_filter]
    apply List.Perm.of_eq
    congr 1
    funext a
    -- a purge reaches only what a window of a day no longer shows
    have : saturatingSub now 86400 ≤ since := by
      unfold saturatingSub
      omega
    grind

end

theorem of_started (h : log.Started) : log.Limited := by
  obtain ⟨hrows, hadmissions⟩ := h
  have hnone : log.events.admissions = [] := by
    rw [GuidanceEvents.admissions, hrows]
    rfl
  constructor <;> simp [hnone, hadmissions, pairTimes, targetTimes, Spaced.nil]

end GuidanceLog.Limited

/-- Everything that an interrupt needs besides its time. -/
def DaemonView.Permits (view : DaemonView) (request : GuidanceRequest) : Prop :=
  ∃ facts, rights view request = .ok facts ∧ interruptGuards facts = .ok ()

section

variable {log log' : GuidanceLog} {now : Int} {actor target : String}

theorem GuidanceLog.delay_le (h : log.Limited) (hnow : log.clock ≤ now) :
    log.delay actor target now ≤ 600 := by
  have hle : ∀ p, ∀ time ∈ (log.admissions.filter p).map atSecs, time ≤ now :=
    fun p time htime => (h.times_range hnow p time htime).2.2
  have hpair : retryAfter 0 30 (pairTimes actor target log.admissions) now ≤ 30 :=
    retryAfter_le (hle _)
  have htarget : retryAfter 2 600 (targetTimes target log.admissions) now ≤ 600 :=
    retryAfter_le (hle _)
  unfold GuidanceLog.delay
  omega

theorem GuidanceLog.delay_add (s : Nat)
    (hsame : log'.admissions.filter (fun a => a.target = target) =
      log.admissions.filter fun a => a.target = target) :
    log'.delay actor target (now + s) = log.delay actor target now - s := by
  have htarget : targetTimes target log'.admissions = targetTimes target log.admissions := by
    rw [targetTimes, hsame, targetTimes]
  have hpair : pairTimes actor target log'.admissions = pairTimes actor target log.admissions := by
    unfold pairTimes
    simp only [Bool.decide_and]
    rw [← filter_filter, ← filter_filter, hsame]
  rw [GuidanceLog.delay, GuidanceLog.delay, htarget, hpair, retryAfter_add, retryAfter_add]
  omega

end

/-- Admitted interrupts keep their distance, refusals leave no trace in later decisions, and the
delay that a refusal names is exact. -/
theorem interrupts_keep_their_distance {start log : GuidanceLog} {labels : List GuidanceStep}
    (hstart : start.Started) (hrun : Run GuidanceLog.step GuidanceLog.Ticks start labels log) :
    (∀ later earlier, [later, earlier].Sublist log.admissions →
      later.actor = earlier.actor → later.target = earlier.target →
        earlier.atSecs + 30 ≤ later.atSecs) ∧
    (∀ fourth third second first, [fourth, third, second, first].Sublist log.admissions →
      fourth.target = first.target → third.target = first.target → second.target = first.target →
        first.atSecs + 600 ≤ fourth.atSecs) ∧
    (∀ view request now refusal, decision log.events view request now = .error refusal →
      ∀ later, decisions (log.step (.request view request now)).events later =
        decisions log.events later) ∧
    (∀ view request now id r, request.actor = .agent id → request.action = .interrupt →
      log.Ticks (.request view request now) →
      decision log.events view request now = .error (.interruptRateLimited r) →
      ∀ (s : Nat) later log' view', s ≤ r →
        Run GuidanceLog.step GuidanceLog.Ticks (log.step (.request view request now)) later log' →
        log'.clock ≤ now + s →
        log'.admissions.filter (fun a => a.target = routingAgentId request.target) =
          log.admissions.filter (fun a => a.target = routingAgentId request.target) →
        view'.Permits request →
        decision log'.events view' request (now + s) =
          if s < r then .error (.interruptRateLimited (r - s)) else .ok ()) := by
  have hlimited : log.Limited := hrun.invariant _ (fun _ _ h => h.step)
    (GuidanceLog.Limited.of_started hstart)
  refine ⟨?_, ?_, ?_, ?_⟩
  · intro later earlier hsub hactor htarget
    apply (hlimited.pair earlier.actor earlier.target).of_sublist (hlimited.times_sorted _)
      (show ([] : List Int).length = 0 from rfl)
    have := (hsub.filter fun a => a.actor = earlier.actor ∧ a.target = earlier.target).map
      atSecs
    simpa [pairTimes, hactor, htarget] using this
  · intro fourth third second first hsub hfourth hthird hsecond
    apply (hlimited.target first.target).of_sublist (hlimited.times_sorted _)
      (show [third.atSecs, second.atSecs].length = 2 from rfl)
    have := (hsub.filter fun a => a.target = first.target).map atSecs
    simpa [targetTimes, hfourth, hthird, hsecond] using this
  · intro view request now refusal hrefused later
    apply decisions_congr later
    rw [GuidanceLog.step, admissions_guide, admitted, hrefused]
    simp
  · intro view request now id r hactor haction hticks hrefused s later log' view' _ hlater hclock
      hsame hpermits
    have hlimited' : log'.Limited := hlater.invariant _ (fun _ _ h => h.step)
      (hlimited.step hticks)
    obtain ⟨hnow, -, hmax⟩ := hticks
    simp only [GuidanceStep.now] at hnow hmax
    have hdelay : log.delay id (routingAgentId request.target) now = r := by
      rw [hlimited.decision_eq hnow (by omega) hactor haction] at hrefused
      split at hrefused
      · cases hrefused
      · rcases bind_eq_error.mp hrefused with hguards | ⟨_, -, hrate⟩
        · simp [interruptGuards, bind_eq_error] at hguards
        · cases (ensure_eq_error.mp hrate).2
          rfl
    have hle : r ≤ 600 := hdelay ▸ GuidanceLog.delay_le hlimited hnow
    -- a request whose guards hold is decided by the delay alone
    obtain ⟨_, hrights, hguards⟩ := hpermits
    rw [hlimited'.decision_eq hclock (by omega) hactor haction, hrights]
    simp only [hguards, ok_bind]
    rw [GuidanceLog.delay_add s hsame, hdelay]
    by_cases hlt : s < r
    · rw [if_pos hlt]
      exact if_neg (by omega)
    · rw [if_neg hlt]
      exact if_pos (by omega)

def childLink : AgentLinkRecord :=
  { linkId := "link", parentInstanceId := "parent-1", childInstanceId := "child-1"
    parentExecutionId := none, objectiveId := none, delegationId := none, project := none
    role := "worker", agentPath := "parent-1/child-1", state := .opened, createdAt := 0
    closedAt := none, revision := 0 }

def parentView : DaemonView where
  instanceOf agent := if agent = "child" then some "child-1" else none
  forChild _ := .ok none
  agentLinkForChild instanceId := .ok (if instanceId = "child-1" then some childLink else none)
  projectOf _ := none
  paused := .ok false

def parentInterrupt : GuidanceRequest :=
  { conn := some
      { identity := some ("parent", "parent-1"), uiPresence := false, attached := false
        project := none }
    target := "child", action := .interrupt, path := .control, trustedProducer := none
    childProof := false, id := "interrupt" }

def quietLog : GuidanceLog := ⟨⟨[], 0⟩, 0, []⟩

theorem quietLog_started : quietLog.Started := ⟨rfl, rfl⟩

def interruptAt (now : Int) : GuidanceStep := .request parentView parentInterrupt now

/-- The interrupt that is refused starts no period of its own. -/
theorem second_interrupt_waits_thirty_seconds :
    let log := quietLog.step (interruptAt 1000)
    decision log.events parentView parentInterrupt 1010 = .error (.interruptRateLimited 20) ∧
      decision (log.step (interruptAt 1010)).events parentView parentInterrupt 1029 =
        .error (.interruptRateLimited 1) ∧
      decision (log.step (interruptAt 1010)).events parentView parentInterrupt 1030 = .ok () := by
  have hrun : Run GuidanceLog.step GuidanceLog.Ticks quietLog [interruptAt 1000]
      (quietLog.step (interruptAt 1000)) := Run.of_allows (by decide +kernel)
  have hrefused : decision (quietLog.step (interruptAt 1000)).events parentView parentInterrupt
      1010 = .error (.interruptRateLimited 20) := by decide +kernel
  have hticks : (quietLog.step (interruptAt 1000)).Ticks (interruptAt 1010) := by decide +kernel
  have hpermits : parentView.Permits parentInterrupt := ⟨_, rfl, by decide +kernel⟩
  have hexact := (interrupts_keep_their_distance quietLog_started hrun).2.2.2 parentView
    parentInterrupt 1010 "parent" 20 (by decide +kernel) rfl hticks hrefused
  refine ⟨hrefused, ?_, ?_⟩
  · exact hexact 19 [] _ parentView (by decide) (.nil _) (by decide +kernel) (by decide +kernel)
      hpermits
  · exact hexact 20 [] _ parentView (by decide) (.nil _) (by decide +kernel) (by decide +kernel)
      hpermits

/-- At the end of the 64-bit clock, the end of a window saturates at the present. -/
theorem last_interrupts_are_ten_seconds_apart :
    quietLog.Started ∧
      Run GuidanceLog.step (fun log label =>
          log.clock ≤ label.now ∧ i64Min ≤ label.now ∧ label.now ≤ i64Max) quietLog
        [interruptAt (i64Max - 10), interruptAt i64Max]
        ([interruptAt (i64Max - 10), interruptAt i64Max].foldl GuidanceLog.step quietLog) ∧
      ([interruptAt (i64Max - 10), interruptAt i64Max].foldl GuidanceLog.step quietLog).admissions =
        [⟨i64Max, "parent", "child"⟩, ⟨i64Max - 10, "parent", "child"⟩] :=
  ⟨quietLog_started, Run.of_allows (by decide +kernel), by decide +kernel⟩

end Bridget.Guidance
