import Bridget.Foundation.Numerals
import Bridget.Schedules.Changes

/-!
# Occurrences over whole runs

The occurrences that were ever frozen are kept beside the table, newest first, each with the phase
that it was last given. The last occurrence of a schedule is the one that its payload holds.
-/

namespace Bridget.Schedules

open Foundation List Option
open Bridget.Idempotency (WakePhase FrozenWake freezeCanonical)
open Bridget.Threads (StoreError)

/-- An occurrence as it was frozen, and its phase since. -/
structure Occurrence where
  scheduleId : String
  wake : FrozenWake
  phase : WakePhase

def Occurrence.stored (o : Occurrence) : FrozenWake := { o.wake with phase := o.phase }

/-- The schedules, with the occurrences that were frozen, last first. -/
structure ScheduleLog where
  schedules : ScheduleTable
  history : List Occurrence

def latest (history : List Occurrence) (id : String) : Option Occurrence :=
  history.find? fun o => o.scheduleId = id

def settleLatest (id : String) (phase : WakePhase) : List Occurrence → List Occurrence
  | [] => []
  | o :: rest =>
    if o.scheduleId = id then { o with phase } :: rest else o :: settleLatest id phase rest

def record (codec : ScheduleCodec) (history : List Occurrence) : ScheduleOp → List Occurrence
  | .freeze request =>
    match freezeCanonical codec.toVec request.wake with
    | .ok frozen => ⟨request.id, frozen, .prepared⟩ :: history
    | .error _ => history
  | .settle request => settleLatest request.id request.phase history
  | .cancel _ | .advance _ => history

namespace ScheduleLog

def step (codec : ScheduleCodec) (log : ScheduleLog) (op : ScheduleOp) : ScheduleLog :=
  match exec codec log.schedules op with
  | .ok (true, schedules) => ⟨schedules, record codec log.history op⟩
  | .ok (false, schedules) => { log with schedules }
  | .error _ => log

/-- The calendar is never advanced at a time before the last due time. -/
def OnTime (log : ScheduleLog) : ScheduleOp → Prop
  | .advance request => ∀ o ∈ latest log.history request.id, o.wake.dueAt ≤ request.now
  | _ => True

instance (log : ScheduleLog) : (op : ScheduleOp) → Decidable (log.OnTime op)
  | .advance request => inferInstanceAs
      (Decidable (∀ o ∈ latest log.history request.id, o.wake.dueAt ≤ request.now))
  | .cancel _ | .freeze _ | .settle _ => .isTrue trivial

/-- All schedules are as they were created, and nothing has been woken. -/
def Created (codec : ScheduleCodec) (log : ScheduleLog) : Prop :=
  log.history = [] ∧ ∀ row ∈ log.schedules, ∃ schedule, createdRow codec schedule = .ok row

end ScheduleLog

open ScheduleLog

section

variable {history history' : List Occurrence} {id other : String} {phase : WakePhase}
  {o : Occurrence} {rel : Occurrence → Occurrence → Prop}

theorem latest_eq_some (h : latest history id = some o) : o ∈ history ∧ o.scheduleId = id := by
  have hfound := find?_some h
  exact ⟨mem_of_find?_eq_some h, of_decide_eq_true hfound⟩

theorem latest_settleLatest (history : List Occurrence) :
    latest (settleLatest id phase history) other =
      (latest history other).map fun o => if other = id then { o with phase } else o := by
  induction history with
  | nil => rfl
  | cons o _ ih =>
    unfold settleLatest
    by_cases hid : o.scheduleId = id
    · rw [if_pos hid]
      by_cases hother : o.scheduleId = other
      · simp [latest, hother, ← hid]
      · have hne : other ≠ id := fun h => hother (hid.trans h.symm)
        simp [latest, hother, hne]
    · rw [if_neg hid]
      by_cases hother : o.scheduleId = other
      · have hne : other ≠ id := fun h => hid (hother.trans h)
        simp [latest, hother, hne]
      · simp only [latest, find?_cons, hother, decide_false]
        exact ih

/-- The wake stays, and its phase goes on to an end that stays. -/
structure Occurrence.Evolves (o o' : Occurrence) : Prop where
  scheduleId : o'.scheduleId = o.scheduleId
  wake : o'.wake = o.wake
  terminal : terminal o.phase = true → o'.phase = o.phase
  dispatching : o.phase = .dispatchingAgent →
    o'.phase = .dispatchingAgent ∨ o'.phase = .confirmed ∨ o'.phase = .outcomeUnknown

theorem Occurrence.Evolves.refl (o : Occurrence) : o.Evolves o := ⟨rfl, rfl, fun _ => rfl, .inl⟩

theorem evolves_refl (history : List Occurrence) : Forall₂ Occurrence.Evolves history history :=
  forall₂_same.mpr fun o _ => .refl o

theorem evolves_settleLatest (h : ∀ o, latest history id = some o → o.Evolves { o with phase }) :
    Forall₂ Occurrence.Evolves history (settleLatest id phase history) := by
  induction history with
  | nil => exact .nil
  | cons o rest ih =>
    unfold settleLatest
    split
    next hid =>
      refine .cons (h o ?_) (evolves_refl rest)
      simp [latest, hid]
    next hid =>
      refine .cons (.refl o) (ih fun o' hlatest => h o' ?_)
      simpa [latest, hid] using hlatest

/-- An occurrence of a schedule is its last one, or earlier than that. -/
theorem eq_or_earlier {e : Occurrence} (h : history.Pairwise rel) (ho : latest history id = some o)
    (he : e ∈ history) (hid : e.scheduleId = id) : e = o ∨ rel o e := by
  induction history with
  | nil => cases he
  | cons a _ ih =>
    obtain ⟨hfirst, hrest⟩ := pairwise_cons.mp h
    by_cases ha : a.scheduleId = id
    · have hlatest : a = o := by simpa [latest, ha] using ho
      subst hlatest
      rcases mem_cons.mp he with rfl | he
      · exact .inl rfl
      · exact .inr (hfirst e he)
    · rcases mem_cons.mp he with rfl | he
      · exact absurd hid ha
      · exact ih hrest (by simpa [latest, ha] using ho) he

theorem exists_latest (ho : o ∈ history) (hid : o.scheduleId = id) :
    ∃ last, latest history id = some last :=
  isSome_iff_exists.mp (find?_isSome.mpr ⟨o, ho, decide_eq_true hid⟩)

/-- A relation between occurrences that every change keeps. -/
theorem pairwise_of_evolves (hrel : ∀ a b a' b', a.Evolves a' → b.Evolves b' → rel a b → rel a' b')
    (hevolves : Forall₂ Occurrence.Evolves history history') (h : history.Pairwise rel) :
    history'.Pairwise rel := by
  induction hevolves with
  | nil => exact .nil
  | cons hhead htail ih =>
    obtain ⟨hfirst, hrest⟩ := pairwise_cons.mp h
    refine pairwise_cons.mpr ⟨fun b' hb' => ?_, ih hrest⟩
    obtain ⟨b, hb, heq⟩ := exists_of_forall₂ htail hb'
    exact hrel _ _ _ _ hhead heq (hfirst b hb)

end

variable {codec : ScheduleCodec} {log : ScheduleLog} {op : ScheduleOp} {row row' : ScheduleRow}
  {schedule schedule' : WakeSchedule}

theorem settled_eq_ok {request : Settle} {wake : FrozenWake}
    (h : settled request schedule wake = .ok schedule') :
    ∃ nextAt nextCalendarDate, schedule.nextAt ≤ nextAt ∧ schedule' =
      { schedule with
        occurrence := some { wake with phase := request.phase }, nextAt, nextCalendarDate } := by
  unfold settled at h
  split at h
  · simp only [ok_iff] at h
    obtain ⟨-, ⟨-, hle⟩, -, -, rfl⟩ := h
    exact ⟨_, _, hle, rfl⟩
  · simp only [pure_eq_ok] at h
    exact ⟨_, _, le_rfl, h.symm⟩

/-- A payload is written by one call and read by the next. -/
theorem Change.canonical (hcodec : codec.Faithful) (h : Change codec op row schedule schedule' row')
    (hcanonical : Canonical codec schedule) : Canonical codec schedule' := by
  have hvalid : ∀ {after : WakeSchedule}, after.scheduleId = schedule.scheduleId →
      after.owner = schedule.owner → after.label = schedule.label →
      after.target = schedule.target → after.cadence = schedule.cadence →
      validateSchedule codec after = .ok () := by
    intro after hid howner hlabel htarget hcadence
    rw [validateSchedule, hid, howner, hlabel, htarget, hcadence]
    exact hcanonical.valid
  cases h with
  | cancel | advance => exact ⟨hvalid rfl rfl rfl rfl rfl, hcanonical.frozen⟩
  | freeze _ _ _ _ hfrozen =>
    refine ⟨hvalid rfl rfl rfl rfl rfl, fun wake hwake => ?_⟩
    cases hwake
    exact freezeCanonical_frozen hcodec hfrozen
  | @settle _ _ _ _ wake _ hwake _ _ hsettled =>
    obtain ⟨_, _, -, rfl⟩ := settled_eq_ok hsettled
    refine ⟨hvalid rfl rfl rfl rfl rfl, fun _ hnew => ?_⟩
    cases hnew
    obtain ⟨hvalid, bytes, hbytes, hfrozen⟩ :=
      freezeCanonical_eq_ok.mp (hcanonical.frozen wake hwake)
    have hsame : bytes = wake.canonicalBytes := by rw [← hfrozen]
    exact freezeCanonical_eq_ok.mpr ⟨hvalid, bytes, hbytes, by rw [hsame]⟩

namespace ScheduleLog

/-- A row holds the schedule of its payload, and that the last occurrence of the history. -/
structure Holds (codec : ScheduleCodec) (history : List Occurrence) (row : ScheduleRow)
    (schedule : WakeSchedule) : Prop where
  read : decode codec row.payload = .ok schedule
  nextAt : schedule.nextAt = row.nextAt
  cancelledAt : schedule.cancelledAt = row.cancelledAt
  occurrence : schedule.occurrence = (latest history row.scheduleId).map Occurrence.stored

structure Sound (codec : ScheduleCodec) (log : ScheduleLog) : Prop where
  rows : ∀ row ∈ log.schedules, ∃ schedule, Holds codec log.history row schedule
  finished : log.history.Pairwise fun later earlier =>
    later.scheduleId = earlier.scheduleId → terminal earlier.phase = true
  named : ∀ o ∈ log.history, o.wake.id = wakeId o.scheduleId o.wake.dueAt

theorem Created.sound (h : log.Created codec) (hcodec : codec.Faithful) : log.Sound codec where
  rows row hrow := by
    obtain ⟨hhistory, hcreated⟩ := h
    obtain ⟨schedule, hschedule⟩ := hcreated row hrow
    simp only [createdRow, bind_eq_ok, invariantOf_eq_ok, ensure_eq_ok, pure_eq_ok] at hschedule
    obtain ⟨⟨⟩, hvalid, -, ⟨hlive, hnone, -⟩, _, hwritten, rfl⟩ := hschedule
    refine ⟨schedule, ?_, rfl, hlive, ?_⟩
    · refine decode_encode hcodec hwritten ⟨hvalid, fun _ hwake => ?_⟩
      rw [hnone] at hwake
      cases hwake
    · rw [hhistory, hnone]
      rfl
  finished := by
    rw [h.1]
    exact .nil
  named o ho := by
    rw [h.1] at ho
    cases ho

variable {history : List Occurrence}

/-- The last occurrence of a schedule is under way exactly if its payload says so. -/
theorem Holds.idle (h : Holds codec history row schedule)
    (hidle : pendingOccurrence schedule = false) {o : Occurrence}
    (ho : latest history row.scheduleId = some o) : terminal o.phase = true := by
  rw [pendingOccurrence, h.occurrence, ho] at hidle
  simpa [Occurrence.stored] using hidle

variable {schedules : ScheduleTable} {e : Occurrence} {id : String}

/-- The history of other schedules is not touched. -/
theorem latest_record_other (hid : id ≠ op.id) :
    latest (record codec history op) id = latest history id := by
  cases op with
  | cancel => rfl
  | advance => rfl
  | freeze request =>
    have hne : request.id ≠ id := fun h => hid h.symm
    cases hfrozen : freezeCanonical codec.toVec request.wake with
    | ok => simp [record, hfrozen, latest, hne]
    | error => simp [record, hfrozen]
  | settle request =>
    have hne : id ≠ request.id := hid
    simp [record, latest_settleLatest, hne]

/-- A new occurrence is due at or after the time that was expected, and before the next one. -/
structure Freezes (id : String) (row row' : ScheduleRow) (schedule : WakeSchedule)
    (o : Occurrence) : Prop where
  scheduleId : o.scheduleId = id
  named : o.wake.id = wakeId id o.wake.dueAt
  due : row.nextAt ≤ o.wake.dueAt
  next : o.wake.dueAt < row'.nextAt
  idle : pendingOccurrence schedule = false

/-- Due times increase, and the next one is always ahead of the last. -/
structure Ordered (log : ScheduleLog) : Prop where
  increasing : log.history.Pairwise fun later earlier =>
    later.scheduleId = earlier.scheduleId → earlier.wake.dueAt < later.wake.dueAt
  ahead : ∀ row ∈ log.schedules, ∀ o ∈ log.history, o.scheduleId = row.scheduleId →
    o.wake.dueAt < row.nextAt

section

variable (h : log.Sound codec)
  (hrewrites : Rewrites codec op log.schedules schedules row schedule schedule' row')

include h hrewrites

theorem Sound.holds : Holds codec log.history row schedule := by
  obtain ⟨_, hholds⟩ := h.rows row hrewrites.mem
  cases hholds.read.symm.trans hrewrites.read
  exact hholds

/-- A call that takes effect changes phases as they may change, and adds at most one occurrence. -/
theorem record_evolves :
    ∃ fresh settled, record codec log.history op = fresh ++ settled ∧
      Forall₂ Occurrence.Evolves log.history settled ∧
      (fresh = [] ∨ ∃ o, fresh = [o] ∧ Freezes op.id row row' schedule o) := by
  have hoccurrence := (h.holds hrewrites).occurrence
  obtain ⟨-, hid, -, hchange, -, -⟩ := hrewrites
  cases hchange with
  | cancel | advance => exact ⟨[], _, rfl, evolves_refl _, .inl rfl⟩
  | @freeze request _ _ frozen _ _ hexpected hidle hfits hfrozen =>
    refine ⟨[⟨request.id, frozen, .prepared⟩], log.history, ?_, evolves_refl _, .inr ⟨_, rfl, ?_⟩⟩
    · simp [record, hfrozen]
    · obtain ⟨-, _, -, rfl⟩ := freezeCanonical_eq_ok.mp hfrozen
      obtain ⟨-, -, -, -, -, -, hdue, hnext, -, hname⟩ := hfits
      exact ⟨rfl, hname, hexpected ▸ hdue, hnext, hidle⟩
  | @settle request _ _ _ wake _ hwake hopen hphase =>
    refine ⟨[], _, rfl, evolves_settleLatest fun o ho => ?_, .inl rfl⟩
    have hsame : wake = o.stored := by
      have hid : row.scheduleId = request.id := hid
      rw [hwake, hid, ho] at hoccurrence
      cases hoccurrence
      rfl
    subst hsame
    refine ⟨rfl, rfl, fun hterminal => ?_, fun hdispatching => ?_⟩
    · rw [show terminal o.phase = false from hopen] at hterminal
      cases hterminal
    · exact .inr (hphase hdispatching)

theorem mem_record {o' : Occurrence} (ho' : o' ∈ record codec log.history op) :
    Freezes op.id row row' schedule o' ∨ ∃ o ∈ log.history, o.Evolves o' := by
  obtain ⟨_, _, hrecord, hevolves, hfresh⟩ := record_evolves h hrewrites
  rw [hrecord] at ho'
  rcases mem_append.mp ho' with hnew | hold
  · rcases hfresh with rfl | ⟨_, rfl, hfreezes⟩
    · cases hnew
    · obtain rfl := mem_singleton.mp hnew
      exact .inl hfreezes
  · exact .inr (exists_of_forall₂ hevolves hold)

theorem pairwise_record {R : Occurrence → Occurrence → Prop} (hpairs : log.history.Pairwise R)
    (hkeeps : ∀ a b a' b', a.Evolves a' → b.Evolves b' → R a b → R a' b')
    (hnew : ∀ o, Freezes op.id row row' schedule o → ∀ e ∈ log.history, ∀ e', e.Evolves e' →
      R o e') : (record codec log.history op).Pairwise R := by
  obtain ⟨_, _, hrecord, hevolves, hfresh⟩ := record_evolves h hrewrites
  have hsettled := pairwise_of_evolves hkeeps hevolves hpairs
  rw [hrecord]
  rcases hfresh with rfl | ⟨o, rfl, hfreezes⟩
  · exact hsettled
  · refine pairwise_cons.mpr ⟨fun e' he' => ?_, hsettled⟩
    obtain ⟨e, he, heq⟩ := exists_of_forall₂ hevolves he'
    exact hnew o hfreezes e he e' heq

/-- The row that is rewritten holds what the call has computed. -/
theorem Sound.rewritten (hcodec : codec.Faithful) :
    Holds codec (record codec log.history op) row' schedule' := by
  have h := h.holds hrewrites
  obtain ⟨-, hid, hread, hchange, hwritten, -⟩ := hrewrites
  have hread' : decode codec row'.payload = .ok schedule' :=
    decode_encode hcodec hwritten (hchange.canonical hcodec (decode_canonical hcodec hread))
  cases hchange with
  | cancel => exact ⟨hread', h.nextAt, rfl, h.occurrence⟩
  | advance => exact ⟨hread', rfl, h.cancelledAt, h.occurrence⟩
  | @freeze request _ _ _ _ _ _ _ hfits hfrozen =>
    refine ⟨hread', rfl, h.cancelledAt, ?_⟩
    obtain ⟨-, _, -, rfl⟩ := freezeCanonical_eq_ok.mp hfrozen
    have hid : row.scheduleId = request.id := hid
    have hphase : request.wake.phase = .prepared := hfits.2.2.2.2.2.2.2.2.1
    simp only [record, hfrozen, latest, hid, find?_cons, decide_true, map_some,
      Occurrence.stored, some.injEq]
    rw [← hphase]
  | @settle request _ _ _ _ _ hwake _ _ hsettled =>
    obtain ⟨_, _, -, rfl⟩ := settled_eq_ok hsettled
    refine ⟨hread', rfl, h.cancelledAt, ?_⟩
    have hid : row.scheduleId = request.id := hid
    have hstored := h.occurrence
    rw [hwake] at hstored
    obtain ⟨_, ho, rfl⟩ := map_eq_some_iff.mp hstored.symm
    rw [hid] at ho
    simp only [record, latest_settleLatest, ho, map_some, hid, if_true]
    rfl

theorem Sound.rewrite (hcodec : codec.Faithful) :
    Sound codec ⟨schedules, record codec log.history op⟩ := by
  refine ⟨?_, ?_, ?_⟩
  · intro r hr
    rcases (hrewrites.rows r).mp hr with rfl | ⟨hne, hr⟩
    · exact ⟨schedule', h.rewritten hrewrites hcodec⟩
    have hother : r.scheduleId ≠ op.id := by
      rw [← hrewrites.id]
      exact fun hsame => hne (Table.eq_of_conflicts hr hrewrites.mem hsame)
    obtain ⟨known, hread, hnext, hcancelled, hoccurrence⟩ := h.rows r hr
    exact ⟨known, hread, hnext, hcancelled, by rw [latest_record_other hother, hoccurrence]⟩
  · refine pairwise_record h hrewrites h.finished ?_ ?_
    · intro _ _ _ _ ha hb hrel hid
      have hterminal := hrel (by rw [← ha.scheduleId, ← hb.scheduleId, hid])
      rwa [hb.terminal hterminal]
    intro o hfreezes e he _ heq hid
    have hsame : e.scheduleId = row.scheduleId := by
      rw [hrewrites.id, ← hfreezes.scheduleId, hid, heq.scheduleId]
    obtain ⟨_, ho⟩ := exists_latest he hsame
    have hterminal : terminal e.phase = true := by
      rcases eq_or_earlier h.finished ho he hsame with rfl | hearlier
      · exact (h.holds hrewrites).idle hfreezes.idle ho
      · exact hearlier ((latest_eq_some ho).2.trans hsame.symm)
    rwa [heq.terminal hterminal]
  · intro _ ho'
    rcases mem_record h hrewrites ho' with hfreezes | ⟨o, ho, heq⟩
    · rw [hfreezes.scheduleId]
      exact hfreezes.named
    · rw [heq.wake, heq.scheduleId]
      exact h.named o ho

/-- Whatever the call does, the next due time stays ahead of the occurrences so far. -/
theorem Ordered.next (hordered : log.Ordered) (hontime : log.OnTime op) (he : e ∈ log.history)
    (hid : e.scheduleId = row.scheduleId) : e.wake.dueAt < row'.nextAt := by
  have hholds := h.holds hrewrites
  have hahead := hordered.ahead row hrewrites.mem e he hid
  have hop := hrewrites.id
  cases hrewrites.change with
  | cancel => exact hahead
  | @advance request _ _ _ hlater =>
    obtain ⟨o, ho⟩ := exists_latest he (hid.trans hop)
    have hdue : o.wake.dueAt ≤ request.now := hontime o ho
    have hle : e.wake.dueAt ≤ o.wake.dueAt := by
      rcases eq_or_earlier hordered.increasing ho he (hid.trans hop) with rfl | hearlier
      · exact le_rfl
      · exact (hearlier ((latest_eq_some ho).2.trans (hid.trans hop).symm)).le
    exact (hle.trans hdue).trans_lt hlater
  | freeze _ hexpected _ hfits =>
    obtain ⟨-, -, -, -, -, -, hdue, hnext, -, -⟩ := hfits
    exact (hahead.trans_le (hexpected ▸ hdue)).trans hnext
  | settle _ _ _ hsettled =>
    obtain ⟨_, _, hle, rfl⟩ := settled_eq_ok hsettled
    exact hahead.trans_le (hholds.nextAt ▸ hle)

theorem Ordered.rewrite (hordered : log.Ordered) (hontime : log.OnTime op) :
    Ordered ⟨schedules, record codec log.history op⟩ := by
  refine ⟨?_, ?_⟩
  · refine pairwise_record h hrewrites hordered.increasing ?_ ?_
    · intro _ _ _ _ ha hb hrel hid
      rw [ha.wake, hb.wake]
      exact hrel (by rw [← ha.scheduleId, ← hb.scheduleId, hid])
    · intro o hfreezes e he _ heq hid
      rw [heq.wake]
      refine (hordered.ahead row hrewrites.mem e he ?_).trans_le hfreezes.due
      rw [hrewrites.id, ← hfreezes.scheduleId, hid, heq.scheduleId]
  · intro r hr _ ho' hid
    have hrowId : row'.scheduleId = row.scheduleId := by
      cases hrewrites.change <;> rfl
    rcases (hrewrites.rows r).mp hr with rfl | ⟨hne, hr⟩
    · rcases mem_record h hrewrites ho' with hfreezes | ⟨_, ho, heq⟩
      · exact hfreezes.next
      · rw [heq.wake]
        exact hordered.next h hrewrites hontime ho (heq.scheduleId.symm.trans (hid.trans hrowId))
    have hother : r.scheduleId ≠ row.scheduleId :=
      fun hsame => hne (Table.eq_of_conflicts hr hrewrites.mem hsame)
    rcases mem_record h hrewrites ho' with hfreezes | ⟨o, ho, heq⟩
    · rw [hfreezes.scheduleId, ← hrewrites.id] at hid
      exact absurd hid.symm hother
    · rw [heq.wake]
      exact hordered.ahead r hr o ho (heq.scheduleId.symm.trans hid)

end

/-- A call leaves everything as it is, or it rewrites one row and is recorded. -/
theorem step_cases (codec : ScheduleCodec) (log : ScheduleLog) (op : ScheduleOp) :
    log.step codec op = log ∨ ∃ schedules row schedule schedule' row',
      Rewrites codec op log.schedules schedules row schedule schedule' row' ∧
      exec codec log.schedules op = .ok (true, schedules) ∧
      log.step codec op = ⟨schedules, record codec log.history op⟩ := by
  unfold step
  cases hexec : exec codec log.schedules op with
  | error => exact .inl rfl
  | ok result =>
    obtain ⟨_, _⟩ := result
    cases exec_cases hexec with
    | same => exact .inl rfl
    | rewrites hrewrites => exact .inr ⟨_, _, _, _, _, hrewrites, rfl, rfl⟩

theorem Sound.step (h : log.Sound codec) (hcodec : codec.Faithful) :
    (log.step codec op).Sound codec := by
  rcases step_cases codec log op with hsame | ⟨_, _, _, _, _, hrewrites, -, hstep⟩
  · rwa [hsame]
  · rw [hstep]
    exact h.rewrite hrewrites hcodec

theorem Ordered.step (h : log.Ordered) (hsound : log.Sound codec) (hontime : log.OnTime op) :
    (log.step codec op).Ordered := by
  rcases step_cases codec log op with hsame | ⟨_, _, _, _, _, hrewrites, -, hstep⟩
  · rwa [hsame]
  · rw [hstep]
    exact h.rewrite hsound hrewrites hontime

theorem Sound.evolves (h : log.Sound codec) (op : ScheduleOp) :
    ∃ fresh settled, (log.step codec op).history = fresh ++ settled ∧ fresh.length ≤ 1 ∧
      Forall₂ Occurrence.Evolves log.history settled := by
  rcases step_cases codec log op with hsame | ⟨_, _, _, _, _, hrewrites, -, hstep⟩
  · exact ⟨[], log.history, by rw [hsame]; rfl, Nat.zero_le _, evolves_refl _⟩
  obtain ⟨fresh, settled, hrecord, hevolves, hfresh⟩ := record_evolves h hrewrites
  refine ⟨fresh, settled, by rw [hstep, hrecord], ?_, hevolves⟩
  rcases hfresh with rfl | ⟨_, rfl, -⟩
  · exact Nat.zero_le _
  · exact le_rfl

theorem Sound.one_open (h : log.Sound codec) (id : String) :
    (log.history.filter fun o => o.scheduleId = id ∧ terminal o.phase = false).length ≤ 1 := by
  have hpairwise := h.finished.filter fun o => o.scheduleId = id ∧ terminal o.phase = false
  generalize hopen : (log.history.filter fun o => o.scheduleId = id ∧ terminal o.phase = false) =
    openOnes at hpairwise
  have hall : ∀ o ∈ openOnes, o.scheduleId = id ∧ terminal o.phase = false := by
    intro o ho
    rw [← hopen, mem_filter] at ho
    exact of_decide_eq_true ho.2
  match openOnes, hpairwise, hall with
  | [], _, _ => exact Nat.zero_le _
  | [_], _, _ => exact le_rfl
  | later :: earlier :: rest, hpairwise, hall =>
    have hlater := hall later mem_cons_self
    have hearlier := hall earlier (mem_cons_of_mem _ mem_cons_self)
    have hterminal := (pairwise_cons.mp hpairwise).1 earlier mem_cons_self
      (hlater.1.trans hearlier.1.symm)
    rw [hearlier.2] at hterminal
    cases hterminal

end ScheduleLog

/-- Scheduled wakes fire at most once for each due time, if the calendar is never advanced at a
time before the last due time. -/
theorem scheduled_wakes_fire_once {codec : ScheduleCodec} (hcodec : codec.Faithful)
    {start log : ScheduleLog} {ops : List ScheduleOp} (hstart : start.Created codec)
    (hrun : Runs (ScheduleLog.step codec) start ops log) :
    (∀ id, (log.history.filter fun o => o.scheduleId = id ∧ terminal o.phase = false).length ≤ 1) ∧
    (∀ op, ∃ fresh settled, (log.step codec op).history = fresh ++ settled ∧ fresh.length ≤ 1 ∧
      Forall₂ Occurrence.Evolves log.history settled) ∧
    (∀ row ∈ log.schedules, ∃ schedule, decode codec row.payload = .ok schedule ∧
      schedule.nextAt = row.nextAt ∧ schedule.cancelledAt = row.cancelledAt ∧
      schedule.occurrence = (latest log.history row.scheduleId).map Occurrence.stored) ∧
    (∀ row ∈ log.schedules, row.cancelledAt.isSome → ∀ op,
      (op.id = row.scheduleId →
        (∀ request, op = .advance request →
          exec codec log.schedules op = .ok (false, log.schedules)) ∧
        ∀ request, op = .freeze request →
          exec codec log.schedules op = .ok (false, log.schedules)) ∧
      ∃ row' ∈ (log.step codec op).schedules,
        row'.scheduleId = row.scheduleId ∧ row'.cancelledAt.isSome) ∧
    (∀ op, (∀ schedules, exec codec log.schedules op ≠ .ok (true, schedules)) →
      log.step codec op = log) ∧
    (Run (ScheduleLog.step codec) ScheduleLog.OnTime start ops log →
      (log.history.Pairwise fun later earlier => later.scheduleId = earlier.scheduleId →
        earlier.wake.dueAt < later.wake.dueAt ∧ earlier.wake.id ≠ later.wake.id) ∧
      ∀ row ∈ log.schedules, ∀ schedule wake, decode codec row.payload = .ok schedule →
        schedule.occurrence = some wake → wake.dueAt < row.nextAt) := by
  have hsound : log.Sound codec :=
    hrun.invariant (ScheduleLog.Sound codec) (fun _ _ h _ => h.step hcodec) (hstart.sound hcodec)
  refine ⟨hsound.one_open, hsound.evolves, ?_, ?_, ?_, ?_⟩
  · intro row hrow
    obtain ⟨schedule, hholds⟩ := hsound.rows row hrow
    exact ⟨schedule, hholds.read, hholds.nextAt, hholds.cancelledAt, hholds.occurrence⟩
  · intro row hrow hcancelled op
    refine ⟨fun hop => ?_, ?_⟩
    rotate_left
    · rcases step_cases codec log op with hsame | ⟨_, row₀, _, _, row', hrewrites, -, hstep⟩
      · rw [hsame]
        exact ⟨row, hrow, rfl, hcancelled⟩
      rw [hstep]
      by_cases heq : row = row₀
      · subst heq
        refine ⟨row', (hrewrites.rows row').mpr (.inl rfl), ?_⟩
        cases hrewrites.change with
        | cancel => exact ⟨rfl, rfl⟩
        | advance | freeze | settle => exact ⟨rfl, hcancelled⟩
      · exact ⟨row, (hrewrites.rows row).mpr (.inr ⟨heq, hrow⟩), rfl, hcancelled⟩
    have hnone : ∀ expectedNextAt, loadLive log.schedules row.scheduleId expectedNextAt = none := by
      intro expectedNextAt
      apply Table.find?_eq_none.mpr
      intro _ hr
      apply decide_eq_false
      rintro ⟨hid, -, hlive⟩
      cases Table.eq_of_conflicts hr hrow hid
      rw [hlive] at hcancelled
      cases hcancelled
    constructor
    · rintro request rfl
      have hid : request.id = row.scheduleId := hop
      rw [exec, advanceWakeCalendar, hid, hnone]
      split <;> rfl
    · rintro request rfl
      have hid : request.id = row.scheduleId := hop
      rw [exec, freezeWakeOccurrence, hid, hnone]
      split <;> rfl
  · intro op hrefused
    rcases step_cases codec log op with hsame | ⟨schedules, _, _, _, _, -, hexec, -⟩
    · exact hsame
    · exact absurd hexec (hrefused schedules)
  · intro hontime
    have hordered : log.Sound codec ∧ log.Ordered := by
      refine hontime.invariant (fun log => log.Sound codec ∧ log.Ordered) ?_ ?_
      · intro log op h hop
        exact ⟨h.1.step hcodec, h.2.step h.1 hop⟩
      refine ⟨hstart.sound hcodec, ?_, ?_⟩
      · rw [hstart.1]
        exact .nil
      · rw [hstart.1]
        exact fun _ _ _ ho => absurd ho not_mem_nil
    refine ⟨?_, ?_⟩
    · refine hordered.2.increasing.imp_of_mem ?_
      intro later earlier hlater hearlier hlt hid
      refine ⟨hlt hid, ?_⟩
      rw [hsound.named _ hlater, hsound.named _ hearlier, hid]
      intro heq
      unfold wakeId at heq
      rw [String.append_right_inj] at heq
      exact (hlt hid).ne (toString_int_injective heq)
    · intro row hrow schedule wake hread hwake
      obtain ⟨_, hknown, -, -, hoccurrence⟩ := hsound.rows row hrow
      cases hknown.symm.trans hread
      rw [hwake] at hoccurrence
      obtain ⟨o, ho, rfl⟩ := map_eq_some_iff.mp hoccurrence.symm
      obtain ⟨hmem, hid⟩ := latest_eq_some ho
      exact hordered.2.ahead row hrow o hmem hid

def quoted (text : String) : String := "\"" ++ text ++ "\""

def optionText {α : Type} (show' : α → String) : Option α → String
  | none => "null"
  | some value => show' value

def phaseText : WakePhase → String
  | .prepared => "prepared"
  | .deferred => "deferred"
  | .dispatchingAgent => "dispatching_agent"
  | .committedThread => "committed_thread"
  | .confirmed => "confirmed"
  | .outcomeUnknown => "outcome_unknown"
  | .missedBeforeDeparture => "missed_before_departure"
  | .ownerUnavailable => "owner_unavailable"

/-- The JSON text of a wake that its owner, without a project, has scheduled for itself. -/
def minuteWakeText (wake : FrozenWake) : String :=
  "\x7b\"version\":" ++ toString wake.version ++ ",\"source\":\"scheduled\"," ++
    "\"target\":\x7b\"kind\":\"self\"\x7d,\"owner\":" ++ quoted wake.owner ++
    ",\"owner_project\":null,\"owner_native\":null,\"due_at\":" ++ toString wake.dueAt ++
    ",\"issued_at\":" ++ toString wake.issuedAt ++ ",\"grace_until\":" ++
    toString wake.graceUntil ++ ",\"id\":" ++ quoted wake.id ++ ",\"label\":" ++
    quoted wake.label ++ ",\"body\":" ++ quoted wake.body ++ ",\"thread_operation_id\":null" ++
    ",\"delivery_id\":" ++ optionText quoted wake.deliveryId ++ ",\"phase\":" ++
    quoted (phaseText wake.phase) ++ "\x7d"

/-- The JSON text of a schedule of such wakes, by the minute. -/
def minuteText (schedule : WakeSchedule) : String :=
  "\x7b\"schedule_id\":" ++ quoted schedule.scheduleId ++ ",\"owner\":" ++
    quoted schedule.owner ++ ",\"owner_project\":null,\"owner_native\":null," ++
    "\"target\":\x7b\"kind\":\"self\"\x7d,\"cadence\":\x7b\"kind\":\"interval\"," ++
    "\"seconds\":60\x7d,\"label\":" ++ quoted schedule.label ++ ",\"anchor_at\":" ++
    toString schedule.anchorAt ++ ",\"next_at\":" ++ toString schedule.nextAt ++
    ",\"timezone\":" ++ quoted schedule.timezone ++ ",\"next_calendar_date\":null," ++
    "\"previous_calendar_date\":null,\"occurrence\":" ++
    optionText minuteWakeText schedule.occurrence ++ ",\"cancelled_at\":" ++
    optionText toString schedule.cancelledAt ++ "\x7d"

def minuteId : String := "3f2504e0-4f89-41d3-9a0c-0305e82c3301"

def minuteSchedule : WakeSchedule :=
  { scheduleId := minuteId, owner := "ann", ownerProject := none, ownerNative := none
    target := .selfTarget, cadence := .interval 60, label := "", anchorAt := 0, nextAt := 60
    timezone := "UTC:0", nextCalendarDate := none, previousCalendarDate := none
    occurrence := none, cancelledAt := none }

def minuteWake (dueAt : Int) : FrozenWake :=
  { version := 1, source := .scheduled, target := .selfTarget, owner := "ann"
    ownerProject := none, ownerNative := none, dueAt, issuedAt := dueAt, graceUntil := dueAt + 600
    id := wakeId minuteId dueAt, label := "", body := "wake", canonicalBytes := []
    threadOperationId := none, deliveryId := none, phase := .prepared }

def minuteSchedules : List WakeSchedule :=
  [minuteSchedule, { minuteSchedule with occurrence := some (minuteWake 60), nextAt := 120 },
    { minuteSchedule with
      occurrence := some { minuteWake 60 with phase := .confirmed }, nextAt := 120 },
    { minuteSchedule with occurrence := some (minuteWake 120), nextAt := 180 },
    { minuteSchedule with
      occurrence := some { minuteWake 60 with phase := .confirmed }, nextAt := 30 }]

def readMinute (text : String) : Option WakeSchedule :=
  minuteSchedules.find? fun schedule => minuteText schedule = text

def minuteCodec : ScheduleCodec where
  toText schedule :=
    if schedule.skipBytes ∈ minuteSchedules then some (minuteText schedule.skipBytes) else none
  fromText := readMinute
  toVec wake := some (utf8 (minuteWakeText wake))
  uuidParses id := id = minuteId
  canonicalUuid id := if id = minuteId then some id else none

theorem minuteCodec_faithful : minuteCodec.Faithful where
  reads schedule text h := by
    obtain ⟨hknown, htext⟩ := ite_none_right_eq_some.mp h
    have hread :
        ∀ schedule ∈ minuteSchedules, readMinute (minuteText schedule) = some schedule := by
      decide +kernel
    have hread := hread _ hknown
    rw [some.inj htext] at hread
    exact hread
  skips wake := rfl

def minuteRow : ScheduleRow := ⟨minuteId, "ann", 60, none, minuteText minuteSchedule⟩

def minuteLog : ScheduleLog := ⟨⟨[minuteRow], pairwise_singleton _ _⟩, []⟩

theorem minuteLog_created : minuteLog.Created minuteCodec := by
  refine ⟨rfl, fun row hrow => ⟨minuteSchedule, ?_⟩⟩
  have hrow : row = minuteRow := mem_singleton.mp hrow
  subst hrow
  decide +kernel

def freezeMinute (expectedNextAt dueAt nextAt : Int) : ScheduleOp :=
  .freeze ⟨minuteId, expectedNextAt, "UTC:0", "UTC:0", minuteWake dueAt, nextAt, none, none⟩

def settleMinute (dueAt nextAt : Int) : ScheduleOp :=
  .settle ⟨minuteId, wakeId minuteId dueAt, .confirmed, nextAt, none⟩

def minuteOps : List ScheduleOp := [freezeMinute 60 60 120, settleMinute 60 120,
  freezeMinute 120 120 180]

/-- A wake each minute, for two minutes. -/
theorem two_minutes_have_two_wakes :
    let log := minuteOps.foldl (ScheduleLog.step minuteCodec) minuteLog
    log.history.map (fun o => o.wake.dueAt) = [120, 60] ∧
      log.history.Pairwise fun later earlier => later.scheduleId = earlier.scheduleId →
        earlier.wake.dueAt < later.wake.dueAt ∧ earlier.wake.id ≠ later.wake.id := by
  have hontime : Run (step minuteCodec) ScheduleLog.OnTime minuteLog minuteOps
      (minuteOps.foldl (step minuteCodec) minuteLog) :=
    Run.of_allows (by decide +kernel)
  have hall := scheduled_wakes_fire_once minuteCodec_faithful minuteLog_created
    (hontime.mono fun _ _ _ => trivial)
  exact ⟨by decide +kernel, (hall.2.2.2.2.2 hontime).1⟩

/-- The calendar is advanced at a time before the last due time. -/
def backwardOps : List ScheduleOp := [freezeMinute 60 60 120, settleMinute 60 120,
  .advance ⟨minuteId, 120, "UTC:0", "UTC:0", 30, none, 0⟩]

/-- An advance sets the next instant back behind the wake that was frozen last. -/
theorem calendar_goes_back :
    minuteCodec.Faithful ∧ minuteLog.Created minuteCodec ∧
      Runs (ScheduleLog.step minuteCodec) minuteLog backwardOps
        (backwardOps.foldl (ScheduleLog.step minuteCodec) minuteLog) ∧
      ∃ row ∈ (backwardOps.foldl (ScheduleLog.step minuteCodec) minuteLog).schedules.rows,
        row.nextAt = 30 ∧ ((decode minuteCodec row.payload).toOption.bind
          WakeSchedule.occurrence).map FrozenWake.dueAt = some 60 := by
  refine ⟨minuteCodec_faithful, minuteLog_created, ?_, by decide +kernel⟩
  have hrun : Runs (step minuteCodec) minuteLog backwardOps _ := Run.of_allows (by decide +kernel)
  exact hrun

end Bridget.Schedules
