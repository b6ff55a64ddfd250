import Bridget.Schedules.Store

/-!
# What the calls on schedules change

A call that returns `true` rewrites one row, and the payload that it writes is read back as the
schedule that it has computed. Every other call leaves the table alone.
-/

namespace Bridget.Schedules

open Foundation Table
open Bridget.Idempotency (WakePhase FrozenWake freezeCanonical)
open Bridget.Threads (StoreError sqlite sqlite_eq_ok)

variable {codec : ScheduleCodec} {wake frozen : FrozenWake} {schedule schedule' : WakeSchedule}
  {payload : String}

theorem invariantOf_eq_ok {α : Type} {x : Except String α} {a : α} :
    invariantOf x = .ok a ↔ x = .ok a := mapError_eq_ok

theorem freezeCanonical_eq_ok : freezeCanonical codec.toVec wake = .ok frozen ↔
    (wake.version = 1 ∧ wake.label.utf8ByteSize ≤ 2048 ∧
      wake.graceUntil = saturatingAdd wake.dueAt 600) ∧
    ∃ bytes, codec.toVec { wake with phase := .prepared, deliveryId := none } = some bytes ∧
      { wake with canonicalBytes := bytes } = frozen := by
  simp only [freezeCanonical, ok_iff]
  constructor
  · rintro ⟨_, hvalid, bytes, hbytes, rfl⟩
    exact ⟨hvalid, bytes, hbytes, rfl⟩
  · rintro ⟨hvalid, bytes, hbytes, rfl⟩
    exact ⟨(), hvalid, bytes, hbytes, rfl⟩

/-- The canonical bytes that a wake carries already have no part in those that it is given. -/
theorem freezeCanonical_skipBytes (hcodec : codec.Faithful) (wake : FrozenWake) :
    freezeCanonical codec.toVec wake.skipBytes = freezeCanonical codec.toVec wake := by
  have hvec : codec.toVec { wake.skipBytes with phase := .prepared, deliveryId := none } =
      codec.toVec { wake with phase := .prepared, deliveryId := none } :=
    hcodec.skips { wake with phase := .prepared, deliveryId := none }
  rw [freezeCanonical, hvec]
  rfl

theorem freezeCanonical_frozen (hcodec : codec.Faithful)
    (h : freezeCanonical codec.toVec wake = .ok frozen) :
    freezeCanonical codec.toVec frozen = .ok frozen := by
  obtain ⟨-, _, -, rfl⟩ := freezeCanonical_eq_ok.mp h
  rw [← freezeCanonical_skipBytes hcodec] at h ⊢
  exact h

structure Canonical (codec : ScheduleCodec) (schedule : WakeSchedule) : Prop where
  valid : validateSchedule codec schedule = .ok ()
  frozen : ∀ wake, schedule.occurrence = some wake → freezeCanonical codec.toVec wake = .ok wake

theorem decode_canonical (hcodec : codec.Faithful) (h : decode codec payload = .ok schedule) :
    Canonical codec schedule := by
  simp only [decode, ok_iff, invariantOf_eq_ok] at h
  obtain ⟨_, -, ⟨⟩, hvalid, h⟩ := h
  split at h
  next hnone =>
    simp only [pure_eq_ok] at h
    subst h
    exact ⟨hvalid, fun wake hwake => by rw [hnone] at hwake; cases hwake⟩
  rename_i wake hwake
  simp only [ok_iff, invariantOf_eq_ok] at h
  obtain ⟨_, hfrozen, rfl⟩ := h
  refine ⟨hvalid, fun wake hwake => ?_⟩
  cases hwake
  exact freezeCanonical_frozen hcodec hfrozen

theorem decode_encode (hcodec : codec.Faithful) (h : encode codec schedule = .ok payload)
    (hcanonical : Canonical codec schedule) : decode codec payload = .ok schedule := by
  have hread := hcodec.reads schedule payload (orError_eq_ok.mp h)
  simp only [decode, ok_iff, invariantOf_eq_ok]
  refine ⟨schedule.skipBytes, hread, (), hcanonical.valid, ?_⟩
  cases hoccurrence : schedule.occurrence with
  | none =>
    have hsame : schedule.skipBytes = schedule := by
      cases schedule
      subst hoccurrence
      rfl
    rw [hsame, hoccurrence]
    rfl
  | some wake =>
    have hskipped : schedule.skipBytes.occurrence = some wake.skipBytes := by
      rw [WakeSchedule.skipBytes, hoccurrence]
      rfl
    rw [hskipped]
    simp only [ok_iff, invariantOf_eq_ok]
    refine ⟨wake, ?_, ?_⟩
    · rw [freezeCanonical_skipBytes hcodec]
      exact hcanonical.frozen wake hoccurrence
    · cases schedule
      subst hoccurrence
      rfl

variable {t t' : ScheduleTable} {row row' : ScheduleRow} {op : ScheduleOp} {changed : Bool}
  {expectedNextAt : Int}

def ScheduleOp.id : ScheduleOp → String
  | .cancel request | .advance request | .freeze request | .settle request => request.id

/-- What a call that takes effect makes of a schedule and of its row. -/
inductive Change (codec : ScheduleCodec) :
    ScheduleOp → ScheduleRow → WakeSchedule → WakeSchedule → ScheduleRow → Prop
  | cancel {request : Cancel} {row : ScheduleRow} {schedule : WakeSchedule} {payload : String}
      (hlive : schedule.cancelledAt = none) :
      Change codec (.cancel request) row schedule
        { schedule with cancelledAt := some request.now }
        { row with cancelledAt := some request.now, payload }
  | advance {request : Advance} {row : ScheduleRow} {schedule : WakeSchedule} {payload : String}
      (hlater : request.now < request.nextAt) (hlive : row.cancelledAt = none)
      (hidle : pendingOccurrence schedule = false) :
      Change codec (.advance request) row schedule
        { schedule with
          nextAt := request.nextAt
          nextCalendarDate := request.nextCalendarDate
          timezone := request.currentTz }
        { row with nextAt := request.nextAt, payload }
  | freeze {request : Freeze} {row : ScheduleRow} {schedule : WakeSchedule} {frozen : FrozenWake}
      {payload : String} (hlive : row.cancelledAt = none)
      (hexpected : row.nextAt = request.expectedNextAt)
      (hidle : pendingOccurrence schedule = false) (hfits : request.Fits schedule)
      (hfrozen : freezeCanonical codec.toVec request.wake = .ok frozen) :
      Change codec (.freeze request) row schedule
        { schedule with
          occurrence := some frozen
          nextAt := request.nextAt
          nextCalendarDate := request.nextCalendarDate
          timezone := request.currentTz
          previousCalendarDate := request.calendarDate.or schedule.previousCalendarDate }
        { row with nextAt := request.nextAt, payload }
  | settle {request : Settle} {row : ScheduleRow} {schedule schedule' : WakeSchedule}
      {wake : FrozenWake} {payload : String} (hwake : schedule.occurrence = some wake)
      (hopen : terminal wake.phase = false)
      (hphase : wake.phase = .dispatchingAgent →
        request.phase = .confirmed ∨ request.phase = .outcomeUnknown)
      (hsettled : settled request schedule wake = .ok schedule') :
      Change codec (.settle request) row schedule schedule'
        { row with nextAt := schedule'.nextAt, payload }

/-- A row of the schedule is rewritten, together with its payload. -/
structure Rewrites (codec : ScheduleCodec) (op : ScheduleOp) (t t' : ScheduleTable)
    (row : ScheduleRow) (schedule schedule' : WakeSchedule) (row' : ScheduleRow) : Prop where
  mem : row ∈ t
  id : row.scheduleId = op.id
  read : decode codec row.payload = .ok schedule
  change : Change codec op row schedule schedule' row'
  written : encode codec schedule' = .ok row'.payload
  rows : ∀ r, r ∈ t' ↔ r = row' ∨ r ≠ row ∧ r ∈ t

/-- A call returns `false` and leaves the table as it is, or it rewrites one row. -/
inductive Returns (codec : ScheduleCodec) (op : ScheduleOp) (t : ScheduleTable) :
    Bool → ScheduleTable → Prop
  | same : Returns codec op t false t
  | rewrites {t' : ScheduleTable} {row row' : ScheduleRow} {schedule schedule' : WakeSchedule}
      (h : Rewrites codec op t t' row schedule schedule' row') : Returns codec op t true t'

theorem pinsKey_scheduleId (id : String) :
    PinsKey fun r : ScheduleRow => decide (r.scheduleId = id) :=
  pinsKey_field fun _ _ h => h

theorem loadRow_eq_some {id : String} :
    loadRow t id = some row ↔ row ∈ t ∧ row.scheduleId = id := by
  rw [loadRow, find?_eq_some (pinsKey_scheduleId id), decide_eq_true_eq]

theorem loadLive_eq_some {id : String} (h : loadLive t id expectedNextAt = some row) :
    row ∈ t ∧ row.scheduleId = id ∧ row.nextAt = expectedNextAt ∧ row.cancelledAt = none := by
  have hfound := find?_some h
  exact ⟨mem_of_find? h, of_decide_eq_true hfound⟩

theorem update_rows {id : String} {p : ScheduleRow → Bool} {f : ScheduleRow → ScheduleRow} {n : Nat}
    (hpins : ∀ r, p r = true → r.scheduleId = id) (hrow : row ∈ t) (hp : p row = true)
    (h : t.update p f = .ok (t', n)) : n = 1 ∧ ∀ r, r ∈ t' ↔ r = f row ∨ r ≠ row ∧ r ∈ t := by
  have hcount : t.count p = 1 :=
    count_eq_one (pinsKey_scheduleId id) (fun r hr => decide_eq_true (hpins r hr)) hrow hp
  rcases update_pinned (pinsKey_scheduleId id)
      (fun r hr => decide_eq_true (hpins r hr)) h with ⟨hzero, -⟩ | ⟨hone, row₀, hrow₀, hp₀, hrows⟩
  · rw [(Table.update_rows h).2, hcount] at hzero
    cases hzero
  · cases eq_of_conflicts hrow₀ hrow ((hpins _ hp₀).trans (hpins _ hp).symm)
    exact ⟨hone, hrows⟩

theorem updateLive_rows {id : String} {nextAt : Int} (hrow : row ∈ t) (hid : row.scheduleId = id)
    (hexpected : row.nextAt = expectedNextAt) (hlive : row.cancelledAt = none)
    (h : updateLive t id expectedNextAt nextAt payload = .ok (changed, t')) :
    changed = true ∧ ∀ r, r ∈ t' ↔ r = { row with nextAt, payload } ∨ r ≠ row ∧ r ∈ t := by
  simp only [updateLive, ok_iff, sqlite_eq_ok, pair_iff] at h
  obtain ⟨_, _, hupdate, rfl, rfl⟩ := h
  obtain ⟨rfl, hrows⟩ := update_rows (fun r hr => (of_decide_eq_true hr).1) hrow
    (decide_eq_true ⟨hid, hexpected, hlive⟩) hupdate
  exact ⟨rfl, hrows⟩

theorem cancelWakeSchedule_cases {request : Cancel}
    (h : cancelWakeSchedule codec t request = .ok (changed, t')) :
    Returns codec (.cancel request) t changed t' := by
  simp only [cancelWakeSchedule, ok_iff] at h
  obtain ⟨_, hload, _, hread, -, -, h⟩ := h
  obtain ⟨hrow, hid⟩ := loadRow_eq_some.mp hload
  split at h
  · cases h
    exact .same
  rename_i hlive
  simp only [ok_iff, sqlite_eq_ok, pair_iff] at h
  obtain ⟨_, hwritten, _, _, hupdate, rfl, rfl⟩ := h
  obtain ⟨-, hrows⟩ := update_rows (fun r hr => of_decide_eq_true hr) hrow
    (decide_eq_true hid) hupdate
  refine .rewrites ⟨hrow, hid, hread, .cancel ?_, hwritten, hrows⟩
  simpa using hlive

theorem advanceWakeCalendar_cases {request : Advance}
    (h : advanceWakeCalendar codec t request = .ok (changed, t')) :
    Returns codec (.advance request) t changed t' := by
  unfold advanceWakeCalendar at h
  split at h
  · cases h
    exact .same
  rename_i hguard
  push Not at hguard
  split at h
  · cases h
    exact .same
  rename_i hload
  obtain ⟨hrow, hid, hexpected, hlive⟩ := loadLive_eq_some hload
  simp only [bind_eq_ok] at h
  obtain ⟨_, hread, h⟩ := h
  split at h
  · cases h
    exact .same
  rename_i hidle
  simp only [bind_eq_ok] at h
  obtain ⟨-, -, _, hwritten, h⟩ := h
  obtain ⟨rfl, hrows⟩ := updateLive_rows hrow hid hexpected hlive h
  exact .rewrites ⟨hrow, hid, hread,
    .advance hguard.2 hlive (Bool.eq_false_of_not_eq_true hidle), hwritten, hrows⟩

theorem freezeWakeOccurrence_cases {request : Freeze}
    (h : freezeWakeOccurrence codec t request = .ok (changed, t')) :
    Returns codec (.freeze request) t changed t' := by
  unfold freezeWakeOccurrence at h
  split at h
  · cases h
    exact .same
  split at h
  · cases h
    exact .same
  rename_i hload
  obtain ⟨hrow, hid, hexpected, hlive⟩ := loadLive_eq_some hload
  simp only [bind_eq_ok] at h
  obtain ⟨_, hread, h⟩ := h
  split at h
  · cases h
    exact .same
  rename_i hidle
  simp only [ok_iff, invariantOf_eq_ok] at h
  obtain ⟨-, hfits, _, hfrozen, -, -, -, -, _, hwritten, h⟩ := h
  obtain ⟨rfl, hrows⟩ := updateLive_rows hrow hid hexpected hlive h
  exact .rewrites ⟨hrow, hid, hread,
    .freeze hlive hexpected (Bool.eq_false_of_not_eq_true hidle) hfits hfrozen, hwritten, hrows⟩

theorem settleWakeOccurrence_cases {request : Settle}
    (h : settleWakeOccurrence codec t request = .ok (changed, t')) :
    Returns codec (.settle request) t changed t' := by
  unfold settleWakeOccurrence at h
  split at h
  · cases h
    exact .same
  rename_i hload
  obtain ⟨hrow, hid⟩ := loadRow_eq_some.mp hload
  simp only [bind_eq_ok] at h
  obtain ⟨_, hread, h⟩ := h
  split at h
  · cases h
    exact .same
  rename_i hwake
  split at h
  · cases h
    exact .same
  rename_i hguard
  push Not at hguard
  simp only [ok_iff, sqlite_eq_ok, pair_iff] at h
  obtain ⟨-, ⟨-, hphase⟩, _, hsettled, _, hwritten, _, _, hupdate, rfl, rfl⟩ := h
  obtain ⟨-, hrows⟩ := update_rows (fun r hr => of_decide_eq_true hr) hrow
    (decide_eq_true hid) hupdate
  exact .rewrites ⟨hrow, hid, hread,
    .settle hwake (Bool.eq_false_of_not_eq_true hguard.2) hphase hsettled, hwritten, hrows⟩

theorem exec_cases (h : exec codec t op = .ok (changed, t')) : Returns codec op t changed t' := by
  cases op with
  | cancel => exact cancelWakeSchedule_cases h
  | advance => exact advanceWakeCalendar_cases h
  | freeze => exact freezeWakeOccurrence_cases h
  | settle => exact settleWakeOccurrence_cases h

end Bridget.Schedules
