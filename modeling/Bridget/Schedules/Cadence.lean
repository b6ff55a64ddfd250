import Bridget.Schedules.Runs

/-!
# The next time of a schedule

An interval counts from its anchor. A time of the day is looked for in the civil days to come,
each of which is searched minute by minute for the first instant that shows the time.
-/

namespace Bridget.Schedules

open Foundation

/-- The fields of `libc::tm` that are read. -/
structure Civil where
  (year mon mday hour min sec wday gmtoff : Int)
  deriving DecidableEq

/-- The clock library with the zone of the server, whose fingerprint is taken twice. -/
structure Calendar where
  localtime : Int → Option Civil
  gmtime : Int → Option Civil
  timegm : Civil → Int
  (fingerprint fingerprintAgain : Int → Except String String)

structure CalendarSnapshot where
  fingerprint : String
  nextAt : Int
  dueAt : Option Int
  (calendarDate nextCalendarDate : Option String)
  deriving DecidableEq

def Fits (n : Int) : Prop := i64Min ≤ n ∧ n ≤ i64Max
  deriving Decidable

/-- The value of a checked operation. -/
def checked (n : Int) : Except String Int := if Fits n then .ok n else .error "calendar_unavailable"

def Civil.date (civil : Civil) : String :=
  padded 4 (civil.year + 1900) ++ "-" ++ padded 2 (civil.mon + 1) ++ "-" ++ padded 2 civil.mday

section

variable (calendar : Calendar)

/-- `local`. -/
def localCivil (epoch : Int) : Except String Civil := do
  let civil ← orError (calendar.localtime epoch) "calendar_unavailable"
  ensure (civil.gmtoff.natAbs ≤ 86400 ∧ civil.gmtoff % 60 = 0) "calendar_unavailable"
  return civil

/-- The first of the instants, in minutes around the center, that shows the time on the day. -/
def searchMinutes (day : Civil) (hour minute center : Int) : List Int → Except String (Option Int)
  | [] => .ok none
  | step :: rest => do
    let epoch ← checked (center + step * 60)
    let candidate ← localCivil calendar epoch
    if candidate.year = day.year ∧ candidate.mon = day.mon ∧ candidate.mday = day.mday ∧
        candidate.hour = hour ∧ candidate.min = minute ∧ candidate.sec = 0 then
      return some epoch
    else searchMinutes day hour minute center rest

def firstCivilEpoch (day : Civil) (hour minute : Int) : Except String (Option Int) :=
  searchMinutes calendar day hour minute
    (calendar.timegm { day with hour, min := minute, sec := 0 })
    ((List.range 2881).map fun i => (i : Int) - 1440)

/-- The days from the base on: what is due, and the first instant after now. -/
def searchDays (schedule : WakeSchedule) (weekdays : List Nat) (hour minute base now : Int) :
    List Int → Option (Int × String) → Except String (Option (Int × String) × Option (Int × String))
  | [], due => .ok (due, none)
  | offset :: rest, due => do
    let epoch ← checked (base + offset * 86400)
    let day ← orError (calendar.gmtime epoch) "calendar_unavailable"
    let weekday := if day.wday = 0 then 7 else day.wday.toNat
    if weekday ∉ weekdays ∨ schedule.previousCalendarDate = some day.date then
      searchDays schedule weekdays hour minute base now rest due
    else
      match ← firstCivilEpoch calendar day hour minute with
      | none => searchDays schedule weekdays hour minute base now rest due
      | some candidate =>
        if now < candidate then return (due, some (candidate, day.date))
        else
          searchDays schedule weekdays hour minute base now rest <|
            if schedule.nextAt ≤ candidate ∧ saturatingSub now candidate ≤ 600 ∧ due = none then
              some (candidate, day.date)
            else due

def calculateCadence (codec : ScheduleCodec) (schedule : WakeSchedule) (now : Int) :
    Except String CalendarSnapshot := do
  validateSchedule codec schedule
  let fingerprint ← calendar.fingerprint now
  match schedule.cadence with
  | .interval seconds => do
    let passed ← checked (now - schedule.anchorAt)
    let whole ← checked (passed / seconds * seconds)
    let last ← checked (schedule.anchorAt + whole)
    let nextAt ← checked (last + seconds)
    return { fingerprint, nextAt, calendarDate := none, nextCalendarDate := none
             dueAt := if schedule.nextAt ≤ last ∧ last ≤ now then some last else none }
  | .atTime time weekdays => do
    let (hour, minute) ← match utf8 time with
      | [h₁, h₂, _, m₁, m₂] => .ok (twoDigits h₁ h₂, twoDigits m₁ m₂)
      | _ => .error "invalid_request"
    let today ← localCivil calendar now
    let base := calendar.timegm { today with hour := 0, min := 0, sec := 0 }
    -- a time that was calculated before stays due, also after midnight or in a new zone
    let stored := if schedule.nextAt ≤ now ∧ saturatingSub now schedule.nextAt ≤ 600 then
        (schedule.nextCalendarDate.filter fun date => schedule.previousCalendarDate ≠ some date).map
          fun date => (schedule.nextAt, date)
      else none
    let (due, next) ← searchDays calendar schedule weekdays hour minute base now
      [0, 1, 2, 3, 4, 5, 6, 7] stored
    let (nextAt, nextDate) ← orError next "calendar_unavailable"
    let fingerprintAgain ← calendar.fingerprintAgain now
    ensure (fingerprintAgain = fingerprint) "calendar_unavailable"
    return { fingerprint, nextAt, dueAt := due.map Prod.fst, calendarDate := due.map Prod.snd
             nextCalendarDate := some nextDate }

end

theorem checked_bind {α : Type} {n : Int} {f : Int → Except String α} :
    (checked n >>= f) = if Fits n then f n else .error "calendar_unavailable" := by
  unfold checked
  split <;> rfl

/-- The multiple of a positive step at or before a time, and the next one after it. -/
theorem lastMultiple_spec {step : Int} (hstep : 0 < step) (anchor now : Int) :
    let last := anchor + (now - anchor) / step * step
    last ≤ now ∧ now < last + step ∧ ∀ k : Int,
      (anchor + k * step ≤ now → anchor + k * step ≤ last) ∧
      (now < anchor + k * step → last + step ≤ anchor + k * step) := by
  intro last
  have hle : (now - anchor) / step * step ≤ now - anchor := Int.ediv_mul_le _ hstep.ne'
  have hlt : now - anchor < ((now - anchor) / step + 1) * step :=
    Int.lt_ediv_add_one_mul_self _ hstep
  rw [Int.add_mul, Int.one_mul] at hlt
  refine ⟨by omega, by omega, fun k => ⟨fun hk => ?_, fun hk => ?_⟩⟩
  · have hquotient : k ≤ (now - anchor) / step := (Int.le_ediv_iff_mul_le hstep).mpr (by omega)
    have := Int.mul_le_mul_of_nonneg_right hquotient hstep.le
    omega
  have hquotient : (now - anchor) / step + 1 ≤ k := (Int.ediv_lt_iff_lt_mul hstep).mpr (by omega)
  have := Int.mul_le_mul_of_nonneg_right hquotient hstep.le
  rw [Int.add_mul, Int.one_mul] at this
  omega

/-- The last time of an interval that has passed and the next one, exactly, unless a value on the
way to them is no `i64`. -/
theorem interval_cadence_is_exact {codec : ScheduleCodec} {calendar : Calendar}
    {schedule : WakeSchedule} {seconds : Nat} {now : Int} {fingerprint : String}
    (hvalid : validateSchedule codec schedule = .ok ())
    (hcadence : schedule.cadence = .interval seconds)
    (hfingerprint : calendar.fingerprint now = .ok fingerprint) :
    ∃ last : Int, (∃ k : Int, last = schedule.anchorAt + k * seconds) ∧ last ≤ now ∧
      now < last + seconds ∧ (∀ k : Int,
        (schedule.anchorAt + k * seconds ≤ now → schedule.anchorAt + k * seconds ≤ last) ∧
        (now < schedule.anchorAt + k * seconds →
          last + seconds ≤ schedule.anchorAt + k * seconds)) ∧
      calculateCadence calendar codec schedule now =
        if Fits (now - schedule.anchorAt) ∧ Fits (last - schedule.anchorAt) ∧ Fits last ∧
            Fits (last + seconds) then
          .ok ⟨fingerprint, last + seconds, if schedule.nextAt ≤ last then some last else none,
            none, none⟩
        else .error "calendar_unavailable" := by
  have hseconds : 0 < (seconds : Int) := by
    simp only [validateSchedule, ensure_eq_ok, hcadence, cadenceValid] at hvalid
    have hbounds := hvalid.2.2.2.2
    simp only [Bool.and_eq_true, decide_eq_true_eq] at hbounds
    omega
  obtain ⟨hle, hlt, hextreme⟩ := lastMultiple_spec hseconds schedule.anchorAt now
  refine ⟨_, ⟨_, rfl⟩, hle, hlt, hextreme, ?_⟩
  simp only [calculateCadence, hvalid, hfingerprint, hcadence, ok_bind, checked_bind, hle,
    add_sub_cancel_left, ite_and]
  rfl

def utcCalendar : Calendar where
  localtime _ := none
  gmtime _ := none
  timegm _ := 0
  fingerprint _ := .ok "UTC:0"
  fingerprintAgain _ := .ok "UTC:0"

/-- After the second minute, before the third. -/
theorem third_minute_comes_next :
    calculateCadence utcCalendar minuteCodec minuteSchedule 125 =
      .ok ⟨"UTC:0", 180, some 120, none, none⟩ := by
  have hvalid : validateSchedule minuteCodec minuteSchedule = .ok () := by decide +kernel
  have hfingerprint : utcCalendar.fingerprint 125 = .ok "UTC:0" := rfl
  obtain ⟨_, ⟨k, rfl⟩, _, _, -, hcadence⟩ := interval_cadence_is_exact hvalid rfl hfingerprint
  have hanchor : minuteSchedule.anchorAt = 0 := rfl
  obtain rfl : k = 2 := by omega
  exact hcadence

end Bridget.Schedules
