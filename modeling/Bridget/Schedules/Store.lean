import Bridget.Foundation.Text
import Bridget.Idempotency.CliWake
import Bridget.Threads.Store

/-!
# Scheduled wakes

A schedule is one row whose payload holds the whole schedule as JSON, with its last frozen
occurrence. The columns `next_at` and `cancelled_at` repeat members of the payload, and guard the
statements that advance, freeze and cancel.
-/

namespace Bridget.Schedules

open Foundation
open Bridget.Idempotency (WakeSource WakeTarget WakePhase NativeWakeOrigin FrozenWake
  freezeCanonical)
open Bridget.Threads (StoreError sqlite sqlite_eq_ok)

inductive WakeCadence where
  | interval (seconds : Nat)
  | atTime (time : String) (weekdays : List Nat)
  deriving DecidableEq

def WakeCadence.isAt : WakeCadence → Bool
  | .interval _ => false
  | .atTime _ _ => true

structure WakeSchedule where
  (scheduleId owner : String)
  ownerProject : Option CommunicationProject
  ownerNative : Option NativeWakeOrigin
  target : WakeTarget
  cadence : WakeCadence
  label : String
  (anchorAt nextAt : Int)
  timezone : String
  (nextCalendarDate previousCalendarDate : Option String)
  occurrence : Option FrozenWake
  cancelledAt : Option Int
  deriving DecidableEq

/-- `WakePhase::terminal`. -/
def terminal : WakePhase → Bool
  | .committedThread | .confirmed | .outcomeUnknown | .missedBeforeDeparture
  | .ownerUnavailable => true
  | .prepared | .deferred | .dispatchingAgent => false

/-- The JSON and UUID libraries, as far as schedules use them. -/
structure ScheduleCodec where
  /-- `serde_json::to_string`. -/
  toText : WakeSchedule → Option String
  /-- `serde_json::from_str`. -/
  fromText : String → Option WakeSchedule
  /-- `serde_json::to_vec`. -/
  toVec : FrozenWake → Option Bytes
  uuidParses : String → Bool
  canonicalUuid : String → Option String

/-- The canonical bytes are not written, so they are read as none. -/
def WakeSchedule.skipBytes (schedule : WakeSchedule) : WakeSchedule :=
  { schedule with occurrence := schedule.occurrence.map FrozenWake.skipBytes }

/-- What is assumed of the JSON library: what it writes it reads back, without the member that
it skips. -/
structure ScheduleCodec.Faithful (codec : ScheduleCodec) : Prop where
  reads : ∀ schedule text, codec.toText schedule = some text →
    codec.fromText text = some schedule.skipBytes
  skips : ∀ wake, codec.toVec wake.skipBytes = codec.toVec wake

section

variable (codec : ScheduleCodec)

def twoDigits (tens units : UInt8) : Nat := (tens.toNat - 48) * 10 + (units.toNat - 48)

/-- A time of the day is written `hh:mm`. -/
def timeValid (time : String) : Bool :=
  match utf8 time with
  | [h₁, h₂, separator, m₁, m₂] =>
    separator = 58 && [h₁, h₂, m₁, m₂].all isAsciiDigit &&
      twoDigits h₁ h₂ ≤ 23 && twoDigits m₁ m₂ ≤ 59
  | _ => false

def cadenceValid : WakeCadence → Bool
  | .interval seconds => 60 ≤ seconds && (seconds : Int) ≤ i64Max
  | .atTime time weekdays =>
    timeValid time && weekdays ≠ [] && weekdays.length ≤ 7 &&
      weekdays.all (fun day => 1 ≤ day && day ≤ 7) && weekdays.Nodup

def targetValid : WakeTarget → Bool
  | .selfTarget => true
  | .agent id | .thread id => codec.canonicalUuid id = some id

def validateSchedule (schedule : WakeSchedule) : Except String Unit :=
  ensure (codec.uuidParses schedule.scheduleId ∧ schedule.owner ≠ "" ∧
    schedule.label.utf8ByteSize ≤ 2048 ∧ targetValid codec schedule.target ∧
    cadenceValid schedule.cadence) "invalid_request"

def invariantOf {α : Type} (x : Except String α) : Except StoreError α := x.mapError .invariant

def decode (payload : String) : Except StoreError WakeSchedule := do
  let schedule ← orError (codec.fromText payload) (.invariant "wake schedule illisible")
  invariantOf (validateSchedule codec schedule)
  match schedule.occurrence with
  | none => return schedule
  | some wake =>
    let wake ← invariantOf (freezeCanonical codec.toVec wake)
    return { schedule with occurrence := some wake }

structure ScheduleRow where
  (scheduleId owner : String)
  nextAt : Int
  cancelledAt : Option Int
  payload : String
  deriving DecidableEq

instance : UniqueKeys ScheduleRow where
  conflicts a b := a.scheduleId = b.scheduleId

/-- The row that `create_wake_schedule` inserts once there is room for it. -/
def createdRow (schedule : WakeSchedule) : Except StoreError ScheduleRow := do
  invariantOf (validateSchedule codec schedule)
  ensure (schedule.cancelledAt = none ∧ schedule.occurrence = none ∧
    (schedule.cadence.isAt → schedule.nextCalendarDate.isSome)) (.invariant "invalid_request")
  let payload ← orError (codec.toText schedule) (.invariant "invalid_request")
  return ⟨schedule.scheduleId, schedule.owner, schedule.nextAt, none, payload⟩

structure Cancel where
  owner : Option String
  id : String
  now : Int

structure Advance where
  id : String
  expectedNextAt : Int
  (calculatedTz currentTz : String)
  nextAt : Int
  nextCalendarDate : Option String
  now : Int

structure Freeze where
  id : String
  expectedNextAt : Int
  (calculatedTz currentTz : String)
  wake : FrozenWake
  nextAt : Int
  (calendarDate nextCalendarDate : Option String)

structure Settle where
  (id key : String)
  phase : WakePhase
  nextAt : Int
  nextCalendarDate : Option String

abbrev ScheduleTable := Table ScheduleRow

variable (t : ScheduleTable)

def loadRow (id : String) : Option ScheduleRow := t.find? fun r => r.scheduleId = id

/-- The row of a live schedule whose due time is still the expected one. -/
def loadLive (id : String) (expectedNextAt : Int) : Option ScheduleRow :=
  t.find? fun r => r.scheduleId = id ∧ r.nextAt = expectedNextAt ∧ r.cancelledAt = none

variable (schedule : WakeSchedule)

/-- Whether an occurrence may still be under way. -/
def pendingOccurrence : Bool := schedule.occurrence.any fun wake => !terminal wake.phase

def encode : Except StoreError String :=
  orError (codec.toText schedule) (.invariant "invalid_request")

def cancelWakeSchedule (request : Cancel) : Except StoreError (Bool × ScheduleTable) := do
  let row ← orError (loadRow t request.id) (.invariant "target_unknown")
  let schedule ← decode codec row.payload
  ensure (∀ owner ∈ request.owner, owner = schedule.owner) (.invariant "not_owner")
  if schedule.cancelledAt.isSome then return (false, t)
  else
    let payload ← encode codec { schedule with cancelledAt := some request.now }
    let (t, _) ← sqlite (t.update (fun r => r.scheduleId = request.id)
      fun r => { r with cancelledAt := some request.now, payload })
    return (true, t)

/-- The `UPDATE` that advances and freezes end with. -/
def updateLive (id : String) (expectedNextAt nextAt : Int) (payload : String) :
    Except StoreError (Bool × ScheduleTable) := do
  let (t, changed) ← sqlite (t.update
    (fun r => r.scheduleId = id ∧ r.nextAt = expectedNextAt ∧ r.cancelledAt = none)
    fun r => { r with nextAt, payload })
  return (changed = 1, t)

/-- A schedule by the clock needs the date of its next occurrence. -/
def ensureCalendar (schedule : WakeSchedule) (nextCalendarDate : Option String) :
    Except StoreError Unit :=
  ensure (schedule.cadence.isAt → nextCalendarDate.isSome) (.invariant "calendar_unavailable")

def advanceWakeCalendar (request : Advance) : Except StoreError (Bool × ScheduleTable) :=
  if request.calculatedTz ≠ request.currentTz ∨ request.nextAt ≤ request.now then
    return (false, t)
  else
    match loadLive t request.id request.expectedNextAt with
    | none => return (false, t)
    | some row => do
        let schedule ← decode codec row.payload
        if pendingOccurrence schedule then return (false, t)
        else
          ensureCalendar schedule request.nextCalendarDate
          let payload ← encode codec { schedule with
            nextAt := request.nextAt
            nextCalendarDate := request.nextCalendarDate
            timezone := request.currentTz }
          updateLive t request.id request.expectedNextAt request.nextAt payload

/-- The text `wake:<schedule>:<due>`. -/
def wakeId (id : String) (dueAt : Int) : String := "wake:" ++ id ++ ":" ++ toString dueAt

/-- The occurrence belongs to the schedule and to its due time. -/
def Freeze.Fits (request : Freeze) (schedule : WakeSchedule) : Prop :=
  request.wake.source = .scheduled ∧ request.wake.owner = schedule.owner ∧
    request.wake.target = schedule.target ∧ request.wake.ownerProject = schedule.ownerProject ∧
    request.wake.ownerNative = schedule.ownerNative ∧ request.wake.label = schedule.label ∧
    request.expectedNextAt ≤ request.wake.dueAt ∧ request.wake.dueAt < request.nextAt ∧
    request.wake.phase = .prepared ∧ request.wake.id = wakeId request.id request.wake.dueAt
  deriving Decidable

def freezeWakeOccurrence (request : Freeze) : Except StoreError (Bool × ScheduleTable) :=
  if request.calculatedTz ≠ request.currentTz then return (false, t)
  else
    match loadLive t request.id request.expectedNextAt with
    | none => return (false, t)
    | some row => do
        let schedule ← decode codec row.payload
        if pendingOccurrence schedule then return (false, t)
        else
          ensure (request.Fits schedule) (.invariant "invalid_request")
          let frozen ← invariantOf (freezeCanonical codec.toVec request.wake)
          ensure (request.wake.canonicalBytes = [] ∨
            frozen.canonicalBytes = request.wake.canonicalBytes) (.invariant "envelope_mismatch")
          ensureCalendar schedule request.nextCalendarDate
          let payload ← encode codec { schedule with
            occurrence := some frozen
            nextAt := request.nextAt
            nextCalendarDate := request.nextCalendarDate
            timezone := request.currentTz
            previousCalendarDate := request.calendarDate.or schedule.previousCalendarDate }
          updateLive t request.id request.expectedNextAt request.nextAt payload

/-- The schedule once its occurrence has another phase; a terminal phase brings its next due
time along. -/
def settled (request : Settle) (schedule : WakeSchedule) (wake : FrozenWake) :
    Except StoreError WakeSchedule :=
  let schedule := { schedule with occurrence := some { wake with phase := request.phase } }
  if terminal request.phase then do
    ensure (wake.dueAt < request.nextAt ∧ schedule.nextAt ≤ request.nextAt)
      (.invariant "invalid_request")
    ensureCalendar schedule request.nextCalendarDate
    return { schedule with nextAt := request.nextAt, nextCalendarDate := request.nextCalendarDate }
  else return schedule

def settleWakeOccurrence (request : Settle) : Except StoreError (Bool × ScheduleTable) :=
  match loadRow t request.id with
  | none => return (false, t)
  | some row => do
      let schedule ← decode codec row.payload
      match schedule.occurrence with
      | none => return (false, t)
      | some wake =>
        if wake.id ≠ request.key ∨ terminal wake.phase then return (false, t)
        else
          ensure (request.phase ≠ .prepared ∧ (wake.phase = .dispatchingAgent →
            request.phase = .confirmed ∨ request.phase = .outcomeUnknown))
            (.invariant "invalid_request")
          let schedule ← settled request schedule wake
          let payload ← encode codec schedule
          let (t, _) ← sqlite (t.update (fun r => r.scheduleId = request.id)
            fun r => { r with nextAt := schedule.nextAt, payload })
          return (true, t)

inductive ScheduleOp where
  | cancel (request : Cancel)
  | advance (request : Advance)
  | freeze (request : Freeze)
  | settle (request : Settle)

def exec : ScheduleOp → Except StoreError (Bool × ScheduleTable)
  | .cancel request => cancelWakeSchedule codec t request
  | .advance request => advanceWakeCalendar codec t request
  | .freeze request => freezeWakeOccurrence codec t request
  | .settle request => settleWakeOccurrence codec t request

end

end Bridget.Schedules
