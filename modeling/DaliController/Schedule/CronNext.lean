import DaliController.Lib.Calendar
import DaliController.Schedule.CronExpr
import Mathlib.Order.Bounds.Defs

/-! The search for the next time of a cron expression.  `cron_next` moves a calendar forward field
by field, and starts anew when it had to change one. -/

namespace DaliController.Schedule

open Calendar

/-! ### Times -/

/-- `struct tm`. -/
structure Tm where
  sec : Nat
  min : Nat
  hour : Nat
  mday : Nat
  mon : Nat
  year : Int
  wday : Nat
  deriving DecidableEq, Repr

/-- The seconds from the beginning of 1970 to a time of the calendar, whose fields may exceed their
ranges.  The day of the week plays no part. -/
def timeOf (tm : Tm) : Int :=
  86400 * (monthStart (12 * (tm.year + 1900) + tm.mon) + tm.mday - 1) + 3600 * tm.hour +
    60 * tm.min + tm.sec

def tmOf (t : Int) : Tm where
  sec := (t % 60).toNat
  min := (t / 60 % 60).toNat
  hour := (t / 3600 % 24).toNat
  mday := (dayOf (t / 86400)).toNat
  mon := (monthOf (t / 86400) % 12).toNat
  year := monthOf (t / 86400) / 12 - 1900
  wday := (weekdayOf (t / 86400)).toNat

/-- The fields of `struct tm` that `cron_next` moves. -/
inductive CalendarField
  | second
  | minute
  | hourOfDay
  | dayOfWeek
  | dayOfMonth
  | month
  | year
  deriving DecidableEq, Repr

/-- `push_to_fields_arr`. -/
def pushToFieldsArr (arr : List CalendarField) (fi : CalendarField) : List CalendarField :=
  if fi ∈ arr then arr else if arr.length < 7 then arr ++ [fi] else arr

def nextSetBit (bits : List UInt8) (max fromIndex : Nat) : Option Nat :=
  (List.range' fromIndex (max - fromIndex)).find? (cronGetBit bits)

section

/-! The local time is `zone` seconds ahead. -/

variable (zone : Int)

/-- `localtime_r`. -/
def cronTime (date : Int) : Tm := tmOf (date + zone)

/-- `mktime`, which also brings the fields into their ranges. -/
def cronMktime (tm : Tm) : Int × Tm := (timeOf tm - zone, tmOf (timeOf tm))

/-- The calendar after `cron_mktime`, which is an error if the result is `CRON_INVALID_INSTANT`. -/
def settle (calendar : Tm) : Except Tm Tm :=
  let (res, calendar) := cronMktime zone calendar
  if res = -1 then .error calendar else .ok calendar

def addToField (calendar : Tm) (field : CalendarField) (val : Nat) : Except Tm Tm :=
  settle zone <| match field with
    | .second => { calendar with sec := calendar.sec + val }
    | .minute => { calendar with min := calendar.min + val }
    | .hourOfDay => { calendar with hour := calendar.hour + val }
    | .dayOfWeek | .dayOfMonth => { calendar with mday := calendar.mday + val }
    | .month => { calendar with mon := calendar.mon + val }
    | .year => { calendar with year := calendar.year + val }

def resetMin (calendar : Tm) (field : CalendarField) : Except Tm Tm :=
  settle zone <| match field with
    | .second => { calendar with sec := 0 }
    | .minute => { calendar with min := 0 }
    | .hourOfDay => { calendar with hour := 0 }
    | .dayOfWeek => { calendar with wday := 0 }
    | .dayOfMonth => { calendar with mday := 1 }
    | .month => { calendar with mon := 0 }
    | .year => { calendar with year := 0 }

def resetAllMin : Tm → List CalendarField → Except Tm Tm
  | calendar, [] => .ok calendar
  | calendar, field :: fields => do resetAllMin (← resetMin zone calendar field) fields

def setField (calendar : Tm) (field : CalendarField) (val : Nat) : Except Tm Tm :=
  settle zone <| match field with
    | .second => { calendar with sec := val }
    | .minute => { calendar with min := val }
    | .hourOfDay => { calendar with hour := val }
    | .dayOfWeek => { calendar with wday := val }
    | .dayOfMonth => { calendar with mday := val }
    | .month => { calendar with mon := val }
    | .year => { calendar with year := val }

/-! ### The search -/

/-- `find_next`: the next value of a field, and the calendar that has it. -/
def findNext (bits : List UInt8) (max value : Nat) (calendar : Tm)
    (field nextField : CalendarField) (lowerOrders : List CalendarField) :
    Except Tm (Nat × Tm) := do
  let found := nextSetBit bits max value
  let (found, calendar) ←
    if found.isNone then do
      -- roll over
      let calendar ← addToField zone calendar nextField 1
      let calendar ← resetMin zone calendar field
      pure (nextSetBit bits max 0, calendar)
    else pure (found, calendar)
  let nextValue := found.getD 0
  if found.isNone ∨ nextValue ≠ value then
    let calendar ← setField zone calendar field nextValue
    let calendar ← resetAllMin zone calendar lowerOrders
    return (nextValue, calendar)
  else return (nextValue, calendar)

/-- The loop of `find_next_day`, for as many days.  An error of `reset_all_min` is not seen. -/
def findNextDay (daysOfMonth daysOfWeek : List UInt8) (resets : List CalendarField) :
    Nat → Nat → Nat → Tm → Except Tm (Nat × Tm)
  | 0, dayOfMonth, _, calendar => .ok (dayOfMonth, calendar)
  | count + 1, dayOfMonth, dayOfWeek, calendar =>
    if !cronGetBit daysOfMonth dayOfMonth || !cronGetBit daysOfWeek dayOfWeek then do
      let calendar ← addToField zone calendar .dayOfMonth 1
      let reset := match resetAllMin zone calendar resets with
        | .ok reset => reset
        | .error reset => reset
      findNextDay daysOfMonth daysOfWeek resets count calendar.mday calendar.wday reset
    else .ok (dayOfMonth, calendar)

/-- A field that has kept its value is reset from now on, and otherwise the search starts anew. -/
def further (anew : Tm → ExceptT Tm Option Tm) (value update : Nat) (field : CalendarField)
    (resets : List CalendarField) (calendar : Tm) :
    ExceptT Tm Option (List CalendarField × Tm) :=
  if value = update then pure (pushToFieldsArr resets field, calendar)
  else do return (resets, ← anew calendar)

/-- `do_next`, with as many calls inside each other. -/
def doNext (expr : CronExpr) (dot : Int) : Nat → Tm → ExceptT Tm Option Tm
  | 0, _ => ExceptT.mk none
  | rounds + 1, calendar => do
    let second := calendar.sec
    let (updateSecond, calendar) ←
      findNext zone expr.seconds 60 second calendar .second .minute []
    let resets := if second = updateSecond then pushToFieldsArr [] .second else []
    let minute := calendar.min
    let (updateMinute, calendar) ←
      findNext zone expr.minutes 60 minute calendar .minute .hourOfDay resets
    let (resets, calendar) ←
      further (doNext expr dot rounds) minute updateMinute .minute resets calendar
    let hour := calendar.hour
    let (updateHour, calendar) ←
      findNext zone expr.hours 24 hour calendar .hourOfDay .dayOfWeek resets
    let (resets, calendar) ←
      further (doNext expr dot rounds) hour updateHour .hourOfDay resets calendar
    let dayOfMonth := calendar.mday
    let (updateDayOfMonth, calendar) ←
      findNextDay zone expr.daysOfMonth expr.daysOfWeek resets 366 dayOfMonth calendar.wday calendar
    let (resets, calendar) ←
      further (doNext expr dot rounds) dayOfMonth updateDayOfMonth .dayOfMonth resets calendar
    let month := calendar.mon
    let (updateMonth, calendar) ←
      findNext zone expr.months 12 month calendar .month .year resets
    if month ≠ updateMonth then
      -- the difference of the years is unsigned
      if 4 < (calendar.year - dot) % 2 ^ 32 then throw calendar
      doNext expr dot rounds calendar
    else return calendar

/-- `cron_next`, with as many calls of `do_next` inside each other. -/
def cronNext (rounds : Nat) (expr : CronExpr) (date : Int) : Option Int := do
  let (original, calendar) := cronMktime zone (cronTime zone date)
  if original = -1 then return -1
  let .ok calendar ← (doNext zone expr calendar.year rounds calendar).run | return -1
  let (calculated, calendar) := cronMktime zone calendar
  if calculated = -1 then return -1
  if calculated ≠ original then return (cronMktime zone calendar).1
  -- the time itself has matched
  let .ok calendar := addToField zone calendar .second 1 | return -1
  let .ok calendar ← (doNext zone expr calendar.year rounds calendar).run | return -1
  return (cronMktime zone calendar).1

end

end DaliController.Schedule
