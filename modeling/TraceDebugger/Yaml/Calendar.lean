/-
Days of the calendar and moments of a day.

A day exists in the calendar, and the parts of a moment lie in their bounds; numbers that do not are
refused (`Day.of`, `Moment.of`).  A moment may have an offset from universal time, in minutes.  Two
moments with offsets are the same if they are the same instant.
-/
import TraceDebugger.Fault.Basic

namespace TraceDebugger.Yaml

namespace Calendar

/-- A year has 366 days. -/
def isLeap (year : Nat) : Bool := year % 4 = 0 && (year % 100 != 0 || year % 400 = 0)

def daysOfMonth (year month : Nat) : Nat :=
  if month = 2 then (if isLeap year then 29 else 28)
  else if [4, 6, 9, 11].contains month then 30 else 31

/-- A number on at least so many digits. -/
def padded (width n : Nat) : String :=
  let digits := Nat.toDigits 10 n
  String.ofList (List.replicate (width - digits.length) '0' ++ digits)

end Calendar

open Calendar

structure Day where
  year : Nat
  month : Nat
  day : Nat
  year_mem : 1 ≤ year ∧ year ≤ 9999
  month_mem : 1 ≤ month ∧ month ≤ 12
  day_mem : 1 ≤ day ∧ day ≤ daysOfMonth year month
deriving DecidableEq, Repr

namespace Day

def of (year month day : Nat) : Except ValueFault Day :=
  if hyear : 1 ≤ year ∧ year ≤ 9999 then
    if hmonth : 1 ≤ month ∧ month ≤ 12 then
      if hday : 1 ≤ day ∧ day ≤ daysOfMonth year month then
        .ok ⟨year, month, day, hyear, hmonth, hday⟩
      else .error .badDay
    else .error .badMonth
  else .error (.badYear year)

/-- The number of the day, the first one of the calendar being 1. -/
def number (d : Day) : Nat :=
  let years := d.year - 1
  365 * years + years / 4 - years / 100 + years / 400
    + (List.range (d.month - 1)).foldl (fun days m => days + daysOfMonth d.year (m + 1)) d.day

def text (d : Day) : String :=
  padded 4 d.year ++ "-" ++ padded 2 d.month ++ "-" ++ padded 2 d.day

def parts (d : Day) : List Nat := [d.year, d.month, d.day]

def literal (d : Day) : String :=
  "datetime.date(" ++ String.intercalate ", " (d.parts.map toString) ++ ")"

end Day

/-- An offset from universal time in minutes, less than a day in either direction. -/
abbrev Offset := {minutes : Int // -1440 < minutes ∧ minutes < 1440}

structure Moment where
  day : Day
  hour : Fin 24
  minute : Fin 60
  second : Fin 60
  micro : Fin 1000000
  offset : Option Offset
deriving DecidableEq, Repr

namespace Offset

/-- A stretch of minutes, as days and seconds. -/
def stretchLiteral (minutes : Int) : String :=
  let days := minutes / 1440
  let seconds := minutes % 1440 * 60
  let parts := (if days = 0 then [] else [s!"days={days}"])
    ++ (if seconds = 0 then [] else [s!"seconds={seconds}"])
  "datetime.timedelta(" ++ (if parts.isEmpty then "0" else String.intercalate ", " parts) ++ ")"

def of (minutes : Int) : Except ValueFault Offset :=
  if h : -1440 < minutes ∧ minutes < 1440 then .ok ⟨minutes, h⟩
  else .error (.badOffset (stretchLiteral minutes))

def literal (offset : Offset) : String :=
  if offset.val = 0 then "datetime.timezone.utc"
  else "datetime.timezone(" ++ stretchLiteral offset.val ++ ")"

def text (offset : Offset) : String :=
  let size := offset.val.natAbs
  (if offset.val < 0 then "-" else "+") ++ padded 2 (size / 60) ++ ":" ++ padded 2 (size % 60)

end Offset

namespace Moment

/-- A part of a moment below its bound. -/
def part (name : String) (bound value : Nat) : Except ValueFault (Fin bound) :=
  if h : value < bound then .ok ⟨value, h⟩ else .error (.badTimePart name (bound - 1))

def of (year month day hour minute second : Nat) (micro : Fin 1000000) (offset : Option Offset) :
    Except ValueFault Moment := do
  let day ← Day.of year month day
  let hour ← part "hour" 24 hour
  let minute ← part "minute" 60 minute
  let second ← part "second" 60 second
  return { day, hour, minute, second, micro, offset }

/-- The instant of a moment with an offset, in microseconds. -/
def instant? (m : Moment) : Option Int :=
  m.offset.map fun offset =>
    let minutes : Int := 1440 * m.day.number + 60 * m.hour.val + m.minute.val - offset.val
    (60 * minutes + m.second.val) * 1000000 + m.micro.val

def text (m : Moment) : String :=
  let time := padded 2 m.hour.val ++ ":" ++ padded 2 m.minute.val ++ ":" ++ padded 2 m.second.val
  m.day.text ++ " " ++ time ++ (if m.micro.val = 0 then "" else "." ++ padded 6 m.micro.val)
    ++ (m.offset.map Offset.text).getD ""

/-- The moment with the parts at its end left out that are zero, from the seconds on. -/
def literal (m : Moment) : String :=
  let seconds := if m.micro.val = 0 then (if m.second.val = 0 then [] else [m.second.val])
    else [m.second.val, m.micro.val]
  let numbers := (m.day.parts ++ [m.hour.val, m.minute.val] ++ seconds).map toString
  let offset := (m.offset.map fun offset => ["tzinfo=" ++ offset.literal]).getD []
  "datetime.datetime(" ++ String.intercalate ", " (numbers ++ offset) ++ ")"

end Moment

end TraceDebugger.Yaml
