/-
  TaskFleet.Autoscale.Freeze — windows of the week in which a pool does not grow.

  A pool is frozen while some schedule with two well-formed bounds lists the weekday and its
  window holds the minute; a window whose end comes before its start runs over midnight. A
  one-time unfreeze overrides every schedule until its time has come.
-/

import TaskFleet.Text.Blank
import TaskFleet.Text.Digits
import TaskFleet.Time.Calendar
import TaskFleet.Workspace

namespace TaskFleet

inductive FreezeStatus where
  | isOpen
  /-- Frozen by a schedule, but for a one-time unfreeze. -/
  | unfrozen
  | frozen (reason : String)
  deriving DecidableEq, Repr

namespace FreezeStatus

def name : FreezeStatus → String
  | isOpen => "open"
  | unfrozen => "unfrozen"
  | frozen _ => "frozen"

def isFrozen : FreezeStatus → Bool
  | frozen _ => true
  | _ => false

def reason? : FreezeStatus → Option String
  | frozen reason => some reason
  | unfrozen => some "One-time unfreeze active"
  | isOpen => none

end FreezeStatus

namespace Freeze

/-- A number written in digits, after a plus sign or nothing, that fits 32 bits. -/
def number? (cs : List Char) : Option Nat :=
  let digits := match cs with
    | '+' :: r => r
    | _ => cs
  (Text.natOf? digits).filter (· < UInt32.size)

/-- The minute of the day that a bound `HH:MM` names. -/
def minute? (bound : String) : Option Nat := do
  let (hours, minutes) ← Text.splitOnce ':' (Text.trim bound.toList)
  let hours ← number? hours
  let minutes ← number? minutes
  if hours < 24 ∧ minutes < 60 then some (hours * 60 + minutes) else none

/-- Whether a window, both ends included, holds a minute. -/
def inWindow (minute start stop : Nat) : Bool :=
  if start ≤ stop then start ≤ minute && minute ≤ stop else start ≤ minute || minute ≤ stop

def dayNames : List String := ["Mon", "Tue", "Wed", "Thu", "Fri", "Sat", "Sun"]

/-- The names of the days that have one. -/
def describeDays (days : List UInt8) : String :=
  ", ".intercalate (days.filterMap fun d => if d = 0 then none else dayNames[d.toNat - 1]?)

end Freeze

namespace FreezeSchedule

/-- Whether the schedule freezes a pool at an instant. -/
def holds (z : FreezeSchedule) (t : Int) : Bool :=
  z.weekdays.any (·.toNat == Calendar.weekday t) &&
    match Freeze.minute? z.fromTime, Freeze.minute? z.toTime with
    | some start, some stop => Freeze.inWindow (Calendar.minuteOfDay t) start stop
    | _, _ => false

def reason (z : FreezeSchedule) : String :=
  s!"Freeze window: {z.fromTime} - {z.toTime} on {Freeze.describeDays z.weekdays}"

end FreezeSchedule

namespace Freeze

/-- What schedules say of an instant; the first one that holds gives the reason. -/
def window (schedules : List FreezeSchedule) (t : Int) : FreezeStatus :=
  match schedules.find? (·.holds t) with
  | some z => .frozen z.reason
  | none => .isOpen

/-- A stored time as a signed number of 64 bits. -/
def signed (n : UInt64) : Int := n.toInt64.toInt

/-- What schedules and a one-time unfreeze say of an instant. -/
def windowWithUnfreeze (schedules : List FreezeSchedule) (unfreezeUntil : Option UInt64) (t : Int) :
    FreezeStatus :=
  let status := window schedules t
  match unfreezeUntil with
  | some limit => if status.isFrozen ∧ t < signed limit then .unfrozen else status
  | none => status

end Freeze

/-- What a pool's schedules say of an instant. -/
def AgentPool.freezeStatus (p : AgentPool) (t : Int) : FreezeStatus :=
  Freeze.windowWithUnfreeze p.freezeSchedules p.unfreezeUntil t

end TaskFleet
