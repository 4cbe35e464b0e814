/-
  TaskFleet.Time.Calendar — weekdays and minutes of an instant in UTC.

  An instant is a number of seconds since the start of 1970, before it if negative.
-/

namespace TaskFleet.Calendar

/-- The ISO number of the weekday: Monday is 1, Sunday is 7. Day zero was a Thursday. -/
def weekday (t : Int) : Nat := ((t / 86400 + 3) % 7).toNat + 1

/-- The minute of the day, from 0 to 1439. -/
def minuteOfDay (t : Int) : Nat := (t % 86400 / 60).toNat

/-- The last second that has a calendar date, at the end of the year 262142. -/
def lastSecond : Nat := 8210266876799

/-- The instant of a clock reading in seconds, if it has a date. -/
def ofClock? (secs : UInt64) : Option Int := if secs.toNat ≤ lastSecond then some secs.toNat else none

theorem weekday_mem (t : Int) : 1 ≤ weekday t ∧ weekday t ≤ 7 := by
  unfold weekday; omega

theorem minuteOfDay_lt (t : Int) : minuteOfDay t < 1440 := by
  unfold minuteOfDay; omega

end TaskFleet.Calendar
