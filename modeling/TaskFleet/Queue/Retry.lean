/-
  TaskFleet.Queue.Retry — workspaces with the time from which they are to be handled.

  A workspace is queued once, with the earliest of the times asked for. Times are
  milliseconds. `popDue` takes out what is due, the earliest first and by name within one
  time.
  - `deadline?_schedule`: queueing can only bring a deadline forward.
-/

import TaskFleet.Table
import TaskFleet.Sorting

namespace TaskFleet

structure RetryQueue where
  deadlines : Table UInt64 := .empty
  deriving DecidableEq, Inhabited

namespace RetryQueue

variable (q : RetryQueue)

def deadline? (workspace : String) : Option UInt64 := q.deadlines.get? workspace

/-- Queues a workspace; says whether that brought it in or forward. -/
def schedule (workspace : String) (notBefore : UInt64) : Bool × RetryQueue :=
  match q.deadline? workspace with
  | some current =>
    if notBefore < current then (true, ⟨q.deadlines.insert workspace notBefore⟩) else (false, q)
  | none => (true, ⟨q.deadlines.insert workspace notBefore⟩)

theorem deadline?_schedule (workspace name : String) (notBefore : UInt64) :
    (q.schedule workspace notBefore).2.deadline? name =
      if workspace = name then
        some (match q.deadline? workspace with
          | some current => if notBefore < current then notBefore else current
          | none => notBefore)
      else q.deadline? name := by
  unfold schedule
  cases hd : q.deadline? workspace with
  | none => exact Table.get?_insert _ _ _ _
  | some current =>
    by_cases hlt : notBefore < current
    · simp only [hlt, if_true]
      exact Table.get?_insert _ _ _ _
    · simp only [hlt, if_false]
      split
      · next he => exact he ▸ hd
      · rfl

/-- The rows that are due, the earliest first. -/
def due (now : UInt64) : List (String × UInt64) :=
  sortBy (fun a b => a.2 ≤ b.2) (q.deadlines.rows.filter (·.2 ≤ now))

/-- Takes out the workspaces that are due. -/
def popDue (now : UInt64) : List String × RetryQueue :=
  ((q.due now).map (·.1), ⟨q.deadlines.filter fun _ deadline => now < deadline⟩)

/-- The earliest deadline. -/
def nextDeadline? : Option UInt64 :=
  q.deadlines.values.foldl (fun least d => some (match least with | none => d | some l => min l d)) none

def size : Nat := q.deadlines.size

def isEmpty : Bool := q.deadlines.isEmpty

end RetryQueue

end TaskFleet
