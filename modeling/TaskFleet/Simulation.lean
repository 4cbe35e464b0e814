/-
  TaskFleet.Simulation — the programs of one orchestrator running beside each other.

  A thread runs until it waits or ends; threads that may go on form a line and run in turn.
  A caller's program runs first, and goes on when all the others wait. Time passes only then
  and only up to the next alarm, so a timer is never late and never early. A call that
  cannot end in a million seconds is given up where it waits.
-/

import TaskFleet.Orchestrator

namespace TaskFleet

/-- A job that has begun. -/
structure Thread where
  process : Nat
  job : Job
  /-- What is left of the present turn. -/
  rest : Program World Bool

/-- Whether the next step of a program may be taken. -/
def Program.isReady {σ α : Type} : Program σ α → σ → Bool
  | .await ready _, s => ready s
  | _, _ => true

structure Simulation where
  world : World
  /-- The threads that may go on, in the order in which they will. -/
  ready : List Thread := []
  /-- The threads that wait, in the order in which they began to. -/
  waiting : List Thread := []
  nextProcess : Nat := 0
  /-- The locks that callers took and keep: workspace and process. -/
  kept : Table Nat := .empty

namespace Simulation

variable (o : Orchestrator)

/-! ## Threads -/

/-- A job as a thread at the end of the line. -/
def begin (s : Simulation) (job : Job) : Simulation :=
  { s with
    ready := s.ready ++ [⟨s.nextProcess, job, o.turn s.nextProcess job⟩]
    nextProcess := s.nextProcess + 1 }

/-- Lets the jobs that were asked for begin, and puts the threads that may go on into line. -/
def refresh (s : Simulation) : Simulation :=
  let jobs := s.world.spawned
  let s := { s with
    world := { s.world with spawned := [] }
    ready := s.ready ++ s.waiting.filter (·.rest.isReady s.world)
    waiting := s.waiting.filter (!·.rest.isReady s.world) }
  jobs.foldl (begin o) s

/-- Changes the world. -/
def change (s : Simulation) (f : World → World) : Simulation := refresh o { s with world := f s.world }

/-- Runs a program until it waits or ends. -/
def advance {α : Type} : Program World α → Simulation → Program World α × Simulation
  | .step act next, s => advance (next s.world) (s.change o act)
  | .await ready next, s => if ready s.world then advance next s else (.await ready next, s)
  | p, s => (p, s)

/-- A thread is gone after a crash, and its shift does not wait for it any more. -/
def lose (job : Job) (w : World) : World :=
  match job with
  | .work shift => w.modifyShift shift fun s => { s with line.workers := s.line.workers - 1 }
  | .driveQueue shift | .sweep shift _ | .scale shift _ | .startUp shift =>
    w.modifyShift shift fun s => { s with services := s.services - 1 }
  | _ => w

/-- Runs a thread, turn after turn, until it waits or ends. -/
def runThread : (fuel : Nat) → Thread → Simulation → Simulation
  | 0, _, s => s
  | fuel + 1, t, s =>
    match advance o t.rest s with
    | (.done true, s) => runThread fuel { t with rest := o.turn t.process t.job } s
    | (.done false, s) => s
    | (.crash _, s) => s.change o (lose t.job)
    | (rest, s) => { s with waiting := s.waiting ++ [{ t with rest }] }

/-- Runs every thread that may go on, until all wait. -/
def settle : (fuel : Nat) → Simulation → Simulation
  | 0, s => s
  | fuel + 1, s =>
    match s.ready with
    | [] => s
    | t :: ready => settle fuel (runThread o fuel t { s with ready })

/-! ## Time -/

/-- The next alarm. -/
def nextAlarm? (w : World) : Option Nat := (w.alarms.filter (w.elapsed < ·)).min?

/-- Lets time pass up to the next alarm, but not beyond `limit`. -/
def passTime (limit : Nat) (s : Simulation) : Simulation :=
  s.change o fun w =>
    let elapsed := max w.elapsed (min limit ((nextAlarm? w).getD limit))
    { w with elapsed, alarms := w.alarms.filter (elapsed < ·) }

/-! ## Calls -/

/-- How many turns all threads together may take during one call. -/
def patience : Nat := 10000000

/-- How long a call may take. -/
def longestCall : Duration := .ofSecs 1000000

/-- Runs a caller's program to its end, and the threads while it waits. -/
def await {α : Type} (limit : Nat) : (fuel : Nat) → Program World α → Simulation → Program.Ending α × Simulation
  | 0, _, s => (.stuck, s)
  | fuel + 1, p, s =>
    match advance o p s with
    | (.done a, s) => (.finished a, s)
    | (.crash message, s) => (.crashed message, s)
    | (p, s) =>
      let s := settle o fuel s
      if p.isReady s.world then await limit fuel p s
      else if limit ≤ s.world.elapsed then (.stuck, s)
      else await limit fuel p (passTime o limit s)

/-- Runs a caller's program as a process of its own, then the threads until all wait. A
    program that is given up leaves every line it waits in. -/
def call {α : Type} (p : Nat → Program World α) (s : Simulation) : Program.Ending α × Simulation :=
  let process := s.nextProcess
  let limit := s.world.elapsed + longestCall.nanos
  let (ending, s) := await o limit patience (p process) { s with nextProcess := process + 1 }
  match ending with
  | .stuck => (.stuck, settle o patience (s.change o (·.withdraw process)))
  | ending => (ending, settle o patience s)

/-! ## Locks that a caller keeps -/

/-- Waits for a workspace's lock and keeps it. -/
def takeLock (workspace : String) (s : Simulation) : Program.Ending Unit × Simulation :=
  let process := s.nextProcess
  let (ending, s) := s.call o fun process => Program.requestLock process workspace
  match ending with
  | .finished () => (ending, { s with kept := s.kept.insert workspace process })
  | ending => (ending, s)

/-- Gives a kept lock back and says whether it was kept. -/
def giveLock (workspace : String) (s : Simulation) : Bool × Simulation :=
  match s.kept.get? workspace with
  | none => (false, s)
  | some process =>
    let s := { s with kept := s.kept.erase workspace }
    let s := s.change o fun w => { w with locks := w.locks.release workspace process }
    (true, settle o patience s)

end Simulation

end TaskFleet
