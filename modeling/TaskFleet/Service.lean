/-
  TaskFleet.Service — the loops of a running orchestrator, as one turn of each.

  A turn says whether there is another. The queue's driver takes out the workspaces that are
  due and hands them to the workers through a line with limited room; a worker handles one
  workspace per turn. Once told to stop, the driver hands nothing over any more, and each
  worker stops when the line is empty.
-/

import TaskFleet.Autoscale.Cycle
import TaskFleet.Dispatch.Attempt
import TaskFleet.Recovery

namespace TaskFleet

namespace WorkerLine

/-- A line for so many workers, with room for four workspaces for each. -/
def forWorkers (n : Nat) : WorkerLine := { room := 4 * n, workers := n }

def hasRoom (l : WorkerLine) : Bool := l.items.length < l.room

/-- Whether a waiting worker may go on: it is first, and there is work or will be none. -/
def hasTurn (l : WorkerLine) (worker : Nat) : Bool :=
  l.takers.head? == some worker && (!l.items.isEmpty || l.closed)

/-- A worker's turn: the next workspace, or its end. -/
def take (l : WorkerLine) (worker : Nat) : Option String × WorkerLine :=
  let l := { l with takers := l.takers.erase worker }
  match l.items with
  | ws :: rest => (some ws, { l with items := rest, handled := l.handled ++ [ws] })
  | [] => (none, { l with workers := l.workers - 1 })

end WorkerLine

namespace Service

open Fallible

variable (cfg : Settings) (process shift : Nat)

/-! ## The queue -/

/-- The longest time in milliseconds that the driver rests. -/
def longestRest : Nat := 1000

/-- How long the driver may rest. -/
def restFor (w : World) : Duration :=
  .ofNanos (1000000 *
    match w.queue.nextDeadline? with
    | some deadline => min (deadline.toNat - w.clock.toNat) longestRest
    | none => longestRest)

/-- Hands a workspace to the workers. -/
def handOver (workspace : String) : Program World Unit := do
  Program.waitFor fun w => (w.shift shift).line.hasRoom
  Program.modify (·.modifyShift shift fun s => { s with line.items := s.line.items ++ [workspace] })

/-- Takes everything that is due out of the queue. -/
def takeDue : Program World (List String) :=
  Program.apply fun w =>
    let (due, queue) := w.queue.popDue w.clock
    (due, { w with queue })

/-- One turn of the queue's driver. -/
def driverTurn : Program World Bool := do
  Program.forEach (handOver shift) (← takeDue)
  let rest ← Program.get restFor
  let deadline ← Program.setAlarm rest
  Program.waitFor fun w => (w.shift shift).stopping || w.queueNotified || deadline ≤ w.elapsed
  Program.apply fun w =>
    if (w.shift shift).stopping then
      (false, w.modifyShift shift fun s => { s with line.closed := true, services := s.services - 1 })
    else (true, { w with queueNotified := false })

/-- A worker's next workspace from the line; none once there will be no more. -/
def nextInLine : Program World (Option String) := do
  Program.modify (·.modifyShift shift fun s => { s with line.takers := s.line.takers ++ [process] })
  Program.waitFor fun w => (w.shift shift).line.hasTurn process
  Program.apply fun w =>
    let (next, line) := (w.shift shift).line.take process
    (next, w.modifyShift shift fun s => { s with line })

/-- One turn of a worker that handles its workspaces like this. -/
def workerTurnBy (handle : String → Program World Unit) : Program World Bool := do
  match ← nextInLine process shift with
  | none => return false
  | some workspace =>
    handle workspace
    return true

/-- One turn of a worker, which tries to start the next task of its workspace. -/
def workerTurn : Program World Bool :=
  workerTurnBy process shift fun workspace => ignoring (Dispatch.tryDispatch cfg process workspace)

/-! ## Periodic services -/

/-- A service of a shift has stopped. -/
def leave : Program World Unit :=
  Program.modify (·.modifyShift shift fun s => { s with services := s.services - 1 })

/-- One turn of a service that does something once per interval. A turn that is due is taken
    even if the service is to stop. -/
def periodicTurn (interval : Duration) (p : Program World Unit) : Program World Bool := do
  let deadline ← Program.setAlarm interval
  Program.waitFor fun w => (w.shift shift).stopping || deadline ≤ w.elapsed
  if ← Program.get fun w => decide (deadline ≤ w.elapsed) then
    p
    return true
  else
    leave shift
    return false

def sweeperTurn (interval : Duration) : Program World Bool :=
  periodicTurn shift interval do
    let now ← Program.get (·.now)
    ignoring (Recovery.sweep now)

def scalerTurn (interval : Duration) : Program World Bool :=
  periodicTurn shift interval (ignoring (Autoscale.cycle cfg))

/-! ## Starting and stopping -/

/-- Opens a shift without services. -/
def openShift : Program World Nat := Program.apply fun w => (w.shifts.length, { w with shifts := w.shifts ++ [{}] })

/-- Starts the queue's driver and its workers, at least one. -/
def startQueue (workers : Nat) : Program World Unit :=
  Program.modify fun w =>
    let n := max workers 1
    let w := w.modifyShift shift fun s => { s with line := .forWorkers n, services := s.services + 1 }
    { w with spawned := w.spawned ++ .driveQueue shift :: List.replicate n (.work shift) }

/-- Starts one service. -/
def start (job : Job) : Program World Unit :=
  Program.modify fun w => (w.modifyShift shift fun s => { s with services := s.services + 1 }).spawn job

/-- Tells the services to stop and waits for their end. -/
def stop : Program World Unit := do
  Program.modify (·.modifyShift shift fun s => { s with stopping := true })
  Program.waitFor fun w => (w.shift shift).isOver

/-- Starts services, lets them work for some time and stops them; gives the workspaces that
    their workers handled. -/
def runFor (d : Duration) (starting : Nat → Program World Unit) : Program World (List String) := do
  let shift ← openShift
  starting shift
  Program.sleep d
  stop shift
  Program.get fun w => (w.shift shift).line.handled

/-- Runs the queue for some time. -/
def runQueue (workers : Nat) (d : Duration) : Program World (List String) := runFor d (startQueue · workers)

/-- Sweeps once per interval for some time. -/
def runSweeper (interval d : Duration) : Program World Unit := do
  let _ ← runFor d fun shift => start shift (.sweep shift interval)

/-- Scales the pools once per interval for some time. -/
def runScaler (interval d : Duration) : Program World Unit := do
  let _ ← runFor d fun shift => start shift (.scale shift interval)

end Service

end TaskFleet
