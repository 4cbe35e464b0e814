/-
  TaskFleet.World — everything that the programs of one orchestrator share.

  The world holds the store, the pods, the agents, the queue of workspaces and the locks of
  one process, and the surroundings it works in: the cluster, the executor on this machine
  and two clocks. `clock` is the time of day that records and deadlines are measured by;
  `elapsed` only counts how long programs have waited. Work that is to run beside the
  program that asked for it is noted in `spawned`.
-/

import TaskFleet.Agent.Registry
import TaskFleet.Autoscale.Desired
import TaskFleet.Autoscale.Freeze
import TaskFleet.Capacity.Basic
import TaskFleet.Capacity.Cluster
import TaskFleet.Dispatch.Outcome
import TaskFleet.LocalCommand.Executor
import TaskFleet.Program
import TaskFleet.Queue.Backoff
import TaskFleet.Queue.Retry
import TaskFleet.Store.Claim

namespace TaskFleet

/-! ## Settings -/

structure DispatchSettings where
  backoff : Backoff := ⟨.ofSecs 5, .ofSecs 60⟩
  noAgentsDelay : Duration := .ofSecs 15
  noPoolDelay : Duration := .ofSecs 10
  localTimeout : Duration := .ofSecs 3600
  claimLease : Duration := .ofSecs 60

/-- How one orchestrator is set up. -/
structure Settings where
  dispatch : DispatchSettings := {}
  capacity : CapacitySettings := {}
  scaling : ScalingSettings := {}
  /-- The name under which it claims tasks. -/
  holder : String
  /-- Whether a dispatch that finds no agent asks for pods. -/
  requestsPods : Bool := true

/-! ## Parts of the world -/

/-- The mutual exclusion of mutating tasks: for each workspace the processes that want its
    lock, in the order in which they asked; the first one has it. -/
structure Locks where
  lines : Table (List Nat) := .empty
  deriving DecidableEq, Inhabited

namespace Locks

variable (l : Locks)

def line (workspace : String) : List Nat := (l.lines.get? workspace).getD []

def request (workspace : String) (process : Nat) : Locks :=
  ⟨l.lines.insert workspace (l.line workspace ++ [process])⟩

def holds (workspace : String) (process : Nat) : Bool := (l.line workspace).head? == some process

def release (workspace : String) (process : Nat) : Locks :=
  ⟨l.lines.modify workspace (·.erase process)⟩

/-- Takes a process out of every line. -/
def withdraw (process : Nat) : Locks := ⟨l.lines.mapValues fun _ line => line.filter (· != process)⟩

end Locks

/-- What is told to the outside when a task is over. -/
inductive Hook where
  | runTriggers
  | driftResult
  | inventorySync
  deriving DecidableEq, Repr

def Hook.name : Hook → String
  | runTriggers => "run_triggers"
  | driftResult => "drift_result"
  | inventorySync => "cmdb_sync"

/-- Work that runs beside the program that asked for it. -/
inductive Job where
  /-- Carry out a claimed task on this machine. -/
  | runLocal (task : Task)
  | fireHook (hook : Hook) (task : UInt64)
  /-- Make sure that a pool has pods. -/
  | ensurePods (pool : String)
  /-- Try to start a workspace's next task, as the attempt with this number. -/
  | dispatch (attempt : Nat) (workspace : String)
  /-- Start the apply of a confirmed task, as the attempt with this number. -/
  | confirmedApply (attempt : Nat) (workspace : String) (task : UInt64)
  /-- Hand due workspaces to the workers of a shift, again and again. -/
  | driveQueue (shift : Nat)
  /-- Handle workspaces from the line of a shift, again and again. -/
  | work (shift : Nat)
  /-- Sweep the store, once per interval. -/
  | sweep (shift : Nat) (interval : Duration)
  /-- Scale the pools, once per interval. -/
  | scale (shift : Nat) (interval : Duration)
  /-- Start up, then start the services of a shift. -/
  | startUp (shift : Nat)
  deriving DecidableEq

/-- The line between the queue's driver and its workers. -/
structure WorkerLine where
  /-- Workspaces handed over and not yet taken. -/
  items : List String := []
  room : Nat := 0
  /-- Whether nothing will be handed over any more. -/
  closed : Bool := false
  /-- The workers that wait for a workspace, in the order in which they came. -/
  takers : List Nat := []
  /-- The workers that have not stopped. -/
  workers : Nat := 0
  /-- The workspaces taken by workers, in order. -/
  handled : List String := []
  deriving DecidableEq, Inhabited

/-- One run of services from their start to their stop. -/
structure Shift where
  line : WorkerLine := {}
  /-- The services that have not stopped, the workers in the line apart. -/
  services : Nat := 0
  /-- Whether the services are to stop. -/
  stopping : Bool := false
  deriving DecidableEq, Inhabited

/-- Whether every service of the shift has stopped. -/
def Shift.isOver (s : Shift) : Bool := s.services == 0 && s.line.workers == 0

structure World where
  store : Store := {}
  capacity : Capacity := {}
  registry : Registry := {}
  queue : RetryQueue := {}
  /-- Whether the queue got something to do since its driver last looked. -/
  queueNotified : Bool := false
  locks : Locks := {}
  /-- The restart history of each pool. -/
  trackers : Table RestartTracker := .empty
  cluster : Cluster := {}
  executor : Executor := .commands {}
  /-- Milliseconds since 1970. -/
  clock : UInt64
  /-- Nanoseconds that programs have spent waiting. -/
  elapsed : Nat := 0
  /-- Values of `elapsed` at which somebody wants to go on. -/
  alarms : List Nat := []
  /-- Asked for and not yet begun, the oldest first. -/
  spawned : List Job := []
  /-- Every shift there ever was; a shift is known by its place. -/
  shifts : List Shift := []
  /-- The attempts that run beside the caller, with their results, or with the message of their
      crash, once they have ended. -/
  attempts : List (Option (Except String (Except DispatchError DispatchOutcome))) := []
  /-- The hooks that were fired. -/
  hooks : List (UInt64 × Hook) := []
  /-- If set, the reason why no message of a dispatcher reaches an agent. -/
  sendFault : Option String := none
  /-- If set, the message with which listing the agents crashes. -/
  agentsFault : Option String := none
  deriving Inhabited

namespace World

variable (w : World)

/-- The time of day in seconds. -/
def now : UInt64 := w.clock / 1000

def spawn (job : Job) : World := { w with spawned := w.spawned ++ [job] }

/-- Queues a workspace for a time, and wakes the driver if that changed anything. -/
def scheduleAt (workspace : String) (notBefore : UInt64) : World :=
  let (changed, queue) := w.queue.schedule workspace notBefore
  { w with queue, queueNotified := w.queueNotified || changed }

/-- The time of day after some time, in milliseconds. A delay counts with the low 64 bits of its
    milliseconds; where the sum is too large there is no such time. -/
def after? (delay : Duration) : Option UInt64 := sum? w.clock (UInt64.ofNat delay.millis)

theorem after?_eq_some_iff {delay : Duration} {time : UInt64} :
    w.after? delay = some time ↔ time.toNat = w.clock.toNat + delay.millis % UInt64.size := by
  have hword : (UInt64.ofNat delay.millis).toNat = delay.millis % UInt64.size := UInt64.toNat_ofNat'
  rw [← hword]
  refine ⟨toNat_of_sum?, fun h => sum?_eq_some_iff.2 ⟨h ▸ time.toNat_lt, UInt64.toNat_inj.1 ?_⟩⟩
  rw [UInt64.toNat_add, Nat.mod_eq_of_lt (h ▸ time.toNat_lt), h]

/-- Queues a workspace for now. -/
def trigger (workspace : String) : World := w.scheduleAt workspace w.clock

def triggerAll (workspaces : List String) : World := workspaces.foldl trigger w

def shift (i : Nat) : Shift := w.shifts[i]?.getD { stopping := true }

def modifyShift (i : Nat) (f : Shift → Shift) : World := { w with shifts := w.shifts.modify i f }

/-- Starts an attempt beside the caller, as the job that goes by its number. -/
def startAttempt (job : Nat → Job) : World :=
  { w with attempts := w.attempts ++ [none] }.spawn (job w.attempts.length)

/-- Notes how an attempt ended. -/
def endAttempt (attempt : Nat) (result : Except String (Except DispatchError DispatchOutcome)) : World :=
  { w with attempts := w.attempts.set attempt (some result) }

/-- The number of attempts that have not ended. -/
def openAttempts : Nat := w.attempts.countP Option.isNone

/-- Takes a process out of every line in which it waits or holds a place. -/
def withdraw (process : Nat) : World :=
  { w with
    locks := w.locks.withdraw process
    registry := w.registry.withdraw process }

end World

/-! ## Steps on a part of the world -/

namespace Program

variable {α ε : Type}

/-- Reads the store. -/
def readStore (f : Store → α) : Program World α := get fun w => f w.store

/-- One transaction on the store; a failure leaves it as it was. -/
def transact (f : Store → Except StoreError (α × Store)) : Program World (Except StoreError α) :=
  apply fun w =>
    match f w.store with
    | .ok (a, store) => (.ok a, { w with store })
    | .error e => (.error e, w)

/-- Stores a new task under the next ID; crashes if there is none. -/
def createTask (t : Task) : Program World Task :=
  applyOrCrash sumTooLarge fun w => (w.store.createTask t).map fun (t, store) => (t, { w with store })

/-- Tries to take a task; crashes if the lease would end too late. -/
def claimTask (id : UInt64) (r : ClaimRequest) (edit : Task → Task) : Program World (Except StoreError Claim) := do
  match ← transact (·.claimTask id r edit) with
  | .ok .tooLong => crash sumTooLarge
  | answer => return answer

/-- A program over the store as one over the world. -/
def onStore (p : Program Store α) : Program World α := p.focus (·.store) fun store w => { w with store }

/-- One operation on the pods at the current time; a failure leaves them as they were. -/
def onCapacity (f : Capacity → UInt64 → Except CapacityError (α × Capacity)) :
    Program World (Except CapacityError α) :=
  apply fun w =>
    match f w.capacity w.now with
    | .ok (a, capacity) => (.ok a, { w with capacity })
    | .error e => (.error e, w)

/-- The same for an operation that has no result. -/
def editCapacity (f : Capacity → UInt64 → Except CapacityError Capacity) :
    Program World (Except CapacityError Unit) :=
  onCapacity fun c now => (f c now).map ((), ·)

/-- Queues a workspace for some time from now; crashes if there is no such time. -/
def schedule (workspace : String) (delay : Duration) : Program World Unit :=
  applyOrCrash sumTooLarge fun w => (w.after? delay).map fun notBefore => ((), w.scheduleAt workspace notBefore)

/-- Asks to be woken after a span of time, and gives the time of that. -/
def setAlarm (d : Duration) : Program World Nat :=
  apply fun w => (w.elapsed + d.nanos, { w with alarms := (w.elapsed + d.nanos) :: w.alarms })

/-- Waits until a span of time has passed. -/
def sleep (d : Duration) : Program World Unit := do
  let deadline ← setAlarm d
  waitFor fun w => deadline ≤ w.elapsed

/-- Gets in line for a workspace's lock and waits for it. -/
def requestLock (process : Nat) (workspace : String) : Program World Unit := do
  modify fun w => { w with locks := w.locks.request workspace process }
  waitFor fun w => w.locks.holds workspace process

/-- Runs a program that holds a workspace's lock from its first step to its end, also to an
    end by a crash. -/
def withLock (process : Nat) (workspace : String) (p : Program World α) : Program World α := do
  requestLock process workspace
  p.andFinally (modify fun w => { w with locks := w.locks.release workspace process })

end Program

end TaskFleet
