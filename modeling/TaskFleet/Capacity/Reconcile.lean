/-
  TaskFleet.Capacity.Reconcile — starting and deleting pods, and bringing the pods under
  management in line with the cluster and the store.

  A call to the cluster that is not answered in time fails. Reconciliation first takes over
  the cluster's list of pods, then frees the slots of tasks that are over or gone, then
  lets reservations run out.
-/

import TaskFleet.World

namespace TaskFleet

/-- Programs over the world that may fail. -/
abbrev Fallible (ε α : Type) := ExceptT ε (Program World) α

namespace Fallible

variable {ε α : Type}

/-- A program that cannot fail. -/
def always (p : Program World α) : Fallible ε α := ExceptT.lift p

/-- A program that fails with its result. -/
def ofResult (p : Program World (Except ε α)) : Fallible ε α := ExceptT.mk p

/-- The program without its failure. -/
def ignoring (p : Fallible ε α) : Program World Unit := do
  let _ ← p.run

end Fallible

/-- Does something for each element, in order. -/
def Program.forEach {σ α : Type} (p : α → Program σ Unit) : List α → Program σ Unit
  | [] => return
  | a :: r => do
    p a
    forEach p r

/-! ## What reconciliation does to the pods -/

namespace Slot

/-- A slot after a look at its task: it stays with a task that runs, is kept for one that
    waits for its apply, and stays with a pending task only while a dispatch has it reserved. -/
def followTask (s : Slot) (status : Option TaskStatus) (now : UInt64) : Slot :=
  match status with
  | some .running => s
  | some .applyPending => if s.status = .reserved then s else { s with status := .reserved, updatedAt := now }
  | some .pending => if s.status = .reserved then s else s.clear now
  | _ => s.clear now

/-- A slot after its reservation, if it has one, had time to run out. -/
def expire (s : Slot) (ttlSecs now : UInt64) : Slot :=
  if s.status = .reserved ∧ ttlSecs.toNat < now.toNat - s.updatedAt.toNat then s.clear now else s

/-- The slots after a look at each one's task; stops at a row that cannot be read. -/
def followTasks (store : Store) (now : UInt64) : List Slot → Except StoreError Unit × List Slot
  | [] => (.ok (), [])
  | s :: rest =>
    match s.task with
    | none => (followTasks store now rest).map id (s :: ·)
    | some task =>
      match store.task? task with
      | .error e => (.error e, s :: rest)
      | .ok t => (followTasks store now rest).map id (s.followTask (t.map (·.status)) now :: ·)

end Slot

namespace Capacity

variable (c : Capacity)

/-- Takes over one pod that the cluster lists as not finished. -/
def takeOver (pool : AgentPool) (now : UInt64) (o : ObservedPod) : Capacity :=
  if c.pods.contains o.name then
    { c with pods := c.pods.modify o.name fun p => { p with lastHeartbeat := now } }
  else c.insertPod (.fresh o.name pool.id pool.slotsPerPod o.createdAt now)

/-- The pods after the cluster listed a pool's pods. -/
def takeOverAll (pool : AgentPool) (now : UInt64) (observed : List ObservedPod) : Capacity :=
  let live := observed.filter fun o => !o.phase.isFinished
  let c := live.foldl (takeOver · pool now) c
  { c with pods := c.pods.filter fun name p => p.pool != pool.id || live.any (·.name == name) }

/-- Looks after the tasks on one pod's slots. -/
def followTasks (store : Store) (pod : String) (now : UInt64) : Except StoreError Unit × Capacity :=
  match c.pods.get? pod with
  | none => (.ok (), c)
  | some p =>
    let (result, slots) := Slot.followTasks store now p.slots
    (result, { c with pods := c.pods.modify pod fun p => { p with slots } })

/-- Lets the reservations of a pool run out. -/
def expireReservations (cfg : CapacitySettings) (pool : String) (now : UInt64) : Capacity :=
  { c with
    pods := c.pods.mapValues fun _ p =>
      if p.pool = pool then { p with slots := p.slots.map (·.expire cfg.reservationTtlSecs now) } else p }

end Capacity

/-! ## Programs -/

namespace Capacity

open Fallible

/-- Finds the slot of a task, then changes that slot, whatever is on it by then; says whether
    the task had one. -/
def editSlotOf (task : UInt64) (f : Placement → Capacity → UInt64 → Except CapacityError Capacity) :
    Fallible CapacityError Bool := do
  match ← always (Program.get fun w => w.capacity.placementOf? task) with
  | none => return false
  | some place =>
    ofResult <| Program.editCapacity (f place)
    return true

/-- Frees the slot of a task and says whether it had one. -/
def releaseTask (task : UInt64) : Fallible CapacityError Bool :=
  editSlotOf task fun place c now => c.release place.pod place.slot now

/-- Keeps the slot of a task whose apply waits, and says whether it had one. -/
def reserveTask (task : UInt64) : Fallible CapacityError Bool :=
  editSlotOf task fun place c now => c.reserve place.pod place.slot task now

variable (cfg : CapacitySettings)

/-- The outcome of a call to the cluster; without an answer it takes as long as the timeout. -/
def outcome {α : Type} (call : String) : CallAnswer α → Fallible CapacityError α
  | .ok a => return a
  | .refused reason => throw (.backend reason)
  | .unanswered => do
    always (Program.sleep cfg.backendTimeout)
    throw (.timeout call)

/-- A call to the cluster. -/
def call {α : Type} (name : String) (f : Cluster → CallAnswer α × Cluster) : Fallible CapacityError α := do
  let answer ← always <| Program.apply fun w =>
    let (answer, cluster) := f w.cluster
    (answer, { w with cluster })
  outcome cfg name answer

/-- Starts a pod and takes it under management. -/
def createPod (pool : AgentPool) : Fallible CapacityError Pod := do
  let (name, now) ← always <| Program.apply fun w =>
    let (name, capacity) := w.capacity.nextName pool.id w.now
    ((name, w.now), { w with capacity })
  call cfg "create_pod" (·.create pool.id name now)
  let pod := Pod.fresh name pool.id pool.slotsPerPod now now
  always <| Program.modify fun w => { w with capacity := w.capacity.insertPod pod }
  return pod

/-- Gives up a pod with nothing on it, then deletes it. -/
def deletePod (pod : String) : Fallible CapacityError Unit := do
  ofResult <| Program.editCapacity fun c _ => c.removeIdle pod
  call cfg "delete_pod" (·.delete pod)

/-- Takes over the cluster's list of a pool's pods and deletes the finished ones. -/
def syncPods (pool : AgentPool) : Fallible CapacityError Unit := do
  let observed ← call cfg "list_pods" fun cluster => (cluster.list pool.id, cluster)
  always <| Program.modify fun w => { w with capacity := w.capacity.takeOverAll pool w.now observed }
  let finished := (observed.filter (·.phase.isFinished)).map (·.name)
  always <| Program.forEach (fun pod => ignoring (call cfg "delete_pod" (·.delete pod))) finished

/-- Looks after the tasks on the slots of these pods; stops at a row that cannot be read. -/
def followTasksOn : List String → Fallible StoreError Unit
  | [] => return
  | pod :: rest => do
    ofResult <| Program.apply fun w =>
      let (result, capacity) := w.capacity.followTasks w.store pod w.now
      (result, { w with capacity })
    followTasksOn rest

/-- Brings a pool's pods in line with the cluster and the store. -/
def reconcile (pool : AgentPool) : Fallible CapacityError Unit := do
  syncPods cfg pool
  let pods ← always <| Program.get fun w => (w.capacity.podsIn pool.id).map (·.name)
  always <| ignoring (followTasksOn pods)
  always <| Program.modify fun w =>
    { w with capacity := w.capacity.expireReservations cfg pool.id w.now }

end Capacity

end TaskFleet
