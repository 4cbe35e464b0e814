/-
  TaskFleet.Capacity.Cluster — the cluster that pods run on, as the pool sees it.

  Each call may be answered, refused or never answered (`CallFault`); a call that is never
  answered has no effect. A pod may finish or vanish without the pool's doing.
-/

import TaskFleet.Table

namespace TaskFleet

inductive PodPhase where
  | pending
  | running
  | succeeded
  | failed
  deriving DecidableEq, Repr, Inhabited

/-- Whether a pod in this phase will never run again. -/
def PodPhase.isFinished : PodPhase → Bool
  | succeeded | failed => true
  | pending | running => false

/-- A pod as the cluster reports it. -/
structure ObservedPod where
  name : String
  pool : String
  phase : PodPhase
  createdAt : UInt64
  deriving DecidableEq, Repr, Inhabited

/-- What goes wrong with calls of one kind. -/
inductive CallFault where
  | refused
  | unanswered
  deriving DecidableEq, Repr

/-- The answer to a call. -/
inductive CallAnswer (α : Type) where
  | ok (result : α)
  | refused (reason : String)
  | unanswered
  deriving DecidableEq, Repr

/-- The cluster's pods and its present faults. -/
structure Cluster where
  pods : Table ObservedPod := .empty
  /-- Whether new pods are rejected. -/
  rejectsPods : Bool := false
  createFault : Option CallFault := none
  deleteFault : Option CallFault := none
  listFault : Option CallFault := none
  deriving DecidableEq, Inhabited

namespace Cluster

variable (c : Cluster) {α : Type}

/-- A call under a fault: the fault's answer, or `answer` and the cluster after it. -/
def faulty (fault : Option CallFault) (name : String) (answer : CallAnswer α × Cluster) :
    CallAnswer α × Cluster :=
  match fault with
  | none => answer
  | some .refused => (.refused s!"{name} refused", c)
  | some .unanswered => (.unanswered, c)

def insert (p : ObservedPod) : Cluster := { c with pods := c.pods.insert p.name p }

def remove (pod : String) : Cluster := { c with pods := c.pods.erase pod }

def setPhase (pod : String) (phase : PodPhase) : Cluster :=
  { c with pods := c.pods.modify pod fun p => { p with phase } }

/-- Starts a pod. -/
def create (pool pod : String) (createdAt : UInt64) : CallAnswer Unit × Cluster :=
  c.faulty c.createFault "create" <|
    if c.rejectsPods then (.refused s!"pod creation rejected for pool {pool}", c)
    else (.ok (), c.insert { name := pod, pool, phase := .running, createdAt })

/-- Deletes a pod; deleting one that is not there is no failure. -/
def delete (pod : String) : CallAnswer Unit × Cluster :=
  c.faulty c.deleteFault "delete" (.ok (), c.remove pod)

/-- The pods of a pool, in name order. -/
def list (pool : String) : CallAnswer (List ObservedPod) :=
  (c.faulty c.listFault "list" (.ok (c.pods.values.filter (·.pool == pool)), c)).1

end Cluster

end TaskFleet
