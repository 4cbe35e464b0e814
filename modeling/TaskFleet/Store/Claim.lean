/-
  TaskFleet.Store.Claim — taking a task to work on it, and taking back claims that ran out.

  A claim moves a task to `running` in one transaction that also checks everything that
  could stand in its way: the status it was seen in, another holder's lease, the hold on
  its workspace, and an earlier exclusive task that is still active. `reclaimExpired` takes
  back the tasks whose lease ran out, one transaction per task after one scan.
-/

import TaskFleet.Store.Query
import TaskFleet.Program

namespace TaskFleet

/-- The answer to a claim. -/
inductive Claim where
  | claimed (task : Task)
  /-- The task is no longer in the expected status. -/
  | moved (status : TaskStatus)
  /-- Another holder's lease is still good. -/
  | leased (holder : String)
  | workspaceLocked
  /-- An earlier exclusive task of the workspace is still active. -/
  | blocked (other : UInt64)
  /-- The lease would end too late for 64 bits; the claimer crashes before it writes. -/
  | tooLong
  deriving DecidableEq, Repr

/-- What a claim asks for. -/
structure ClaimRequest where
  expected : TaskStatus
  holder : String
  leaseSecs : UInt64
  now : UInt64

/-- The lease that a claim asks for, if 64 bits can say when it ends. -/
def ClaimRequest.lease? (r : ClaimRequest) : Option Lease :=
  (sum? r.now r.leaseSecs).map fun expiresAt => ⟨r.holder, r.now, expiresAt⟩

/-- The first active exclusive task of a workspace below an ID; rows from that ID on are
    not read. -/
def earlierExclusive (workspace : String) (id : UInt64) :
    List (String × Row Task) → Except StoreError (Option UInt64)
  | [] => .ok none
  | (_, row) :: rest => do
    let t ← row.read
    if id ≤ t.id then return none
    if t.workspace == workspace && t.isActiveExclusive then return some t.id
    earlierExclusive workspace id rest

namespace Task

/-- Whether another holder's lease stands in the way of a claim. -/
def leasedToOther? (t : Task) (holder : String) (now : UInt64) : Option String :=
  match t.lease with
  | some l => if now < l.expiresAt ∧ l.holder ≠ holder then some l.holder else none
  | none => none

/-- A running task given back: to `applyPending` if it was applying, else to `pending`. -/
def giveBack (t : Task) : Except StoreError Task := do
  let t ←
    if t.stage = some .applying then
      (t.move .applyPending).map fun t => { t with stage := some .applyPending }
    else (t.move .pending).map fun t => { t with stage := none }
  return { t with lease := none, agent := none, startedAt := none }

/-- Whether the task runs on a lease that ran out. -/
def hasExpiredLease (t : Task) (now : UInt64) : Bool :=
  t.status == .running && t.lease.any fun l => l.expiresAt ≤ now

end Task

namespace Store

variable (s : Store)

/-- Tries to take a task; `edit` is applied to a task that was taken. -/
def claimTask (id : UInt64) (r : ClaimRequest) (edit : Task → Task) : Except StoreError (Claim × Store) := do
  let some t ← s.task? id | throw (.notFound (.task id))
  if t.status ≠ r.expected then return (.moved t.status, s)
  if let some holder := t.leasedToOther? r.holder r.now then return (.leased holder, s)
  let some w ← s.workspace? t.workspace | throw (.notFound (.workspace t.workspace))
  if w.isLocked then return (.workspaceLocked, s)
  if t.kind = .planAndApply ∧ r.expected = .pending then
    if let some other ← earlierExclusive t.workspace id s.tasks.rows then return (.blocked other, s)
  let t ← t.move .running
  let some lease := r.lease? | return (.tooLong, s)
  let t := edit { t with lease := some lease }
  return (.claimed t, { s with tasks := s.tasks.insert (taskKey id) (.record t) })

/-- Takes one task back. -/
def reclaim (id : UInt64) : Except StoreError (Task × Store) := s.updateTask id Task.giveBack

end Store

/-- Programs over the store that may fail. -/
abbrev StoreProgram := ExceptT StoreError (Program Store)

namespace StoreProgram

variable {α : Type}

/-- Reads the store in one step. -/
def read (f : Store → Except StoreError α) : StoreProgram α := ExceptT.mk (Program.get f)

/-- One transaction: a failure leaves the store as it was. -/
def transaction (f : Store → Except StoreError (α × Store)) : StoreProgram α :=
  ExceptT.mk <| Program.apply fun s =>
    match f s with
    | .ok (a, s') => (.ok a, s')
    | .error e => (.error e, s)

/-- Takes back each of these tasks; stops at the first failure. -/
def reclaimEach : List Task → StoreProgram (List UInt64)
  | [] => return []
  | t :: ts => do
    let _ ← transaction (·.reclaim t.id)
    return t.id :: (← reclaimEach ts)

/-- Takes back every task whose lease ran out, and lists them. -/
def reclaimExpired (now : UInt64) : StoreProgram (List UInt64) := do
  let expired ← read (·.tasksWhere (·.hasExpiredLease now))
  reclaimEach expired

end StoreProgram

end TaskFleet
