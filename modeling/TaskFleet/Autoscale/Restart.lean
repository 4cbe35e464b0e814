/-
  TaskFleet.Autoscale.Restart — when a pod whose agent never registered is replaced.

  A tracker remembers, per pod, how often its line of pods was restarted and when. The
  history follows the replacement. Restarts are spaced by a doubling backoff and end after
  a greatest number of them.
-/

import TaskFleet.Queue.Backoff
import TaskFleet.Table

namespace TaskFleet

structure RestartPolicy where
  /-- How long a pod has for its agent to register. -/
  grace : Duration := .ofSecs 120
  base : Duration := .ofSecs 60
  longest : Duration := .ofSecs 600
  maxRestarts : UInt32 := 5
  deriving DecidableEq, Inhabited

/-- How long to wait after so many restarts. -/
def RestartPolicy.backoff (p : RestartPolicy) (restarts : UInt32) : Duration :=
  if restarts = 0 then .zero else Backoff.delay ⟨p.base, p.longest⟩ (restarts - 1)

/-- The history of a line of pods. -/
structure RestartInfo where
  count : UInt32 := 0
  lastAt : Option UInt64 := none
  firstUnhealthyAt : UInt64
  deriving DecidableEq, Repr

/-- What to do about an unhealthy pod. -/
inductive RestartDecision where
  | restart (attempt : UInt32)
  | backoff (remaining : Duration)
  | giveUp (count : UInt32) (firstUnhealthyAt : UInt64)
  deriving DecidableEq

structure RestartTracker where
  pods : Table RestartInfo := .empty
  deriving DecidableEq, Inhabited

namespace RestartTracker

variable (t : RestartTracker)

def get? (pod : String) : Option RestartInfo := t.pods.get? pod

/-- The history of a pod, one that begins now if there is none. -/
def history (pod : String) (now : UInt64) : RestartInfo := (t.get? pod).getD { firstUnhealthyAt := now }

/-- What a history says at a time. -/
def verdict (policy : RestartPolicy) (h : RestartInfo) (now : UInt64) : RestartDecision :=
  if policy.maxRestarts ≤ h.count then .giveUp h.count h.firstUnhealthyAt
  else
    let wait := (policy.backoff h.count).secs.toNat
    match h.lastAt with
    | some last =>
      let elapsed := now.toNat - last.toNat
      if elapsed < wait then .backoff (.ofSecs (UInt64.ofNat (wait - elapsed))) else .restart (h.count + 1)
    | none => .restart (h.count + 1)

/-- Decides about an unhealthy pod, and begins its history if it has none. -/
def decide (policy : RestartPolicy) (pod : String) (now : UInt64) : RestartDecision × RestartTracker :=
  let h := t.history pod now
  (verdict policy h now, ⟨t.pods.insert pod h⟩)

/-- Records that a pod was deleted and, if that worked, replaced by another. -/
def recordRestart (old : String) (new : Option String) (now : UInt64) : RestartInfo × RestartTracker :=
  let h := t.history old now
  let h := { h with count := h.count + 1, lastAt := some now }
  (h, ⟨(t.pods.erase old).insert (new.getD old) h⟩)

/-- Forgets every pod that is not listed. -/
def retain (live : List String) : RestartTracker := ⟨t.pods.filter fun pod _ => live.contains pod⟩

def clear : RestartTracker := {}

def size : Nat := t.pods.size

end RestartTracker

end TaskFleet
