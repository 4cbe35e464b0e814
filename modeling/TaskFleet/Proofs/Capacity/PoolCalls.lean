/-
  TaskFleet.Proofs.Capacity.PoolCalls — runs of the operations of the pool.

  Any number of calls of the operations run at the same time and take their steps in any order,
  while everything but the pods may change as it likes. A step of a call either tidies up, or
  writes one slot in the way of that call.
  - `PoolStep`: all that a single step of each call may do to the pods; `PoolCall.steps`.
  - `PoolRun`: the runs, and `CallRun.invariant`, what such steps keep, also beside something else.
-/

import TaskFleet.Proofs.Capacity.Maintenance
import TaskFleet.Proofs.Traces

namespace TaskFleet

namespace Capacity

variable {c c' : Capacity} {y : Spot} {pod : String} {task now : UInt64} {kind : TaskKind} {cfg : CapacitySettings}
  {w w' : World}

/-! ## Calls -/

/-- The operations of the pool. -/
inductive PoolCall where
  | createPod (pool : AgentPool)
  | deletePod (pod : String)
  | syncPods (pool : AgentPool)
  | reconcile (pool : AgentPool)
  | registerAgent (pod agent : String)
  | heartbeat (pod : String)
  | assign (y : Spot) (task : UInt64) (kind : TaskKind)
  | allocate (pool : String) (task : UInt64) (kind : TaskKind)
  | allocateOnAgent (agent : String) (task : UInt64) (kind : TaskKind)
  | markRunning (y : Spot)
  | reserve (y : Spot) (task : UInt64)
  | release (y : Spot)
  | releaseTask (task : UInt64)
  | reserveTask (task : UInt64)

open Fallible in
/-- A call, whose answer does not matter. -/
def PoolCall.program (cfg : CapacitySettings) : PoolCall → Program World Unit
  | createPod pool => ignoring (Capacity.createPod cfg pool)
  | deletePod pod => ignoring (Capacity.deletePod cfg pod)
  | syncPods pool => ignoring (Capacity.syncPods cfg pool)
  | reconcile pool => ignoring (Capacity.reconcile cfg pool)
  | registerAgent pod agent => ignoring (ofResult (Program.editCapacity (·.registerAgent pod agent ·)))
  | heartbeat pod => ignoring (ofResult (Program.editCapacity (·.heartbeat pod ·)))
  | assign y task kind => ignoring (ofResult (Program.editCapacity (·.assign y.pod y.slot task kind ·)))
  | allocate pool task kind => ignoring (ofResult (Program.onCapacity (·.allocate cfg pool task kind ·)))
  | allocateOnAgent agent task kind => ignoring (ofResult (Program.onCapacity (·.allocateOnAgent agent task kind ·)))
  | markRunning y => ignoring (ofResult (Program.editCapacity (·.markRunning y.pod y.slot ·)))
  | reserve y task => ignoring (ofResult (Program.editCapacity (·.reserve y.pod y.slot task ·)))
  | release y => ignoring (ofResult (Program.editCapacity (·.release y.pod y.slot ·)))
  | releaseTask task => ignoring (Capacity.releaseTask task)
  | reserveTask task => ignoring (Capacity.reserveTask task)

/-- What a single step of a call may do to the pods. -/
inductive PoolStep : PoolCall → Capacity → Capacity → Prop
  | tidy {call : PoolCall} {c c' : Capacity} : Tidies c c' → PoolStep call c c'
  | assign {y : Spot} {task : UInt64} {kind : TaskKind} {c : Capacity} {s : Slot} (now : UInt64) :
      c.slotAt y = some s → s.isIdle = true →
      PoolStep (.assign y task kind) c (c.modifySlot y.pod y.slot (·.bind .reserved task kind now))
  | allocate {pool : String} {task : UInt64} {kind : TaskKind} {c : Capacity} {p : Pod} (y : Spot) (now : UInt64) :
      c.pods.get? y.pod = some p → p.freeSlot? kind = some y.slot →
      PoolStep (.allocate pool task kind) c (c.modifySlot y.pod y.slot (·.bind .reserved task kind now))
  | allocateOnAgent {agent : String} {task : UInt64} {kind : TaskKind} {c : Capacity} {p : Pod} (y : Spot) (now : UInt64) :
      c.pods.get? y.pod = some p → p.freeSlot? kind = some y.slot →
      PoolStep (.allocateOnAgent agent task kind) c (c.modifySlot y.pod y.slot (·.bind .reserved task kind now))
  | markRunning {y : Spot} {c : Capacity} (now : UInt64) :
      PoolStep (.markRunning y) c (c.modifySlot y.pod y.slot (·.markRunning now))
  | reserve {y : Spot} {task : UInt64} {c : Capacity} (now : UInt64) :
      PoolStep (.reserve y task) c (c.modifySlot y.pod y.slot (·.bind .reserved task .planAndApply now))
  /-- The slot is one on which the task was found, but by now another one may be on it. -/
  | reserveTask {task : UInt64} {c : Capacity} (y : Spot) (now : UInt64) :
      PoolStep (.reserveTask task) c (c.modifySlot y.pod y.slot (·.bind .reserved task .planAndApply now))

theorem PoolStep.named {call : PoolCall} (h : PoolStep call c c') (hn : c.Named) : c'.Named := by
  cases h with
  | tidy h => exact h.named hn
  | _ => exact hn.modify _ fun _ => rfl

/-- Pods that are kept under their names stay so, and the step is one of the call's. -/
def StepOf (call : PoolCall) (w w' : World) : Prop := w.capacity.Named → PoolStep call w.capacity w'.capacity

theorem stepOf_samePods {call : PoolCall} (h : w'.capacity.pods = w.capacity.pods) : StepOf call w w' :=
  fun _ => .tidy (tidies_of_sub fun _ _ hp' => h ▸ hp')

theorem maintains_stepOf (call : PoolCall) : Maintains cfg (StepOf call) where
  idle _ := stepOf_samePods rfl
  cluster _ _ := stepOf_samePods rfl
  alarms _ _ := stepOf_samePods rfl
  spendName _ _ := stepOf_samePods rfl
  insert _ name pool createdAt now := fun _ => .tidy (tidies_insertPod (Pod.isNew_fresh name pool.id _ createdAt now))
  remove _ _ _ h := fun _ => .tidy (tidies_removeIdle h)
  takeOver _ pool _ := fun _ => .tidy (tidies_takeOverAll _ pool _ _)
  follow _ pod := fun _ => .tidy (tidies_followTasks _ _ pod _)
  expire _ pool := fun _ => .tidy (tidies_expireReservations _ cfg pool _)

theorem steps_ofResult {α : Type} {call : PoolCall} {p : Program World (Except CapacityError α)}
    (hp : p.Steps (StepOf call)) : (Fallible.ignoring (Fallible.ofResult p)).Steps (StepOf call) :=
  Fallible.steps_ignoring hp

theorem steps_onCapacity {α : Type} {call : PoolCall} {f : Capacity → UInt64 → Except CapacityError (α × Capacity)}
    (hf : ∀ c now a c', c.Named → f c now = .ok (a, c') → PoolStep call c c') :
    (Program.onCapacity f).Steps (StepOf call) := by
  refine Program.steps_apply fun w => ?_
  cases hr : f w.capacity w.now with
  | error e => exact stepOf_samePods rfl
  | ok r => exact fun hn => hf _ _ r.1 r.2 hn hr

theorem steps_editCapacity {call : PoolCall} {f : Capacity → UInt64 → Except CapacityError Capacity}
    (hf : ∀ c now c', c.Named → f c now = .ok c' → PoolStep call c c') : (Program.editCapacity f).Steps (StepOf call) := by
  refine steps_onCapacity fun c now a c' hn h => ?_
  obtain ⟨c₁, hc₁, heq⟩ := Fallible.map_eq_ok_iff.1 h
  cases heq
  exact hf c now _ hn hc₁

/-- Changing what a pod says of its agent, if the pod is there. -/
theorem tidies_of_edit {f : Pod → Pod} (hf : ∀ p, (f p).name = p.name ∧ (f p).pool = p.pool ∧ (f p).slots = p.slots)
    (h : (c.pod? pod >>= fun _ => pure { c with pods := c.pods.modify pod f }) = .ok c') : Tidies c c' := by
  obtain ⟨-, rfl⟩ := edit_ok_iff.1 h
  exact tidies_modify pod fun p _ => Pod.tidied_of_slots (hf p).1 (hf p).2.1 (hf p).2.2

theorem assign_cases (h : c.assign y.pod y.slot task kind now = .ok c') :
    ∃ s, c.slotAt y = some s ∧ s.isIdle = true ∧ c' = c.modifySlot y.pod y.slot (·.bind .reserved task kind now) := by
  unfold assign at h
  cases hp : c.pod? y.pod with
  | error e => rw [hp] at h; cases h
  | ok p =>
    rw [hp] at h
    simp only [bind, Except.bind] at h
    split at h
    · next s hs =>
      by_cases hidle : s.isIdle = true
      · simp only [hidle, if_true] at h
        refine ⟨s, ?_, hidle, (Except.ok.inj h).symm⟩
        unfold slotAt
        rw [pod?_ok_iff.1 hp]
        exact hs
      · simp only [hidle] at h
        cases h
    · cases h

/-- Each call takes only steps of its own. -/
theorem PoolCall.steps (cfg : CapacitySettings) (call : PoolCall) : (call.program cfg).Steps (StepOf call) := by
  cases call with
  | createPod pool => exact Fallible.steps_ignoring (steps_createPod (maintains_stepOf _) pool)
  | deletePod pod => exact Fallible.steps_ignoring (steps_deletePod (maintains_stepOf _) pod)
  | syncPods pool => exact Fallible.steps_ignoring (steps_syncPods (maintains_stepOf _) pool)
  | reconcile pool => exact Fallible.steps_ignoring (steps_reconcile (maintains_stepOf _) pool)
  | registerAgent pod agent =>
    refine steps_ofResult (steps_editCapacity fun c now c' _ h => .tidy ?_)
    exact tidies_of_edit (f := fun p => { p with agent := some agent, lastHeartbeat := now }) (fun _ => ⟨rfl, rfl, rfl⟩) h
  | heartbeat pod =>
    refine steps_ofResult (steps_editCapacity fun c now c' _ h => .tidy ?_)
    exact tidies_of_edit (f := fun p => { p with lastHeartbeat := now }) (fun _ => ⟨rfl, rfl, rfl⟩) h
  | assign y task kind =>
    refine steps_ofResult (steps_editCapacity fun c now c' _ h => ?_)
    obtain ⟨s, hs, hidle, rfl⟩ := assign_cases h
    exact .assign now hs hidle
  | allocate pool task kind =>
    refine steps_ofResult (steps_onCapacity fun c now q c' hn h => ?_)
    obtain ⟨p, hp, hfree, -, rfl⟩ := allocate_cases hn h
    exact .allocate q.spot now hp hfree
  | allocateOnAgent agent task kind =>
    refine steps_ofResult (steps_onCapacity fun c now q c' hn h => ?_)
    obtain ⟨p, hp, hfree, -, -, rfl⟩ := allocateOnAgent_cases hn h
    exact .allocateOnAgent q.spot now hp hfree
  | markRunning y =>
    refine steps_ofResult (steps_editCapacity fun c now c' _ h => ?_)
    rw [setSlot_ok h]
    exact .markRunning now
  | reserve y task =>
    refine steps_ofResult (steps_editCapacity fun c now c' _ h => ?_)
    rw [setSlot_ok h]
    exact .reserve now
  | release y => exact steps_ofResult (steps_editCapacity fun c now c' _ h => .tidy (tidies_release h))
  | releaseTask task =>
    refine Fallible.steps_ignoring (steps_editSlotOf (fun _ => stepOf_samePods rfl) fun p => ?_)
    exact steps_editCapacity fun c now c' _ h => .tidy (tidies_release (y := p.spot) h)
  | reserveTask task =>
    refine Fallible.steps_ignoring (steps_editSlotOf (fun _ => stepOf_samePods rfl) fun p => ?_)
    refine steps_editCapacity fun c now c' _ h => ?_
    rw [setSlot_ok (y := p.spot) h]
    exact .reserveTask p.spot now

/-! ## Runs -/

/-- Everything but the pods may change at any time. -/
def PodsStay (c d : Scene World (List (Step World))) : Prop :=
  d.state.capacity = c.state.capacity ∧ d.memory = c.memory ++ [⟨none, c.state, d.state⟩]

/-- The processes that begin: calls of some kind, with any settings. -/
def Calls (allowed : PoolCall → Prop) (c : Scene World (List (Step World))) (_ : Nat) (p : Program World Unit)
    (d : Scene World (List (Step World))) : Prop :=
  d = c ∧ ∃ call cfg, allowed call ∧ p = PoolCall.program cfg call

/-- Runs of any number of calls, from a world on, with what else happens. -/
abbrev CallRun (outside : Scene World (List (Step World)) → Scene World (List (Step World)) → Prop)
    (allowed : PoolCall → Prop) (first : World) (c : Scene World (List (Step World))) (crew : List (Program World Unit)) :
    Prop :=
  (Discipline.recording World).Run outside (Calls allowed) ⟨first, []⟩ c crew

/-- Runs of any number of calls, from a world on. -/
abbrev PoolRun (allowed : PoolCall → Prop) (first : World) (c : Scene World (List (Step World)))
    (crew : List (Program World Unit)) : Prop :=
  CallRun PodsStay allowed first c crew

variable {outside : Scene World (List (Step World)) → Scene World (List (Step World)) → Prop} {allowed : PoolCall → Prop}
  {first : World} {crew : List (Program World Unit)}

/-- What holds of a pool without pods, and is kept by every step of every call and by what else
    happens, holds in every run from there on. It may depend on the run so far. -/
theorem CallRun.invariant {I : Capacity → List (Step World) → Prop} {c : Scene World (List (Step World))}
    (h : CallRun outside allowed first c crew) (hempty : ∀ name, first.capacity.pods.get? name = none)
    (hfirst : I first.capacity [])
    (hstep : ∀ call e l, allowed call → e.before.capacity.Named → I e.before.capacity l →
      PoolStep call e.before.capacity e.after.capacity → I e.after.capacity (l ++ [e]))
    (hidle : ∀ e l, e.before.capacity.Named → I e.before.capacity l → e.after.capacity = e.before.capacity →
      I e.after.capacity (l ++ [e]))
    (houtside : ∀ c d, outside c d → c.state.capacity.Named → I c.state.capacity c.memory →
      d.state.capacity.Named ∧ I d.state.capacity d.memory) :
    c.state.capacity.Named ∧ I c.state.capacity c.memory := by
  -- a step of a call is one of its own only while the pods are kept under their names
  refine (Discipline.Run.invariant (I := fun c => c.state.capacity.Named ∧ I c.state.capacity c.memory)
    (S := fun w w' => ∃ call, allowed call ∧ StepOf call w w') ?_ ?_ ?_ ?_ ?_ h).1
  · refine ⟨fun name p hp => ?_, hfirst⟩
    rw [hempty] at hp
    cases hp
  · rintro c d ⟨hn, hi⟩ hout
    exact houtside c d hout hn hi
  · rintro c i p d hi ⟨rfl, call, cfg, hallowed, rfl⟩
    exact ⟨hi, (call.steps cfg).mono fun _ _ hs => ⟨call, hallowed, hs⟩⟩
  · rintro c i s' ⟨hn, hi⟩ ⟨call, hallowed, hs⟩
    exact ⟨(hs hn).named hn, hstep call ⟨some i, c.state, s'⟩ c.memory hallowed hn hi (hs hn)⟩
  · rintro c i ⟨hn, hi⟩
    exact ⟨hn, hidle ⟨some i, c.state, c.state⟩ c.memory hn hi rfl⟩

/-- A change beside the pods is a step that leaves the pods alone. -/
theorem PodsStay.keeps {I : Capacity → List (Step World) → Prop} {c d : Scene World (List (Step World))}
    (h : PodsStay c d) (hn : c.state.capacity.Named) (hi : I c.state.capacity c.memory)
    (hidle : ∀ e l, e.before.capacity.Named → I e.before.capacity l → e.after.capacity = e.before.capacity →
      I e.after.capacity (l ++ [e])) : d.state.capacity.Named ∧ I d.state.capacity d.memory := by
  obtain ⟨hsame, hm⟩ := h
  rw [hm]
  exact ⟨hsame ▸ hn, hidle ⟨none, c.state, d.state⟩ c.memory hn hi hsame⟩

/-- One more call, while nobody else takes a step. -/
theorem CallRun.call {m : List (Step World)} (h : CallRun outside allowed first ⟨w, m⟩ crew) (cfg : CapacitySettings)
    (call : PoolCall) (hallowed : allowed call) (hrun : (call.program cfg).run w = (.finished (), w')) :
    ∃ m' crew', CallRun outside allowed first ⟨w', m'⟩ crew' := by
  have hbegun := h.begins ⟨rfl, call, cfg, hallowed, rfl⟩
  obtain ⟨m', hended⟩ := hbegun.alone (i := crew.length) (by simp) hrun
  exact ⟨m', _, hended⟩

end Capacity

end TaskFleet
