/-
  TaskFleet.Proofs.Dispatch.AdministrativeHold — nothing starts in a workspace that is on hold.

  Jobs of any number of orchestrators interleave with operators, executors and whoever else
  changes rows, and the hold on a workspace may come and go between any two steps. Attempts look
  at the hold before they choose a task, but only the claim looks at it in the transaction that
  starts the task, so the claim is what the rule rests on.
  - `Respected`: the history so far, and that no step of it starts a task of a held workspace.
  - `run_tryDispatch_onHold`, `run_executeConfirmedApply_onHold`: an attempt that begins during a
    hold looks and goes.
  - `holds_are_respected`: every step of every run, and every attempt during a hold.
-/

import TaskFleet.Proofs.Dispatch.Writes
import TaskFleet.Proofs.Traces

namespace TaskFleet.Hold

open Fallible Store Dispatch Discipline

variable {cfg : Settings} {w : World} {i : Nat}

/-- The run so far, with every step that was taken. -/
abbrev History := Scene World (List (Step World))

/-- The steps lead from the first state to the present one, and every task that started in one
    of them did so while its workspace was not on hold. -/
structure Respected (first : World) (c : History) : Prop where
  chain : Chain first c.memory c.state
  unheld : ∀ e ∈ c.memory, StartsUnheld e.before.store e.after.store

theorem Respected.snoc {first : World} {c : History} (h : Respected first c) {w : World} (p : Option Nat)
    (hw : StartsUnheld c.state.store w.store) : Respected first ⟨w, c.memory ++ [⟨p, c.state, w⟩]⟩ where
  chain := h.chain.append ⟨rfl, rfl⟩
  unheld := by
    intro e he
    rcases List.mem_append.1 he with he | he
    · exact h.unheld e he
    · rw [List.mem_singleton.1 he]; exact hw

/-- Everybody keeps to the rule, whatever the others do. -/
def hold (first : World) : Discipline World (List (Step World)) :=
  traced (Respected first) (fun _ _ => True) (fun i _ h => h.snoc (some i) (startsUnheld_of_tasks rfl)) fun _ _ _ => trivial

/-! ## Runs -/

/-- What happens beside the processes: operators submit and confirm, executors and other
    orchestrators change and claim rows, and everything but the tasks, the holds among it, may
    change at any time. -/
inductive HoldEvent (w : World) : World → Prop
  | create {t' : Task} {s' : Store} (t : Task) : t.status ≠ .running →
      w.store.createTask t = some (t', s') → HoldEvent w { w with store := s' }
  | confirm {t' : Task} {s' : Store} (task : UInt64) (user : String) (now : UInt64) :
      w.store.confirmApply task user now = .ok (t', s') → HoldEvent w { w with store := s' }
  | change {t' : Task} {s' : Store} (task : UInt64) (change : Task → Except StoreError Task) :
      (∀ t t', change t = .ok t' → t'.status = .running → t.status = .running) →
      w.store.updateTask task change = .ok (t', s') → HoldEvent w { w with store := s' }
  | claim {answer : Claim} {s' : Store} (task : UInt64) (r : ClaimRequest) (edit : Task → Task) :
      (∀ t, (edit t).workspace = t.workspace) →
      w.store.claimTask task r edit = .ok (answer, s') → HoldEvent w { w with store := s' }
  | surroundings (w' : World) : w'.store.tasks = w.store.tasks → HoldEvent w w'

def OutsideHold (c d : History) : Prop := HoldEvent c.state d.state ∧ d.memory = c.memory ++ [⟨none, c.state, d.state⟩]

/-- The processes that begin: the jobs of an orchestrator, turn by turn, and the calls that it
    serves. -/
inductive BeginsUnderHold (c : History) (process : Nat) : Program World Unit → History → Prop
  | turn (o : Orchestrator) (job : Job) : BeginsUnderHold c process (do let _ ← o.turn process job) c
  | submit (t : Task) : t.status ≠ .running → BeginsUnderHold c process (do let _ ← Orchestrator.submit t) c
  | confirm (o : Orchestrator) (task : UInt64) (user : String) :
      BeginsUnderHold c process (ignoring (o.confirm process task user)) c
  | dispatch (cfg : Settings) (workspace : String) :
      BeginsUnderHold c process (ignoring (tryDispatch cfg process workspace)) c
  | apply (cfg : Settings) (workspace : String) (task : UInt64) :
      BeginsUnderHold c process (ignoring (executeConfirmedApply cfg process workspace task)) c
  | completed (task : UInt64) : BeginsUnderHold c process (ignoring (onTaskCompleted task)) c
  | sweep (now : UInt64) : BeginsUnderHold c process (ignoring (Recovery.sweep now)) c
  | recover : BeginsUnderHold c process (ignoring Recovery.recover) c

theorem HoldEvent.startsUnheld {w w' : World} (h : HoldEvent w w') : StartsUnheld w.store w'.store := by
  cases h with
  | create t ht h => exact startsUnheld_createTask ht h
  | confirm task user now h => exact startsUnheld_confirmApply h
  | change task change hchange h =>
    obtain ⟨t, ht, hc, rfl⟩ := updateTask_ok_iff.1 h
    exact startsUnheld_insert fun hr => .inl ⟨t, get?_of_task? ht, hchange _ _ hc hr⟩
  | claim task r edit hedit h => exact startsUnheld_claimTask hedit h
  | surroundings w' h => exact startsUnheld_of_tasks h

/-! ## What processes do -/

/-- No step starts a task of a workspace on hold. -/
def Unheld (w w' : World) : Prop := StartsUnheld w.store w'.store

theorem unheld_writes {α : Type} {p : Program World α} (hp : p.Steps Writes) : p.Steps Unheld :=
  hp.mono fun _ _ h => h.startsUnheld

theorem unheld_store {s : Store} (h : StartsUnheld w.store s) : Unheld w { w with store := s } := h

theorem unheld_transact {α : Type} {f : Store → Except StoreError (α × Store)}
    (hf : ∀ s a s', f s = .ok (a, s') → StartsUnheld s s') : (Program.transact f).Steps Unheld := by
  refine Program.steps_apply fun w => ?_
  cases hr : f w.store with
  | ok r => exact unheld_store (hf _ r.1 r.2 hr)
  | error e => exact startsUnheld_of_tasks rfl

theorem unheld_submit {t : Task} (ht : t.status ≠ .running) : (Orchestrator.submit t).Steps Unheld := by
  refine .bind (Program.steps_createTask (fun w => startsUnheld_of_tasks rfl) fun w t' s' h =>
    startsUnheld_createTask ht h) fun t => ?_
  exact .bind (Program.steps_modify fun w => startsUnheld_of_tasks rfl) fun _ => Program.steps_pure _

theorem unheld_confirm (o : Orchestrator) (process : Nat) (task : UInt64) (user : String) :
    (o.confirm process task user).run.Steps Unheld := by
  refine steps_bind (.map _ (.bind (unheld_writes (writes_aside (steps_read _))) fun now => ?_)) fun t => ?_
  · exact unheld_transact fun s t s' h => startsUnheld_confirmApply h
  · exact unheld_writes (writes_executeConfirmedApply process t.workspace task)

theorem BeginsUnderHold.steps {c d : History} {p : Program World Unit} (h : BeginsUnderHold c i p d) :
    d = c ∧ p.Steps Unheld := by
  cases h with
  | turn o job => exact ⟨rfl, .bind (unheld_writes (o.writes_turn i job)) fun _ => trivial⟩
  | submit t ht => exact ⟨rfl, .bind (unheld_submit ht) fun _ => trivial⟩
  | confirm o task user => exact ⟨rfl, steps_ignoring (unheld_confirm o i task user)⟩
  | dispatch cfg workspace => exact ⟨rfl, steps_ignoring (unheld_writes (writes_tryDispatch i workspace))⟩
  | apply cfg workspace task => exact ⟨rfl, steps_ignoring (unheld_writes (writes_executeConfirmedApply i workspace task))⟩
  | completed task => exact ⟨rfl, steps_ignoring (unheld_writes (writes_tidy (tidy_onTaskCompleted task)))⟩
  | sweep now => exact ⟨rfl, steps_ignoring (unheld_writes (writes_tidy (tidy_sweep now)))⟩
  | recover => exact ⟨rfl, steps_ignoring (unheld_writes (writes_tidy tidy_recover))⟩

theorem keeping (first : World) : (hold first).Keeping OutsideHold BeginsUnderHold ⟨first, []⟩ fun _ _ _ => True where
  first := ⟨rfl, fun e he => by cases he⟩
  outside := by
    rintro c ⟨w, m⟩ hi ⟨hevent, hm⟩
    have hm : m = c.memory ++ [⟨none, c.state, w⟩] := hm
    subst hm
    exact ⟨hi.snoc none hevent.startsUnheld, fun j => ⟨_, rfl, ⟨rfl, rfl⟩, fun _ _ => trivial⟩⟩
  begins := by
    intro c i p d hi h
    obtain ⟨rfl, hp⟩ := h.steps
    refine ⟨⟨hi, fun j _ => (hold first).rely_refl j d⟩, ?_⟩
    have hkept := Ensures.of_steps (D := hold first) (i := i) (F := fun _ => True) hp (fun _ _ _ _ => trivial)
      (fun c act hi _ hstep => ⟨⟨hi.snoc (some i) hstep, fun j _ => ⟨_, rfl, ⟨rfl, rfl⟩, fun _ _ => trivial⟩⟩, trivial⟩)
      (c := d) trivial
    exact hkept

/-! ## Attempts during a hold -/

variable {process : Nat} {workspace : String} {ws : Workspace}

theorem sees_hold (hws : w.store.workspace? workspace = .ok (some ws)) (hlocked : ws.isLocked = true) :
    (w.store.workspace? workspace).map (fun ws => ws.any (·.isLocked)) = .ok true := by
  rw [hws]
  exact congrArg Except.ok hlocked

theorem run_tryDispatch_onHold (hws : w.store.workspace? workspace = .ok (some ws)) (hlocked : ws.isLocked = true) :
    (tryDispatch cfg process workspace).run.run w = (.finished (.ok .idle), w) := by
  refine run_guarded ?_
  unfold dispatchNextBy
  exact (run_look_bind _ (sees_hold hws hlocked)).trans rfl

theorem run_executeConfirmedApply_onHold {task : UInt64} {t : Task} (hws : w.store.workspace? workspace = .ok (some ws))
    (hlocked : ws.isLocked = true) (ht : w.store.task? task = .ok (some t)) (hr : refusal workspace task t = none) :
    (executeConfirmedApply cfg process workspace task).run.run w = (.finished (.ok .idle), w) := by
  unfold executeConfirmedApply executeConfirmedApplyBy
  rw [confirmedTask_eq, bind_assoc, run_look_bind _ ht]
  simp only [hr, pure_bind]
  exact (run_look_bind _ (sees_hold hws hlocked)).trans rfl

/-- In every run, every step that starts a task finds the task's workspace there and not on
    hold. An attempt that begins while its workspace is on hold is idle and changes nothing,
    also one to start a confirmed apply. -/
theorem holds_are_respected :
    (∀ (first : World) (c : History) (crew : List (Program World Unit)),
      (hold first).Run OutsideHold BeginsUnderHold ⟨first, []⟩ c crew →
      Chain first c.memory c.state ∧ ∀ e ∈ c.memory, StartsUnheld e.before.store e.after.store) ∧
    ∀ (cfg : Settings) (process : Nat) (workspace : String) (w : World) (ws : Workspace),
      w.store.workspace? workspace = .ok (some ws) → ws.isLocked = true →
      (tryDispatch cfg process workspace).run.run w = (.finished (.ok .idle), w) ∧
      ∀ task t, w.store.task? task = .ok (some t) → t.workspace = workspace → t.status = .applyPending →
        t.isApplyConfirmed = true →
        (executeConfirmedApply cfg process workspace task).run.run w = (.finished (.ok .idle), w) := by
  refine ⟨fun first c crew hrun => ?_, fun cfg process workspace w ws hws hlocked => ⟨?_, ?_⟩⟩
  · have hi := (hrun.sound (keeping first)).1
    exact ⟨hi.chain, hi.unheld⟩
  · exact run_tryDispatch_onHold hws hlocked
  · intro task t ht hw hst hconf
    exact run_executeConfirmedApply_onHold hws hlocked ht (by simp [refusal, hw, hst, hconf])

/-! ## A hold that comes between the choice and the claim -/

/-- A plan that is to start on this machine. -/
def planDue : World where
  store := ((({} : Store).putWorkspace { id := "ws", mode := .onHost }).addTask (.submitted "ws" .plan 0 .manual) 1).2
  clock := 0

/-- The workspace is put on hold. -/
def onHold (w : World) : World :=
  { w with store := w.store.putWorkspace { id := "ws", mode := .onHost, isLocked := true } }

/-- The task waits for its apply, which is confirmed. -/
def applyDue (w : World) : World :=
  { w with
    store := w.store.setTask { Task.submitted "ws" .planAndApply 0 .manual with
      id := 1, status := .applyPending, confirmedBy := some "alice", confirmedAt := some 0 } }

theorem holds_are_respected_late_hold :
    ∃ c crew t, (hold planDue).Run OutsideHold BeginsUnderHold ⟨planDue, []⟩ c crew ∧ crew[0]? = some (.done ()) ∧
      c.state.store.task? 1 = .ok (some t) ∧ t.status = .pending ∧
      (Chain planDue c.memory c.state ∧ ∀ e ∈ c.memory, StartsUnheld e.before.store e.after.store) ∧
      (tryDispatch { holder := "a" } 0 "ws").run.run c.state = (.finished (.ok .idle), c.state) ∧
      (executeConfirmedApply { holder := "a" } 0 "ws" 1).run.run (applyDue c.state) =
        (.finished (.ok .idle), applyDue c.state) := by
  have hstart : (hold planDue).Run OutsideHold BeginsUnderHold ⟨planDue, []⟩ ⟨planDue, []⟩ [] := .start
  have hbegun := hstart.begins (.dispatch { holder := "a" } "ws")
  -- the attempt has chosen the task and stands before its claim
  obtain ⟨m, hchosen⟩ := hbegun.advance (i := 0) rfl 5
  have hheld := hchosen.outside (d := ⟨onHold planDue, m ++ [⟨none, planDue, onHold planDue⟩]⟩)
    ⟨.surroundings _ rfl, rfl⟩
  obtain ⟨m', hended⟩ := hheld.alone (i := 0) rfl rfl
  obtain ⟨hnext, -⟩ := holds_are_respected.2 { holder := "a" } 0 "ws" (onHold planDue)
    { id := "ws", mode := .onHost, isLocked := true } rfl rfl
  obtain ⟨-, hconfirmed⟩ := holds_are_respected.2 { holder := "a" } 0 "ws" (applyDue (onHold planDue))
    { id := "ws", mode := .onHost, isLocked := true } rfl rfl
  exact ⟨_, _, _, hended, rfl, rfl, rfl, holds_are_respected.1 _ _ _ hended, hnext, hconfirmed 1 _ rfl rfl rfl rfl⟩

end TaskFleet.Hold
