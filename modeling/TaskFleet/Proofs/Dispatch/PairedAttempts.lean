/-
  TaskFleet.Proofs.Dispatch.PairedAttempts — attempts side by side.

  An attempt chooses a task and starts it. Here how a task is started is a parameter, so that two
  attempts can be compared that choose alike and start in different ways, or in different worlds.
  - `Agrees`: worlds in which an attempt on the workspace reads the same up to the choice.
  - `pairs_tryDispatchBy`, `pairs_executeConfirmedApplyBy`: from such worlds attempts end alike if
    the starts of the chosen task do.
  - `Agent.pairs_sendTask`: sending, in worlds with the same agents.
-/

import TaskFleet.Proofs.Dispatch.SlotLeaks
import TaskFleet.Proofs.Pairs

namespace TaskFleet

/-! ## Sending -/

namespace Agent

open Fallible Program

variable {P : World → World → Prop}

/-- A send looks at the connections and at the disturbance, and changes the connections. -/
theorem pairs_sendTask (process : Nat) (agent : String) (m : AgentMessage)
    (hsame : ∀ s t, P s t → s.registry = t.registry ∧ s.sendFault = t.sendFault)
    (hregistry : ∀ s t registry, P s t → P { s with registry } { t with registry }) :
    Pairs P (sendTask process agent m).run (sendTask process agent m).run (fun _ => P) P := by
  have hread : ∀ {α : Type} (f : World → α), (∀ s t, P s t → f s = f t) → Pairs P (Program.get f) (Program.get f) (fun _ => P) P :=
    fun f hf => pairs_get fun s t h => ⟨hf s t h, h⟩
  refine pairs_bind (M := fun _ => P) (pairs_always (hread _ fun s t h => (hsame s t h).2)) (fun fault => ?_) fun _ _ _ h => h
  cases fault with
  | some reason => exact pairs_pure fun _ _ h => h
  | none =>
    refine pairs_bind (M := fun _ => P) (pairs_always (hread _ fun s t h => ?_)) (fun connection => ?_) fun _ _ _ h => h
    · rw [(hsame s t h).1]
    cases connection with
    | none => exact pairs_pure fun _ _ h => h
    | some conn =>
      refine pairs_bind (M := fun _ => P) (pairs_always (pairs_modify fun s t h => ?_)) (fun _ => ?_) fun _ _ _ h => h
      · rw [(hsame s t h).1]
        exact hregistry s t _ h
      refine pairs_bind (M := fun _ => P) (pairs_always (pairs_waitFor fun s t h => ?_)) (fun _ => ?_) fun _ _ _ h => h
      · exact ⟨by rw [(hsame s t h).1], fun _ => h, h⟩
      refine pairs_bind (M := fun _ => P) (pairs_always (pairs_apply fun s t h => ?_)) (fun delivered => ?_) fun _ _ _ h => h
      · rw [(hsame s t h).1]
        exact ⟨rfl, hregistry s t _ h⟩
      cases delivered with
      | true => exact pairs_pure fun _ _ h => h
      | false =>
        refine pairs_bind (M := fun _ => P) (pairs_always (pairs_modify fun s t h => ?_)) (fun _ => ?_) fun _ _ _ h => h
        · rw [(hsame s t h).1]
          exact hregistry s t _ h
        · exact pairs_pure fun _ _ h => h

/-- A send ends alike in worlds with the same agents, and leaves everything else alone. -/
theorem run_sendTask_congr {w v : World} (hr : w.registry = v.registry) (hf : w.sendFault = v.sendFault) (process : Nat)
    (agent : String) (m : AgentMessage) :
    ∃ e registry, (sendTask process agent m).run.run w = (e, { w with registry }) ∧
      (sendTask process agent m).run.run v = (e, { v with registry }) := by
  have hpairs := pairs_sendTask process agent m (P := fun s t => ∃ registry, s = { w with registry } ∧ t = { v with registry })
    (fun s t h => by
      obtain ⟨registry, rfl, rfl⟩ := h
      exact ⟨rfl, hf⟩) fun s t registry h => by
      obtain ⟨_, rfl, rfl⟩ := h
      exact ⟨registry, rfl, rfl⟩
  have hend := hpairs w v ⟨w.registry, rfl, by rw [hr]⟩
  generalize (sendTask process agent m).run.run w = x at hend ⊢
  generalize (sendTask process agent m).run.run v = y at hend ⊢
  cases hend with
  | finished r h => obtain ⟨registry, rfl, rfl⟩ := h; exact ⟨_, registry, rfl, rfl⟩
  | crashed m h => obtain ⟨registry, rfl, rfl⟩ := h; exact ⟨_, registry, rfl, rfl⟩
  | stuck h => obtain ⟨registry, rfl, rfl⟩ := h; exact ⟨_, registry, rfl, rfl⟩

end Agent

namespace Dispatch

open Fallible Program

variable {cfg : Settings} {process : Nat} {workspace : String} {task : UInt64}

/-! ## From worlds that agree -/

/-- What the checks before a confirmed apply come to. -/
def checked (s : Store) (workspace : String) (task : UInt64) : Except DispatchError Task :=
  match s.task? task with
  | .error e => .error (.store e)
  | .ok none => .error (.taskNotFound task)
  | .ok (some t) => match refusal workspace task t with
    | some e => .error e
    | none => .ok t

theorem run_confirmedTask (w : World) :
    (confirmedTask workspace task).run.run w = (.finished (checked w.store workspace task), w) := by
  rw [confirmedTask_eq]
  unfold Dispatch.look checked Program.readStore
  simp only [run_ofResult_bind, Program.run_map_get, Program.run_bind]
  cases hfound : w.store.task? task with
  | error e => rfl
  | ok found =>
    cases found with
    | none => rfl
    | some t =>
      simp only [mapError_ok]
      cases refusal workspace task t <;> rfl

/-- The task is in the store, under its own key, and belongs to the workspace. -/
def Picked (workspace : String) (t : Task) (s : Store) : Prop := s.Holds t ∧ t.workspace = workspace

theorem Filed.holds {s : Store} {k : String} {t : Task} (hf : Filed s) (h : (k, Row.record t) ∈ s.tasks.rows) : s.Holds t := by
  have hget := Table.mem_rows_iff.1 h
  rw [hf k t hget] at hget
  exact hget

theorem picked_of_nextTask {s : Store} {t : Task} (hf : Filed s) (h : s.nextTask workspace = .ok (some t)) :
    Picked workspace t s := by
  obtain ⟨kind, hkind⟩ := Store.oldestPending_of_nextTask h
  obtain ⟨k, hk⟩ := Store.mem_of_firstRecord hkind
  exact ⟨hf.holds hk, Store.workspace_of_nextTask h⟩

theorem picked_of_listed {s : Store} {ts : List Task} {t : Task} (hf : Filed s)
    (h : s.tasksWhere (·.workspace == workspace) = .ok ts) (ht : t ∈ ts) : Picked workspace t s := by
  obtain ⟨all, hall, rfl⟩ := map_eq_ok_iff.1 h
  obtain ⟨hmem, hws⟩ := List.mem_filter.1 ht
  obtain ⟨k, hk⟩ := (Store.mem_of_mapM_read hall).1 hmem
  exact ⟨hf.holds hk, by simpa using hws⟩

theorem Picked.task? {s : Store} {t : Task} (h : Picked workspace t s) : s.task? t.id = .ok (some t) := by
  have hrow := h.1
  unfold Store.Holds Task.key at hrow
  unfold Store.task? Table.record?
  rw [hrow]
  rfl

theorem picked_of_checked {s : Store} {t : Task} (hf : Filed s) (h : checked s workspace task = .ok t) :
    Picked workspace t s := by
  unfold checked at h
  split at h
  · cases h
  · cases h
  · next u hu =>
    split at h
    · cases h
    · next hr =>
      cases h
      exact ⟨hf.holds (Table.mem_rows_iff.2 (Store.get?_of_task? hu)), workspace_of_refusal hr⟩

/-- Worlds in which an attempt on the workspace reads the same up to the choice of its task. -/
structure Agrees (P : World → World → Prop) (process : Nat) (workspace : String) : Prop where
  filed : ∀ s t, P s t → Filed s.store
  hold : ∀ s t, P s t → s.store.workspace? workspace = t.store.workspace? workspace
  listed : ∀ s t, P s t → s.store.tasksWhere (·.workspace == workspace) = t.store.tasksWhere (·.workspace == workspace)
  next : ∀ s t, P s t → s.store.nextTask workspace = t.store.nextTask workspace
  checks : ∀ s t task, P s t → checked s.store workspace task = checked t.store workspace task
  own : ∀ s t u, P s t → Picked workspace u s.store → Picked workspace u t.store
  holds : ∀ s t, P s t → s.locks.holds workspace process = t.locks.holds workspace process
  request : ∀ s t, P s t → P { s with locks := s.locks.request workspace process }
    { t with locks := t.locks.request workspace process }

/-- What an attempt does at its end keeps the relation. -/
structure KeptAtEnd (Q : World → World → Prop) (process : Nat) (workspace : String) : Prop where
  release : ∀ s t, Q s t → Q { s with locks := s.locks.release workspace process }
    { t with locks := t.locks.release workspace process }
  clock : ∀ s t, Q s t → s.clock = t.clock
  schedule : ∀ s t notBefore, Q s t → Q (s.scheduleAt workspace notBefore) (t.scheduleAt workspace notBefore)

variable {P Q : World → World → Prop} {start start' : Task → Fallible DispatchError DispatchOutcome} {α : Type}

/-- Attempts that start the task of their choice in these two ways end alike. -/
structure StartsAlike (P Q : World → World → Prop) (workspace : String)
    (start start' : Task → Fallible DispatchError DispatchOutcome) : Prop where
  ended : ∀ s t, P s t → Q s t
  started : ∀ u, Pairs (fun s t => P s t ∧ Picked workspace u s.store) (start u).run (start' u).run (fun _ => Q) Q

theorem pairs_look {f : Store → Except StoreError α} (h : ∀ s t, P s t → f s.store = f t.store) :
    Pairs P (look f).run (look f).run (fun r s t => P s t ∧ r = Except.mapError .store (f s.store)) Q := by
  refine Pairs.map _ (pairs_get fun s t hst => ?_)
  exact ⟨h s t hst, hst, rfl⟩

/-- A look at what is the same in both worlds. -/
theorem pairs_look_bind {β : Type} {R : Except DispatchError β → World → World → Prop} {f : Store → Except StoreError α}
    {k l : α → Fallible DispatchError β} (h : ∀ s t, P s t → f s.store = f t.store)
    (hk : ∀ a, Pairs (fun s t => P s t ∧ f s.store = .ok a) (k a).run (l a).run R Q)
    (herr : ∀ e s t, P s t → R (.error e) s t) : Pairs P (look f >>= k).run (look f >>= l).run R Q := by
  refine pairs_bind (pairs_look h) (fun a => (hk a).pre fun s t hst => ⟨hst.1, ?_⟩) fun e s t hst => herr e s t hst.1
  have ha := hst.2
  cases hf : f s.store with
  | ok b => rw [hf] at ha; cases ha; rfl
  | error e => rw [hf] at ha; cases ha

theorem pairs_resumeApplyBy (hP : Agrees P process workspace) (hs : StartsAlike P Q workspace start start') (seen : Task) :
    Pairs (fun s t => P s t ∧ Picked workspace seen s.store) (resumeApplyBy start seen).run (resumeApplyBy start' seen).run
      (fun _ => Q) Q := by
  refine pairs_look_bind (fun s t h => ?_) (fun found => ?_) fun _ s t h => hs.ended s t h.1
  · rw [h.2.task?, (hP.own s t seen h.1 h.2).task?]
  cases found with
  | none => exact pairs_pure fun s t h => hs.ended s t h.1.1
  | some current =>
    simp only
    split
    · refine (hs.started current).pre fun s t h => ⟨h.1.1, ?_⟩
      have hfound := h.2
      rw [h.1.2.task?] at hfound
      cases hfound
      exact h.1.2
    · exact pairs_pure fun s t h => hs.ended s t h.1.1

theorem pairs_dispatchExclusiveBy (hP : Agrees P process workspace) (hs : StartsAlike P Q workspace start start') :
    Pairs P (dispatchExclusiveBy start workspace).run (dispatchExclusiveBy start' workspace).run (fun _ => Q) Q := by
  refine pairs_look_bind hP.next (fun found => ?_) fun _ => hs.ended
  cases found with
  | none => exact pairs_pure fun s t h => hs.ended s t h.1
  | some u => exact (hs.started u).pre fun s t h => ⟨h.1, picked_of_nextTask (hP.filed s t h.1) h.2⟩

/-- What an attempt does under its workspace's lock. -/
theorem pairs_locked {p q : Program World (Except DispatchError DispatchOutcome)} (hP : Agrees P process workspace)
    (hQ : KeptAtEnd Q process workspace) (hPQ : ∀ s t, P s t → Q s t) {I : Store → Prop}
    (hp : Pairs (fun s t => P s t ∧ I s.store) p q (fun _ => Q) Q) :
    Pairs (fun s t => P s t ∧ I s.store) (withLock process workspace p) (withLock process workspace q) (fun _ => Q) Q :=
  hp.withLock (fun s t h => hP.holds s t h.1) (fun s t h => ⟨hP.request s t h.1, h.2⟩) (fun s t h => hPQ s t h.1)
    (fun _ => hQ.release) hQ.release

theorem pairs_dispatchNextBy (hP : Agrees P process workspace) (hQ : KeptAtEnd Q process workspace)
    (hs : StartsAlike P Q workspace start start') :
    Pairs P (dispatchNextBy start process workspace).run (dispatchNextBy start' process workspace).run (fun _ => Q) Q := by
  refine pairs_look_bind (fun s t h => by rw [hP.hold s t h]) (fun onHold => ?_) fun _ => hs.ended
  split
  · exact pairs_pure fun s t h => hs.ended s t h.1
  refine Pairs.pre (P := P) ?_ fun s t h => h.1
  refine pairs_look_bind (fun s t h => by rw [hP.listed s t h]) (fun resumable => ?_) fun _ => hs.ended
  cases resumable with
  | some seen =>
    refine Pairs.pre (pairs_locked hP hQ hs.ended (pairs_resumeApplyBy hP hs seen)) fun s t h => ⟨h.1, ?_⟩
    obtain ⟨ts, hts, hfind⟩ := map_eq_ok_iff.1 h.2
    exact picked_of_listed (hP.filed s t h.1) hts (List.mem_of_find?_eq_some hfind)
  | none =>
    refine Pairs.pre (P := P) ?_ fun s t h => h.1
    refine pairs_look_bind hP.next (fun found => ?_) fun _ => hs.ended
    cases found with
    | none => exact pairs_pure fun s t h => hs.ended s t h.1
    | some u =>
      simp only
      split
      · have hlocked := pairs_locked (I := fun _ => True) hP hQ hs.ended
          ((pairs_dispatchExclusiveBy hP hs).pre fun s t h => h.1)
        exact hlocked.pre fun s t h => ⟨h.1, trivial⟩
      · exact (hs.started u).pre fun s t h => ⟨h.1, picked_of_nextTask (hP.filed s t h.1) h.2⟩

theorem pairs_guarded {p q : Fallible DispatchError DispatchOutcome} (hQ : KeptAtEnd Q process workspace)
    (hp : Pairs P p.run q.run (fun _ => Q) Q) :
    Pairs P (guarded cfg workspace p).run (guarded cfg workspace q).run (fun _ => Q) Q := by
  refine hp.attempt.bind fun r => ?_
  cases r with
  | ok result => exact pairs_pure fun _ _ h => h
  | error m =>
    exact (pairs_schedule (Q := fun _ => Q) hQ.clock hQ.schedule fun _ _ h => h).bind fun _ => pairs_pure fun _ _ h => h

theorem pairs_tryDispatchBy (hP : Agrees P process workspace) (hQ : KeptAtEnd Q process workspace)
    (hs : StartsAlike P Q workspace start start') :
    Pairs P (tryDispatchBy start cfg process workspace).run (tryDispatchBy start' cfg process workspace).run (fun _ => Q) Q :=
  pairs_guarded hQ (pairs_dispatchNextBy hP hQ hs)

theorem pairs_executeConfirmedApplyBy (hP : Agrees P process workspace) (hQ : KeptAtEnd Q process workspace)
    (hs : StartsAlike P Q workspace start start') :
    Pairs P (executeConfirmedApplyBy start cfg process workspace task).run
      (executeConfirmedApplyBy start' cfg process workspace task).run (fun _ => Q) Q := by
  have hchecked : Pairs P (confirmedTask workspace task).run (confirmedTask workspace task).run
      (fun r s t => P s t ∧ r = checked s.store workspace task) Q := by
    intro s t h
    rw [run_confirmedTask, run_confirmedTask, hP.checks s t task h]
    exact .finished _ ⟨h, (hP.checks s t task h).symm⟩
  refine pairs_bind hchecked (fun u => ?_) fun _ s t h => hs.ended s t h.1
  refine pairs_look_bind (fun s t h => by rw [hP.hold s t h.1]) (fun onHold => ?_) fun _ s t h => hs.ended s t h.1
  split
  · exact pairs_pure fun s t h => hs.ended s t h.1.1
  · refine Pairs.pre (pairs_locked hP hQ hs.ended (pairs_guarded hQ (hs.started u))) fun s t h => ⟨h.1.1, ?_⟩
    exact picked_of_checked (hP.filed s t h.1.1) h.1.2.symm

end Dispatch

end TaskFleet
