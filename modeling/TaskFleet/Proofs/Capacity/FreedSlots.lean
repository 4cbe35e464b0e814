/-
  TaskFleet.Proofs.Capacity.FreedSlots — how a slot that names a task comes free.

  - `releaseTask_frees`: giving back the slot of a task frees a slot that the task is on.
  - `run_reconcile`: a reconciliation with a cluster that answers, of a store that can be read.
  - `reconcile_frees`: it frees every slot of the pool whose task is over or gone.
-/

import TaskFleet.Proofs.Capacity.Maintenance
import TaskFleet.Proofs.Store.Transactions

namespace TaskFleet

/-- There is no such task, or it is over. -/
def Store.IsOver (s : Store) (task : UInt64) : Prop := ∀ t, s.task? task = .ok (some t) → t.status.isTerminal = true

/-- Every task can be looked up. -/
def Store.Readable (s : Store) : Prop := ∀ task, ∃ found, s.task? task = .ok found

theorem Store.Keyed.readable {s : Store} (hs : s.Keyed) : s.Readable := hs.task?_ok

namespace Slot

variable {s s' : Slot} {store : Store} {task now : UInt64}

/-- Nothing is on the slot. -/
structure IsFree (s : Slot) : Prop where
  status : s.status = .idle
  task : s.task = none
  kind : s.kind = none

theorem isFree_clear (s : Slot) (now : UInt64) : (s.clear now).IsFree := ⟨rfl, rfl, rfl⟩

theorem IsFree.tidied (h : s.IsFree) (ht : s.Tidied s') : s'.IsFree := by
  cases ht with
  | same => exact h
  | cleared now => exact isFree_clear s now
  | kept now hbound => exact absurd h.task hbound

/-- A slot after a look at its task, in a store that can be read. -/
def lookedAfter (store : Store) (now : UInt64) (s : Slot) : Slot :=
  match s.task with
  | none => s
  | some task => s.followTask ((store.task? task).toOption.join.map (·.status)) now

theorem lookedAfter_of_none (h : s.task = none) : s.lookedAfter store now = s := by
  unfold lookedAfter
  rw [h]

theorem lookedAfter_of_some {found : Option Task} (h : s.task = some task) (hfound : store.task? task = .ok found) :
    s.lookedAfter store now = s.followTask (found.map (·.status)) now := by
  unfold lookedAfter
  rw [h]
  simp only [hfound]
  rfl

theorem followTasks_readable (hs : store.Readable) (now : UInt64) (l : List Slot) :
    Slot.followTasks store now l = (.ok (), l.map (·.lookedAfter store now)) := by
  induction l with
  | nil => rfl
  | cons s rest ih =>
    unfold followTasks
    cases htask : s.task with
    | none =>
      rw [ih, List.map_cons, lookedAfter_of_none htask]
      rfl
    | some task =>
      obtain ⟨t, ht⟩ := hs task
      simp only [ht]
      rw [ih, List.map_cons, lookedAfter_of_some htask ht]
      rfl

theorem lookedAfter_of_over (hs : store.Readable) (htask : s.task = some task) (hover : store.IsOver task) :
    (s.lookedAfter store now).IsFree := by
  obtain ⟨found, hfound⟩ := hs task
  have hclear : s.lookedAfter store now = s.clear now := by
    rw [lookedAfter_of_some htask hfound]
    cases found with
    | none => rfl
    | some t =>
      have hterminal := hover t hfound
      show s.followTask (some t.status) now = _
      cases hst : t.status with
      | pending => rw [hst] at hterminal; cases hterminal
      | running => rw [hst] at hterminal; cases hterminal
      | applyPending => rw [hst] at hterminal; cases hterminal
      | _ => rfl
  rw [hclear]
  exact isFree_clear s now

end Slot

namespace Capacity

variable {c c' : Capacity} {x : Spot} {store : Store} {task now : UInt64} {pods : List String} {cfg : CapacitySettings}
  {pool : AgentPool} {w : World}

/-! ## The slot of a task -/

theorem releaseTask_frees (hn : w.capacity.Named) (hx : w.capacity.taskAt x = some task) :
    ∃ y, w.capacity.taskAt y = some task ∧ (releaseTask task).run.run w =
      (.finished (.ok true), { w with capacity := w.capacity.modifySlot y.pod y.slot (·.clear w.now) }) := by
  cases hp : w.capacity.placementOf? task with
  | none => exact absurd hx (taskAt_of_placementOf?_none hp x)
  | some p => exact ⟨p.spot, taskAt_of_placementOf? hn hp, run_releaseTask hn hp⟩

/-! ## Looking after all tasks -/

/-- If the slot is there, nothing is on it. -/
def FreeAt (x : Spot) (c : Capacity) : Prop := ∀ s, c.slotAt x = some s → s.IsFree

/-- If the slot is there, the task is on it, or nothing. -/
def OnlyAt (x : Spot) (task : UInt64) (c : Capacity) : Prop := ∀ s, c.slotAt x = some s → s.task = some task ∨ s.IsFree

theorem Tidies.freeAt (h : Tidies c c') (hx : FreeAt x c) : FreeAt x c' := by
  intro s' hs'
  rcases h.slotAt hs' with ⟨since, rfl⟩ | ⟨s, hs, htidied⟩
  · exact ⟨rfl, rfl, rfl⟩
  · exact (hx s hs).tidied htidied

theorem Tidies.onlyAt (h : Tidies c c') (hx : OnlyAt x task c) : OnlyAt x task c' := by
  intro s' hs'
  rcases h.slotAt hs' with ⟨since, rfl⟩ | ⟨s, hs, htidied⟩
  · exact .inr ⟨rfl, rfl, rfl⟩
  · rcases hx s hs with htask | hfree
    · cases htidied with
      | same => exact .inl htask
      | cleared now => exact .inr (s.isFree_clear now)
      | kept now => exact .inl htask
    · exact .inr (hfree.tidied htidied)

theorem followTasks_frees (hs : store.Readable) (hover : store.IsOver task) (hx : OnlyAt x task c) (now : UInt64) :
    FreeAt x (c.followTasks store x.pod now).2 := by
  intro s' hs'
  unfold followTasks at hs'
  cases hp : c.pods.get? x.pod with
  | none =>
    rw [hp] at hs'
    unfold slotAt at hs'
    rw [hp] at hs'
    cases hs'
  | some p =>
    rw [hp] at hs'
    unfold slotAt at hs'
    simp only [Slot.followTasks_readable hs, Table.get?_modify, if_true, hp, Option.map_some, Option.bind_some,
      List.getElem?_map] at hs'
    obtain ⟨s, hslot, rfl⟩ := Option.map_eq_some_iff.1 hs'
    have hat : c.slotAt x = some s := by unfold slotAt; rw [hp]; exact hslot
    rcases hx s hat with htask | hfree
    · exact Slot.lookedAfter_of_over hs htask hover
    · rw [Slot.lookedAfter_of_none hfree.task]
      exact hfree

/-- The pods after the tasks on all of these were looked after. -/
def followAll (store : Store) (now : UInt64) (c : Capacity) (pods : List String) : Capacity :=
  pods.foldl (fun c pod => (c.followTasks store pod now).2) c

theorem freeAt_followAll (hx : FreeAt x c) (pods : List String) : FreeAt x (followAll store now c pods) := by
  induction pods generalizing c with
  | nil => exact hx
  | cons pod rest ih => exact ih ((tidies_followTasks c store pod now).freeAt hx)

theorem followAll_frees (hs : store.Readable) (hover : store.IsOver task) (hx : OnlyAt x task c) (hin : x.pod ∈ pods) :
    FreeAt x (followAll store now c pods) := by
  induction pods generalizing c with
  | nil => cases hin
  | cons pod rest ih =>
    by_cases hpod : pod = x.pod
    · subst hpod
      exact freeAt_followAll (followTasks_frees hs hover hx now) rest
    · have hrest : x.pod ∈ rest := (List.mem_cons.1 hin).resolve_left (Ne.symm hpod)
      exact ih ((tidies_followTasks c store pod now).onlyAt hx) hrest

/-! ## Runs of reconciliation -/

open Fallible

theorem run_followTasksOn (hs : w.store.Readable) (pods : List String) :
    (followTasksOn pods).run.run w =
      (.finished (.ok ()), { w with capacity := followAll w.store w.now w.capacity pods }) := by
  induction pods generalizing w with
  | nil => rfl
  | cons pod rest ih =>
    have hok : (w.capacity.followTasks w.store pod w.now).1 = .ok () := by
      unfold followTasks
      cases w.capacity.pods.get? pod with
      | none => rfl
      | some p => simp only [Slot.followTasks_readable hs]
    unfold followTasksOn
    rw [run_ofResult_bind, Program.run_apply_bind]
    simp only [hok]
    exact ih hs

theorem run_call {α : Type} {name : String} {f : Cluster → CallAnswer α × Cluster} {a : α} {cluster : Cluster}
    (h : f w.cluster = (.ok a, cluster)) : (call cfg name f).run.run w = (.finished (.ok a), { w with cluster }) := by
  unfold call
  simp [h, outcome]

theorem run_call_refused {α : Type} {name reason : String} {f : Cluster → CallAnswer α × Cluster} {cluster : Cluster}
    (h : f w.cluster = (.refused reason, cluster)) :
    (call cfg name f).run.run w = (.finished (.error (.backend reason)), { w with cluster }) := by
  unfold call
  simp [h, outcome]

/-- Deletions that are answered end, and change the cluster only. -/
theorem run_deletions (cfg : CapacitySettings) (hanswer : w.cluster.deleteFault ≠ some .unanswered) (pods : List String) :
    ∃ cluster, (Program.forEach (fun pod => ignoring (call cfg "delete_pod" (·.delete pod))) pods).run w =
      (.finished (), { w with cluster }) := by
  induction pods generalizing w with
  | nil => exact ⟨w.cluster, rfl⟩
  | cons pod rest ih =>
    have hfirst : ∃ cluster, (ignoring (call cfg "delete_pod" (·.delete pod))).run w = (.finished (), { w with cluster }) ∧
        cluster.deleteFault = w.cluster.deleteFault := by
      cases hf : w.cluster.deleteFault with
      | none =>
        have hrun : (call cfg "delete_pod" (·.delete pod)).run.run w =
            (.finished (.ok ()), { w with cluster := w.cluster.remove pod }) :=
          run_call (by simp [Cluster.delete, Cluster.faulty, hf])
        exact ⟨w.cluster.remove pod, run_ignoring hrun, hf⟩
      | some fault =>
        cases fault with
        | unanswered => exact absurd hf hanswer
        | refused =>
          have hrun : (call cfg "delete_pod" (·.delete pod)).run.run w =
              (.finished (.error (.backend "delete refused")), { w with cluster := w.cluster }) :=
            run_call_refused (by simp [Cluster.delete, Cluster.faulty, hf]; rfl)
          exact ⟨w.cluster, run_ignoring hrun, hf⟩
    obtain ⟨cluster, hrun, hsame⟩ := hfirst
    obtain ⟨cluster', hrest⟩ := ih (w := { w with cluster }) (by rw [hsame]; exact hanswer)
    exact ⟨cluster', (Program.run_bind_finished _ hrun).trans hrest⟩

/-- The pods after the cluster's list of them was taken over. -/
def synced (pool : AgentPool) (w : World) : Capacity :=
  w.capacity.takeOverAll pool w.now (w.cluster.pods.values.filter (·.pool == pool.id))

/-- The pods after a reconciliation. -/
def reconciled (cfg : CapacitySettings) (pool : AgentPool) (w : World) : Capacity :=
  let pods := ((synced pool w).podsIn pool.id).map (·.name)
  (followAll w.store w.now (synced pool w) pods).expireReservations cfg pool.id w.now

theorem run_reconcile (cfg : CapacitySettings) (pool : AgentPool) (hs : w.store.Readable) (hlist : w.cluster.listFault = none)
    (hanswer : w.cluster.deleteFault ≠ some .unanswered) :
    ∃ cluster, (reconcile cfg pool).run.run w =
      (.finished (.ok ()), { w with capacity := reconciled cfg pool w, cluster }) := by
  obtain ⟨observed, hobserved⟩ : ∃ observed, observed = w.cluster.pods.values.filter (·.pool == pool.id) := ⟨_, rfl⟩
  obtain ⟨cluster, hdeletions⟩ := run_deletions (w := { w with capacity := synced pool w }) cfg hanswer
    ((observed.filter (·.phase.isFinished)).map (·.name))
  have hcall : (call cfg "list_pods" fun cluster => (cluster.list pool.id, cluster)).run.run w =
      (.finished (.ok observed), w) := by
    refine run_call ?_
    simp [Cluster.list, Cluster.faulty, hlist, hobserved]
  have hsync : (syncPods cfg pool).run.run w = (.finished (.ok ()), { w with capacity := synced pool w, cluster }) := by
    unfold syncPods
    rw [run_bind_ok _ hcall, run_always_bind, Program.run_modify_bind]
    rw [hobserved] at hdeletions ⊢
    exact run_always_finished hdeletions
  have hfollow := run_followTasksOn (w := { w with capacity := synced pool w, cluster }) hs
    (((synced pool w).podsIn pool.id).map (·.name))
  refine ⟨cluster, ?_⟩
  unfold reconcile
  rw [run_bind_ok _ hsync, run_always_bind, Program.run_get_bind, run_bind_ok _ (run_always_finished (run_ignoring hfollow))]
  rfl

theorem tidies_synced (pool : AgentPool) (w : World) : Tidies w.capacity (synced pool w) := tidies_takeOverAll _ _ _ _

/-- A reconciliation with a cluster that answers frees every slot of the pool whose task is over or
    gone, unless it gives up the slot with its pod. -/
theorem reconcile_frees (cfg : CapacitySettings) {pool : AgentPool} (hs : w.store.Keyed) (hlist : w.cluster.listFault = none)
    (hanswer : w.cluster.deleteFault ≠ some .unanswered) (hn : w.capacity.Named) {p : Pod}
    (hp : w.capacity.pods.get? x.pod = some p) (hpool : p.pool = pool.id) (htask : w.capacity.taskAt x = some task)
    (hover : w.store.IsOver task) :
    ∃ w', (reconcile cfg pool).run.run w = (.finished (.ok ()), w') ∧ FreeAt x w'.capacity := by
  obtain ⟨cluster, hrun⟩ := run_reconcile cfg pool hs.readable hlist hanswer
  refine ⟨_, hrun, (tidies_expireReservations _ cfg pool.id w.now).freeAt ?_⟩
  have hbefore : OnlyAt x task w.capacity := by
    intro s hat
    unfold taskAt at htask
    rw [hat] at htask
    exact .inl htask
  have honly : OnlyAt x task (synced pool w) := (tidies_synced pool w).onlyAt hbefore
  by_cases hin : x.pod ∈ ((synced pool w).podsIn pool.id).map (·.name)
  · exact followAll_frees hs.readable hover honly hin
  · -- the pod is not one of the pool's any more: it is gone, or another one came in its place
    refine freeAt_followAll (fun s hat => ?_) _
    obtain ⟨q, hq, hslot⟩ := Option.bind_eq_some_iff.1 hat
    rcases tidies_synced pool w x.pod q hq with ⟨⟨-, pool', since, -, hslots⟩, -⟩ | ⟨p', hp', htidied⟩
    · rw [hslots, List.getElem?_map] at hslot
      obtain ⟨i, -, rfl⟩ := Option.map_eq_some_iff.1 hslot
      exact ⟨rfl, rfl, rfl⟩
    · rw [hp] at hp'
      cases hp'
      refine absurd (List.mem_map.2 ⟨q, mem_podsIn.2 ⟨⟨x.pod, hq⟩, htidied.pool.trans hpool⟩, ?_⟩) hin
      exact htidied.name.trans (hn x.pod p hp)

end Capacity

end TaskFleet
