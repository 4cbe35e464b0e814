/-
  TaskFleet.Proofs.Dispatch.UniquePlacement — no task is ever on two slots.

  Allocation does not look whether the task has a slot already. That a task never gets a
  second one rests on the attempts, which take the slot of a task whose apply is due or give
  it back before they take another, and on the rows: a task with a slot was started, and it
  goes back to pending only after its slot was given back.
  - `Placed`: every task is on one slot at most, and none that is pending is on any.
  - `Alone`: the slot in an attempt's hand is the only one of its task.
  - `Placed.choice`, `Placed.chore`, `Placed.event`: what the operations of an orchestrator and
    its surroundings keep.
  - `placements_are_unique`: all runs from pods without tasks; looking up the slot of a task
    does not depend on the order in which the pods are visited.
-/

import Mathlib.Logic.Relation
import TaskFleet.Proofs.Dispatch.Operations
import TaskFleet.Proofs.Dispatch.OwnRow

namespace TaskFleet

/-! ## Placements -/

namespace Capacity

variable {c c' : Capacity} {x y : Spot} {task : UInt64} {p : Placement}

/-- The task is on one slot at most. -/
def Once (c : Capacity) (task : UInt64) : Prop := ∀ x y, c.taskAt x = some task → c.taskAt y = some task → x = y

/-- Where a task is, as found by visiting the pods in a given order. -/
def placementAmong (pods : List Pod) (task : UInt64) : Option Placement :=
  pods.findSome? fun p => (p.slotOf? task).map fun i => ⟨p.name, i, p.agent⟩

/-- Frees the slot of a task that is found by visiting the pods in another order. -/
def releaseVisiting (order : List Pod → List Pod) (task : UInt64) : Fallible CapacityError Bool := do
  match ← Fallible.always (Program.get fun w => placementAmong (order w.capacity.pods.values) task) with
  | none => return false
  | some place =>
    Fallible.ofResult <| Program.editCapacity fun c now => c.release place.pod place.slot now
    return true

/-- As long as it finds the same slot, the order makes no difference. -/
theorem run_releaseVisiting {w : World} {order : List Pod → List Pod}
    (h : placementAmong (order w.capacity.pods.values) task = w.capacity.placementOf? task) :
    (releaseVisiting order task).run.run w = (releaseTask task).run.run w := by
  unfold releaseVisiting releaseTask editSlotOf
  rewrite [Fallible.run_always_bind, Fallible.run_always_bind, Program.run_get_bind, Program.run_get_bind, h]
  rfl

/-- What is found at one place at most is found in every order. -/
theorem findSome?_eq_of_perm {α β : Type} {f : α → Option β} {l l' : List α} (hl : l.Perm l')
    (hone : ∀ a ∈ l, ∀ b ∈ l, ∀ i j, f a = some i → f b = some j → i = j) : l.findSome? f = l'.findSome? f := by
  cases h : l.findSome? f with
  | none =>
    refine (List.findSome?_eq_none_iff.2 fun a ha => ?_).symm
    exact List.findSome?_eq_none_iff.1 h a (hl.mem_iff.2 ha)
  | some i =>
    obtain ⟨a, ha, hi⟩ := List.exists_of_findSome?_eq_some h
    cases h' : l'.findSome? f with
    | none => rw [List.findSome?_eq_none_iff.1 h' a (hl.mem_iff.1 ha)] at hi; cases hi
    | some j =>
      obtain ⟨b, hb, hj⟩ := List.exists_of_findSome?_eq_some h'
      rw [hone a ha b (hl.mem_iff.2 hb) i j hi hj]

theorem Once.placementAmong_eq (h : c.Once task) (hn : c.Named) {pods : List Pod} (hpods : pods.Perm c.pods.values) :
    placementAmong pods task = c.placementOf? task := by
  refine (findSome?_eq_of_perm hpods.symm fun q hq q' hq' i j hi hj => ?_).symm
  -- both pods have the task, so they are one pod
  have hat : ∀ {q : Pod} {i : Placement}, q ∈ c.pods.values →
      (q.slotOf? task).map (fun k => (⟨q.name, k, q.agent⟩ : Placement)) = some i →
      c.pods.get? q.name = some q ∧ c.taskAt i.spot = some task ∧ i.pod = q.name ∧ i.agent = q.agent := by
    intro q i hq hi
    obtain ⟨name, hget⟩ := Table.mem_values.1 hq
    obtain ⟨k, hk, rfl⟩ := Option.map_eq_some_iff.1 hi
    obtain ⟨hlt, htask, -⟩ := List.findIdx?_eq_some_iff_getElem.1 hk
    have hself : c.pods.get? q.name = some q := by rw [hn name q hget]; exact hget
    refine ⟨hself, ?_, rfl, rfl⟩
    unfold taskAt slotAt Placement.spot
    simp only
    rw [hself, Option.bind_some, List.getElem?_eq_getElem hlt]
    simpa using htask
  obtain ⟨hget, htask, hpod, hagent⟩ := hat hq hi
  obtain ⟨hget', htask', hpod', hagent'⟩ := hat hq' hj
  have hspot : i.spot = j.spot := h _ _ htask htask'
  obtain ⟨hpods, hslots⟩ := Spot.mk.inj hspot
  have hname : q.name = q'.name := hpod.symm.trans (hpods.trans hpod')
  rw [hname, hget'] at hget
  cases hget
  cases i
  cases j
  simp_all

end Capacity

namespace Dispatch

open Fallible Program Capacity Store

variable {cfg : Settings} {process n : Nat} {w w' : World} {workspace : String} {t : Task} {s s' : Store} {c c' : Capacity}

/-! ## The invariant -/

/-- The row of a task that may have a slot: it was started, and while it runs no lease of it
    can run out. -/
structure Begun (t : Task) : Prop where
  started : t.status ≠ .pending
  unleased : t.status = .running → t.lease = none

/-- Every task is on one slot at most, and a task with a slot was begun. -/
structure Placed (s : Store) (c : Capacity) : Prop where
  order : c.Order
  keyed : s.Keyed
  once : ∀ task, c.Once task
  begun : ∀ x task, c.taskAt x = some task → ∃ t, s.Holds t ∧ t.id = task ∧ Begun t

theorem Placed.elsewhere (h : Placed w.store w.capacity) (he : Elsewhere w w') : Placed w'.store w'.capacity := by
  rw [he.1, he.2]
  exact h

theorem Placed.vacates (h : Placed s c) (hv : Vacates c c') : Placed s c' := by
  obtain ⟨horder, htasks⟩ := hv h.order
  have hback : ∀ x task, c'.taskAt x = some task → c.taskAt x = some task := by
    intro x task hx
    rcases htasks x with he | hnone
    · exact he ▸ hx
    · rw [hnone] at hx; cases hx
  exact ⟨horder, h.keyed, fun task x y hx hy => h.once task x y (hback x task hx) (hback y task hy),
    fun x task hx => h.begun x task (hback x task hx)⟩

/-- Rows may change as long as those of the tasks with slots stay begun. -/
theorem Placed.rows (h : Placed s c) (hs : s'.Keyed)
    (hrows : ∀ t, s.Holds t → Begun t → ∃ t', s'.Holds t' ∧ t'.id = t.id ∧ Begun t') : Placed s' c where
  order := h.order
  keyed := hs
  once := h.once
  begun := by
    intro x task hx
    obtain ⟨t, ht, hid, hbegun⟩ := h.begun x task hx
    obtain ⟨t', ht', hid', hbegun'⟩ := hrows t ht hbegun
    exact ⟨t', ht', hid'.trans hid, hbegun'⟩

/-- A row that is written over stays begun if it was. -/
theorem Placed.setTask (h : Placed s c) {t t' : Task} (ht : s.Holds t) (hid : t'.id = t.id) (hbegun : Begun t → Begun t') :
    Placed (s.setTask t') c := by
  refine h.rows (h.keyed.setTask t') fun u hu hub => ?_
  by_cases hut : u.id = t.id
  · have hsame : u = t := holds_inj hu ht hut
    exact ⟨t', holds_setTask.2 (.inl rfl), hid.trans hut.symm, hbegun (hsame ▸ hub)⟩
  · exact ⟨u, holds_setTask.2 (.inr ⟨hu, hid ▸ hut⟩), rfl, hub⟩

/-! ## Attempts -/

/-- The slot in the hand is the only one of the task, and other tasks stay where they are. -/
structure Alone (task : UInt64) (c : Capacity) (place : Option Placement) (c' : Capacity) : Prop
    extends Apart task c place c' where
  only : ∀ y, c'.taskAt y = some task → place.map (·.spot) = some y

theorem handles_alone (c : Capacity) : Handles true t (Alone t.id c) where
  named := fun _ _ h => h.order.named
  agent := fun p _ h => h.holding.agent p rfl
  reserve := fun p c₁ c₂ now hon h hr => by
    refine ⟨(handles_apart c).reserve p c₁ c₂ now hon h.toApart hr, fun y hy => ?_⟩
    obtain ⟨⟨s, hs, hidle⟩, -, rfl⟩ := hr
    have hbound := bound_of_idle h.order hs hidle t.id t.kind now
    refine Classical.byContradiction fun hne => ?_
    have hne' : y ≠ p.spot := fun he => hne (he ▸ rfl)
    have hbefore := h.only y ((hbound.others y hne').symm.trans hy)
    cases hbefore
  release := fun p c₁ now h => by
    obtain ⟨c₂, hok, hapart⟩ := (handles_apart c).release p c₁ now h.toApart
    have hcleared := release_ok (y := p.spot) h.order hok
    refine ⟨c₂, hok, hapart, fun y hy => ?_⟩
    by_cases hyp : y = p.spot
    · rw [hyp, hcleared.here] at hy; cases hy
    · rw [hcleared.others y hyp] at hy
      exact absurd (Option.some.inj (h.only y hy)).symm hyp
  mark := fun p c₁ now h => by
    obtain ⟨c₂, hok, hapart, hruns⟩ := (handles_apart c).mark p c₁ now h.toApart
    have hsame := markRunning_ok (y := p.spot) h.order hok
    exact ⟨c₂, hok, ⟨hapart, fun y hy => h.only y ((hsame.tasks y).symm.trans hy)⟩, hruns⟩

/-- A pending task is on no slot, and one whose apply is due has its only slot in the hand. -/
theorem Placed.enters (h : Placed s c) (ht : s.Holds t) (hst : t.status = .pending ∨ t.status = .applyPending) :
    Enters t (Alone t.id c) c where
  held := fun p _ hp => by
    have hat := taskAt_of_placementOf? h.order.named hp
    exact ⟨.held h.order hp, fun y hy => congrArg some (h.once t.id p.spot y hat hy)⟩
  empty := fun hnone => by
    refine ⟨.empty h.order t.id, fun y hy => ?_⟩
    rcases hst with hst | hst
    · obtain ⟨u, hu, hid, hbegun⟩ := h.begun y t.id hy
      exact absurd (holds_inj hu ht hid ▸ hst) hbegun.started
    · exact absurd hy (taskAt_of_placementOf?_none (hnone hst) y)

/-- The invariant after one task was moved and its row written. -/
theorem Placed.moved (h : Placed s c) {P : Task → Prop} (hrow : OneRow t P s s') (horder : c'.Order)
    (hothers : ∀ x other, other ≠ t.id → c'.taskAt x = some other → c.taskAt x = some other)
    (honce : c'.Once t.id) (hbegun : ∀ x t', c'.taskAt x = some t.id → P t' → Begun t') : Placed s' c' where
  order := horder
  keyed := hrow.keyed
  once := by
    intro task x y hx hy
    by_cases htask : task = t.id
    · exact honce x y (htask ▸ hx) (htask ▸ hy)
    · exact h.once task x y (hothers x task htask hx) (hothers y task htask hy)
  begun := by
    intro x task hx
    by_cases htask : task = t.id
    · obtain ⟨t', ht', hid, hP⟩ := hrow.own
      exact ⟨t', ht', hid.trans htask.symm, hbegun x t' (htask ▸ hx) hP⟩
    · obtain ⟨u, hu, hid, hu'⟩ := h.begun x task (hothers x task htask hx)
      exact ⟨u, (hrow.others u (hid ▸ htask)).2 hu, hid, hu'⟩

theorem Placed.alone (h : Placed s c) {P : Task → Prop} {place : Option Placement} (hrow : OneRow t P s s')
    (halone : Alone t.id c place c') (hbegun : place ≠ none → ∀ t', P t' → Begun t') : Placed s' c' := by
  refine h.moved hrow halone.order halone.holding.others (fun x y hx hy => ?_) fun x t' hx hP => ?_
  · exact Option.some.inj ((halone.only x hx).symm.trans (halone.only y hy))
  · refine hbegun (fun hnone => ?_) t' hP
    have hspot := halone.only x hx
    rw [hnone] at hspot
    cases hspot

/-- A task that was not started stays where it is, or has no slot. -/
theorem Placed.unstarted (h : Placed s c) (ht : s.Holds t) (hst : t.status = .pending ∨ t.status = .applyPending)
    (hrow : OneRow t (fun t' => t'.status = t.status) s s') (hleft : HandOr (Alone t.id c) c none c') : Placed s' c' := by
  rcases hleft with halone | ⟨-, rfl⟩
  · exact h.alone hrow halone fun hne => absurd rfl hne
  · refine h.moved hrow h.order (fun _ _ _ hx => hx) (h.once t.id) fun x t' hx hst' => ?_
    obtain ⟨u, hu, hid, hbegun⟩ := h.begun x t.id hx
    rw [holds_inj hu ht hid] at hbegun
    rcases hst with hst | hst
    · exact absurd hst hbegun.started
    · rw [hst] at hst'
      exact ⟨by rw [hst']; decide, fun hr => by rw [hst'] at hr; cases hr⟩

theorem Placed.started (h : Placed s c) (hrow : OneRow t OnItsWay s s') {place : Option Placement}
    (hleft : HandOr (Alone t.id c) c place c') : Placed s' c' := by
  have hbegun : ∀ t', OnItsWay t' → Begun t' := fun t' ht' =>
    ⟨by rw [ht'.running]; decide, fun _ => ht'.lease⟩
  rcases hleft with halone | ⟨-, rfl⟩
  · exact h.alone hrow halone fun _ => hbegun
  · exact h.moved hrow h.order (fun _ _ _ hx => hx) (h.once t.id) fun x t' _ => hbegun t'

theorem Placed.dispatchTask (h : Placed w.store w.capacity) (ht : w.store.Holds t)
    (hst : t.status = .pending ∨ t.status = .applyPending) {result : Except DispatchError DispatchOutcome}
    (he : Ends Elsewhere n (dispatchTask cfg process t).run w (.ok result) w') : Placed w'.store w'.capacity := by
  have hsame : ∀ w w', Elsewhere w w' → SameRows w w' := fun w w' he => congrArg Store.tasks he.1
  rcases left_dispatchTask bystanders_elsewhere (handles_alone w.capacity) h.order.named (h.enters ht hst) he with
    ⟨e, hr, hw'⟩ | ⟨r', ws, w₁, hr, -, -, hleft⟩
  · exact h.elsewhere hw'
  cases r' with
  | error m => cases hr
  | ok o =>
    cases hr
    rcases rows_dispatchTask hsame h.keyed ht he with ⟨e, hr, -⟩ | ⟨r', hr, hrow⟩
    · cases hr
    cases r' with
    | error m => cases hr
    | ok o' =>
      cases hr
      cases o with
      | idle => exact hleft.elim
      | skipped id => exact h.unstarted ht hst hrow hleft.2
      | retry id delay reason => exact h.unstarted ht hst hrow hleft.2
      | started id agent =>
        have hleft := hleft.2
        split at hleft
        · obtain ⟨p, a, -, hheld, -⟩ := hleft
          exact h.started hrow hheld
        · exact h.started hrow hleft

/-- A whole attempt that does not crash. -/
theorem Placed.choice (h : Placed w.store w.capacity) {result : Except DispatchError DispatchOutcome}
    (hc : Choice Elsewhere cfg process workspace w w' (.ok result)) (hno : ∀ ws m, result ≠ .error (.crashed ws m)) :
    Placed w'.store w'.capacity := by
  cases hc with
  | nothing _ hw => exact h.elsewhere hw
  | crashed => exact absurd rfl (hno _ _)
  | task hc he hw =>
    obtain ⟨ht, hst⟩ := hc.holds (fun _ _ h => h.1) h.keyed
    have hbetween := hc.between
    rw [← hbetween.1] at ht
    exact ((h.elsewhere hbetween).dispatchTask ht hst he).elsewhere hw

/-! ## Chores and events -/

/-- A sweep gives back only tasks that run on a lease, and those have no slot. -/
theorem Placed.giveBackAll (h : Placed s c) {ts : List Task} {now : UInt64} (hdistinct : (ts.map (·.id)).Nodup)
    (hts : ∀ t ∈ ts, s.Holds t ∧ t.hasExpiredLease now = true) : Placed (s.giveBackAll ts) c := by
  refine h.rows (h.keyed.giveBackAll ts) fun t ht hbegun => ?_
  refine ⟨t, (holds_giveBackAll hdistinct).2 (.inr ⟨ht, fun u hu hid => ?_⟩), rfl, hbegun⟩
  obtain ⟨hheld, hexp⟩ := hts u hu
  obtain ⟨hrun, l, hl, -⟩ := Task.hasExpiredLease_iff.1 hexp
  rw [← holds_inj ht hheld hid] at hrun hl
  rw [hbegun.unleased hrun] at hl
  cases hl

theorem Placed.chore (h : Placed w.store w.capacity) {p : Program World Unit} (hp : Chore cfg p) {r : Except String Unit}
    (he : Ends Elsewhere n p w r w') : Placed w'.store w'.capacity := by
  rcases hp.vacating he with hvacating | ⟨now, rfl⟩
  · rw [hvacating.store]
    exact h.vacates hvacating.slots
  · obtain ⟨hpods, ts, hdistinct, hts, hstore⟩ := ends_sweep h.keyed he
    rw [hpods, hstore]
    exact h.giveBackAll hdistinct hts

theorem Begun.advances {t t' : Task} (h : Begun t) (ha : Advances t t') : Begun t' := by
  obtain ⟨-, ⟨hst, hlease⟩ | ⟨-, ⟨hst, -⟩ | hend⟩⟩ := ha
  · exact ⟨hst ▸ h.started, fun hr => hlease (h.unleased (hst ▸ hr))⟩
  · exact ⟨by rw [hst]; decide, fun hr => by rw [hst] at hr; cases hr⟩
  · refine ⟨fun hp => ?_, fun hr => ?_⟩
    · rw [hp] at hend; cases hend
    · rw [hr] at hend; cases hend

theorem Placed.event (h : Placed w.store w.capacity) (he : WorldEvent w w') : Placed w'.store w'.capacity := by
  have hpods : Placed w.store w'.capacity := by
    rcases he.pods with hsame | ⟨pod, f, hf, heq⟩
    · rw [hsame]; exact h
    · rw [heq]; exact h.vacates (SameTasks.vacates fun hc => sameTasks_modifyPod hc pod hf)
  cases he with
  | change task change hchange hu =>
    obtain ⟨t, ht, -, hc, hset⟩ := h.keyed.of_updateTask hu
    have hadvances := hchange _ _ hc
    rw [hset hadvances.1]
    exact hpods.setTask ht hadvances.1 fun hbegun => hbegun.advances hadvances
  | confirm task user now hu =>
    obtain ⟨t, ht, -, -, rfl, rfl⟩ := h.keyed.of_confirmApply hu
    exact hpods.setTask ht rfl fun hbegun => ⟨hbegun.started, hbegun.unleased⟩
  | create t hnew hcreate =>
    obtain ⟨-, rfl, rfl⟩ := createTask_cases hcreate
    refine hpods.rows ((h.keyed.congr rfl).setTask _) fun u hu hbegun => ⟨u, ?_, rfl, hbegun⟩
    refine holds_setTask.2 (.inr ⟨(Holds.congr rfl).2 hu, fun hid => ?_⟩)
    have hthere := h.keyed.task?_iff.2 ⟨hu, hid⟩
    rw [hnew] at hthere
    cases hthere
  | register => exact hpods
  | heartbeat => exact hpods
  | surroundings w' hrows _ =>
    exact hpods.rows (h.keyed.congr hrows) fun t ht hbegun => ⟨t, (Holds.congr hrows).2 ht, rfl, hbegun⟩

/-! ## Runs -/

theorem Placed.operation (h : Placed w.store w.capacity) (ho : Operation cfg w w') : Placed w'.store w'.capacity := by
  cases ho with
  | tryDispatch process workspace he hno => exact h.choice (choice_tryDispatch bystanders_elsewhere.locks he) hno
  | executeConfirmedApply process workspace task he hno =>
    exact h.choice (choice_executeConfirmedApply bystanders_elsewhere.locks he) hno
  | chore hp he => exact h.chore hp he
  | event he => exact h.event he

theorem Placed.run (h : Placed w.store w.capacity) (hrun : Relation.ReflTransGen (Operation cfg) w w') :
    Placed w'.store w'.capacity := by
  induction hrun with
  | refl => exact h
  | tail _ ho ih => exact ih.operation ho

theorem placed_of_no_tasks (hn : c.Named) (hs : s.Keyed) (hnone : ∀ x, c.taskAt x = none) : Placed s c where
  order := ⟨hn, fun x st hst _ => by have hx := hnone x; unfold taskAt at hx; rwa [hst] at hx⟩
  keyed := hs
  once := fun task x y hx => by rw [hnone] at hx; cases hx
  begun := fun x task hx => by rw [hnone] at hx; cases hx

/-- After every run from pods without tasks, a task is on one slot at most and a pending task
    is on none. So the slot of a task is found and freed in whatever order the pods are
    visited. -/
theorem placements_are_unique (hn : w.capacity.Named) (hs : w.store.Keyed) (hnone : ∀ x, w.capacity.taskAt x = none)
    (hrun : Relation.ReflTransGen (Operation cfg) w w') :
    (∀ task x y, w'.capacity.taskAt x = some task → w'.capacity.taskAt y = some task → x = y) ∧
    (∀ task t, w'.store.task? task = .ok (some t) → t.status = .pending → ∀ x, w'.capacity.taskAt x ≠ some task) ∧
    ∀ order : List Pod → List Pod, (∀ pods, (order pods).Perm pods) → ∀ task,
      placementAmong (order w'.capacity.pods.values) task = w'.capacity.placementOf? task ∧
      (releaseVisiting order task).run.run w' = (releaseTask task).run.run w' := by
  have hplaced := (placed_of_no_tasks hn hs hnone).run hrun
  refine ⟨hplaced.once, fun task t ht hst x hx => ?_, fun order hperm task => ?_⟩
  · obtain ⟨u, hu, hid, hbegun⟩ := hplaced.begun x task hx
    obtain ⟨ht, hid'⟩ := hplaced.keyed.task?_iff.1 ht
    rw [holds_inj ht hu (hid'.trans hid.symm)] at hst
    exact hbegun.started hst
  · have hfound := (hplaced.once task).placementAmong_eq hplaced.order.named (hperm _)
    exact ⟨hfound, run_releaseVisiting hfound⟩

theorem keyed_oneFreeSlot : oneFreeSlot.store.Keyed := (keyed_empty.congr rfl).setTask _

/-- A plan starts on a pod, its workspace loses the pool, and a sweep finds no lease that ran
    out. -/
theorem placements_are_unique_edited_workspace :
    ∃ w', Relation.ReflTransGen (Operation { holder := "a" }) oneFreeSlot w' ∧
      w'.capacity.taskAt ⟨"pod", 0⟩ = some 1 ∧ ∀ y, w'.capacity.taskAt y = some 1 → y = ⟨"pod", 0⟩ := by
  obtain ⟨w₁, w₂, hattempt, hsweep, hplace⟩ : ∃ w₁ w₂,
      (tryDispatch { holder := "a" } 0 "ws").run.run oneFreeSlot = (.finished (.ok (.started 1 (some "agent"))), w₁) ∧
      (ignoring (Recovery.sweep 60)).run { w₁ with store := w₁.store.putWorkspace { id := "ws", mode := .kubernetes } } =
        (.finished (), w₂) ∧
      w₂.capacity.taskAt ⟨"pod", 0⟩ = some 1 := ⟨_, _, rfl, rfl, rfl⟩
  obtain ⟨n, hstarted⟩ : ∃ n, Ends Elsewhere n (tryDispatch { holder := "a" } 0 "ws").run oneFreeSlot _ w₁ := Ends.of_run hattempt
  obtain ⟨m, hswept⟩ : ∃ m, Ends Elsewhere m (ignoring (Recovery.sweep 60)) _ (.ok ()) w₂ := Ends.of_run hsweep
  have hrun : Relation.ReflTransGen (Operation { holder := "a" }) oneFreeSlot w₂ :=
    ((Relation.ReflTransGen.single (.tryDispatch 0 "ws" hstarted fun _ _ h => by cases h)).tail
      (.event (.surroundings _ rfl rfl))).tail (.chore (.sweep 60) hswept)
  obtain ⟨hunique, -, -⟩ := placements_are_unique named_oneFreeSlot keyed_oneFreeSlot taskAt_oneFreeSlot hrun
  exact ⟨w₂, hrun, hplace, fun y hy => hunique 1 y ⟨"pod", 0⟩ hy hplace⟩

end Dispatch

end TaskFleet
