/-
  TaskFleet.Proofs.Capacity.Lineage — where the pods under management come from.

  Maintenance puts new pods under management, gives pods up, and changes of the others no more
  than their slots and when they were last heard of.
  - `Descends`: every pod is new under its name, or was there and is the same in some respects.
    `Lineage`: what is asked of "new" and "the same" for that.
  - `Lineage.insert`, `Lineage.takeOverAll`, …: each single change; a new pod must count as new.
  - `Lineage.maintains`, `Lineage.calm_reconcile`: all of maintenance, and a pool's reconciliation.
-/

import TaskFleet.Proofs.Capacity.Maintenance
import TaskFleet.Proofs.Capacity.Upkeep

namespace TaskFleet

/-- Every pod is new under its name, or is the same as one that was there. -/
def Descends (New : String → Pod → Prop) (Same : Pod → Pod → Prop) (w w' : World) : Prop :=
  ∀ name p', w'.capacity.pods.get? name = some p' → New name p' ∨ ∃ p, w.capacity.pods.get? name = some p ∧ Same p p'

theorem Descends.named {New : String → Pod → Prop} {Same : Pod → Pod → Prop} {w w' : World} (h : Descends New Same w w')
    (hnew : ∀ name p, New name p → p.name = name) (hsame : ∀ p p', Same p p' → p'.name = p.name)
    (hn : w.capacity.Named) : w'.capacity.Named := by
  intro name p' hp'
  rcases h name p' hp' with h | ⟨p, hp, h⟩
  · exact hnew name p' h
  · exact (hsame p p' h).trans (hn name p hp)

/-- Pods that count as the same may differ in their slots and in when they were last heard of. -/
structure Lineage (New : String → Pod → Prop) (Same : Pod → Pod → Prop) : Prop where
  refl : ∀ p, Same p p
  trans : ∀ {p q r}, Same p q → Same q r → Same p r
  new : ∀ {name p q}, New name p → Same p q → New name q
  heard : ∀ p now, Same p { p with lastHeartbeat := now }
  slots : ∀ p slots, Same p { p with slots }

namespace Lineage

open Capacity

variable {New : String → Pod → Prop} {Same : Pod → Pod → Prop} {w w' : World} {pool : AgentPool} {now : UInt64}

theorem preorder (h : Lineage New Same) : IsPreorder World (Descends New Same) where
  refl _ := fun _ p' hp' => .inr ⟨p', hp', h.refl p'⟩
  trans _ _ _ h₁ h₂ := by
    intro name p'' hp''
    rcases h₂ name p'' hp'' with hnew | ⟨p', hp', hsame'⟩
    · exact .inl hnew
    rcases h₁ name p' hp' with hnew | ⟨p, hp, hsame⟩
    · exact .inl (h.new hnew hsame')
    · exact .inr ⟨p, hp, h.trans hsame hsame'⟩

theorem of_pods (h : Lineage New Same) (hpods : w'.capacity.pods = w.capacity.pods) : Descends New Same w w' :=
  fun _ p' hp' => .inr ⟨p', hpods ▸ hp', h.refl p'⟩

/-! ## Single changes -/

theorem insert (h : Lineage New Same) {p : Pod} (hp : New p.name p) :
    Descends New Same w { w with capacity := w.capacity.insertPod p } := by
  intro name p' hp'
  unfold Capacity.insertPod at hp'
  rw [Table.get?_insert] at hp'
  split at hp'
  · next hname => cases hp'; exact .inl (hname ▸ hp)
  · exact .inr ⟨p', hp', h.refl p'⟩

theorem filter (h : Lineage New Same) (keep : String → Pod → Bool) :
    Descends New Same w { w with capacity := { w.capacity with pods := w.capacity.pods.filter keep } } := by
  intro name p' hp'
  rw [Table.get?_filter] at hp'
  exact .inr ⟨p', (Option.filter_eq_some_iff.1 hp').1, h.refl p'⟩

theorem modify (h : Lineage New Same) (pod : String) (f : Pod → Pod) (hf : ∀ p, Same p (f p)) :
    Descends New Same w { w with capacity := { w.capacity with pods := w.capacity.pods.modify pod f } } := by
  intro name p' hp'
  rw [Table.get?_modify] at hp'
  split at hp'
  · obtain ⟨p, hp, rfl⟩ := Option.map_eq_some_iff.1 hp'
    exact .inr ⟨p, hp, hf p⟩
  · exact .inr ⟨p', hp', h.refl p'⟩

theorem removeIdle (h : Lineage New Same) {pod : String} {c : Capacity} (hc : w.capacity.removeIdle pod = .ok c) :
    Descends New Same w { w with capacity := c } := by
  obtain ⟨p, -, -, rfl⟩ := removeIdle_ok_iff.1 hc
  exact h.filter _

theorem takeOverAll (h : Lineage New Same)
    (hnew : ∀ name createdAt now, New name (.fresh name pool.id pool.slotsPerPod createdAt now)) (observed : List ObservedPod) :
    Descends New Same w { w with capacity := w.capacity.takeOverAll pool now observed } := by
  have hone : ∀ (w : World) (o : ObservedPod),
      Descends New Same w { w with capacity := w.capacity.takeOver pool now o } := by
    intro w o
    unfold Capacity.takeOver
    split
    · exact h.modify _ _ fun p => h.heard p now
    · exact h.insert (hnew o.name o.createdAt now)
  have hall : ∀ (live : List ObservedPod) (w : World),
      Descends New Same w { w with capacity := live.foldl (takeOver · pool now) w.capacity } := by
    intro live
    induction live with
    | nil => exact fun w => h.of_pods rfl
    | cons o live ih =>
      exact fun w => h.preorder.trans _ _ _ (hone w o) (ih { w with capacity := w.capacity.takeOver pool now o })
  exact h.preorder.trans _ _ _ (hall _ w) (h.filter _)

theorem followTasks (h : Lineage New Same) (pod : String) :
    Descends New Same w { w with capacity := (w.capacity.followTasks w.store pod w.now).2 } := by
  unfold Capacity.followTasks
  cases w.capacity.pods.get? pod with
  | none => exact h.of_pods rfl
  | some p => exact h.modify _ _ fun p => h.slots p _

theorem expireReservations (h : Lineage New Same) (cfg : CapacitySettings) (id : String) :
    Descends New Same w { w with capacity := w.capacity.expireReservations cfg id now } := by
  intro name p' hp'
  unfold Capacity.expireReservations at hp'
  rw [Table.get?_mapValues] at hp'
  obtain ⟨p, hp, rfl⟩ := Option.map_eq_some_iff.1 hp'
  refine .inr ⟨p, hp, ?_⟩
  split
  · exact h.slots p _
  · exact h.refl p

/-! ## Maintenance -/

variable {cfg : CapacitySettings}

theorem calm_samePods (h : Lineage New Same) {α : Type} {p : Program World α} (hp : p.Calm SamePods) :
    p.Calm (Descends New Same) := hp.mono fun _ _ hsame => h.of_pods (congrArg Capacity.pods hsame)

theorem calm_createPod (h : Lineage New Same)
    (hnew : ∀ name createdAt now, New name (.fresh name pool.id pool.slotsPerPod createdAt now)) :
    (createPod cfg pool).run.Calm (Descends New Same) :=
  calm_createPod_of cfg (fun _ _ => h.of_pods) fun _ name now => h.insert (hnew name now now)

theorem calm_deletePod (h : Lineage New Same) (pod : String) : (deletePod cfg pod).run.Calm (Descends New Same) :=
  calm_deletePod_of cfg (fun _ => h.of_pods rfl) (fun _ _ => h.removeIdle) (h.calm_samePods (calm_call cfg _ _))

theorem calm_reconcile (h : Lineage New Same)
    (hnew : ∀ name createdAt now, New name (.fresh name pool.id pool.slotsPerPod createdAt now)) :
    (reconcile cfg pool).run.Calm (Descends New Same) :=
  calm_reconcile_of cfg (fun _ => h.of_pods rfl) (h.calm_samePods (calm_call cfg _ _))
    (fun _ => h.calm_samePods (calm_call cfg _ _)) (fun _ observed => h.takeOverAll hnew observed)
    (fun _ pod => h.followTasks pod) fun _ => h.expireReservations cfg pool.id

/-- Maintenance of whatever pool. -/
theorem maintains (h : Lineage New Same)
    (hnew : ∀ name (pool : AgentPool) createdAt now, New name (.fresh name pool.id pool.slotsPerPod createdAt now)) :
    Maintains cfg (Descends New Same) where
  idle _ := h.of_pods rfl
  cluster _ _ := h.of_pods rfl
  alarms _ _ := h.of_pods rfl
  spendName _ _ := h.of_pods rfl
  insert _ name pool createdAt now := h.insert (hnew name pool createdAt now)
  remove _ _ _ hc := h.removeIdle hc
  takeOver _ pool observed := h.takeOverAll (fun name createdAt now => hnew name pool createdAt now) observed
  follow _ pod := h.followTasks pod
  expire _ id := h.expireReservations cfg id

end Lineage

end TaskFleet
