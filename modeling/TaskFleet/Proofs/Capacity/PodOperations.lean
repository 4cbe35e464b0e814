/-
  TaskFleet.Proofs.Capacity.PodOperations — creating and deleting a pod, whatever the cluster answers.

  A creation asks the cluster first and takes the pod under management after that; one that fails
  leaves the pods as they were. A deletion gives the pod up before it asks and does not take it
  back, so if the cluster refuses or does not answer, the call fails and the pod is gone.
  - `ends_createPod`, `ends_deletePod_idle`, `ends_deletePod_kept`: what becomes of the pods, and
    which answer of the cluster the result comes from.
  - `pod_operations_change_one_pod`: both operations in all cases.
  - `failed_deletion_gives_the_pod_up`: the deletion that the cluster refuses. The next
    reconciliation takes the pod over as a new one, without its agent.
-/

import TaskFleet.Proofs.Capacity.PodCounts
import TaskFleet.Proofs.Capacity.Reconciliation

namespace TaskFleet.Capacity

open Program

variable {c c' : Capacity} {cfg : CapacitySettings} {pool : AgentPool} {others : World → World → Prop}
  [IsPreorder World others] {n : Nat} {w w' : World} {name pod id : String}

/-! ## Creating -/

/-- The cluster's answer decides whether the pod is taken under management. -/
theorem ends_start (ho : ∀ s s', others s s' → SamePods s s') {p : Pod} {r : Except String (Except CapacityError Pod)}
    (he : Ends others n (start cfg p).run w r w') :
    ∃ w₁, others w w₁ ∧
      ((∃ e, (w₁.cluster.create p.pool p.name p.createdAt).1.result "create_pod" = .error e ∧ r = .ok (.error e) ∧
        w'.capacity = w.capacity) ∨
      ((w₁.cluster.create p.pool p.name p.createdAt).1 = .ok () ∧ r = .ok (.ok p) ∧
        w'.capacity = w.capacity.insertPod p)) := by
  unfold start at he
  rcases Fallible.ends_bind he with ⟨m, -, hend⟩ | ⟨e, hr, hend⟩ | ⟨n₁, n₂, u, w₂, -, hcall, he⟩
  · obtain ⟨_, hr, -⟩ := (calm_call cfg _ _).ends hend ho
    cases hr
  · obtain ⟨w₁, hw₁, hresult, -⟩ := ends_call cfg hend
    obtain ⟨-, -, hpods⟩ := (calm_call cfg _ _).ends hend ho
    exact ⟨w₁, hw₁, .inl ⟨e, (Except.ok.inj hresult).symm, hr, hpods⟩⟩
  · obtain ⟨w₁, hw₁, hanswer, -⟩ := ends_call_ok cfg hcall
    obtain ⟨-, -, hpods₂⟩ := (calm_call cfg _ _).ends hcall ho
    rw [Fallible.run_always_bind] at he
    obtain ⟨n₃, w₃, -, hw₃, hend⟩ := he.modify_bind
    obtain ⟨-, hr, hw'⟩ := ends_done hend
    have hpods₃ : w₃.capacity = w.capacity := (ho _ _ hw₃).trans hpods₂
    refine ⟨w₁, hw₁, .inr ⟨hanswer, hr, (ho _ _ hw').trans ?_⟩⟩
    rw [hpods₃]

/-- A creation gives out a name and starts a pod of that name with nothing on it. -/
theorem ends_createPod (ho : ∀ s s', others s s' → SamePods s s') {r : Except String (Except CapacityError Pod)}
    (he : Ends others n (createPod cfg pool).run w r w') :
    ∃ w₀ p, others w w₀ ∧ p = .fresh (podName pool.id w₀.now w.capacity.nameSeq) pool.id pool.slotsPerPod w₀.now w₀.now ∧
      ((∃ e, r = .ok (.error e) ∧ w'.capacity = { w.capacity with nameSeq := w.capacity.nameSeq + 1 }) ∨
        (r = .ok (.ok p) ∧ w'.capacity = { w.capacity with nameSeq := w.capacity.nameSeq + 1 }.insertPod p)) := by
  obtain ⟨n₁, w₀, -, hw₀, he⟩ := ends_createPod_named cfg he
  have hpods₀ : w₀.capacity = w.capacity := ho _ _ hw₀
  rw [hpods₀] at he
  obtain ⟨w₁, hw₁, ⟨e, -, hr, hpods⟩ | ⟨-, hr, hpods⟩⟩ := ends_start ho he
  · exact ⟨w₀, _, hw₀, rfl, .inl ⟨e, hr, hpods⟩⟩
  · exact ⟨w₀, _, hw₀, rfl, .inr ⟨hr, hpods⟩⟩

/-! ## Deleting -/

/-- A pod with nothing on it is given up, and the cluster's answer is the result. -/
theorem ends_deletePod_idle (ho : ∀ s s', others s s' → SamePods s s') {p : Pod} (hp : w.capacity.pods.get? pod = some p)
    (hidle : p.isFullyIdle = true) {r : Except String (Except CapacityError Unit)}
    (he : Ends others n (deletePod cfg pod).run w r w') :
    w'.capacity = { w.capacity with pods := w.capacity.pods.erase pod } ∧
      ∃ w₀ w₁, others w w₀ ∧ others { w₀ with capacity := { w.capacity with pods := w.capacity.pods.erase pod } } w₁ ∧
        r = .ok ((w₁.cluster.delete pod).1.result "delete_pod") := by
  unfold deletePod at he
  rw [Fallible.run_ofResult_bind] at he
  obtain ⟨n₁, w₀, -, hw₀, he⟩ := he.apply_bind
  have hpods₀ : w₀.capacity = w.capacity := ho _ _ hw₀
  have hremoved := removeIdle_ok_iff.2 ⟨p, hp, hidle, rfl⟩
  simp only [hpods₀, hremoved, Except.map] at he
  obtain ⟨w₁, hw₁, hr, -⟩ := ends_call cfg he
  obtain ⟨-, -, hpods⟩ := (calm_call cfg _ _).ends he ho
  exact ⟨hpods, w₀, w₁, hw₀, hw₁, hr⟩

/-- Any other pod is kept, and the cluster is not asked. -/
theorem ends_deletePod_kept (ho : ∀ s s', others s s' → SamePods s s') {e : CapacityError}
    (hkept : w.capacity.removeIdle pod = .error e) {r : Except String (Except CapacityError Unit)}
    (he : Ends others n (deletePod cfg pod).run w r w') : r = .ok (.error e) ∧ others w w' := by
  unfold deletePod at he
  rw [Fallible.run_ofResult_bind] at he
  obtain ⟨n₁, w₀, -, hw₀, he⟩ := he.apply_bind
  have hpods₀ : w₀.capacity = w.capacity := ho _ _ hw₀
  simp only [hpods₀, hkept, Except.map] at he
  obtain ⟨-, hr, hw'⟩ := ends_done he
  exact ⟨hr, trans_of others hw₀ hw'⟩

/-! ## Both -/

/-- A new pod of the pool, with nothing on it, was put under its name. -/
structure Added (pool : AgentPool) (c c' : Capacity) (p : Pod) : Prop where
  pods : c'.pods = c.pods.insert p.name p
  inPool : p.pool = pool.id
  slots : p.slots.length = pool.slotsPerPod.toNat
  free : ∀ s ∈ p.slots, s.IsFree
  unregistered : p.agent = none
  count : c.pods.get? p.name = none → c'.podCount pool.id = c.podCount pool.id + 1

/-- A pod with nothing on it was given up. -/
structure GaveUp (pod : String) (c c' : Capacity) (p : Pod) : Prop where
  held : c.pods.get? pod = some p
  idle : p.isFullyIdle = true
  pods : c' = { c with pods := c.pods.erase pod }
  count : c.podCount p.pool = c'.podCount p.pool + 1

theorem added_fresh (name : String) (now : UInt64)
    (hpods : c'.pods = c.pods.insert name (.fresh name pool.id pool.slotsPerPod now now)) :
    Added pool c c' (.fresh name pool.id pool.slotsPerPod now now) where
  pods := hpods
  inPool := rfl
  slots := by simp [Pod.fresh]
  free := by
    intro s hs
    obtain ⟨i, -, rfl⟩ := List.mem_map.1 hs
    exact ⟨rfl, rfl, rfl⟩
  unregistered := rfl
  count := podCount_insert hpods

/-- A creation that fails leaves the pods as they were, and one that succeeds adds its pod, which
    is one more unless a pod of that name is managed already. A deletion that may not give its pod
    up leaves all pods as they were; otherwise the pod is given up, and whatever the cluster
    answers after that is the result. -/
theorem pod_operations_change_one_pod (cfg : CapacitySettings) (ho : ∀ s s', others s s' → SamePods s s') :
    (∀ pool r w', Ends others n (createPod cfg pool).run w r w' →
      (∃ e, r = .ok (.error e) ∧ w'.capacity.pods = w.capacity.pods) ∨
      ∃ p, r = .ok (.ok p) ∧ Added pool w.capacity w'.capacity p) ∧
    (∀ pod r w', Ends others n (deletePod cfg pod).run w r w' →
      (∃ e, r = .ok (.error e) ∧ w'.capacity = w.capacity ∧
        ((e = .podNotFound pod ∧ w.capacity.pods.get? pod = none) ∨
          (e = .podBusy pod ∧ ∃ p, w.capacity.pods.get? pod = some p ∧ p.isFullyIdle = false))) ∨
      ∃ p w₀ w₁, GaveUp pod w.capacity w'.capacity p ∧ others w w₀ ∧
        others { w₀ with capacity := w'.capacity } w₁ ∧ r = .ok ((w₁.cluster.delete pod).1.result "delete_pod")) := by
  refine ⟨fun pool r w' he => ?_, fun pod r w' he => ?_⟩
  · obtain ⟨w₀, p, -, rfl, ⟨e, hr, hw'⟩ | ⟨hr, hw'⟩⟩ := ends_createPod ho he
    · exact .inl ⟨e, hr, by rw [hw']⟩
    · exact .inr ⟨_, hr, added_fresh _ _ (congrArg Capacity.pods hw')⟩
  · cases hremoved : w.capacity.removeIdle pod with
    | error e =>
      obtain ⟨hr, hw'⟩ := ends_deletePod_kept ho hremoved he
      exact .inl ⟨e, hr, ho _ _ hw', removeIdle_error_iff.1 hremoved⟩
    | ok c =>
      obtain ⟨p, hp, hidle, rfl⟩ := removeIdle_ok_iff.1 hremoved
      obtain ⟨hpods, w₀, w₁, hw₀, hw₁, hr⟩ := ends_deletePod_idle ho hp hidle he
      exact .inr ⟨p, w₀, w₁, ⟨hp, hidle, hpods, podCount_erase (congrArg Capacity.pods hpods) hp⟩, hw₀, hpods ▸ hw₁, hr⟩

/-! ## A deletion that the cluster refuses -/

/-- An idle pod with an agent on it. -/
def registeredPod : Pod := servedPod "a" "agent" { index := 0, updatedAt := 0 }

/-- The cluster runs the pod, and refuses to delete it. -/
def undeletable : World :=
  { clock := 0
    capacity := ({} : Capacity).insertPod registeredPod
    cluster := { ({} : Cluster).insert (podListed "a" .running) with deleteFault := some .refused } }

/-- The pod is still there, but no longer managed. -/
def forgotten : World := { undeletable with capacity := {} }

theorem run_deletePod_undeletable :
    (deletePod {} "a").run.run undeletable = (.finished (.error (.backend "delete refused")), forgotten) := rfl

theorem pod_operations_change_one_pod_undeletable :
    (∃ (p : Pod) (w' : World), Added (smallPool 2) undeletable.capacity w'.capacity p) ∧
      ∃ p, GaveUp "a" undeletable.capacity forgotten.capacity p := by
  obtain ⟨w', hcreated⟩ : ∃ w', (createPod {} (smallPool 2)).run.run undeletable =
      (.finished (.ok (.fresh firstPod "pool" 1 0 0)), w') := ⟨_, rfl⟩
  obtain ⟨n, hcreate⟩ : ∃ n, Ends Eq n (createPod {} (smallPool 2)).run undeletable _ w' := Ends.of_run hcreated
  obtain ⟨m, hdelete⟩ : ∃ m, Ends Eq m (deletePod {} "a").run undeletable _ _ := Ends.of_run run_deletePod_undeletable
  have ho : ∀ s s' : World, s = s' → SamePods s s' := fun s s' h => h ▸ refl_of SamePods s
  refine ⟨?_, ?_⟩
  · rcases (pod_operations_change_one_pod {} ho).1 (smallPool 2) _ _ hcreate with ⟨e, hr, -⟩ | ⟨p, -, hadded⟩
    · cases hr
    · exact ⟨p, w', hadded⟩
  · rcases (pod_operations_change_one_pod {} ho).2 "a" _ _ hdelete with ⟨e, -, hkept, -⟩ | ⟨p, -, -, hgone, -⟩
    · cases hkept
    · exact ⟨p, hgone⟩

/-- The deletion fails, and the pod is not managed any more; the next reconciliation takes it over as
    a new one, on which no agent is registered. -/
theorem failed_deletion_gives_the_pod_up :
    (∃ n, Ends Eq n (deletePod {} "a").run undeletable (.ok (.error (.backend "delete refused"))) forgotten) ∧
    undeletable.capacity.pods.get? "a" = some registeredPod ∧ registeredPod.agent = some "agent" ∧
    forgotten.capacity.pods.get? "a" = none ∧
    ∃ n w', Ends Eq n (reconcile {} (smallPool 2)).run forgotten (.ok (.ok ())) w' ∧
      w'.capacity.pods.get? "a" = some (.fresh "a" "pool" 1 0 0) := by
  obtain ⟨cluster, hrun⟩ := run_reconcile (w := forgotten) {} (smallPool 2) Store.keyed_empty.readable rfl (by decide)
  obtain ⟨n, he⟩ : ∃ n, Ends Eq n (reconcile {} (smallPool 2)).run forgotten _ _ := Ends.of_run hrun
  exact ⟨Ends.of_run run_deletePod_undeletable, rfl, rfl, rfl, n, _, he, rfl⟩

end TaskFleet.Capacity
