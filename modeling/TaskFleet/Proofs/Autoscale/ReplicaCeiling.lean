/-
  TaskFleet.Proofs.Autoscale.ReplicaCeiling — scaling does not take a pool over its ceiling.

  Pods are created to reach a wanted number, to replace an unhealthy pod, and to give an empty
  pool its first ones. Only the last may go over the ceiling, by the one pod of a pool that is to
  have none; the scaling that follows takes it away again unless a task waits for its apply.
  Meanwhile others may do as they please, as long as they put no pods under management.
  - `StaysWithin`: pods were added to the pool only, and not beyond its ceiling. `Bounded`
    programs do no more than that, and sequences of them do no more (`composes_bounded`).
  - `ends_restart`: a pod is replaced only after it was given up.
  - `bounded_scaleReconciled`, `bounded_cycleReconciled`: what follows on a reconciliation.
  - `ends_scaleReconciled_idle`: a pool that is to have none loses its idle pods.
  - `scaling_keeps_to_the_ceiling`: the three calls, from the reconciliation to the end.
-/

import TaskFleet.Proofs.Autoscale.ScaleDown
import TaskFleet.Proofs.Capacity.PodCounts

namespace TaskFleet.Autoscale

open Capacity Program

variable {cfg : Settings} {pool : AgentPool} {others : World → World → Prop} [IsPreorder World others] {n : Nat}
  {w w' : World} {α : Type}

/-! ## The ceiling -/

/-- The greatest number of pods that a pool is to have; its least number counts if it is higher. -/
def ceiling (pool : AgentPool) : Nat := (max pool.minReplicas pool.maxReplicas).toNat

def WithinCeiling (pool : AgentPool) (w : World) : Prop := w.capacity.podCount pool.id ≤ ceiling pool

theorem ceiling_lt (pool : AgentPool) : ceiling pool < UInt32.size := UInt32.toNat_lt _

theorem clampWord_le {a low high : UInt32} (h : low ≤ high) : clampWord a low high ≤ high := by
  unfold clampWord
  split
  · exact h
  · split
    · exact UInt32.le_refl _
    · next hle => exact UInt32.not_lt.1 hle

theorem toNat_most : (max pool.maxReplicas pool.minReplicas).toNat = ceiling pool := by
  rw [ceiling, UInt32.toNat_max, UInt32.toNat_max, Nat.max_comm]

theorem least_le_most : pool.minReplicas ≤ max pool.maxReplicas pool.minReplicas := by
  rw [UInt32.le_iff_toNat_le, UInt32.toNat_max]
  exact Nat.le_max_right _ _

theorem desiredPods_le (view : PoolSnapshot) (cfg : ScalingSettings) : (view.desiredPods pool cfg).toNat ≤ ceiling pool := by
  rw [← toNat_most, ← UInt32.le_iff_toNat_le]
  unfold PoolSnapshot.desiredPods
  split <;> exact clampWord_le least_le_most

/-- An empty pool starts within its ceiling, if that lets it have pods at all. -/
theorem initialPods_le (pool : AgentPool) : initialPods pool ≤ max 1 (ceiling pool) := by
  unfold initialPods ceiling
  rw [UInt32.toNat_min, UInt32.toNat_max, UInt32.toNat_max, UInt32.toNat_max]
  simp only [UInt32.toNat_one]
  omega

/-! ## Programs that stay within it -/

/-- Pods were added to the pool only, and not beyond its ceiling. -/
structure StaysWithin (pool : AgentPool) (w w' : World) : Prop where
  adds : AddsIn (· = pool.id) w w'
  count : w.capacity.podCount pool.id < UInt32.size →
    w'.capacity.podCount pool.id ≤ max (w.capacity.podCount pool.id) (ceiling pool)

instance : IsPreorder World (StaysWithin pool) where
  refl w := ⟨refl_of (AddsIn _) w, fun _ => Nat.le_max_left _ _⟩
  trans w w₁ w₂ h h' := by
    refine ⟨trans_of (AddsIn _) h.adds h'.adds, fun hsize => ?_⟩
    have h₁ := h.count hsize
    have h₂ := h'.count (Nat.lt_of_le_of_lt h₁ (Nat.max_lt.2 ⟨hsize, ceiling_lt pool⟩))
    omega

theorem StaysWithin.of_le (h : AddsIn (· = pool.id) w w')
    (hcount : w'.capacity.podCount pool.id ≤ w.capacity.podCount pool.id) : StaysWithin pool w w' :=
  ⟨h, fun _ => Nat.le_trans hcount (Nat.le_max_left _ _)⟩

theorem StaysWithin.quiet (h : NoNewPods w w') : StaysWithin pool w w' := .of_le (h.adds _) (h.podCount_le _)

theorem StaysWithin.withinCeiling (h : StaysWithin pool w w') (hw : WithinCeiling pool w) : WithinCeiling pool w' := by
  have hle := h.count (Nat.lt_of_le_of_lt hw (ceiling_lt pool))
  unfold WithinCeiling at *
  omega

/-- The program adds pods to the pool only, and not beyond its ceiling, while others add none. -/
def Bounded (pool : AgentPool) (p : Program World α) : Prop :=
  ∀ n w r w', w.capacity.Named → Ends NoNewPods n p w r w' → StaysWithin pool w w'

theorem bounded_of_calm {p : Program World α} (hp : p.Calm NoNewPods) : Bounded pool p := by
  intro n w r w' _ he
  obtain ⟨a, -, h⟩ := hp.ends he fun _ _ h => h
  exact .quiet h

theorem composes_bounded (pool : AgentPool) : Composes fun _ p => Bounded pool p where
  pure a := bounded_of_calm (calm_pure a)
  bind := by
    intro α β p k hp hk n w r w' hn he
    rcases he.bind with ⟨m, -, hend⟩ | ⟨n₁, n₂, a, w₁, -, hfirst, hrest⟩
    · exact hp n w _ w' hn hend
    · have h₁ := hp n₁ w _ w₁ hn hfirst
      exact trans_of (StaysWithin pool) h₁ (hk a n₂ w₁ r w' (h₁.adds.named hn) hrest)

/-! ## Looking and giving up -/

theorem calm_look {R : World → World → Prop} (hrefl : ∀ w, R w w) {f : Store → Except StoreError α} : (look f).run.Calm R :=
  (calm_get hrefl _).map _

theorem calm_freezeStatus {R : World → World → Prop} (hrefl : ∀ w, R w w) : (freezeStatus pool).run.Calm R := by
  refine Fallible.calm_bind (Fallible.calm_always (calm_get hrefl _)) fun now => ?_
  split <;> exact calm_pure _

theorem calm_queueing (workspaces : List String) : (trigger workspaces).Calm NoNewPods :=
  (calm_trigger _).mono fun _ _ => noNewPods_samePods

theorem calm_tracking {pool : String} {f : RestartTracker → α × RestartTracker} : (onTracker pool f).Calm NoNewPods :=
  (calm_onTracker pool f).mono fun _ _ => noNewPods_samePods

theorem calm_shrinkFrozen_adds (pool : String) : (shrinkFrozen cfg pool).Calm NoNewPods :=
  calm_shrinkFrozen (refl_of _) calm_deletePod_adds pool

theorem calm_shrink (pool : String) (current surplus : UInt32) : (shrink cfg pool current surplus).run.Calm NoNewPods := by
  refine Fallible.calm_bind (calm_look (refl_of _)) fun work => ?_
  split
  · exact calm_pure _
  · refine Fallible.calm_bind (Fallible.calm_always (calm_get (refl_of _) _)) fun idle => ?_
    exact Fallible.calm_bind (Fallible.calm_always (calm_deletePods calm_deletePod_adds _)) fun _ => calm_pure _

/-! ## Creating -/

theorem podCount_createPods {k : Nat} {r : Except String Nat} (he : Ends NoNewPods n (createPods cfg pool k) w r w') :
    w'.capacity.podCount pool.id ≤ w.capacity.podCount pool.id + k := by
  induction k generalizing n w r with
  | zero =>
    obtain ⟨-, -, h⟩ := ends_done he
    exact h.podCount_le _
  | succ k ih =>
    obtain ⟨n₁, n₂, created, w₁, -, -, hfirst, hrest⟩ := (calm_createPod_adds pool).bind_ends he fun _ _ h => h.adds _
    have h₁ := podCount_createPod hfirst
    have h₂ : w'.capacity.podCount pool.id ≤ w₁.capacity.podCount pool.id + k := by
      cases created with
      | ok p =>
        rw [← map_eq_pure_bind] at hrest
        obtain ⟨r', -, hmore⟩ := hrest.map
        exact ih hmore
      | error e =>
        obtain ⟨-, -, h⟩ := ends_done hrest
        exact Nat.le_add_right_of_le (h.podCount_le _)
    omega

theorem podCount_grow {current missing : UInt32} {waiting : List String} {r : Except String (UInt32 × Bool)}
    (he : Ends NoNewPods n (grow cfg pool current missing waiting) w r w') :
    w'.capacity.podCount pool.id ≤ w.capacity.podCount pool.id + missing.toNat := by
  obtain ⟨n₁, n₂, created, w₁, -, -, hcreate, hrest⟩ :=
    (calm_createPods (calm_createPod_adds pool) missing.toNat).bind_ends he fun _ _ h => h.adds _
  have hlast : (if 0 < created then trigger waiting >>= fun _ => pure (current + .ofNat created, decide (0 < created))
      else pure (current + .ofNat created, decide (0 < created))).Calm NoNewPods := by
    split
    · exact (calm_queueing _).bind fun _ => calm_pure _
    · exact calm_pure _
  obtain ⟨-, -, h⟩ := hlast.ends hrest fun _ _ h => h
  exact Nat.le_trans (h.podCount_le _) (podCount_createPods hcreate)

theorem toNat_snapshot_pods {c : Capacity} {id : String} (work : PoolWorkload) (hsize : c.podCount id < UInt32.size) :
    (snapshot c id work).pods.toNat = c.podCount id := by
  show (UInt32.ofNat (c.podsIn id).length).toNat = _
  rw [length_podsIn, UInt32.toNat_ofNat_of_lt' hsize]

/-- The number of pods is read before the rest of them is created, and is not more by then. -/
theorem bounded_scaleReconciled : Bounded pool (scaleReconciled cfg pool).run := by
  intro n w r w' hn he
  rcases Fallible.calm_bind_ends (calm_freezeStatus (refl_of NoNewPods)) he fun _ _ h => h with
    ⟨e, -, h⟩ | ⟨n₁, status, w₁, h₁, he⟩
  · exact .quiet h
  refine trans_of (StaysWithin pool) (.quiet h₁) ?_
  split at he
  · obtain ⟨r', -, hshrink⟩ := Fallible.ends_always he
    exact bounded_of_calm (calm_shrinkFrozen_adds _) _ _ _ _ (h₁.named hn) hshrink
  rw [Fallible.run_always_bind] at he
  obtain ⟨n₂, w₂, -, h₂, he⟩ := he.get_bind
  refine trans_of (StaysWithin pool) (.quiet h₂) ?_
  rcases Fallible.calm_bind_ends (calm_look (refl_of NoNewPods)) he fun _ _ h => h with ⟨e, -, h⟩ | ⟨n₃, work, w₃, h₃, he⟩
  · exact .quiet h
  simp only at he
  split at he
  · obtain ⟨-, -, h⟩ := ends_done he
    exact .quiet (trans_of NoNewPods h₃ h)
  split at he
  · next hless =>
    obtain ⟨r', -, hgrow⟩ := Fallible.ends_always he
    obtain ⟨-, -, hadds⟩ := (calm_grow (calm_createPod_adds pool) (fun _ _ => addsIn_samePods) _ _ _).ends hgrow
      fun _ _ h => NoNewPods.adds h _
    refine ⟨trans_of (AddsIn _) (h₃.adds _) hadds, fun hsize => ?_⟩
    have hcurrent := toNat_snapshot_pods work hsize
    have hgrown := podCount_grow hgrow
    have hfewer := h₃.podCount_le pool.id
    have hdesired : ((snapshot w₂.capacity pool.id work).desiredPods pool cfg.scaling).toNat ≤ ceiling pool :=
      desiredPods_le _ _
    rw [UInt32.toNat_sub_of_le _ _ (UInt32.le_of_lt hless)] at hgrown
    omega
  · refine trans_of (StaysWithin pool) (.quiet h₃) ?_
    exact bounded_of_calm (calm_shrink _ _ _) _ _ _ _ (h₃.named (h₂.named (h₁.named hn))) he

/-! ## Replacing -/

/-- A pod of the pool is replaced only after it was given up. -/
theorem ends_restart {pod : String} {now : UInt64} {r : Except String (Option String)}
    (hpod : ∀ p, w.capacity.pods.get? pod = some p → p.pool = pool.id)
    (he : Ends NoNewPods n (restart cfg pool pod now) w r w') :
    AddsIn (· = pool.id) w w' ∧ w'.capacity.podCount pool.id ≤ w.capacity.podCount pool.id := by
  obtain ⟨n₁, n₂, decision, w₁, -, h₁, -, he⟩ := calm_tracking.bind_ends he fun _ _ h => h
  have hquiet : ∀ {w₂ : World}, NoNewPods w₁ w₂ →
      AddsIn (· = pool.id) w w₂ ∧ w₂.capacity.podCount pool.id ≤ w.capacity.podCount pool.id := by
    intro w₂ h₂
    have h : NoNewPods w w₂ := trans_of NoNewPods h₁ h₂
    exact ⟨h.adds _, h.podCount_le _⟩
  cases decision with
  | backoff remaining => exact hquiet (ends_done he).2.2
  | giveUp count first => exact hquiet (ends_done he).2.2
  | restart attempt =>
    obtain ⟨n₃, n₄, deleted, w₂, -, h₂, hdelete, he⟩ := (calm_deletePod_adds pod).bind_ends he fun _ _ h => h
    cases deleted with
    | error e => exact hquiet (trans_of NoNewPods h₂ (ends_done he).2.2)
    | ok u =>
      obtain ⟨n₅, n₆, created, w₃, -, h₃, hcreate, he⟩ := (calm_createPod_adds pool).bind_ends he fun _ _ h => h.adds _
      have hrest : NoNewPods w₃ w' := by
        obtain ⟨n₇, n₈, info, w₄, -, h₄, -, hlast⟩ := calm_tracking.bind_ends he fun _ _ h => h
        exact trans_of NoNewPods h₄ (ends_done hlast).2.2
      have hpod₁ : ∀ p, w₁.capacity.pods.get? pod = some p → p.pool = pool.id := by
        intro p₁ hp₁
        rcases h₁ pod p₁ hp₁ with ⟨-, hno⟩ | ⟨p, hp, -, hpool⟩
        · exact hno.elim
        · exact hpool.trans (hpod p hp)
      have hless := podCount_deletePod hpod₁ hdelete
      have hmore := podCount_createPod hcreate
      have hlast := hrest.podCount_le pool.id
      have hfirst := h₁.podCount_le pool.id
      exact ⟨trans_of (AddsIn _) ((trans_of NoNewPods h₁ h₂).adds _) (trans_of (AddsIn _) h₃ (hrest.adds _)), by omega⟩

theorem ends_restartEach {pods : List String} {now : UInt64} {r : Except String (List String)}
    (hpods : ∀ pod ∈ pods, ∀ p, w.capacity.pods.get? pod = some p → p.pool = pool.id)
    (he : Ends NoNewPods n (restartEach cfg pool now pods) w r w') :
    AddsIn (· = pool.id) w w' ∧ w'.capacity.podCount pool.id ≤ w.capacity.podCount pool.id := by
  induction pods generalizing n w r with
  | nil =>
    obtain ⟨-, -, h⟩ := ends_done he
    exact ⟨h.adds _, h.podCount_le _⟩
  | cons pod rest ih =>
    have hpod := hpods pod List.mem_cons_self
    rcases he.bind with ⟨m, -, hend⟩ | ⟨n₁, n₂, new, w₁, -, hfirst, hrest⟩
    · exact ends_restart hpod hend
    obtain ⟨hadds, hcount⟩ := ends_restart hpod hfirst
    rw [← map_eq_pure_bind] at hrest
    obtain ⟨r', -, hmore⟩ := hrest.map
    -- what is there under the other names now was there before, or is new in this pool
    have hothers : ∀ pod' ∈ rest, ∀ p, w₁.capacity.pods.get? pod' = some p → p.pool = pool.id := by
      intro pod' hpod' p₁ hp₁
      rcases hadds pod' p₁ hp₁ with ⟨-, hpool⟩ | ⟨p, hp, -, hpool⟩
      · exact hpool
      · exact hpool.trans (hpods pod' (List.mem_cons_of_mem _ hpod') p hp)
    obtain ⟨hadds', hcount'⟩ := ih hothers hmore
    exact ⟨trans_of (AddsIn _) hadds hadds', Nat.le_trans hcount' hcount⟩

theorem bounded_restartUnhealthy : Bounded pool (restartUnhealthy cfg pool).run := by
  intro n w r w' hn he
  rcases Fallible.calm_bind_ends (calm_look (refl_of NoNewPods)) he fun _ _ h => h with ⟨e, -, h⟩ | ⟨n₁, work, w₁, h₁, he⟩
  · exact .quiet h
  refine trans_of (StaysWithin pool) (.quiet h₁) ?_
  replace hn := h₁.named hn
  split at he
  · exact .quiet (ends_done he).2.2
  rw [Fallible.run_always_bind] at he
  obtain ⟨n₂, w₂, -, h₂, he⟩ := he.get_bind
  rw [Fallible.run_always_bind] at he
  obtain ⟨n₃, n₄, u, w₃, -, h₃, -, he⟩ := calm_tracking.bind_ends he fun _ _ h => h
  refine trans_of (StaysWithin pool) (.quiet (trans_of NoNewPods h₂ h₃)) ?_
  replace hn := h₂.named hn
  simp only at he
  split at he
  · rw [Fallible.run_always_bind] at he
    obtain ⟨n₅, n₆, u', w₄, -, h₄, -, hlast⟩ := calm_tracking.bind_ends he fun _ _ h => h
    exact .quiet (trans_of NoNewPods h₄ (ends_done hlast).2.2)
  · obtain ⟨r', -, hrestart⟩ := Fallible.ends_always he
    have hpods : ∀ pod ∈ ((w₂.capacity.podsIn pool.id).filter (isUnhealthy cfg · w₂.now)).map (·.name),
        ∀ p, w₃.capacity.pods.get? pod = some p → p.pool = pool.id := by
      intro pod hpod p₃ hp₃
      obtain ⟨q, hq, rfl⟩ := List.mem_map.1 hpod
      obtain ⟨⟨name, hname⟩, hpool⟩ := mem_podsIn.1 (List.mem_filter.1 hq).1
      rcases h₃ q.name p₃ hp₃ with ⟨-, hno⟩ | ⟨p, hp, -, hpool'⟩
      · exact hno.elim
      · rw [hn name q hname, hname] at hp
        cases hp
        exact hpool'.trans hpool
    obtain ⟨hadds, hcount⟩ := ends_restartEach hpods hrestart
    exact .of_le hadds hcount

theorem bounded_cycleReconciled (result : Except CapacityError Unit) : Bounded pool (cycleReconciled cfg pool result) := by
  have hC := composes_bounded pool
  cases result with
  | error e => exact hC.pure _
  | ok u =>
    refine hC.bind (hC.ignoring bounded_restartUnhealthy) fun _ => hC.bind bounded_scaleReconciled fun result => ?_
    refine hC.bind (bounded_of_calm (calm_look (refl_of _))) fun work => ?_
    cases work with
    | error e => exact hC.pure _
    | ok work => exact hC.bind (bounded_of_calm (calm_queueing _)) fun _ => hC.pure _

theorem bounded_goOn {p : Fallible ScalingError α} (hp : Bounded pool p.run) (result : Except CapacityError Unit) :
    Bounded pool (goOn p result) := by
  cases result with
  | ok u => exact hp
  | error e => exact (composes_bounded pool).pure _

theorem scales_sameStore : Scales cfg fun _ p => p.Steps SameStore :=
  scales_steps maintains_sameStore (fun _ _ => rfl) fun _ _ => rfl

/-! ## A pool that is to have no pods -/

/-- Nothing is on the pods of a pool. -/
def AllIdle (pool : String) (w : World) : Prop :=
  ∀ name p, w.capacity.pods.get? name = some p → p.pool = pool → p.isFullyIdle = true

theorem AllIdle.podCount_eq_zero {id : String} {w₁ : World} (h : AllIdle id w) (hw : w₁.capacity = w.capacity)
    (hbusy : OnlyBusy id w₁ w') : w'.capacity.podCount id = 0 := by
  rw [← length_namesIn, List.length_eq_zero_iff, List.eq_nil_iff_forall_not_mem]
  intro name hname
  obtain ⟨p, hp, hpool⟩ := mem_namesIn.1 hname
  obtain ⟨hp, hb⟩ := (hbusy name p).1 hp
  rw [h name p (hw ▸ hp) hpool] at hb
  cases hb hpool

/-- A pod of the pool that was not there is idle. -/
def NewOnesIdle (pool : String) (w w' : World) : Prop :=
  ∀ name p', w'.capacity.pods.get? name = some p' → p'.pool = pool →
    p'.isFullyIdle = true ∨ w.capacity.pods.get? name = some p'

instance (pool : String) : IsPreorder World (NewOnesIdle pool) where
  refl _ := fun _ _ hp' _ => .inr hp'
  trans _ _ _ h h' := fun name p' hp' hpool => (h' name p' hp' hpool).elim .inl fun hp => h name p' hp hpool

theorem newOnesIdle_of_pods {id : String} (h : w'.capacity.pods = w.capacity.pods) : NewOnesIdle id w w' :=
  fun _ _ hp' _ => .inr (h ▸ hp')

theorem calm_createPod_idle (id : String) : (createPod cfg.capacity pool).run.Calm (NewOnesIdle id) := by
  refine calm_createPod_of cfg.capacity (fun _ _ => newOnesIdle_of_pods) fun w pod now name p' hp' _ => ?_
  unfold Capacity.insertPod at hp'
  rw [Table.get?_insert] at hp'
  split at hp'
  · cases hp'; exact .inl (Pod.isBlank_fresh _ _ _ _ _).isFullyIdle
  · exact .inr hp'

/-- Every pod is one too many. -/
theorem scaleReconciled_of_none (h : ceiling pool = 0) :
    scaleReconciled cfg pool = (do
      if (← freezeStatus pool).isFrozen then Fallible.always (shrinkFrozen cfg pool.id)
      else
        let capacity ← Fallible.always <| Program.get (·.capacity)
        let work ← look (·.poolWorkload pool.id)
        let current := (snapshot capacity pool.id work).pods
        if 0 = current then return (current, false)
        else shrink cfg pool.id current current) := by
  have hnone : ∀ view : PoolSnapshot, view.desiredPods pool cfg.scaling = 0 := fun view =>
    UInt32.toNat_inj.1 (Nat.le_zero.1 (h ▸ desiredPods_le view cfg.scaling))
  unfold scaleReconciled
  simp only [hnone, UInt32.not_lt_zero, if_false, UInt32.sub_zero]

/-- Scaling takes the idle pods of such a pool away, unless a task waits for its apply. -/
theorem ends_scaleReconciled_idle {a : UInt32 × Bool} (hn : w.capacity.Named) (hnone : ceiling pool = 0)
    (hsize : w.capacity.podCount pool.id < UInt32.size) (hidle : AllIdle pool.id w) (hwaits : ¬w.store.AwaitsApply pool.id)
    (he : Ends Elsewhere n (scaleReconciled cfg pool).run w (.ok (.ok a)) w') : w'.capacity.podCount pool.id = 0 := by
  rw [scaleReconciled_of_none hnone] at he
  rcases Fallible.calm_bind_ends (calm_freezeStatus (refl_of Elsewhere)) he fun _ _ h => h with
    ⟨e, hr, -⟩ | ⟨n₁, status, w₁, h₁, he⟩
  · cases hr
  split at he
  · obtain ⟨r', -, hshrink⟩ := Fallible.ends_always he
    exact hidle.podCount_eq_zero h₁.2 (ends_shrinkFrozen (h₁.2 ▸ hn) (hshrink.mono fun _ _ h => h.2)).2
  rw [Fallible.run_always_bind] at he
  obtain ⟨n₂, w₂, -, h₂, he⟩ := he.get_bind
  rcases ends_look_bind he with ⟨e, -, hr, -⟩ | ⟨n₃, work, w₃, -, h₃, -, he⟩
  · cases hr
  have hw₃ : Elsewhere w w₃ := trans_of Elsewhere h₁ (trans_of Elsewhere h₂ h₃)
  have hcurrent : (snapshot w₂.capacity pool.id work).pods.toNat = w.capacity.podCount pool.id := by
    rw [h₂.2.trans h₁.2]
    exact toNat_snapshot_pods work hsize
  simp only at he
  split at he
  · next hzero =>
    obtain ⟨-, -, h'⟩ := ends_done he
    rw [h'.2, hw₃.2, ← hcurrent, ← hzero]
    rfl
  -- all the pods are surplus, so every idle one of them is given up
  rcases ends_look_bind he with ⟨e, -, hr, -⟩ | ⟨n₄, work', w₄, -, h₄, hwork', he⟩
  · cases hr
  have hw₄ : Elsewhere w w₄ := trans_of Elsewhere hw₃ h₄
  rw [hw₄.1] at hwork'
  rw [if_neg (mt (Store.applyPending_pos_iff hwork').1 hwaits), Fallible.run_always_bind] at he
  obtain ⟨n₅, w₅, -, h₅, he⟩ := he.get_bind
  have hw₅ : w₅.capacity = w.capacity := h₅.2.trans hw₄.2
  rw [Fallible.run_always_bind] at he
  rcases he.bind with ⟨m, -, hend⟩ | ⟨n₆, n₇, deleted, w₆, -, hend, hrest⟩
  all_goals obtain ⟨⟨_, hr⟩, hdropped⟩ := ends_deletePods (hend.mono fun _ _ h => h.2)
  · cases hr
  have hlisted : ((w₅.capacity.idlePods pool.id).map (·.name)).length ≤ w.capacity.podCount pool.id := by
    rw [List.length_map, ← hw₅, ← length_podsIn]
    exact List.length_filter_le _ _
  rw [hcurrent, List.take_of_length_le hlisted] at hdropped
  obtain ⟨-, -, h'⟩ := ends_done hrest
  rw [h'.2]
  exact hidle.podCount_eq_zero hw₅ (onlyBusy_of_dropped (hw₅ ▸ hn) hdropped)

/-! ## Making sure of pods -/

/-- The scaling that follows after this many first pods. -/
def scaleAfter (cfg : Settings) (pool : AgentPool) (created : Nat) : Fallible ScalingError (UInt32 × Bool) := do
  let (count, scaled) ← scaleReconciled cfg pool
  return (count, scaled || 0 < created)

theorem bounded_scaleAfter (created : Nat) : Bounded pool (scaleAfter cfg pool created).run :=
  (composes_bounded pool).bind_run bounded_scaleReconciled fun _ => (composes_bounded pool).pure _

theorem ends_scaleAfter_idle {created : Nat} {a : UInt32 × Bool} (hn : w.capacity.Named) (hnone : ceiling pool = 0)
    (hone : w.capacity.podCount pool.id ≤ 1) (hidle : AllIdle pool.id w) (hwaits : ¬w.store.AwaitsApply pool.id)
    (he : Ends Elsewhere n (scaleAfter cfg pool created).run w (.ok (.ok a)) w') : w'.capacity.podCount pool.id = 0 := by
  rcases Fallible.ends_bind he with ⟨m, hr, -⟩ | ⟨e, hr, -⟩ | ⟨n₁, n₂, result, w₁, -, hscale, hrest⟩
  · cases hr
  · cases hr
  · obtain ⟨-, -, h'⟩ := ends_done hrest
    rw [h'.2]
    exact ends_scaleReconciled_idle hn hnone (Nat.lt_of_le_of_lt hone (by decide)) hidle hwaits hscale

/-- Making sure of pods creates the first ones if there are none, and scales. -/
theorem ensureReconciled_cases {id : String} {r : Except String (Except ScalingError (UInt32 × Bool))}
    (he : Ends others n (ensureReconciled cfg pool id).run w r w') :
    (∃ e, r = .ok (.error e) ∧ others w w') ∨ ∃ w₁, others w w₁ ∧
      ((w₁.capacity.podCount id = 0 ∧ ∃ n₁ n₂ created w₂,
          Ends others n₁ (createPods cfg pool (initialPods pool)) w₁ (.ok created) w₂ ∧
          Ends others n₂ (scaleAfter cfg pool created).run w₂ r w') ∨
        ∃ n₁, Ends others n₁ (scaleAfter cfg pool 0).run w₁ r w') := by
  rcases Fallible.calm_bind_ends (calm_freezeStatus (refl_of others)) he fun _ _ h => h with
    ⟨e, hr, h⟩ | ⟨n₁, status, w₁, h₁, he⟩
  · exact .inl ⟨e, hr, h⟩
  rw [Fallible.run_always_bind] at he
  obtain ⟨n₂, w₂, -, h₂, he⟩ := he.get_bind
  refine .inr ⟨w₂, trans_of others h₁ h₂, ?_⟩
  by_cases hempty : (!status.isFrozen) = true ∧ w₂.capacity.podCount id = 0
  · simp only [if_pos hempty] at he
    rw [Fallible.run_always_bind] at he
    -- whatever others do, creating does not crash
    have : IsPreorder World fun _ _ => True := { refl := fun _ => trivial, trans := fun _ _ _ _ _ => trivial }
    have hcreates : (createPods cfg pool (initialPods pool)).Calm fun _ _ => True :=
      calm_createPods (calm_createPod_of _ (fun _ _ _ => trivial) fun _ _ _ => trivial) _
    obtain ⟨n₃, n₄, created, w₃, -, -, hcreate, hrest⟩ := hcreates.bind_ends he fun _ _ _ => trivial
    exact .inl ⟨hempty.2, n₃, n₄, created, w₃, hcreate, hrest⟩
  · simp only [if_neg hempty, pure_bind] at he
    exact .inr ⟨n₂, he⟩

theorem ends_ensureReconciled {r : Except String (Except ScalingError (UInt32 × Bool))} (hn : w.capacity.Named)
    (hw : WithinCeiling pool w) (he : Ends NoNewPods n (ensureReconciled cfg pool pool.id).run w r w') :
    w'.capacity.podCount pool.id ≤ max 1 (ceiling pool) := by
  have hsmall : ∀ {s s' : World}, StaysWithin pool s s' → s.capacity.podCount pool.id ≤ max 1 (ceiling pool) →
      s'.capacity.podCount pool.id ≤ max 1 (ceiling pool) := by
    intro s s' h hs
    have hle := h.count (Nat.lt_of_le_of_lt hs (Nat.max_lt.2 ⟨by decide, ceiling_lt pool⟩))
    omega
  have hfirst : w.capacity.podCount pool.id ≤ max 1 (ceiling pool) := Nat.le_trans hw (Nat.le_max_right _ _)
  rcases ensureReconciled_cases he with ⟨e, -, h⟩ | ⟨w₁, h₁, ⟨hempty, n₁, n₂, created, w₂, hcreate, hscale⟩ | ⟨n₁, hscale⟩⟩
  · exact hsmall (.quiet h) hfirst
  · obtain ⟨-, -, hadds⟩ := (calm_createPods (calm_createPod_adds pool) _).ends hcreate fun _ _ h => NoNewPods.adds h _
    have hcount := podCount_createPods hcreate
    rw [hempty, Nat.zero_add] at hcount
    exact hsmall (bounded_scaleAfter created _ _ _ _ (hadds.named (h₁.named hn)) hscale)
      (Nat.le_trans hcount (initialPods_le pool))
  · exact hsmall (bounded_scaleAfter 0 _ _ _ _ (h₁.named hn) hscale) (hsmall (.quiet h₁) hfirst)

/-- The first pod of a pool that is to have none is taken away by the scaling after it. -/
theorem ends_ensureReconciled_quiet {a : UInt32 × Bool} (hn : w.capacity.Named) (hw : WithinCeiling pool w)
    (hwaits : ¬w.store.AwaitsApply pool.id)
    (he : Ends Elsewhere n (ensureReconciled cfg pool pool.id).run w (.ok (.ok a)) w') : WithinCeiling pool w' := by
  have hle := ends_ensureReconciled hn hw (he.mono fun _ _ h => noNewPods_samePods h.2)
  rcases Nat.eq_zero_or_pos (ceiling pool) with hnone | hsome
  swap
  · unfold WithinCeiling
    omega
  have hempty : w.capacity.podCount pool.id = 0 := Nat.le_zero.1 (hnone ▸ hw)
  -- however many pods were created, all of the pool's are new
  have hlast : ∀ {n₂ : Nat} {created : Nat} {w₂ : World}, NewOnesIdle pool.id w w₂ → w₂.capacity.Named →
      w₂.store = w.store → w₂.capacity.podCount pool.id ≤ 1 →
      Ends Elsewhere n₂ (scaleAfter cfg pool created).run w₂ (.ok (.ok a)) w' → WithinCeiling pool w' := by
    intro n₂ created w₂ hnew hn₂ hstore hone he
    have hidle : AllIdle pool.id w₂ := by
      intro name p hp hpool
      refine (hnew name p hp hpool).resolve_right fun hold => ?_
      have hmem := mem_namesIn.2 ⟨p, hold, hpool⟩
      rw [← length_namesIn, List.length_eq_zero_iff] at hempty
      rw [hempty] at hmem
      cases hmem
    have hzero := ends_scaleAfter_idle hn₂ hnone hone hidle (hstore ▸ hwaits) he
    exact Nat.le_trans (Nat.le_of_eq hzero) (Nat.zero_le _)
  rcases ensureReconciled_cases he with ⟨e, hr, -⟩ | ⟨w₁, h₁, ⟨hnone₁, n₁, n₂, created, w₂, hcreate, hscale⟩ | ⟨n₁, hscale⟩⟩
  · cases hr
  · have hcreate' := hcreate.mono fun _ _ h => noNewPods_samePods h.2
    have hcount := podCount_createPods hcreate'
    have hinitial := initialPods_le pool
    obtain ⟨-, -, hadds⟩ := (calm_createPods (calm_createPod_adds pool) _).ends hcreate' fun _ _ h => NoNewPods.adds h _
    obtain ⟨-, -, hnew⟩ := (calm_createPods (calm_createPod_idle pool.id) _).ends hcreate
      fun _ _ h => newOnesIdle_of_pods (congrArg Capacity.pods h.2)
    have hstore : SameStore w₁ w₂ := (scales_sameStore.createPods _).ends hcreate fun _ _ h => h.1
    refine hlast (trans_of (NewOnesIdle _) (newOnesIdle_of_pods (congrArg Capacity.pods h₁.2)) hnew)
      (hadds.named (h₁.2 ▸ hn)) (hstore.trans h₁.1) ?_ hscale
    omega
  · refine hlast (newOnesIdle_of_pods (congrArg Capacity.pods h₁.2)) (h₁.2 ▸ hn) h₁.1 ?_ hscale
    rw [h₁.2, hempty]
    exact Nat.zero_le _

/-! ## Cycles -/

/-- Whatever pods the parts of scaling add, they keep them under their names, and do not crash. -/
theorem scales_adds : Scales cfg fun _ p => p.Calm (AddsIn fun _ => True) where
  toComposes := .calm _
  read f := calm_get (refl_of _) f
  queue ws := (calm_queue ws).mono fun _ _ => addsIn_samePods
  track _ f := (calm_onTracker _ f).mono fun _ _ => addsIn_samePods
  create pool := (calm_createPod_adds pool).mono fun _ _ h => h.mono fun _ _ => trivial
  delete pod := (calm_deletePod_adds pod).mono fun _ _ h => NoNewPods.adds h _

theorem calm_cyclePools (pools : List AgentPool) : (cyclePools cfg pools).Calm (AddsIn fun _ => True) := by
  induction pools with
  | nil => exact calm_pure _
  | cons pool rest ih =>
    exact (scales_adds.cyclePool ((calm_reconcile_adds pool).mono fun _ _ h => h.mono fun _ _ => trivial)).bind fun _ =>
      ih.bind fun _ => calm_pure _

theorem ends_cyclePool {r : Except String (Option (String × UInt32 × Bool))} (hn : w.capacity.Named)
    (he : Ends NoNewPods n (cyclePool cfg pool) w r w') : AddsIn (· = pool.id) w w' := by
  rw [cyclePool_eq] at he
  obtain ⟨n₁, n₂, result, w₁, -, h₁, -, hrest⟩ := (calm_reconcile_adds pool).bind_ends he fun _ _ h => h.adds _
  exact trans_of (AddsIn _) h₁ (bounded_cycleReconciled result _ _ _ _ (h₁.named hn) hrest).adds

theorem ends_cyclePools {pools : List AgentPool} {r : Except String (List (String × UInt32 × Bool))} (hn : w.capacity.Named)
    (he : Ends NoNewPods n (cyclePools cfg pools) w r w') : AddsIn (fun id => ∃ p ∈ pools, p.id = id) w w' := by
  induction pools generalizing n w r with
  | nil => exact NoNewPods.adds (ends_done he).2.2 _
  | cons pool rest ih =>
    have hhead : ∀ {w₁ : World}, AddsIn (· = pool.id) w w₁ → AddsIn (fun id => ∃ p ∈ pool :: rest, p.id = id) w w₁ :=
      fun h => h.mono fun id hid => ⟨pool, List.mem_cons_self, hid.symm⟩
    rcases he.bind with ⟨m, -, hend⟩ | ⟨n₁, n₂, result, w₁, -, hfirst, hrest⟩
    · exact hhead (ends_cyclePool hn hend)
    have h₁ := ends_cyclePool hn hfirst
    rw [← map_eq_pure_bind] at hrest
    obtain ⟨r', -, hmore⟩ := hrest.map
    refine trans_of (AddsIn _) (hhead h₁) ((ih (h₁.named hn) hmore).mono fun id ⟨p, hp, hid⟩ => ?_)
    exact ⟨p, List.mem_cons_of_mem _ hp, hid⟩

/-! ## The three calls -/

theorem scalePool_within {r : Except String (Except ScalingError (UInt32 × Bool))}
    (ho : ∀ s s', others s s' → NoNewPods s s') (hn : w.capacity.Named)
    (he : Ends others n (scalePool cfg pool).run w r w') :
    ∃ w₁, Reconciles others cfg pool (goOn (scaleReconciled cfg pool)) w w₁ r w' ∧
      (WithinCeiling pool w₁ → WithinCeiling pool w') := by
  rw [scalePool_eq] at he
  obtain ⟨n₁, n₂, result, w₁, -, h₁, hfirst, hrest⟩ := (calm_reconcile_adds pool).bind_ends he fun s s' h => (ho s s' h).adds _
  refine ⟨w₁, ⟨n₁, n₂, result, hfirst, hrest⟩, fun hw => ?_⟩
  exact (bounded_goOn bounded_scaleReconciled result _ _ _ _ (h₁.named hn) (hrest.mono ho)).withinCeiling hw

/-- How far making sure of pods may go over a pool's ceiling, from the reconciliation on: by the
    first pod of a pool that is to have none. While nobody else touches records and pods, that
    pod is there in the end only if the pool is not frozen, and the scaling failed or held back
    for a task that waits for its apply. -/
structure FirstPodOnly (others : World → World → Prop) (pool : AgentPool) (w : World)
    (r : Except String (Except ScalingError (UInt32 × Bool))) (w' : World) : Prop where
  count : w'.capacity.podCount pool.id ≤ max 1 (ceiling pool)
  isOpen : (∀ s s', others s s' → Elsewhere s s') → (∀ s s', others s s' → SameSeason pool s s') →
    ¬WithinCeiling pool w' → ¬FrozenAt pool w
  waits : (∀ s s', others s s' → Elsewhere s s') → (∃ a, r = .ok (.ok a)) → ¬WithinCeiling pool w' →
    w.store.AwaitsApply pool.id

theorem firstPodOnly {r : Except String (Except ScalingError (UInt32 × Bool))} {result : Except CapacityError Unit}
    (ho : ∀ s s', others s s' → NoNewPods s s') (hn : w.capacity.Named) (hw : WithinCeiling pool w)
    (he : Ends others n (goOn (ensureReconciled cfg pool pool.id) result) w r w') : FirstPodOnly others pool w r w' := by
  cases result with
  | error e =>
    obtain ⟨-, -, h'⟩ := ends_done he
    have hw' : WithinCeiling pool w' := Nat.le_trans ((ho _ _ h').podCount_le _) hw
    exact ⟨Nat.le_trans hw' (Nat.le_max_right _ _), fun _ _ hover => absurd hw' hover, fun _ _ hover => absurd hw' hover⟩
  | ok u =>
    refine ⟨ends_ensureReconciled hn hw (he.mono ho), fun hq hs hover hfrozen => hover ?_, fun hq ⟨a, hr⟩ hover => ?_⟩
    · obtain ⟨n', r', hshrink⟩ := ends_ensureReconciled_frozen hs hfrozen he
      obtain ⟨-, -, h'⟩ := (calm_shrinkFrozen_adds _).ends hshrink ho
      exact Nat.le_trans (h'.podCount_le _) hw
    · subst hr
      exact Classical.byContradiction fun hno => hover (ends_ensureReconciled_quiet hn hw hno (he.mono hq))

theorem ensurePods_within {id : String} {r : Except String (Except ScalingError (UInt32 × Bool))}
    (ho : ∀ s s', others s s' → NoNewPods s s') (hn : w.capacity.Named)
    (he : Ends others n (ensurePods cfg id).run w r w') :
    ∃ w₀, others w w₀ ∧ ∀ pool, w₀.store.pool? id = .ok (some pool) → pool.kind = .kubernetes → pool.id = id →
      ∃ w₁, Reconciles others cfg pool (goOn (ensureReconciled cfg pool id)) w₀ w₁ r w' ∧
        (WithinCeiling pool w₁ → FirstPodOnly others pool w₁ r w') := by
  rcases ends_look_bind he with ⟨e, ⟨w₀, hw₀, herr⟩, -, -⟩ | ⟨n', found, w₀, -, hw₀, hfound, he⟩
  · refine ⟨w₀, hw₀, fun pool hpool => ?_⟩
    rw [hpool] at herr
    cases herr
  refine ⟨w₀, hw₀, fun pool hpool hkind hid => ?_⟩
  rw [hpool] at hfound
  cases hfound
  simp only [hkind, ne_eq, not_true_eq_false, if_false] at he
  have he : Ends others n' ((reconcile cfg.capacity pool).run >>= goOn (ensureReconciled cfg pool id)) w₀ r w' := by
    rw [← run_onPods_bind]
    exact he
  obtain ⟨n₁, n₂, result, w₁, -, h₁, hfirst, hrest⟩ := (calm_reconcile_adds pool).bind_ends he fun s s' h => (ho s s' h).adds _
  subst hid
  exact ⟨w₁, ⟨n₁, n₂, result, hfirst, hrest⟩, fun hw => firstPodOnly ho (h₁.named ((ho _ _ hw₀).named hn)) hw hrest⟩

theorem cycle_within {r : Except String (Except ScalingError (List (String × UInt32 × Bool)))}
    (ho : ∀ s s', others s s' → NoNewPods s s') (hn : w.capacity.Named) (he : Ends others n (cycle cfg).run w r w') :
    ∃ w₀, others w w₀ ∧ ∀ pools before pool after, w₀.store.listPools = .ok pools →
      pools.filter (·.kind == .kubernetes) = before ++ pool :: after → (∀ p ∈ after, p.id ≠ pool.id) →
      ∃ w₁, Passes others cfg before pool after w₀ w₁ w' ∧ (WithinCeiling pool w₁ → WithinCeiling pool w') := by
  rcases ends_look_bind he with ⟨e, ⟨w₀, hw₀, herr⟩, -, -⟩ | ⟨n', found, w₀, -, hw₀, hfound, he⟩
  · refine ⟨w₀, hw₀, fun pools before pool after hpools => ?_⟩
    rw [hpools] at herr
    cases herr
  refine ⟨w₀, hw₀, fun pools before pool after hpools hsplit hafter => ?_⟩
  rw [hpools] at hfound
  cases hfound
  replace hn := (ho _ _ hw₀).named hn
  obtain ⟨r', -, he⟩ := Fallible.ends_always he
  rw [hsplit, cyclePools_append] at he
  -- up to the pool
  have hoadds : ∀ s s', others s s' → AddsIn (fun _ => True) s s' := fun s s' h => (ho s s' h).adds _
  obtain ⟨n₀, n₁, r₀, w₁, -, hw₁, hbefore, he⟩ := (calm_cyclePools before).bind_ends he hoadds
  replace hn := hw₁.named hn
  -- the pool
  rw [bind_pure_comp] at he
  obtain ⟨r'', -, he⟩ := he.map
  unfold cyclePools at he
  rw [cyclePool_eq, LawfulMonad.bind_assoc] at he
  obtain ⟨k₁, k₂, result, w₂, -, h₂, hreconcile, he⟩ := (calm_reconcile_adds pool).bind_ends he fun s s' h => (ho s s' h).adds _
  obtain ⟨k₃, k₄, r₁, w₃, -, -, hpool, he⟩ := (scales_adds.cycleReconciled result).bind_ends he hoadds
  have hbound := bounded_cycleReconciled result _ _ _ _ (h₂.named hn) (hpool.mono ho)
  replace hn := hbound.adds.named (h₂.named hn)
  -- what is left
  rw [bind_pure_comp] at he
  obtain ⟨r₂, -, he⟩ := he.map
  obtain ⟨r₂, rfl, -⟩ := (calm_cyclePools after).ends he hoadds
  refine ⟨w₂, ⟨n₀, w₁, r₀, r₁, w₃, k₄, r₂, hbefore, ⟨k₁, k₃, result, hreconcile, hpool⟩, he⟩, fun hw => ?_⟩
  refine Nat.le_trans (AddsIn.podCount_le (ends_cyclePools hn (he.mono ho)) ?_) (hbound.withinCeiling hw)
  rintro ⟨p, hp, hid⟩
  exact hafter p hp hid

/-- Scaling and a whole cycle leave a pool within its ceiling if it was within it after the
    reconciliation, and making sure of pods does so but for the first pod of a pool that is to
    have none; a cycle comes to a pool for the last time where no later pool has its ID. All
    this holds whatever the store and the cluster answer, and whatever others do meanwhile
    except to put pods under management. -/
theorem scaling_keeps_to_the_ceiling (cfg : Settings) (ho : ∀ s s', others s s' → NoNewPods s s') (hn : w.capacity.Named) :
    (∀ pool r w', Ends others n (scalePool cfg pool).run w r w' →
      ∃ w₁, Reconciles others cfg pool (goOn (scaleReconciled cfg pool)) w w₁ r w' ∧
        (WithinCeiling pool w₁ → WithinCeiling pool w')) ∧
    (∀ id r w', Ends others n (ensurePods cfg id).run w r w' →
      ∃ w₀, others w w₀ ∧ ∀ pool, w₀.store.pool? id = .ok (some pool) → pool.kind = .kubernetes → pool.id = id →
        ∃ w₁, Reconciles others cfg pool (goOn (ensureReconciled cfg pool id)) w₀ w₁ r w' ∧
          (WithinCeiling pool w₁ → FirstPodOnly others pool w₁ r w')) ∧
    (∀ r w', Ends others n (cycle cfg).run w r w' →
      ∃ w₀, others w w₀ ∧ ∀ pools before pool after, w₀.store.listPools = .ok pools →
        pools.filter (·.kind == .kubernetes) = before ++ pool :: after → (∀ p ∈ after, p.id ≠ pool.id) →
        ∃ w₁, Passes others cfg before pool after w₀ w₁ w' ∧ (WithinCeiling pool w₁ → WithinCeiling pool w')) :=
  ⟨fun _ _ _ he => scalePool_within ho hn he, fun _ _ _ he => ensurePods_within ho hn he,
    fun _ _ he => cycle_within ho hn he⟩

/-! ## A closed pool -/

/-- It is to have no pods. -/
def closedPool : AgentPool := { id := "pool", kind := .kubernetes, minReplicas := 0, maxReplicas := 0 }

/-- The pool has none, but a task of it waits for its apply. -/
def applyWaits : World :=
  { clock := 0
    store := Store.putTask (Store.putWorkspace (Store.putPool {} closedPool) smallWorkspace)
      { id := 1, kind := .planAndApply, workspace := "ws", status := .applyPending, createdAt := 0 } }

theorem run_reconcile_closedPool :
    (reconcile anySettings.capacity closedPool).run.run applyWaits = (.finished (.ok ()), applyWaits) := rfl

theorem run_ensurePods_closedPool : ∃ w', w'.capacity.podCount "pool" = 1 ∧
    (ensureReconciled anySettings closedPool "pool").run.run applyWaits = (.finished (.ok (1, true)), w') ∧
    (ensurePods anySettings "pool").run.run applyWaits = (.finished (.ok (1, true)), w') := by
  have hfound : (ensurePods anySettings "pool").run.run applyWaits =
      (onPods (reconcile anySettings.capacity closedPool) >>= fun _ =>
        ensureReconciled anySettings closedPool "pool").run.run applyWaits := rfl
  rw [hfound]
  -- shares of slots are not computed here, where every pod is one too many
  simp only [ensureReconciled, scaleReconciled_of_none (show ceiling closedPool = 0 from rfl)]
  exact ⟨_, rfl, rfl, rfl⟩

theorem scaling_keeps_to_the_ceiling_closed :
    ∃ w', FirstPodOnly Eq closedPool applyWaits (.ok (.ok (1, true))) w' := by
  obtain ⟨w', -, -, hrun⟩ := run_ensurePods_closedPool
  obtain ⟨n, he⟩ : ∃ n, Ends Eq n (ensurePods anySettings "pool").run applyWaits (.ok (.ok (1, true))) w' := Ends.of_run hrun
  have hn : applyWaits.capacity.Named := fun name p hp => by cases hp
  have ho : ∀ s s' : World, s = s' → NoNewPods s s' := fun _ _ h => h ▸ refl_of NoNewPods _
  obtain ⟨w₀, rfl, hpool⟩ := (scaling_keeps_to_the_ceiling anySettings ho hn).2.1 _ _ _ he
  obtain ⟨w₁, ⟨n₁, n₂, result, hfirst, -⟩, hkeeps⟩ := hpool closedPool rfl rfl rfl
  obtain rfl : applyWaits = w₁ := congrArg Prod.snd (run_reconcile_closedPool.symm.trans hfirst.run_eq)
  exact ⟨w', hkeeps (Nat.le_refl 0)⟩

/-- The first pod stays over a ceiling of no pods, since the scaling after it holds back. -/
theorem first_pod_of_a_closed_pool :
    ∃ n w₁ w', Ends Eq n (ensurePods anySettings "pool").run applyWaits (.ok (.ok (1, true))) w' ∧
      Reconciles Eq anySettings closedPool (goOn (ensureReconciled anySettings closedPool "pool")) applyWaits w₁
        (.ok (.ok (1, true))) w' ∧ WithinCeiling closedPool w₁ ∧ ¬WithinCeiling closedPool w' := by
  obtain ⟨w', hcount, hrest, hall⟩ := run_ensurePods_closedPool
  obtain ⟨n, he⟩ := Ends.of_run hall
  obtain ⟨n₁, he₁⟩ := Ends.of_run run_reconcile_closedPool
  obtain ⟨n₂, he₂⟩ := Ends.of_run hrest
  refine ⟨n, applyWaits, w', he, ⟨n₁, n₂, .ok (), he₁, he₂⟩, Nat.le_refl 0, fun hover => ?_⟩
  rw [WithinCeiling, show closedPool.id = "pool" from rfl, hcount] at hover
  exact absurd hover (by decide)

end TaskFleet.Autoscale
