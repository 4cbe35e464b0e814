/-
  TaskFleet.Proofs.Autoscale.ScaleDown — which pods a pool may lose.

  A pool loses pods when it is frozen, when it has more than it should, and when a pod is
  unhealthy. Each of these comes after a reconciliation, which frees slots and drops pods by
  rules of its own; what is busy after it is left alone. The time of day may go on meanwhile.
  - `Dropped`: deleting pods takes away those of them on which nothing is, and no others.
  - `ends_scaleReconciled_frozen`: in a frozen pool, scaling only deletes the idle pods.
  - `ends_scaleReconciled_waiting`: while a task of the pool waits for its apply, none is lost.
  - `scaling_keeps_busy_pods`: the four calls, from the reconciliation to the end.
-/

import TaskFleet.Proofs.Autoscale.BusyPods
import TaskFleet.Proofs.Store.Queries

namespace TaskFleet.Autoscale

open Capacity Program

variable {cfg : Settings} {pool : AgentPool} {others : World → World → Prop} [IsPreorder World others] {n : Nat}
  {c c' : Capacity} {w w' : World} {α : Type}

/-! ## Deleting pods -/

/-- The listed pods are gone if nothing was on them; all others are as they were. -/
def Dropped (pods : List String) (c c' : Capacity) : Prop :=
  ∀ name p, c'.pods.get? name = some p ↔ c.pods.get? name = some p ∧ (name ∈ pods → p.isFullyIdle = false)

theorem Dropped.trans {pods rest : List String} {c₁ : Capacity} (h : Dropped pods c c₁) (h' : Dropped rest c₁ c') :
    Dropped (pods ++ rest) c c' := by
  intro name p
  rw [h' name p, h name p, List.mem_append]
  constructor
  · rintro ⟨⟨hp, hpods⟩, hrest⟩
    exact ⟨hp, fun h => h.elim hpods hrest⟩
  · rintro ⟨hp, hall⟩
    exact ⟨⟨hp, fun h => hall (.inl h)⟩, fun h => hall (.inr h)⟩

theorem dropped_removeIdle (c : Capacity) (pod : String) :
    (∃ c', c.removeIdle pod = .ok c' ∧ Dropped [pod] c c') ∨ (∃ e, c.removeIdle pod = .error e) ∧ Dropped [pod] c c := by
  cases hr : c.removeIdle pod with
  | ok c' =>
    obtain ⟨q, hq, hidle, rfl⟩ := removeIdle_ok_iff.1 hr
    refine .inl ⟨_, rfl, fun name p => ?_⟩
    rw [Table.get?_erase, List.mem_singleton]
    split
    · next he =>
      subst he
      constructor
      · intro h; cases h
      · rintro ⟨hp, hbusy⟩
        rw [hq] at hp
        cases hp
        rw [hbusy rfl] at hidle
        cases hidle
    · next hne => exact ⟨fun hp => ⟨hp, fun he => absurd he.symm hne⟩, fun h => h.1⟩
  | error e =>
    refine .inr ⟨⟨e, rfl⟩, fun name p => ⟨fun hp => ⟨hp, fun he => ?_⟩, fun h => h.1⟩⟩
    cases hidle : p.isFullyIdle with
    | false => rfl
    | true =>
      rw [List.mem_singleton.1 he] at hp
      rw [removeIdle_ok_iff.2 ⟨p, hp, hidle, rfl⟩] at hr
      cases hr

theorem ends_deletePod {pod : String} {r : Except String (Except CapacityError Unit)}
    (he : Ends SamePods n (deletePod cfg.capacity pod).run w r w') :
    (∃ a, r = .ok a) ∧ Dropped [pod] w.capacity w'.capacity := by
  have he : Ends SamePods n (Program.editCapacity (fun c _ => c.removeIdle pod) >>= ExceptT.bindCont fun _ =>
    call cfg.capacity "delete_pod" (·.delete pod)) w r w' := he
  obtain ⟨n', now, w₁, ⟨u, hok, hend⟩ | ⟨e, herr, hw₁, hend⟩⟩ := ends_onCapacity he
  all_goals rcases dropped_removeIdle w.capacity pod with ⟨c, hc, hdropped⟩ | ⟨⟨e', he'⟩, hdropped⟩
  · obtain ⟨a, hr, hsame⟩ := (calm_call cfg.capacity _ _).ends hend fun _ _ h => h
    simp only [hc, Except.map, Except.ok.injEq, Prod.mk.injEq] at hok
    rw [show w'.capacity = w₁.capacity from hsame, ← hok.2]
    exact ⟨⟨a, hr⟩, hdropped⟩
  · simp only [he', Except.map] at hok
    cases hok
  · simp only [hc, Except.map] at herr
    cases herr
  · obtain ⟨-, hr, hsame⟩ := ends_done hend
    rw [show w'.capacity = w₁.capacity from hsame, hw₁]
    exact ⟨⟨_, hr⟩, hdropped⟩

theorem ends_deletePods {pods : List String} {r : Except String Nat} (he : Ends SamePods n (deletePods cfg pods) w r w') :
    (∃ a, r = .ok a) ∧ Dropped pods w.capacity w'.capacity := by
  induction pods generalizing n w r with
  | nil =>
    obtain ⟨-, hr, hsame⟩ := ends_done he
    rw [show w'.capacity = w.capacity from hsame]
    exact ⟨⟨_, hr⟩, fun name p => by simp⟩
  | cons pod rest ih =>
    rcases he.bind with ⟨m, -, hend⟩ | ⟨n₁, n₂, deleted, w₁, -, hend, hrest⟩
    all_goals obtain ⟨⟨_, hr⟩, hfirst⟩ := ends_deletePod hend
    · cases hr
    · have hlast : (∃ a, r = .ok a) ∧ Dropped rest w₁.capacity w'.capacity := by
        cases deleted with
        | error e => exact ih hrest
        | ok u =>
          rw [← map_eq_pure_bind] at hrest
          obtain ⟨r', rfl, hmore⟩ := hrest.map
          obtain ⟨⟨a, rfl⟩, hdropped⟩ := ih hmore
          exact ⟨⟨_, rfl⟩, hdropped⟩
      exact ⟨hlast.1, hfirst.trans hlast.2⟩

/-- What is left of a pool is what was busy; other pools are as they were. -/
def OnlyBusy (pool : String) (w w' : World) : Prop :=
  ∀ name p, w'.capacity.pods.get? name = some p ↔
    w.capacity.pods.get? name = some p ∧ (p.pool = pool → p.isFullyIdle = false)

/-- Deleting the idle pods of a pool leaves what is busy there. -/
theorem onlyBusy_of_dropped {pool : String} (hn : w.capacity.Named)
    (h : Dropped ((w.capacity.idlePods pool).map (·.name)) w.capacity w'.capacity) : OnlyBusy pool w w' := by
  intro name p
  rw [h name p]
  -- a pod is listed if it belongs to the pool and nothing is on it
  refine and_congr_right fun hp => ⟨fun h hpool => ?_, fun h hlisted => ?_⟩
  · cases hidle : p.isFullyIdle with
    | false => rfl
    | true => exact hidle ▸ h ((mem_names_idlePods hn).2 ⟨p, hp, hpool, hidle⟩)
  · obtain ⟨q, hq, hpool, -⟩ := (mem_names_idlePods hn).1 hlisted
    rw [hp] at hq
    cases hq
    exact h hpool

theorem OnlyBusy.congr {pool : String} {w₁ w₂ : World} (h : OnlyBusy pool w₁ w₂) (hw : w₁.capacity = w.capacity)
    (hw' : w'.capacity = w₂.capacity) : OnlyBusy pool w w' := by
  intro name p
  rw [hw', ← hw]
  exact h name p

theorem ends_shrinkFrozen {pool : String} {r : Except String (UInt32 × Bool)} (hn : w.capacity.Named)
    (he : Ends SamePods n (shrinkFrozen cfg pool) w r w') : (∃ a, r = .ok a) ∧ OnlyBusy pool w w' := by
  obtain ⟨n₁, w₁, -, hw₁, he⟩ := he.get_bind
  have hw₁ : w₁.capacity = w.capacity := hw₁
  rcases he.bind with ⟨m, -, hend⟩ | ⟨n₂, n₃, deleted, w₂, -, hend, hrest⟩
  all_goals obtain ⟨⟨_, hr⟩, hdropped⟩ := ends_deletePods hend
  · cases hr
  · obtain ⟨a, hr, hsame⟩ := (Calm.bind (calm_read _) fun _ => calm_pure _).ends hrest fun _ _ h => h
    exact ⟨⟨a, hr⟩, (onlyBusy_of_dropped (hw₁ ▸ hn) hdropped).congr hw₁ hsame⟩

section

variable {R : World → World → Prop}

theorem calm_deletePods (hdelete : ∀ pod, (deletePod cfg.capacity pod).run.Calm R) (pods : List String) :
    (deletePods cfg pods).Calm R := by
  induction pods with
  | nil => exact calm_pure _
  | cons pod rest ih =>
    refine (hdelete pod).bind fun r => ?_
    cases r with
    | ok u => exact ih.bind fun _ => calm_pure _
    | error e => exact ih

theorem calm_shrinkFrozen (hrefl : ∀ w, R w w) (hdelete : ∀ pod, (deletePod cfg.capacity pod).run.Calm R) (pool : String) :
    (shrinkFrozen cfg pool).Calm R :=
  .bind (calm_get hrefl _) fun _ => (calm_deletePods hdelete _).bind fun _ => .bind (calm_get hrefl _) fun _ => calm_pure _

end

/-! ## Freezes -/

/-- The pool's schedules freeze it at the present time of day. -/
def FrozenAt (pool : AgentPool) (w : World) : Prop :=
  ∃ t, Calendar.ofClock? w.now = some t ∧ (pool.freezeStatus t).isFrozen = true

/-- Time may go on, but not over the edge of a freeze of the pool. -/
def SameSeason (pool : AgentPool) (w w' : World) : Prop := FrozenAt pool w' ↔ FrozenAt pool w

instance : IsPreorder World (SameSeason pool) where
  refl _ := Iff.rfl
  trans _ _ _ h h' := h'.trans h

theorem sameSeason_of_clock (h : w'.clock = w.clock) : SameSeason pool w w' := by
  unfold SameSeason FrozenAt World.now
  rw [h]

theorem ends_freezeStatus {r : Except String (Except ScalingError FreezeStatus)}
    (he : Ends others n (freezeStatus pool).run w r w') :
    ∃ w₁, others w w₁ ∧ others w₁ w' ∧ ((∃ t, Calendar.ofClock? w₁.now = some t ∧ r = .ok (.ok (pool.freezeStatus t))) ∨
      Calendar.ofClock? w₁.now = none ∧ ∃ e, r = .ok (.error e)) := by
  unfold freezeStatus at he
  rw [Fallible.run_always_bind] at he
  obtain ⟨n', w₁, -, hw₁, he⟩ := he.get_bind
  refine ⟨w₁, hw₁, ?_⟩
  cases ht : Calendar.ofClock? w₁.now with
  | none =>
    rw [ht] at he
    obtain ⟨-, hr, hw'⟩ := ends_done he
    exact ⟨hw', .inr ⟨rfl, _, hr⟩⟩
  | some t =>
    rw [ht] at he
    obtain ⟨-, hr, hw'⟩ := ends_done he
    exact ⟨hw', .inl ⟨t, rfl, hr⟩⟩

/-- What follows goes by what the schedules say at one moment. -/
theorem ends_freezeStatus_then {k : FreezeStatus → Fallible ScalingError α} {r : Except String (Except ScalingError α)}
    (he : Ends others n (freezeStatus pool >>= k).run w r w') :
    ∃ w₀, others w w₀ ∧ ((∃ e, r = .ok (.error e) ∧ ¬FrozenAt pool w₀ ∧ others w₀ w') ∨
      ∃ n' status w₁, others w₀ w₁ ∧ (status.isFrozen = true ↔ FrozenAt pool w₀) ∧ Ends others n' (k status).run w₁ r w') := by
  rcases Fallible.ends_bind he with ⟨m, -, hend⟩ | ⟨e, rfl, hend⟩ | ⟨n₁, n₂, status, w₂, -, hend, hrest⟩
  all_goals obtain ⟨w₁, hw₁, hw₂, ⟨t, ht, hr⟩ | ⟨ht, e', hr⟩⟩ := ends_freezeStatus hend
  all_goals cases hr
  · refine ⟨w₁, hw₁, .inl ⟨_, rfl, fun ⟨t, ht', _⟩ => ?_, hw₂⟩⟩
    rw [ht] at ht'
    cases ht'
  · refine ⟨w₁, hw₁, .inr ⟨n₂, _, w₂, hw₂, ⟨fun h => ⟨t, ht, h⟩, fun ⟨t', ht', hstatus⟩ => ?_⟩, hrest⟩⟩
    rw [ht] at ht'
    cases ht'
    exact hstatus

/-- The schedules say the same of the pool at every moment of the season. -/
theorem ends_freezeStatus_bind {k : FreezeStatus → Fallible ScalingError α} {r : Except String (Except ScalingError α)}
    (hs : ∀ s s', others s s' → SameSeason pool s s') (he : Ends others n (freezeStatus pool >>= k).run w r w') :
    (∃ e, r = .ok (.error e) ∧ ¬FrozenAt pool w ∧ others w w') ∨
      ∃ n' status w₁, others w w₁ ∧ (status.isFrozen = true ↔ FrozenAt pool w) ∧ Ends others n' (k status).run w₁ r w' := by
  obtain ⟨w₀, hw₀, ⟨e, hr, hnot, hw'⟩ | ⟨n', status, w₁, hw₁, hstatus, he⟩⟩ := ends_freezeStatus_then he
  · exact .inl ⟨e, hr, mt (hs _ _ hw₀).2 hnot, trans_of others hw₀ hw'⟩
  · exact .inr ⟨n', status, w₁, trans_of others hw₀ hw₁, hstatus.trans (hs _ _ hw₀), he⟩

/-- In a frozen pool, scaling comes down to deleting the idle pods. -/
theorem ends_scaleReconciled_frozen {r : Except String (Except ScalingError (UInt32 × Bool))}
    (hs : ∀ s s', others s s' → SameSeason pool s s') (hfrozen : FrozenAt pool w)
    (he : Ends others n (scaleReconciled cfg pool).run w r w') :
    ∃ n' r', r = r'.map .ok ∧ Ends others n' (shrinkFrozen cfg pool.id) w r' w' := by
  rcases ends_freezeStatus_bind hs he with ⟨e, -, hnot, -⟩ | ⟨n', status, w₁, hw₁, hstatus, he⟩
  · exact absurd hfrozen hnot
  · rw [if_pos (hstatus.2 hfrozen)] at he
    obtain ⟨r', hr, hend⟩ := Fallible.ends_always he
    exact ⟨n', r', hr, .other hw₁ hend⟩

theorem ends_ensureReconciled_frozen {id : String} {r : Except String (Except ScalingError (UInt32 × Bool))}
    (hs : ∀ s s', others s s' → SameSeason pool s s') (hfrozen : FrozenAt pool w)
    (he : Ends others n (ensureReconciled cfg pool id).run w r w') :
    ∃ n' r', Ends others n' (shrinkFrozen cfg pool.id) w r' w' := by
  rcases ends_freezeStatus_bind hs he with ⟨e, -, hnot, -⟩ | ⟨n', status, w₁, hw₁, hstatus, he⟩
  · exact absurd hfrozen hnot
  · rw [Fallible.run_always_bind] at he
    obtain ⟨n₂, w₂, -, hw₂, he⟩ := he.get_bind
    simp only [hstatus.2 hfrozen, Bool.not_true, Bool.false_eq_true, false_and, if_false, pure_bind] at he
    have hw : others w w₂ := trans_of others hw₁ hw₂
    have hfrozen₂ := (hs _ _ hw).2 hfrozen
    rcases Fallible.ends_bind he with ⟨m, -, hend⟩ | ⟨e, -, hend⟩ | ⟨n₃, n₄, a, w₃, -, hend, hrest⟩
    all_goals obtain ⟨n₅, r', -, hshrink⟩ := ends_scaleReconciled_frozen hs hfrozen₂ hend
    · exact ⟨n₅, r', .other hw hshrink⟩
    · exact ⟨n₅, r', .other hw hshrink⟩
    · obtain ⟨-, -, hw'⟩ := ends_done hrest
      exact ⟨n₅, r', .other hw (hshrink.after hw')⟩

/-! ## Tasks that wait for their apply -/

/-- No pod is lost, of whatever pool. -/
def KeepsAll (w w' : World) : Prop :=
  ∀ name, w.capacity.pods.contains name = true → w'.capacity.pods.contains name = true

instance : IsPreorder World KeepsAll where
  refl _ := fun _ h => h
  trans _ _ _ h h' := fun name hn => h' name (h name hn)

theorem keepsAll_of_pods (h : w'.capacity.pods = w.capacity.pods) : KeepsAll w w' := by
  intro name hname
  rwa [h]

theorem keepsAll_samePods (h : SamePods w w') : KeepsAll w w' := keepsAll_of_pods (congrArg Capacity.pods h)

section

variable {R : World → World → Prop}

theorem calm_createPods (hcreate : (createPod cfg.capacity pool).run.Calm R) (k : Nat) : (createPods cfg pool k).Calm R := by
  induction k with
  | zero => exact calm_pure _
  | succ k ih =>
    refine hcreate.bind fun r => ?_
    cases r with
    | ok p => exact ih.bind fun _ => calm_pure _
    | error e => exact calm_pure _

theorem calm_grow (hcreate : (createPod cfg.capacity pool).run.Calm R) (hqueue : ∀ w w', SamePods w w' → R w w')
    (current missing : UInt32) (waiting : List String) : (grow cfg pool current missing waiting).Calm R := by
  refine (calm_createPods hcreate missing.toNat).bind fun created => ?_
  split
  · exact .bind ((calm_trigger _).mono hqueue) fun _ => calm_pure _
  · exact calm_pure _

end

theorem calm_createPod : (createPod cfg.capacity pool).run.Calm KeepsAll := by
  refine calm_createPod_of cfg.capacity (fun _ _ h => keepsAll_of_pods h) fun w pod now name hname => ?_
  unfold Table.contains Capacity.insertPod at *
  rw [Table.get?_insert]
  split
  · rfl
  · exact hname

theorem ends_look_bind {β : Type} {f : Store → Except StoreError α} {k : α → Fallible ScalingError β}
    {r : Except String (Except ScalingError β)} (h : Ends others n (look f >>= k).run w r w') :
    (∃ e, (∃ w₁, others w w₁ ∧ f w₁.store = .error e) ∧ r = .ok (.error (.store e)) ∧ others w w') ∨
      ∃ n' a w₁, n = n' + 1 ∧ others w w₁ ∧ f w₁.store = .ok a ∧ Ends others n' (k a).run w₁ r w' :=
  Fallible.ends_readStore_bind h

theorem ends_shrink_waiting {pool : String} {current surplus : UInt32}
    {r : Except String (Except ScalingError (UInt32 × Bool))} (hwaits : w.store.AwaitsApply pool) (he : Ends Elsewhere n (shrink cfg pool current surplus).run w r w') :
    KeepsAll w w' := by
  rcases ends_look_bind he with ⟨e, -, -, hw'⟩ | ⟨n', work, w₁, -, hw₁, hwork, he⟩
  · exact keepsAll_samePods hw'.2
  · rw [hw₁.1] at hwork
    rw [if_pos ((Store.applyPending_pos_iff hwork).2 hwaits)] at he
    obtain ⟨-, -, hw'⟩ := ends_done he
    exact keepsAll_samePods (trans_of SamePods hw₁.2 hw'.2)

/-- Scaling takes pods from an open pool only where there are more than it is to have. -/
theorem ends_scaleReconciled_open {r : Except String (Except ScalingError (UInt32 × Bool))}
    (ho : ∀ s s', others s s' → Elsewhere s s') (hs : ∀ s s', others s s' → SameSeason pool s s') (hopen : ¬FrozenAt pool w)
    (he : Ends others n (scaleReconciled cfg pool).run w r w') :
    KeepsAll w w' ∨ ∃ work v n' w₁, w.store.poolWorkload pool.id = .ok work ∧ v = snapshot w.capacity pool.id work ∧
      v.desiredPods pool cfg.scaling < v.pods ∧ Elsewhere w w₁ ∧
      Ends Elsewhere n' (shrink cfg pool.id v.pods (v.pods - v.desiredPods pool cfg.scaling)).run w₁ r w' := by
  rcases ends_freezeStatus_bind hs he with ⟨e, -, -, hw'⟩ | ⟨n', status, w₁, hw₁, hstatus, he⟩
  · exact .inl (keepsAll_samePods (ho _ _ hw').2)
  have he := he.mono ho
  rw [if_neg fun h => hopen (hstatus.1 h), Fallible.run_always_bind] at he
  obtain ⟨n₂, w₂, -, hw₂, he⟩ := he.get_bind
  have hw : Elsewhere w w₂ := trans_of Elsewhere (ho _ _ hw₁) hw₂
  rw [hw.2] at he
  rcases ends_look_bind he with ⟨e, -, -, hw'⟩ | ⟨n₃, work, w₃, -, hw₃, hwork, he⟩
  · exact .inl (keepsAll_samePods (hw'.2.trans hw.2))
  replace hw : Elsewhere w w₃ := trans_of Elsewhere hw hw₃
  rw [hw.1] at hwork
  simp only at he
  split at he
  · obtain ⟨-, -, hw'⟩ := ends_done he
    exact .inl (keepsAll_samePods (hw'.2.trans hw.2))
  next hne =>
  split at he
  · obtain ⟨r', -, hgrow⟩ := Fallible.ends_always he
    obtain ⟨a, -, hkept⟩ := (calm_grow calm_createPod (fun _ _ => keepsAll_samePods) _ _ _).ends hgrow fun _ _ h => keepsAll_samePods h.2
    exact .inl (trans_of KeepsAll (keepsAll_samePods hw.2) hkept)
  next hgrow => exact .inr ⟨work, _, n₃, w₃, hwork, rfl, UInt32.lt_of_le_of_ne (UInt32.not_lt.1 hgrow) hne, hw, he⟩

/-- Scaling takes no pod from an open pool while a task waits for its apply there. -/
theorem ends_scaleReconciled_waiting {r : Except String (Except ScalingError (UInt32 × Bool))}
    (ho : ∀ s s', others s s' → Elsewhere s s') (hs : ∀ s s', others s s' → SameSeason pool s s')
    (hopen : ¬FrozenAt pool w) (hwaits : w.store.AwaitsApply pool.id)
    (he : Ends others n (scaleReconciled cfg pool).run w r w') : KeepsAll w w' := by
  rcases ends_scaleReconciled_open ho hs hopen he with hkept | ⟨work, v, n', w₁, -, -, -, hw₁, hshrink⟩
  · exact hkept
  · exact trans_of KeepsAll (keepsAll_samePods hw₁.2) (ends_shrink_waiting (hw₁.1 ▸ hwaits) hshrink)

/-! ## Whole calls -/

/-- What follows on a reconciliation; one that failed is reported. -/
def goOn (p : Fallible ScalingError α) : Except CapacityError Unit → Program World (Except ScalingError α)
  | .ok () => p.run
  | .error e => pure (.error (.capacity e))

theorem run_onPods_bind {β : Type} (p : Fallible CapacityError Unit) (k : Fallible ScalingError β) :
    (onPods p >>= fun _ => k).run = p.run >>= goOn k := by
  unfold onPods
  rw [Fallible.run_ofResult_bind, map_eq_pure_bind, LawfulMonad.bind_assoc]
  congr 1
  funext r
  cases r <;> rfl

theorem scalePool_eq : (scalePool cfg pool).run = (reconcile cfg.capacity pool).run >>= goOn (scaleReconciled cfg pool) :=
  run_onPods_bind _ _

theorem careful_goOn {K : String → Prop} {p : Fallible ScalingError α} (hp : Careful K p.run)
    (r : Except CapacityError Unit) : Careful K (goOn p r) := by
  cases r with
  | ok u => exact hp
  | error e => exact careful_pure _

/-- The call had the pool reconciled, which led from `w` to `w₁`, and did the rest from there. -/
def Reconciles (others : World → World → Prop) (cfg : Settings) (pool : AgentPool)
    (rest : Except CapacityError Unit → Program World α) (w w₁ : World) (r : Except String α) (w' : World) : Prop :=
  ∃ n₁ n₂ result, Ends others n₁ (reconcile cfg.capacity pool).run w (.ok result) w₁ ∧ Ends others n₂ (rest result) w₁ r w'

/-- The pods of the pool on which something is stay, with the same slots. -/
def KeepsBusy (pool : String) (w w' : World) : Prop :=
  ∀ name p, w.capacity.pods.get? name = some p → p.pool = pool → p.isFullyIdle = false →
    ∃ p', w'.capacity.pods.get? name = some p' ∧ p'.pool = pool ∧ p'.slots = p.slots

theorem keepsBusy_of_upkeep {K : String → Prop} {id : String} (h : Upkeep K n w.capacity w'.capacity) (hK : K id) :
    KeepsBusy id w w' := by
  rintro name p hp rfl hbusy
  exact h.kept name p hp hK hbusy

theorem keepsBusy_samePods {id : String} (h : SamePods w w') : KeepsBusy id w w' := by
  intro name p hp hpool _
  exact ⟨p, by rw [show w'.capacity = w.capacity from h]; exact hp, hpool, rfl⟩

/-- A reconciliation and careful work after it. -/
theorem reconciles_of_ends {K : String → Prop} {rest : Except CapacityError Unit → Program World α} {r : Except String α}
    (ho : ∀ s s', others s s' → Elsewhere s s') (hn : w.capacity.Named) (hu : Unclaimed n w.capacity)
    (hrest : ∀ result, Careful K (rest result)) (he : Ends others n ((reconcile cfg.capacity pool).run >>= rest) w r w') :
    ∃ n₁ w₁, Reconciles others cfg pool rest w w₁ r w' ∧ Upkeep (· ≠ pool.id) n₁ w.capacity w₁.capacity ∧
      ∃ n₂, n = n₁ + n₂ ∧ Upkeep K n₂ w₁.capacity w'.capacity := by
  rcases he.bind with ⟨m, -, hend⟩ | ⟨n₁, n₂, result, w₁, rfl, hfirst, hlast⟩
  · obtain ⟨⟨_, hr⟩, -⟩ := careful_reconcile cfg.capacity n w _ w' hn hu (hend.mono ho)
    cases hr
  · obtain ⟨-, hup⟩ := careful_reconcile cfg.capacity n₁ w _ w₁ hn (hu.mono (Nat.le_add_right _ _)) (hfirst.mono ho)
    obtain ⟨-, hup'⟩ := hrest result n₂ w₁ r w' hup.named (hu.after hup) (hlast.mono ho)
    exact ⟨n₁, w₁, ⟨n₁, n₂, result, hfirst, hlast⟩, hup, n₂, rfl, hup'⟩

omit [IsPreorder World others] in
/-- What neither the reconciliation nor the others do is not done in it. -/
theorem kept_by_reconcile {R : World → World → Prop} [IsPreorder World R] {r : Except String (Except CapacityError Unit)}
    (hR : ∀ s s', NoCreation s s' → R s s') (ho : ∀ s s', others s s' → R s s')
    (he : Ends others n (reconcile cfg.capacity pool).run w r w') : R w w' := by
  obtain ⟨a, -, h⟩ := ((calm_reconcile cfg.capacity).mono hR).ends he ho
  exact h

/-- What a freeze of the pool makes of a call: nothing is created, and if all goes well, what
    is left of the pool is what was busy after the reconciliation. -/
structure OnlyShrinks (others : World → World → Prop) (pool : AgentPool) (w w₁ w' : World) (succeeded : Prop) : Prop where
  names : SameNames w w'
  cluster : (∀ s s', others s s' → AddsNone s s') → AddsNone w w'
  left : succeeded → OnlyBusy pool.id w₁ w'

theorem onlyShrinks_of_reconciles {p : Fallible ScalingError α} {r : Except String (Except ScalingError α)} {w₁ : World}
    (ho : ∀ s s', others s s' → Elsewhere s s') (hs : ∀ s s', others s s' → SameSeason pool s s')
    (hfrozen : FrozenAt pool w) (hn : w₁.capacity.Named) (hr : Reconciles others cfg pool (goOn p) w w₁ r w')
    (hp : ∀ {n w r w'}, FrozenAt pool w → Ends others n p.run w r w' →
      ∃ n' r', Ends others n' (shrinkFrozen cfg pool.id) w r' w') :
    OnlyShrinks others pool w w₁ w' (∃ a, r = .ok (.ok a)) := by
  obtain ⟨n₁, n₂, result, hfirst, hrest⟩ := hr
  have hfrozen₁ : FrozenAt pool w₁ := (kept_by_reconcile (fun _ _ h => sameSeason_of_clock h.clock) hs hfirst).2 hfrozen
  -- what neither the two programs nor the others do is not done at all
  have hall : ∀ (R : World → World → Prop) [IsPreorder World R], (∀ s s', NoCreation s s' → R s s') →
      (∀ s s', others s s' → R s s') → R w w' := by
    intro R _ hR hoR
    refine trans_of R (kept_by_reconcile hR hoR hfirst) ?_
    cases result with
    | ok u =>
      obtain ⟨n₃, r', hshrink⟩ := hp hfrozen₁ hrest
      obtain ⟨a, -, h₂⟩ := ((calm_shrinkFrozen noCreation_refl (calm_deletePod _) _).mono hR).ends hshrink hoR
      exact h₂
    | error e =>
      obtain ⟨-, -, hw'⟩ := ends_done hrest
      exact hoR _ _ hw'
  refine ⟨hall SameNames (fun _ _ h => h.names) fun s s' h => congrArg Capacity.nameSeq (ho s s' h).2,
    hall AddsNone fun _ _ h => h.cluster, ?_⟩
  rintro ⟨a, rfl⟩
  cases result with
  | ok u =>
    obtain ⟨n₃, r', hshrink⟩ := hp hfrozen₁ hrest
    exact (ends_shrinkFrozen hn (hshrink.mono fun s s' h => (ho s s' h).2)).2
  | error e =>
    obtain ⟨-, hr, -⟩ := ends_done hrest
    cases hr

/-! ## The four calls -/

theorem scalePool_keeps {r : Except String (Except ScalingError (UInt32 × Bool))}
    (ho : ∀ s s', others s s' → Elsewhere s s') (hn : w.capacity.Named) (hu : Unclaimed n w.capacity)
    (he : Ends others n (scalePool cfg pool).run w r w') :
    ∃ w₁, Reconciles others cfg pool (goOn (scaleReconciled cfg pool)) w w₁ r w' ∧ (∀ id, KeepsBusy id w₁ w') ∧
      ((∀ s s', others s s' → SameSeason pool s s') →
        (FrozenAt pool w → OnlyShrinks others pool w w₁ w' (∃ a, r = .ok (.ok a))) ∧
        (¬FrozenAt pool w → w.store.AwaitsApply pool.id → KeepsAll w₁ w')) := by
  rw [scalePool_eq] at he
  obtain ⟨n₁, w₁, hr, hup, n₂, -, hup'⟩ := reconciles_of_ends ho hn hu
    (careful_goOn (scales_careful (K := fun _ => True)).scaleReconciled) he
  refine ⟨w₁, hr, fun id => keepsBusy_of_upkeep hup' trivial, fun hs => ⟨fun hfrozen => ?_, fun hopen hwaits => ?_⟩⟩
  · refine onlyShrinks_of_reconciles ho hs hfrozen hup.named hr fun hf hend => ?_
    obtain ⟨n', r', -, hshrink⟩ := ends_scaleReconciled_frozen hs hf hend
    exact ⟨n', r', hshrink⟩
  · obtain ⟨k₁, k₂, result, hfirst, hrest⟩ := hr
    cases result with
    | ok u =>
      have hseason : SameSeason pool w w₁ := kept_by_reconcile (fun _ _ h => sameSeason_of_clock h.clock) hs hfirst
      have hstore : SameStore w w₁ := kept_by_reconcile (fun _ _ h => h.store) (fun s s' h => (ho s s' h).1) hfirst
      refine ends_scaleReconciled_waiting ho hs (fun h => hopen (hseason.1 h)) ?_ hrest
      rwa [show w₁.store = w.store from hstore]
    | error e =>
      obtain ⟨-, -, hw'⟩ := ends_done hrest
      exact keepsAll_samePods (ho _ _ hw').2

theorem ensurePods_keeps {id : String} {r : Except String (Except ScalingError (UInt32 × Bool))}
    (ho : ∀ s s', others s s' → Elsewhere s s') (hn : w.capacity.Named) (hu : Unclaimed n w.capacity)
    (he : Ends others n (ensurePods cfg id).run w r w') :
    (∀ pool, w.store.pool? id = .ok (some pool) → pool.kind = .kubernetes →
      ∃ w₁, Reconciles others cfg pool (goOn (ensureReconciled cfg pool id)) w w₁ r w' ∧ (∀ id, KeepsBusy id w₁ w') ∧
        ((∀ s s', others s s' → SameSeason pool s s') → FrozenAt pool w →
          OnlyShrinks others pool w w₁ w' (∃ a, r = .ok (.ok a)))) ∧
      ((∀ pool, w.store.pool? id = .ok (some pool) → pool.kind ≠ .kubernetes) → ∀ id, KeepsBusy id w w') := by
  rcases ends_look_bind he with ⟨e, ⟨w₁, hw₁, herr⟩, -, hw'⟩ | ⟨n', found, w₁, rfl, hw₁, hfound, he⟩
  · rw [(ho _ _ hw₁).1] at herr
    refine ⟨fun pool hpool => ?_, fun _ id => keepsBusy_samePods (ho _ _ hw').2⟩
    rw [hpool] at herr
    cases herr
  rw [(ho _ _ hw₁).1] at hfound
  cases found with
  | none =>
    obtain ⟨-, -, hw'⟩ := ends_done he
    refine ⟨fun pool hpool => ?_, fun _ id => keepsBusy_samePods (ho _ _ (trans_of others hw₁ hw')).2⟩
    rw [hpool] at hfound
    cases hfound
  | some pool =>
  have hw₁' : w₁.capacity = w.capacity := (ho _ _ hw₁).2
  by_cases hkind : pool.kind = .kubernetes
  · refine ⟨fun pool' hpool' _ => ?_, fun h => absurd hkind (h pool hfound)⟩
    obtain rfl : pool = pool' := by
      rw [hpool'] at hfound
      cases hfound
      rfl
    simp only [hkind, ne_eq, not_true_eq_false, if_false] at he
    have he : Ends others n' ((reconcile cfg.capacity pool).run >>= goOn (ensureReconciled cfg pool id)) w₁ r w' := by
      rw [← run_onPods_bind]
      exact he
    obtain ⟨n₁, w₂, ⟨k₁, k₂, result, hfirst, hrest⟩, hup, n₂, -, hup'⟩ := reconciles_of_ends ho (hw₁' ▸ hn)
      (hw₁' ▸ hu.mono (Nat.le_succ _)) (careful_goOn ((scales_careful (K := fun _ => True)).ensureReconciled id)) he
    have hr : Reconciles others cfg pool (goOn (ensureReconciled cfg pool id)) w w₂ r w' :=
      ⟨k₁, k₂, result, .other hw₁ hfirst, hrest⟩
    refine ⟨w₂, hr, fun id => keepsBusy_of_upkeep hup' trivial, fun hs hfrozen => ?_⟩
    exact onlyShrinks_of_reconciles ho hs hfrozen hup.named hr fun hf hend => ends_ensureReconciled_frozen hs hf hend
  · refine ⟨fun pool' hpool' hkind' => ?_, fun _ id => ?_⟩
    · rw [hpool'] at hfound
      cases hfound
      exact absurd hkind' hkind
    · simp only [hkind, ne_eq, not_false_eq_true, if_true, Fallible.run_always_bind] at he
      obtain ⟨n₂, w₂, -, hw₂, he⟩ := he.get_bind
      obtain ⟨-, -, hw'⟩ := ends_done he
      exact keepsBusy_samePods (ho _ _ (trans_of others hw₁ (trans_of others hw₂ hw'))).2

omit [IsPreorder World others] in
theorem restartUnhealthy_keeps {r : Except String (Except ScalingError (List String))}
    (ho : ∀ s s', others s s' → Elsewhere s s') (hn : w.capacity.Named) (hu : Unclaimed n w.capacity)
    (he : Ends others n (restartUnhealthy cfg pool).run w r w') (id : String) : KeepsBusy id w w' :=
  keepsBusy_of_upkeep (scales_careful.restartUnhealthy n w r w' hn hu (he.mono ho)).2 (K := fun _ => True) trivial

/-! ## Cycles -/

theorem cyclePools_append (before after : List AgentPool) :
    cyclePools cfg (before ++ after) = do return (← cyclePools cfg before) ++ (← cyclePools cfg after) := by
  induction before with
  | nil => simp [cyclePools]
  | cons pool rest ih =>
    simp only [List.cons_append, cyclePools, ih, LawfulMonad.bind_assoc, pure_bind, List.append_assoc]

/-- A cycle as it comes to a pool: what goes before, the pool's own part, and what is left. -/
def Passes (others : World → World → Prop) (cfg : Settings) (before : List AgentPool) (pool : AgentPool)
    (after : List AgentPool) (w w₁ w' : World) : Prop :=
  ∃ n₀ w₀ r₀ r₁ w₂ n₂ r₂, Ends others n₀ (cyclePools cfg before) w (.ok r₀) w₀ ∧
    Reconciles others cfg pool (cycleReconciled cfg pool) w₀ w₁ (.ok r₁) w₂ ∧
    Ends others n₂ (cyclePools cfg after) w₂ (.ok r₂) w'

/-- After a pool's part, the parts of other pools leave its busy pods alone. -/
theorem cyclePools_keeps {before after : List AgentPool} {r : Except String (List (String × UInt32 × Bool))}
    (ho : ∀ s s', others s s' → Elsewhere s s') (hn : w.capacity.Named) (hu : Unclaimed n w.capacity)
    (hafter : ∀ p ∈ after, p.id ≠ pool.id) (he : Ends others n (cyclePools cfg (before ++ pool :: after)) w r w') :
    ∃ w₁, Passes others cfg before pool after w w₁ w' ∧ KeepsBusy pool.id w₁ w' := by
  rw [cyclePools_append] at he
  -- up to the pool
  rcases he.bind with ⟨m, -, hend⟩ | ⟨n₀, n₁, r₀, w₀, rfl, hbefore, he⟩
  · obtain ⟨⟨_, hr⟩, -⟩ := careful_cyclePools before n w _ w' hn hu (hend.mono ho)
    cases hr
  obtain ⟨-, hup₀⟩ := careful_cyclePools before n₀ w _ w₀ hn (hu.mono (Nat.le_add_right _ _)) (hbefore.mono ho)
  replace hu := hu.after hup₀
  -- the pool, and what is left
  rw [bind_pure_comp] at he
  obtain ⟨r', -, he⟩ := he.map
  unfold cyclePools at he
  rcases he.bind with ⟨m, -, hend⟩ | ⟨n₂, n₃, r₁, w₂, rfl, hpool, hlast⟩
  · obtain ⟨⟨_, hr⟩, -⟩ := careful_cyclePool n₁ w₀ _ w' hup₀.named hu (hend.mono ho)
    cases hr
  rw [cyclePool_eq] at hpool
  obtain ⟨k₁, w₁, hreconciles, hup₁, k₂, rfl, hup₂⟩ := reconciles_of_ends ho hup₀.named (hu.mono (Nat.le_add_right _ _))
    (scales_careful (K := fun _ => True)).cycleReconciled hpool
  replace hu : Unclaimed n₃ w₂.capacity := Unclaimed.after (Unclaimed.after (hu.mono (by omega)) hup₁) hup₂
  rw [bind_pure_comp] at hlast
  obtain ⟨r'', -, hlast⟩ := hlast.map
  obtain ⟨⟨r₂, rfl⟩, hup₃⟩ := careful_cyclePools after n₃ w₂ _ w' hup₂.named hu (hlast.mono ho)
  refine ⟨w₁, ⟨n₀, w₀, r₀, r₁, w₂, n₃, r₂, hbefore, hreconciles, hlast⟩, ?_⟩
  exact keepsBusy_of_upkeep ((hup₂.mono (Nat.le_refl _) fun _ _ => trivial).trans hup₃) fun p hp => (hafter p hp).symm

theorem cycle_keeps {r : Except String (Except ScalingError (List (String × UInt32 × Bool)))}
    (ho : ∀ s s', others s s' → Elsewhere s s') (hn : w.capacity.Named) (hu : Unclaimed n w.capacity)
    (he : Ends others n (cycle cfg).run w r w') :
    (∀ pools before pool after, w.store.listPools = .ok pools → pools.filter (·.kind == .kubernetes) = before ++ pool :: after →
      (∀ p ∈ after, p.id ≠ pool.id) → ∃ w₁, Passes others cfg before pool after w w₁ w' ∧ KeepsBusy pool.id w₁ w') ∧
      ∀ id, (∀ pools, w.store.listPools = .ok pools → ∀ p ∈ pools, p.kind = .kubernetes → p.id ≠ id) → KeepsBusy id w w' := by
  rcases ends_look_bind he with ⟨e, ⟨w₁, hw₁, herr⟩, -, hw'⟩ | ⟨n', pools, w₁, rfl, hw₁, hpools, he⟩
  · rw [(ho _ _ hw₁).1] at herr
    refine ⟨fun pools before pool after hpools => ?_, fun id _ => keepsBusy_samePods (ho _ _ hw').2⟩
    rw [hpools] at herr
    cases herr
  rw [(ho _ _ hw₁).1] at hpools
  have hw₁' : w₁.capacity = w.capacity := (ho _ _ hw₁).2
  rw [← hw₁'] at hn hu
  replace hu := hu.mono (Nat.le_succ n')
  obtain ⟨r', -, he⟩ := Fallible.ends_always he
  refine ⟨fun pools' before pool after hpools' hsplit hafter => ?_, fun id hid => ?_⟩
  · rw [hpools'] at hpools
    cases hpools
    rw [hsplit] at he
    obtain ⟨w₂, ⟨n₀, w₀, r₀, r₁, w₃, n₂, r₂, hbefore, hrest⟩, hkept⟩ := cyclePools_keeps ho hn hu hafter he
    exact ⟨w₂, ⟨n₀, w₀, r₀, r₁, w₃, n₂, r₂, .other hw₁ hbefore, hrest⟩, hkept⟩
  · have hkept : KeepsBusy id w₁ w' := by
      refine keepsBusy_of_upkeep (careful_cyclePools _ n' w₁ _ w' hn hu (he.mono ho)).2 fun p hp => ?_
      obtain ⟨hp, hkind⟩ := List.mem_filter.1 hp
      exact (hid pools hpools p hp (beq_iff_eq.1 hkind)).symm
    unfold KeepsBusy at hkept ⊢
    rwa [hw₁'] at hkept

/-! ## What no scaling takes away -/

/-- Scaling, making sure of pods, replacing unhealthy pods and a whole cycle all keep what is
    busy after their reconciliation; a cycle comes to a pool for the last time where no later
    pool has its ID. In a freeze, scaling creates nothing and leaves what is busy; in an open
    pool where a task waits for its apply, it takes nothing. All this holds whatever the
    cluster answers, while others leave records and pods alone. -/
theorem scaling_keeps_busy_pods (cfg : Settings) (ho : ∀ s s', others s s' → Elsewhere s s')
    (hn : w.capacity.Named) (hu : Unclaimed n w.capacity) :
    (∀ pool r w', Ends others n (scalePool cfg pool).run w r w' →
      ∃ w₁, Reconciles others cfg pool (goOn (scaleReconciled cfg pool)) w w₁ r w' ∧ (∀ id, KeepsBusy id w₁ w') ∧
        ((∀ s s', others s s' → SameSeason pool s s') →
          (FrozenAt pool w → OnlyShrinks others pool w w₁ w' (∃ a, r = .ok (.ok a))) ∧
          (¬FrozenAt pool w → w.store.AwaitsApply pool.id → KeepsAll w₁ w'))) ∧
    (∀ id r w', Ends others n (ensurePods cfg id).run w r w' →
      (∀ pool, w.store.pool? id = .ok (some pool) → pool.kind = .kubernetes →
        ∃ w₁, Reconciles others cfg pool (goOn (ensureReconciled cfg pool id)) w w₁ r w' ∧ (∀ id, KeepsBusy id w₁ w') ∧
          ((∀ s s', others s s' → SameSeason pool s s') → FrozenAt pool w →
            OnlyShrinks others pool w w₁ w' (∃ a, r = .ok (.ok a)))) ∧
      ((∀ pool, w.store.pool? id = .ok (some pool) → pool.kind ≠ .kubernetes) → ∀ id, KeepsBusy id w w')) ∧
    (∀ pool r w', Ends others n (restartUnhealthy cfg pool).run w r w' → ∀ id, KeepsBusy id w w') ∧
    (∀ r w', Ends others n (cycle cfg).run w r w' →
      (∀ pools before pool after, w.store.listPools = .ok pools → pools.filter (·.kind == .kubernetes) = before ++ pool :: after →
        (∀ p ∈ after, p.id ≠ pool.id) → ∃ w₁, Passes others cfg before pool after w w₁ w' ∧ KeepsBusy pool.id w₁ w') ∧
      ∀ id, (∀ pools, w.store.listPools = .ok pools → ∀ p ∈ pools, p.kind = .kubernetes → p.id ≠ id) → KeepsBusy id w w') :=
  ⟨fun _ _ _ he => scalePool_keeps ho hn hu he, fun _ _ _ he => ensurePods_keeps ho hn hu he,
    fun _ _ _ he => restartUnhealthy_keeps ho hn hu he, fun _ _ he => cycle_keeps ho hn hu he⟩

/-! ## A frozen pool -/

def frozenPool : AgentPool :=
  { id := "pool", kind := .kubernetes, minReplicas := 1, maxReplicas := 2, slotsPerPod := 1
    freezeSchedules := [{ fromTime := "00:00", toTime := "23:59", weekdays := [1, 2, 3, 4, 5, 6, 7] }] }

def anySettings : Settings := { holder := "a" }

/-- Task 1 runs on one of two pods of the pool. -/
def oneBusyPod : World :=
  let idle := Pod.fresh "idle" "pool" 1 0 0
  let busy : Pod := { Pod.fresh "busy" "pool" 1 0 0 with
    slots := [{ index := 0, status := .running, task := some 1, kind := some .plan, updatedAt := 0 }] }
  { clock := 0
    store := Store.putTask {} { id := 1, kind := .plan, workspace := "ws", status := .running, createdAt := 0 }
    capacity := Capacity.insertPod (Capacity.insertPod {} idle) busy
    cluster := Cluster.insert (Cluster.insert {} { name := "idle", pool := "pool", phase := .running, createdAt := 0 })
      { name := "busy", pool := "pool", phase := .running, createdAt := 0 } }

theorem get?_oneBusyPod {name : String} {p : Pod} (h : oneBusyPod.capacity.pods.get? name = some p) :
    (name = "busy" ∧ p.name = "busy") ∨ name = "idle" ∧ p.name = "idle" ∧ p.IsBlank := by
  rw [show oneBusyPod.capacity.pods = (Table.insert (Table.insert .empty "idle" _) "busy" _ : Table Pod) from rfl,
    Table.get?_insert, Table.get?_insert] at h
  split at h
  · next hname => cases h; exact .inl ⟨hname.symm, rfl⟩
  · split at h
    · next hname => cases h; exact .inr ⟨hname.symm, rfl, Pod.isBlank_fresh _ _ _ _ _⟩
    · cases h

theorem scaling_keeps_busy_pods_frozen :
    ∃ w₁ w', Reconciles Eq anySettings frozenPool (goOn (scaleReconciled anySettings frozenPool)) oneBusyPod w₁
        (.ok (.ok (1, true))) w' ∧ KeepsBusy "pool" w₁ w' ∧ OnlyBusy "pool" w₁ w' := by
  obtain ⟨w', hrun⟩ : ∃ w', (scalePool anySettings frozenPool).run.run oneBusyPod = (.finished (.ok (1, true)), w') :=
    ⟨_, rfl⟩
  obtain ⟨n, he⟩ : ∃ n, Ends Eq n (scalePool anySettings frozenPool).run oneBusyPod (.ok (.ok (1, true))) w' :=
    Ends.of_run hrun
  have hn : oneBusyPod.capacity.Named := by
    intro name p hp
    rcases get?_oneBusyPod hp with ⟨rfl, h⟩ | ⟨rfl, h, -⟩ <;> exact h
  have hu : Unclaimed n oneBusyPod.capacity := by
    intro pool now k p _ hp
    rcases get?_oneBusyPod hp with ⟨h, -⟩ | ⟨-, -, h⟩
    · exact absurd h (podName_ne _ _ _ (by decide))
    · exact h
  have hfrozen : FrozenAt frozenPool oneBusyPod := ⟨0, rfl, rfl⟩
  have ho : ∀ s s' : World, s = s' → Elsewhere s s' := fun _ _ h => h ▸ refl_of Elsewhere _
  obtain ⟨w₁, hreconciles, hkept, hseason⟩ := (scaling_keeps_busy_pods anySettings ho hn hu).1 _ _ _ he
  have hshrinks := (hseason fun _ _ h => h ▸ refl_of (SameSeason frozenPool) _).1 hfrozen
  exact ⟨w₁, w', hreconciles, hkept "pool", hshrinks.left ⟨_, rfl⟩⟩

end TaskFleet.Autoscale
