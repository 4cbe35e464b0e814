/-
  TaskFleet.Proofs.Capacity.PodCounts — how many pods a pool has, and what changes that.

  A pod counts once because it is kept under one name, so pods are counted by their names. A
  program adds pods to its own pool only; others may free slots, take slots and give pods up.
  - `AddsIn`: every pod was there before, in the same pool, or is in one of some pools.
    It is a case of `Descends`. `AddsIn.podCount_le`: all other pools have no more pods than before.
  - `podCount_createPod`, `podCount_deletePod`: one more pod at most, and one less if it went well.
  - `calm_reconcile_adds`: reconciliation adds to its own pool.
-/

import Mathlib.Data.List.Perm.Subperm
import TaskFleet.Proofs.Capacity.Lineage

namespace TaskFleet

namespace Capacity

variable {c c' : Capacity} {pool name pod : String}

/-! ## Counting by names -/

/-- The names under which the pods of a pool are kept. -/
def namesIn (c : Capacity) (pool : String) : List String := (c.pods.rows.filter (·.2.pool == pool)).map (·.1)

theorem mem_namesIn : name ∈ c.namesIn pool ↔ ∃ p, c.pods.get? name = some p ∧ p.pool = pool := by
  unfold namesIn
  rw [List.mem_map]
  constructor
  · rintro ⟨⟨k, p⟩, hrow, rfl⟩
    obtain ⟨hrow, hpool⟩ := List.mem_filter.1 hrow
    exact ⟨p, Table.mem_rows_iff.1 hrow, beq_iff_eq.1 hpool⟩
  · rintro ⟨p, hp, hpool⟩
    exact ⟨(name, p), List.mem_filter.2 ⟨Table.mem_rows_iff.2 hp, beq_iff_eq.2 hpool⟩, rfl⟩

theorem nodup_namesIn (c : Capacity) (pool : String) : (c.namesIn pool).Nodup := by
  unfold namesIn
  rw [List.Nodup, List.pairwise_map]
  refine (c.pods.ascending.sublist List.filter_sublist).imp fun {a b} hlt he => ?_
  exact String.lt_irrefl _ (he ▸ hlt)

theorem length_namesIn (c : Capacity) (pool : String) : (c.namesIn pool).length = c.podCount pool := by
  unfold namesIn podCount Table.values
  rw [List.length_map, List.filter_map, List.length_map]
  rfl

theorem podCount_le_of_subset (more : List String) (h : c'.namesIn pool ⊆ more ++ c.namesIn pool) :
    c'.podCount pool ≤ c.podCount pool + more.length := by
  have hle := (List.Nodup.subperm (c'.nodup_namesIn pool) h).length_le
  rw [List.length_append, length_namesIn, length_namesIn] at hle
  omega

theorem podCount_lt_of_subset (h : c'.namesIn pool ⊆ c.namesIn pool) (hmem : name ∈ c.namesIn pool)
    (hgone : name ∉ c'.namesIn pool) : c'.podCount pool < c.podCount pool := by
  have hle := (List.Nodup.subperm (List.nodup_cons.2 ⟨hgone, c'.nodup_namesIn pool⟩)
    (List.cons_subset.2 ⟨hmem, h⟩)).length_le
  rw [List.length_cons, length_namesIn, length_namesIn] at hle
  exact hle

theorem length_podsIn (c : Capacity) (pool : String) : (c.podsIn pool).length = c.podCount pool := length_sortBy _ _

theorem names_podsIn_perm (hn : c.Named) : ((c.podsIn pool).map (·.name)).Perm (c.namesIn pool) := by
  have hnames : (c.pods.values.filter (·.pool == pool)).map (·.name) = c.namesIn pool := by
    unfold namesIn Table.values
    rw [List.filter_map, List.map_map]
    exact List.map_congr_left fun r hr => hn r.1 r.2 (Table.mem_rows_iff.1 (List.mem_filter.1 hr).1)
  rw [← hnames]
  exact (sortBy_perm _ _).map _

theorem nodup_names_idlePods (hn : c.Named) : ((c.idlePods pool).map (·.name)).Nodup :=
  (List.filter_sublist.map _).nodup ((names_podsIn_perm hn).nodup_iff.2 (c.nodup_namesIn pool))

/-! ### One pod more or less -/

theorem mem_namesIn_insert {p : Pod} (hpods : c'.pods = c.pods.insert p.name p) :
    name ∈ c'.namesIn p.pool ↔ name = p.name ∨ name ∈ c.namesIn p.pool := by
  rw [mem_namesIn, mem_namesIn, hpods]
  simp only [Table.get?_insert]
  by_cases hname : p.name = name
  · simp [hname]
  · simp [hname, Ne.symm hname]

theorem mem_namesIn_erase (hpods : c'.pods = c.pods.erase pod) :
    name ∈ c'.namesIn pool ↔ name ≠ pod ∧ name ∈ c.namesIn pool := by
  rw [mem_namesIn, mem_namesIn, hpods]
  simp only [Table.get?_erase]
  by_cases hname : pod = name
  · simp [hname]
  · simp [hname, Ne.symm hname]

theorem podCount_insert {p : Pod} (hpods : c'.pods = c.pods.insert p.name p) (hnew : c.pods.get? p.name = none) :
    c'.podCount p.pool = c.podCount p.pool + 1 := by
  have hnot : p.name ∉ c.namesIn p.pool := fun hmem => by
    obtain ⟨q, hq, -⟩ := mem_namesIn.1 hmem
    rw [hnew] at hq
    cases hq
  have hperm : (c'.namesIn p.pool).Perm (p.name :: c.namesIn p.pool) :=
    (List.perm_ext_iff_of_nodup (c'.nodup_namesIn _) (List.nodup_cons.2 ⟨hnot, c.nodup_namesIn _⟩)).2 fun k => by
      rw [mem_namesIn_insert hpods, List.mem_cons]
  rw [← length_namesIn, ← length_namesIn, hperm.length_eq, List.length_cons]

theorem podCount_erase {p : Pod} (hpods : c'.pods = c.pods.erase pod) (hp : c.pods.get? pod = some p) :
    c.podCount p.pool = c'.podCount p.pool + 1 := by
  have hnot : pod ∉ c'.namesIn p.pool := fun hmem => ((mem_namesIn_erase hpods).1 hmem).1 rfl
  have hperm : (c.namesIn p.pool).Perm (pod :: c'.namesIn p.pool) :=
    (List.perm_ext_iff_of_nodup (c.nodup_namesIn _) (List.nodup_cons.2 ⟨hnot, c'.nodup_namesIn _⟩)).2 fun k => by
      rw [List.mem_cons, mem_namesIn_erase hpods]
      by_cases hk : k = pod
      · simp [hk, mem_namesIn, hp]
      · simp [hk]
  rw [← length_namesIn, ← length_namesIn, hperm.length_eq, List.length_cons]

end Capacity

/-! ## Pods that are added -/

/-- Every pod was there before, with the same name and in the same pool, or it is in one of
    these pools and kept under its own name. -/
def AddsIn (pools : String → Prop) : World → World → Prop :=
  Descends (fun name p' => p'.name = name ∧ pools p'.pool) fun p p' => p'.name = p.name ∧ p'.pool = p.pool

theorem lineage_addsIn (pools : String → Prop) :
    Lineage (fun name p' => p'.name = name ∧ pools p'.pool) fun p p' => p'.name = p.name ∧ p'.pool = p.pool where
  refl _ := ⟨rfl, rfl⟩
  trans h h' := ⟨h'.1.trans h.1, h'.2.trans h.2⟩
  new hnew h := ⟨h.1.trans hnew.1, h.2 ▸ hnew.2⟩
  heard _ _ := ⟨rfl, rfl⟩
  slots _ _ := ⟨rfl, rfl⟩

variable {pools pools' : String → Prop} {w w' : World}

instance : IsPreorder World (AddsIn pools) := (lineage_addsIn pools).preorder

theorem AddsIn.mono (h : AddsIn pools w w') (hpools : ∀ id, pools id → pools' id) : AddsIn pools' w w' :=
  fun name p' hp' => (h name p' hp').imp_left fun hnew => ⟨hnew.1, hpools _ hnew.2⟩

theorem addsIn_of_pods (h : w'.capacity.pods = w.capacity.pods) : AddsIn pools w w' := (lineage_addsIn pools).of_pods h

theorem addsIn_samePods (h : SamePods w w') : AddsIn pools w w' := addsIn_of_pods (congrArg Capacity.pods h)

theorem AddsIn.named (h : AddsIn pools w w') (hn : w.capacity.Named) : w'.capacity.Named :=
  Descends.named h (fun _ _ hnew => hnew.1) (fun _ _ hsame => hsame.1) hn

theorem AddsIn.namesIn_subset (h : AddsIn pools w w') {id : String} (hid : ¬pools id) :
    w'.capacity.namesIn id ⊆ w.capacity.namesIn id := by
  intro name hname
  obtain ⟨p', hp', rfl⟩ := Capacity.mem_namesIn.1 hname
  rcases h name p' hp' with ⟨-, hpool⟩ | ⟨p, hp, -, hpool⟩
  · exact absurd hpool hid
  · exact Capacity.mem_namesIn.2 ⟨p, hp, hpool.symm⟩

/-- Pools to which nothing is added have no more pods than before. -/
theorem AddsIn.podCount_le (h : AddsIn pools w w') {id : String} (hid : ¬pools id) :
    w'.capacity.podCount id ≤ w.capacity.podCount id :=
  Capacity.podCount_le_of_subset [] (h.namesIn_subset hid)

/-- No pod is put under management, and none changes its name or its pool. -/
def NoNewPods : World → World → Prop := AddsIn fun _ => False

instance : IsPreorder World NoNewPods := inferInstanceAs (IsPreorder World (AddsIn fun _ => False))

theorem NoNewPods.adds (h : NoNewPods w w') (pools : String → Prop) : AddsIn pools w w' := AddsIn.mono h fun _ => False.elim

theorem NoNewPods.podCount_le (h : NoNewPods w w') (id : String) : w'.capacity.podCount id ≤ w.capacity.podCount id :=
  AddsIn.podCount_le h not_false

theorem noNewPods_samePods (h : SamePods w w') : NoNewPods w w' := addsIn_samePods h

namespace Capacity

variable {cfg : CapacitySettings} {n : Nat}

/-! ## Creating, deleting and reconciling -/

theorem calm_createPod_adds (pool : AgentPool) : (createPod cfg pool).run.Calm (AddsIn (· = pool.id)) :=
  (lineage_addsIn (· = pool.id)).calm_createPod fun _ _ _ => ⟨rfl, rfl⟩

/-- A creation adds one pod at most. -/
theorem podCount_createPod {pool : AgentPool} {r : Except String (Except CapacityError Pod)}
    (he : Program.Ends NoNewPods n (createPod cfg pool).run w r w') :
    w'.capacity.podCount pool.id ≤ w.capacity.podCount pool.id + 1 := by
  have hname : (Fallible.always (Program.apply fun w : World => (((w.capacity.nextName pool.id w.now).1, w.now),
      { w with capacity := (w.capacity.nextName pool.id w.now).2 })) : Fallible CapacityError (String × UInt64)).run.Calm
        NoNewPods := Fallible.calm_always (Program.calm_apply fun w => addsIn_of_pods rfl)
  rcases Fallible.calm_bind_ends hname he fun _ _ h => h with ⟨e, -, h⟩ | ⟨n₁, ⟨name, now⟩, w₁, h₁, he⟩
  · exact Nat.le_succ_of_le (h.podCount_le pool.id)
  have hcall : (call cfg "create_pod" (·.create pool.id name now)).run.Calm NoNewPods :=
    (calm_call cfg _ _).mono fun _ _ => noNewPods_samePods
  rcases Fallible.calm_bind_ends hcall he fun _ _ h => h with ⟨e, -, h⟩ | ⟨n₂, u, w₂, h₂, he⟩
  · exact Nat.le_succ_of_le ((trans_of NoNewPods h₁ h).podCount_le pool.id)
  -- the one step that puts the pod under management
  obtain ⟨n₃, w₃, -, h₃, hend⟩ := Program.ends_step he
  obtain ⟨-, -, h'⟩ := Program.ends_done hend
  have hbefore : NoNewPods w w₃ := trans_of NoNewPods h₁ (trans_of NoNewPods h₂ h₃)
  refine podCount_le_of_subset [name] fun k hk => ?_
  rcases (mem_namesIn_insert rfl).1 (AddsIn.namesIn_subset h' not_false hk) with hname | hold
  · exact hname ▸ List.mem_cons_self
  · exact List.mem_cons_of_mem _ (AddsIn.namesIn_subset hbefore not_false hold)

theorem calm_deletePod_adds (pod : String) : (deletePod cfg pod).run.Calm NoNewPods :=
  (lineage_addsIn fun _ => False).calm_deletePod pod

/-- A deletion that went well leaves one pod less in the pool that the pod can only have been in. -/
theorem podCount_deletePod {id : String} (hpool : ∀ p, w.capacity.pods.get? pod = some p → p.pool = id)
    (he : Program.Ends NoNewPods n (deletePod cfg pod).run w (.ok (.ok ())) w') :
    w'.capacity.podCount id < w.capacity.podCount id := by
  have he : Program.Ends NoNewPods n (Program.editCapacity (fun c _ => c.removeIdle pod) >>= ExceptT.bindCont fun _ =>
    call cfg "delete_pod" (·.delete pod)) w (.ok (.ok ())) w' := he
  obtain ⟨n₁, w₁, -, h₁, hk⟩ := he.apply_bind
  cases hr : w₁.capacity.removeIdle pod with
  | error e =>
    simp only [hr, Except.map] at hk
    obtain ⟨-, hk, -⟩ := Program.ends_done hk
    cases hk
  | ok c =>
    simp only [hr, Except.map] at hk
    obtain ⟨p₁, hp₁, -, rfl⟩ := removeIdle_ok_iff.1 hr
    obtain ⟨_, -, h'⟩ := ((calm_call cfg _ _).mono fun _ _ => noNewPods_samePods).ends hk fun _ _ h => h
    rcases h₁ pod p₁ hp₁ with ⟨-, hno⟩ | ⟨p, hp, -, -⟩
    · exact hno.elim
    have hremoved : NoNewPods w₁ { w₁ with capacity := { w₁.capacity with pods := w₁.capacity.pods.erase pod } } :=
      (lineage_addsIn fun _ => False).removeIdle hr
    have hhad : pod ∈ w.capacity.namesIn id := mem_namesIn.2 ⟨p, hp, hpool p hp⟩
    refine podCount_lt_of_subset ?_ hhad fun hmem => ?_
    · exact AddsIn.namesIn_subset (trans_of NoNewPods h₁ (trans_of NoNewPods hremoved h')) not_false
    · exact ((mem_namesIn_erase rfl).1 (AddsIn.namesIn_subset h' not_false hmem)).1 rfl

theorem calm_reconcile_adds (pool : AgentPool) : (reconcile cfg pool).run.Calm (AddsIn (· = pool.id)) :=
  (lineage_addsIn (· = pool.id)).calm_reconcile fun _ _ _ => ⟨rfl, rfl⟩

end Capacity

end TaskFleet
