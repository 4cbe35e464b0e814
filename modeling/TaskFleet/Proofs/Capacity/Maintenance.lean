/-
  TaskFleet.Proofs.Capacity.Maintenance — the steps of which the maintenance of pods consists.

  - `Maintains`: a relation that each single change of the pods by creation, deletion and
    reconciliation stays in; `steps_createPod`, `steps_deletePod`, `steps_syncPods`, `steps_reconcile`.
  - `Tidies`: new pods come with nothing on them, pods go, and slots are cleared or kept for their
    tasks. Every single change by maintenance is one of these, and so is giving a slot back.
  - `Vacates`: no task is put on a slot. `maintains_vacating`: maintenance only vacates.
-/

import TaskFleet.Proofs.Calls
import TaskFleet.Proofs.Capacity.Slots

namespace TaskFleet

/-! ## Tidied slots and pods -/

/-- The slot is as it was, was cleared, or is kept for the task that it was bound to. -/
inductive Slot.Tidied (s : Slot) : Slot → Prop
  | same : Tidied s s
  | cleared (now : UInt64) : Tidied s (s.clear now)
  | kept (now : UInt64) : s.task ≠ none → Tidied s { s with status := .reserved, updatedAt := now }

/-- A pod of this name as it is when it is put under management, for some pool. -/
def Pod.IsNew (name : String) (p : Pod) : Prop :=
  p.name = name ∧ ∃ (pool : AgentPool) (since : UInt64),
    p.pool = pool.id ∧ p.slots = (List.range pool.slotsPerPod.toNat).map fun i => { index := i, updatedAt := since }

/-- The same pod with tidied slots. -/
structure Pod.Tidied (p p' : Pod) : Prop where
  name : p'.name = p.name
  pool : p'.pool = p.pool
  length : p'.slots.length = p.slots.length
  slots : ∀ (i : Nat) (s' : Slot), p'.slots[i]? = some s' → ∃ s : Slot, p.slots[i]? = some s ∧ s.Tidied s'

theorem Pod.isNew_fresh (name pool : String) (slots : UInt32) (createdAt now : UInt64) :
    Pod.IsNew name (.fresh name pool slots createdAt now) :=
  ⟨rfl, { id := pool, kind := .static, slotsPerPod := slots, minReplicas := 0, maxReplicas := 0 }, now, rfl, rfl⟩

theorem Pod.tidied_of_slots {p p' : Pod} (hname : p'.name = p.name) (hpool : p'.pool = p.pool) (hslots : p'.slots = p.slots) :
    p.Tidied p' where
  name := hname
  pool := hpool
  length := congrArg List.length hslots
  slots _ s' hs' := ⟨s', hslots ▸ hs', .same⟩

theorem Slot.length_followTasks (store : Store) (now : UInt64) (l : List Slot) :
    (Slot.followTasks store now l).2.length = l.length := by
  induction l with
  | nil => rfl
  | cons s rest ih =>
    unfold followTasks
    split
    · simp [ih]
    · split
      · rfl
      · simp [ih]

theorem Slot.tidied_followTask {s : Slot} {task : UInt64} (h : s.task = some task) (status : Option TaskStatus) (now : UInt64) :
    s.Tidied (s.followTask status now) := by
  have hbound : s.task ≠ none := by rw [h]; simp
  unfold followTask
  split
  · exact .same
  · split
    · exact .same
    · exact .kept now hbound
  · split
    · exact .same
    · exact .cleared now
  · exact .cleared now

namespace Capacity

variable {cfg : CapacitySettings} {R : World → World → Prop} {pool : AgentPool} {c c' c'' d : Capacity} {x y : Spot}
  {s s' : Slot} {p p' : Pod} {pod name : String} {now : UInt64} {α : Type}

/-! ## Steps of maintenance -/

/-- The relation holds of every single change that creating, deleting and reconciling pods
    makes. -/
structure Maintains (cfg : CapacitySettings) (R : World → World → Prop) : Prop where
  idle : ∀ w, R w w
  cluster : ∀ w cluster, R w { w with cluster }
  alarms : ∀ w alarms, R w { w with alarms }
  spendName : ∀ w pool, R w { w with capacity := (w.capacity.nextName pool w.now).2 }
  insert : ∀ w name (pool : AgentPool) createdAt now,
    R w { w with capacity := w.capacity.insertPod (.fresh name pool.id pool.slotsPerPod createdAt now) }
  remove : ∀ w pod c, w.capacity.removeIdle pod = .ok c → R w { w with capacity := c }
  takeOver : ∀ w pool observed, R w { w with capacity := w.capacity.takeOverAll pool w.now observed }
  follow : ∀ w pod, R w { w with capacity := (w.capacity.followTasks w.store pod w.now).2 }
  expire : ∀ w pool, R w { w with capacity := w.capacity.expireReservations cfg pool w.now }

theorem steps_call (hR : Maintains cfg R) (name : String) (f : Cluster → CallAnswer α × Cluster) :
    (call cfg name f).run.Steps R := by
  refine Fallible.steps_bind (Fallible.steps_always (Program.steps_apply fun w => hR.cluster w _)) fun answer => ?_
  cases answer with
  | ok a => trivial
  | refused reason => trivial
  | unanswered =>
    refine Fallible.steps_bind (Fallible.steps_always ?_) fun _ => trivial
    exact .bind (Program.steps_apply fun w => hR.alarms w _) fun _ => Program.steps_waitFor _

theorem steps_createPod (hR : Maintains cfg R) (pool : AgentPool) : (createPod cfg pool).run.Steps R := by
  refine Fallible.steps_bind (Fallible.steps_always (Program.steps_apply fun w => hR.spendName w pool.id)) fun r => ?_
  obtain ⟨name, now⟩ := r
  refine Fallible.steps_bind (steps_call hR _ _) fun _ => ?_
  refine Fallible.steps_bind (Fallible.steps_always (Program.steps_modify fun w => ?_)) fun _ => trivial
  exact hR.insert w name pool now now

theorem steps_deletePod (hR : Maintains cfg R) (pod : String) : (deletePod cfg pod).run.Steps R := by
  refine .bind (Program.steps_apply fun w => ?_) fun r => ?_
  · simp only
    split
    · next c hc =>
      obtain ⟨u, hu, he⟩ := Fallible.map_eq_ok_iff.1 hc
      cases he
      exact hR.remove w pod _ hu
    · exact hR.idle w
  · cases r with
    | ok u => exact steps_call hR _ _
    | error e => trivial

theorem steps_syncPods (hR : Maintains cfg R) (pool : AgentPool) : (syncPods cfg pool).run.Steps R := by
  refine Fallible.steps_bind (steps_call hR _ _) fun observed => ?_
  refine Fallible.steps_bind (Fallible.steps_always (Program.steps_modify fun w => hR.takeOver w pool observed)) fun _ => ?_
  exact Fallible.steps_always (.forEach (fun pod => Fallible.steps_ignoring (steps_call hR _ _)) _)

theorem steps_reconcile (hR : Maintains cfg R) (pool : AgentPool) : (reconcile cfg pool).run.Steps R := by
  have hfollow : ∀ pods : List String, (followTasksOn pods).run.Steps R := by
    intro pods
    induction pods with
    | nil => trivial
    | cons pod rest ih => exact Fallible.steps_bind (Program.steps_apply fun w => hR.follow w pod) fun _ => ih
  refine Fallible.steps_bind (steps_syncPods hR pool) fun _ => ?_
  refine Fallible.steps_bind (Fallible.steps_always (Program.steps_get hR.idle _)) fun pods => ?_
  refine Fallible.steps_bind (Fallible.steps_always (Fallible.steps_ignoring (hfollow pods))) fun _ => ?_
  exact Fallible.steps_always (Program.steps_modify fun w => hR.expire w pool.id)

theorem Maintains.mono {R' : World → World → Prop} (h : Maintains cfg R) (hle : ∀ w w', R w w' → R' w w') :
    Maintains cfg R' where
  idle w := hle _ _ (h.idle w)
  cluster w c := hle _ _ (h.cluster w c)
  alarms w l := hle _ _ (h.alarms w l)
  spendName w pool := hle _ _ (h.spendName w pool)
  insert w name pool createdAt now := hle _ _ (h.insert w name pool createdAt now)
  remove w pod c hc := hle _ _ (h.remove w pod c hc)
  takeOver w pool observed := hle _ _ (h.takeOver w pool observed)
  follow w pod := hle _ _ (h.follow w pod)
  expire w pool := hle _ _ (h.expire w pool)

/-- Maintenance leaves the records alone. -/
theorem maintains_sameStore : Maintains cfg SameStore := by
  constructor <;> intros <;> rfl

/-! ## Tidying up -/

/-- The pod is new: there was none of its name, or it was put in the place of one. -/
structure Adds (c c' : Capacity) (name : String) (p : Pod) : Prop where
  isNew : p.IsNew name
  before : c.pods.get? name = none ∨ c' = c.insertPod p

/-- Every pod is new or a tidied one. -/
def Tidies (c c' : Capacity) : Prop :=
  ∀ name p', c'.pods.get? name = some p' → Adds c c' name p' ∨ ∃ p, c.pods.get? name = some p ∧ p.Tidied p'

theorem tidies_of_sub (h : ∀ name p', c'.pods.get? name = some p' → c.pods.get? name = some p') : Tidies c c' :=
  fun name p' hp' => .inr ⟨p', h name p' hp', Pod.tidied_of_slots rfl rfl rfl⟩

theorem Tidies.refl (c : Capacity) : Tidies c c := tidies_of_sub fun _ _ h => h

theorem tidies_modify (pod : String) {f : Pod → Pod} (hf : ∀ p, c.pods.get? pod = some p → p.Tidied (f p)) :
    Tidies c { c with pods := c.pods.modify pod f } := by
  intro name p' hp'
  rw [Table.get?_modify] at hp'
  split at hp'
  · next hpod =>
    obtain ⟨p, hp, rfl⟩ := Option.map_eq_some_iff.1 hp'
    exact .inr ⟨p, hp, hf p (hpod ▸ hp)⟩
  · exact .inr ⟨p', hp', Pod.tidied_of_slots rfl rfl rfl⟩

theorem tidies_insertPod (h : p.IsNew p.name) : Tidies c (c.insertPod p) := by
  intro name p' hp'
  unfold insertPod at hp'
  rw [Table.get?_insert] at hp'
  split at hp'
  · next hname =>
    cases hp'
    exact .inl ⟨hname ▸ h, .inr rfl⟩
  · exact .inr ⟨p', hp', Pod.tidied_of_slots rfl rfl rfl⟩

theorem tidies_modifySlot (y : Spot) {f : Slot → Slot} (hf : ∀ s, c.slotAt y = some s → s.Tidied (f s)) :
    Tidies c (c.modifySlot y.pod y.slot f) := by
  refine tidies_modify y.pod fun p hp => ⟨rfl, rfl, List.length_modify .., fun i s' hs' => ?_⟩
  simp only [Pod.modifySlot, List.getElem?_modify] at hs'
  obtain ⟨s, hs, rfl⟩ := Option.map_eq_some_iff.1 hs'
  refine ⟨s, hs, ?_⟩
  split
  · next hi =>
    refine hf s ?_
    unfold slotAt
    rw [hp, hi]
    exact hs
  · exact .same

theorem tidies_release (h : c.release y.pod y.slot now = .ok c') : Tidies c c' := by
  rw [setSlot_ok h]
  exact tidies_modifySlot y fun s _ => .cleared now

theorem tidies_removeIdle (h : c.removeIdle pod = .ok c') : Tidies c c' := by
  obtain ⟨p, -, -, rfl⟩ := removeIdle_ok_iff.1 h
  refine tidies_of_sub fun name p' hp' => ?_
  rw [Table.get?_erase] at hp'
  split at hp'
  · cases hp'
  · exact hp'

/-- Pods were taken over: the pods there are were there before or are new, and none is gone. -/
structure TakesOver (c d : Capacity) : Prop where
  pods : ∀ name p', d.pods.get? name = some p' →
    (p'.IsNew name ∧ c.pods.get? name = none) ∨ ∃ p, c.pods.get? name = some p ∧ p.Tidied p'
  stay : ∀ name, d.pods.get? name = none → c.pods.get? name = none

theorem TakesOver.takeOver (h : TakesOver c d) (pool : AgentPool) (now : UInt64) (o : ObservedPod) :
    TakesOver c (d.takeOver pool now o) := by
  unfold Capacity.takeOver
  split
  · refine ⟨fun name p' hp' => ?_, fun name hnone => ?_⟩
    · rw [Table.get?_modify] at hp'
      split at hp'
      · obtain ⟨p, hp, rfl⟩ := Option.map_eq_some_iff.1 hp'
        rcases h.pods name p hp with hnew | ⟨p₀, hp₀, htidied⟩
        · exact .inl hnew
        · exact .inr ⟨p₀, hp₀, htidied.name, htidied.pool, htidied.length, htidied.slots⟩
      · exact h.pods name p' hp'
    · rw [Table.get?_modify] at hnone
      split at hnone
      · exact h.stay name (Option.map_eq_none_iff.1 hnone)
      · exact h.stay name hnone
  · next hno =>
    have habsent : d.pods.get? o.name = none := by simpa [Table.contains] using hno
    refine ⟨fun name p' hp' => ?_, fun name hnone => ?_⟩
    · unfold insertPod at hp'
      rw [Table.get?_insert] at hp'
      split at hp'
      · next hname =>
        obtain rfl : o.name = name := hname
        cases hp'
        exact .inl ⟨Pod.isNew_fresh _ _ _ _ _, h.stay _ habsent⟩
      · exact h.pods name p' hp'
    · unfold insertPod at hnone
      rw [Table.get?_insert] at hnone
      split at hnone
      · cases hnone
      · exact h.stay name hnone

theorem tidies_takeOverAll (c : Capacity) (pool : AgentPool) (now : UInt64) (observed : List ObservedPod) :
    Tidies c (c.takeOverAll pool now observed) := by
  have hfold : ∀ (l : List ObservedPod) (d : Capacity), TakesOver c d → TakesOver c (l.foldl (takeOver · pool now) d) := by
    intro l
    induction l with
    | nil => intro d hd; exact hd
    | cons o l ih => intro d hd; exact ih _ (hd.takeOver pool now o)
  have hrefl : TakesOver c c := ⟨fun name p' hp' => .inr ⟨p', hp', Pod.tidied_of_slots rfl rfl rfl⟩, fun _ h => h⟩
  intro name p' hp'
  unfold takeOverAll at hp'
  rw [Table.get?_filter] at hp'
  rcases (hfold _ c hrefl).pods name p' (Option.filter_eq_some_iff.1 hp').1 with ⟨hnew, hnone⟩ | hold
  · exact .inl ⟨hnew, .inl hnone⟩
  · exact .inr hold

theorem tidies_followTasks (c : Capacity) (store : Store) (pod : String) (now : UInt64) :
    Tidies c (c.followTasks store pod now).2 := by
  unfold followTasks
  cases hp : c.pods.get? pod with
  | none => exact .refl c
  | some p =>
    refine tidies_modify pod fun q hq => ?_
    rw [hp] at hq
    cases hq
    refine ⟨rfl, rfl, Slot.length_followTasks store now p.slots, fun i s' hs' => ?_⟩
    rcases followed_slots store now p.slots i with ⟨-, hnone⟩ | ⟨s, s₁, hs, hs₁, hf⟩
    · rw [hnone] at hs'
      cases hs'
    · rw [hs₁] at hs'
      cases hs'
      refine ⟨s, hs, ?_⟩
      rcases hf with rfl | ⟨task, t, htask, -, rfl⟩
      · exact .same
      · exact Slot.tidied_followTask htask _ now

theorem tidies_expireReservations (c : Capacity) (cfg : CapacitySettings) (id : String) (now : UInt64) :
    Tidies c (c.expireReservations cfg id now) := by
  intro name p' hp'
  unfold expireReservations at hp'
  rw [Table.get?_mapValues] at hp'
  obtain ⟨p, hp, rfl⟩ := Option.map_eq_some_iff.1 hp'
  refine .inr ⟨p, hp, ?_⟩
  split
  · refine ⟨rfl, rfl, List.length_map _, fun i s' hs' => ?_⟩
    rw [List.getElem?_map] at hs'
    obtain ⟨s, hs, rfl⟩ := Option.map_eq_some_iff.1 hs'
    refine ⟨s, hs, ?_⟩
    unfold Slot.expire
    split
    · exact .cleared now
    · exact .same
  · exact Pod.tidied_of_slots rfl rfl rfl

theorem Tidies.named (h : Tidies c c') (hn : c.Named) : c'.Named := by
  intro name p' hp'
  rcases h name p' hp' with ⟨⟨hname, -⟩, -⟩ | ⟨p, hp, htidied⟩
  · exact hname
  · exact htidied.name.trans (hn name p hp)

/-- What is on a slot after tidying up. -/
theorem Tidies.slotAt (h : Tidies c c') (hs' : c'.slotAt x = some s') :
    (∃ since, s' = { index := x.slot, updatedAt := since }) ∨ ∃ s, c.slotAt x = some s ∧ s.Tidied s' := by
  obtain ⟨p', hp', hslot⟩ := Option.bind_eq_some_iff.1 hs'
  rcases h x.pod p' hp' with ⟨⟨-, pool, since, -, hslots⟩, -⟩ | ⟨p, hp, htidied⟩
  · rw [hslots, List.getElem?_map] at hslot
    obtain ⟨i, hi, rfl⟩ := Option.map_eq_some_iff.1 hslot
    have hindex : x.slot = i := by simpa using (List.getElem?_eq_some_iff.1 hi).2
    exact .inl ⟨since, by rw [hindex]⟩
  · obtain ⟨s, hs, hst⟩ := htidied.slots x.slot s' hslot
    refine .inr ⟨s, ?_, hst⟩
    unfold Capacity.slotAt
    rw [hp]
    exact hs

/-! ## Vacated slots -/

/-- Tasks may have left their slots; none was put on one. -/
def Vacates (c c' : Capacity) : Prop := c.Order → c'.Order ∧ ∀ x, c'.taskAt x = c.taskAt x ∨ c'.taskAt x = none

theorem Vacates.refl (c : Capacity) : Vacates c c := fun hc => ⟨hc, fun _ => .inl rfl⟩

theorem Vacates.trans (h : Vacates c c') (h' : Vacates c' c'') : Vacates c c'' := by
  intro hc
  obtain ⟨hc', htasks⟩ := h hc
  obtain ⟨hc'', htasks'⟩ := h' hc'
  refine ⟨hc'', fun x => ?_⟩
  rcases htasks' x with he | hnone
  · rw [he]; exact htasks x
  · exact .inr hnone

theorem SameTasks.vacates (h : c.Order → SameTasks c c') : Vacates c c' :=
  fun hc => ⟨(h hc).order, fun x => .inl ((h hc).tasks x)⟩

/-- A pod with nothing on it may take another's place. -/
theorem vacates_insertPod {q : Pod} (hidle : ∀ s ∈ q.slots, s.task = none) : Vacates c (c.insertPod q) := by
  intro hc
  have hhere : ∀ x s, x.pod = q.name → (c.insertPod q).slotAt x = some s → s.task = none := by
    intro x s hx hs
    unfold slotAt insertPod at hs
    rw [hx, Table.get?_insert_self] at hs
    exact hidle s (List.mem_of_getElem? hs)
  refine ⟨⟨hc.named.insert rfl, fun x s hs hst => ?_⟩, fun x => ?_⟩
  · by_cases hx : x.pod = q.name
    · exact hhere x s hx hs
    · rw [slotAt_insertPod_of_ne hx] at hs
      exact hc.idle x s hs hst
  · by_cases hx : x.pod = q.name
    · right
      unfold taskAt
      cases hs : (c.insertPod q).slotAt x with
      | none => rfl
      | some s => exact hhere x s hx hs
    · exact .inl (taskAt_congr (slotAt_insertPod_of_ne hx))

theorem slotAt_erase (c : Capacity) (pod : String) (x : Spot) :
    slotAt { c with pods := c.pods.erase pod } x = if pod = x.pod then none else c.slotAt x := by
  unfold slotAt
  simp only [Table.get?_erase]
  split <;> rfl

theorem Tidies.vacates (h : Tidies c c') : Vacates c c' := by
  intro hc
  refine ⟨⟨h.named hc.named, fun x s' hs' hidle => ?_⟩, fun x => ?_⟩
  · rcases h.slotAt hs' with ⟨since, rfl⟩ | ⟨s, hs, htidied⟩
    · rfl
    · cases htidied with
      | same => exact hc.idle x _ hs hidle
      | cleared now => rfl
      | kept now => cases hidle
  · unfold taskAt
    cases hs' : c'.slotAt x with
    | none => exact .inr rfl
    | some s' =>
      rcases h.slotAt hs' with ⟨since, rfl⟩ | ⟨s, hs, htidied⟩
      · exact .inr rfl
      · rw [hs]
        cases htidied with
        | same => exact .inl rfl
        | cleared now => exact .inr rfl
        | kept now => exact .inl rfl

/-- Nothing but slots was vacated. -/
structure Vacating (w w' : World) : Prop where
  store : w'.store = w.store
  slots : Vacates w.capacity w'.capacity

instance : IsPreorder World Vacating where
  refl w := ⟨rfl, .refl w.capacity⟩
  trans _ _ _ h h' := ⟨h'.store.trans h.store, h.slots.trans h'.slots⟩

theorem vacating_samePods {w w' : World} (hs : w'.store = w.store) (hc : w'.capacity = w.capacity) : Vacating w w' :=
  ⟨hs, by rw [hc]; exact .refl _⟩

theorem maintains_vacating : Maintains cfg Vacating where
  idle w := vacating_samePods rfl rfl
  cluster w _ := vacating_samePods rfl rfl
  alarms w _ := vacating_samePods rfl rfl
  spendName w pool := ⟨rfl, SameTasks.vacates fun hc => ⟨⟨hc.named, hc.idle⟩, fun _ => rfl⟩⟩
  insert w name pool createdAt now := ⟨rfl, vacates_insertPod fun s hs => by
    obtain ⟨i, -, rfl⟩ := List.mem_map.1 hs
    rfl⟩
  remove w pod c h := ⟨rfl, (tidies_removeIdle h).vacates⟩
  takeOver w pool observed := ⟨rfl, (tidies_takeOverAll _ pool _ observed).vacates⟩
  follow w pod := ⟨rfl, (tidies_followTasks _ _ pod _).vacates⟩
  expire w pool := ⟨rfl, (tidies_expireReservations _ cfg pool _).vacates⟩

end Capacity

end TaskFleet
