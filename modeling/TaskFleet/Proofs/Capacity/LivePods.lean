/-
  TaskFleet.Proofs.Capacity.LivePods — syncs of a pool beside creations and calls on its pods.

  A sync lists the cluster's pods in one step and takes the listing over in another; a creation
  starts its pod in one step and puts it under management in another. In between, the listing
  may have gone stale, and a sync may have taken the new pod over already.
  - `Excused`: the steps that lose what is on record of a pod which the cluster lists all the
    time, and the only ones that do (`Explained`).
  - `live_pods_are_lost_to_races`: in every interleaving, what a call has put on record is still
    there, or was lost in such a step.
  - `live_pods_are_forgotten`: both races.
-/

import TaskFleet.Proofs.Capacity.PodRecords
import TaskFleet.Proofs.Traces

namespace TaskFleet.LivePods

open Capacity Fallible

/-! ## Calls on one pool -/

inductive PodCall where
  | createPod
  | syncPods
  | allocate (task : UInt64) (kind : TaskKind)
  | registerAgent (pod agent : String)
  | markRunning (x : Spot)

inductive PodAnswer where
  | created (p : Pod)
  | placed (p : Placement)
  | done

/-- A call on a pool. -/
def PodCall.program (cfg : CapacitySettings) (pool : AgentPool) : PodCall → Program World (Except CapacityError PodAnswer)
  | createPod => (do return PodAnswer.created (← Capacity.createPod cfg pool)).run
  | syncPods => (do Capacity.syncPods cfg pool; return .done : Fallible CapacityError PodAnswer).run
  | allocate task kind =>
    (do return PodAnswer.placed (← ofResult (Program.onCapacity (·.allocate cfg pool.id task kind ·)))).run
  | registerAgent pod agent =>
    (do ofResult (Program.editCapacity (·.registerAgent pod agent ·)); return .done :
        Fallible CapacityError PodAnswer).run
  | markRunning x =>
    (do ofResult (Program.editCapacity (·.markRunning x.pod x.slot ·)); return .done :
        Fallible CapacityError PodAnswer).run

/-- What a call that succeeds with this answer has put on record. -/
def Promises : PodCall → PodAnswer → Record → Prop
  | .createPod, .created p, r => r = .managed p.name
  | .allocate task _, .placed p, r => r = .bound p.spot task
  | .registerAgent pod agent, .done, r => r = .registered pod agent
  | .markRunning x, .done, r => r = .running x
  | _, _, _ => False

/-! ## Pods that the cluster lists -/

variable {pool : AgentPool} {cfg : CapacitySettings} {calls : Nat → PodCall} {w w' : World} {i : Nat} {r : Record}
  {l : List (Step World)} {e : Step World} {name : String}

/-- The cluster lists the pod as one of the pool. -/
def Listed (pool : AgentPool) (w : World) (name : String) : Prop :=
  ∃ o, w.cluster.pods.get? name = some o ∧ o.pool = pool.id

/-- The cluster knows its pods by their names, and all pods of the pool run. -/
def AllRun (pool : AgentPool) (w : World) : Prop :=
  ∀ name o, w.cluster.pods.get? name = some o → o.name = name ∧ (o.pool = pool.id → o.phase = .running)

/-- All pods of the pool run, and the cluster lists those that are managed. -/
structure Ready (pool : AgentPool) (w : World) : Prop where
  order : w.capacity.Order
  listed : ∀ name p, w.capacity.pods.get? name = some p → p.pool = pool.id → Listed pool w name
  running : AllRun pool w

/-- No pod of the pool goes from the cluster. -/
def Stay (pool : AgentPool) (w w' : World) : Prop := ∀ name, Listed pool w name → Listed pool w' name

/-! ## What may be lost -/

/-- The step loses what is on record of a live pod. -/
inductive Excused (pool : AgentPool) (calls : Nat → PodCall) (r : Record) (l : List (Step World)) (e : Step World) : Prop
  /-- A sync takes over a listing from before the pod was in the cluster. -/
  | stale (i : Nat) (scan : Step World) : e.process = some i → calls i = .syncPods → scan ∈ l → scan.process = some i →
      ¬Listed pool scan.before r.pod → Listed pool e.before r.pod → Excused pool calls r l e
  /-- A creation puts its new pod in the place of one that is managed under the same name. -/
  | replaced (i : Nat) (now : UInt64) : e.process = some i → calls i = .createPod → r ≠ .managed r.pod →
      e.after.capacity = e.before.capacity.insertPod (.fresh r.pod pool.id pool.slotsPerPod now now) →
      Excused pool calls r l e
  /-- Another agent registers from the pod. -/
  | registered (i : Nat) (pod old agent : String) : e.process = some i → calls i = .registerAgent pod agent →
      r = .registered pod old → old ≠ agent → Excused pool calls r l e

/-- Whatever the step loses is excused. -/
def Explained (pool : AgentPool) (calls : Nat → PodCall) (l : List (Step World)) (e : Step World) : Prop :=
  ∀ r : Record, r.Holds e.before.capacity → ¬r.Holds e.after.capacity → Excused pool calls r l e

theorem explained_of_keeps (h : ∀ r : Record, r.Holds e.before.capacity → r.Holds e.after.capacity) :
    Explained pool calls l e := fun r hbefore hafter => absurd (h r hbefore) hafter

/-- The process has put this on record. -/
def Recorded (i : Nat) (r : Record) (l : List (Step World)) : Prop :=
  ∃ e ∈ l, e.process = some i ∧ r.Holds e.after.capacity

/-! ## The discipline -/

variable (pool calls w) in
def watching : Discipline World (List (Step World)) :=
  .accounting w (Ready pool) (Explained pool calls) (fun _ e => Stay pool e.before e.after)
    (fun _ _ _ => explained_of_keeps fun _ h => h) fun _ _ _ _ h => h

/-- What happens outside: everything but the pods under management may change, but no pod goes
    from the cluster or stops. -/
inductive OutsidePods (pool : AgentPool) (c : Scene World (List (Step World))) : Scene World (List (Step World)) → Prop
  | surroundings (w : World) : w.capacity = c.state.capacity → AllRun pool w → Stay pool c.state w →
      OutsidePods pool c ⟨w, c.memory ++ [⟨none, c.state, w⟩]⟩

/-- The calls begin, each with its number. -/
inductive BeginsPodCall (cfg : CapacitySettings) (pool : AgentPool) (calls : Nat → PodCall)
    (c : Scene World (List (Step World))) :
    Nat → Program World (Except CapacityError PodAnswer) → Scene World (List (Step World)) → Prop
  | call (i : Nat) : BeginsPodCall cfg pool calls c i ((calls i).program cfg pool) c

variable {c : Scene World (List (Step World))}

theorem stable_true : (watching pool calls w).Stable i fun _ => True := fun _ _ _ _ => trivial

theorem stable_recorded : (watching pool calls w).Stable i fun c => Recorded i r c.memory := by
  rintro c d ⟨e, he, h⟩ ⟨l, hl, -⟩
  exact ⟨e, hl ▸ List.mem_append_left _ he, h⟩

theorem stable_listed : (watching pool calls w).Stable i fun c => Listed pool c.state name := by
  rintro c d h ⟨l, -, hchain, hstay⟩
  exact hchain.preserves (P := fun w => Listed pool w name) (fun e he => hstay e he name) h

theorem recorded_now (h : r.Holds w'.capacity) : Recorded i r (l ++ [⟨some i, w, w'⟩]) :=
  ⟨_, List.mem_append_right _ (List.mem_singleton.2 rfl), rfl, h⟩

/-- A step of a call that leaves the pods under management alone. -/
theorem keeps_samePods (hi : (watching pool calls w).Inv c) (hpods : w'.capacity.pods = c.state.capacity.pods)
    (hrun : AllRun pool w') (hstay : Stay pool c.state w') :
    (watching pool calls w).Keeps i c ⟨w', c.memory ++ [⟨some i, c.state, w'⟩]⟩ := by
  have hslot : ∀ x, w'.capacity.slotAt x = c.state.capacity.slotAt x := fun x => by unfold slotAt; rw [hpods]
  refine Discipline.keeps_accounting hi ⟨⟨?_, ?_⟩, ?_, hrun⟩ (explained_of_keeps fun r h => h.congr (by rw [hpods]))
    fun _ _ => hstay
  · intro name p hp
    exact hi.good.order.named name p (hpods ▸ hp)
  · intro x s hs
    exact hi.good.order.idle x s (hslot x ▸ hs)
  · intro name p hp hpool
    exact hstay name (hi.good.listed name p (hpods ▸ hp) hpool)

/-- A step of a call that leaves the cluster alone. -/
theorem keeps_capacity {capacity : Capacity} (hi : (watching pool calls w).Inv c) (horder : capacity.Order)
    (hlisted : ∀ name p, capacity.pods.get? name = some p → p.pool = pool.id → Listed pool c.state name)
    (hexplained : Explained pool calls c.memory ⟨some i, c.state, { c.state with capacity }⟩) :
    (watching pool calls w).Keeps i c
      ⟨{ c.state with capacity }, c.memory ++ [⟨some i, c.state, { c.state with capacity }⟩]⟩ :=
  Discipline.keeps_accounting hi ⟨horder, hlisted, hi.good.running⟩ hexplained fun _ _ _ h => h

/-! ## Calls to the cluster -/

theorem leads_sleep (duration : Duration) :
    (watching pool calls w).Leads i (Program.sleep duration) (fun _ _ => True) c := by
  refine Discipline.Leads.bind (R := fun _ _ => True) (Discipline.leads_apply stable_true (fun _ => stable_true)
    (fun d hi _ => ⟨?_, trivial⟩) trivial) fun _ _ _ => ?_
  · exact keeps_samePods hi rfl hi.good.running fun _ h => h
  · exact Discipline.leads_waitFor stable_true stable_true (fun _ _ _ _ => trivial) trivial

theorem leads_call {α : Type} {call : String} {f : Cluster → CallAnswer α × Cluster}
    {Q : α → Scene World (List (Step World)) → Prop} (hQ : ∀ a, (watching pool calls w).Stable i (Q a))
    (hstep : ∀ v l, Ready pool v → AllRun pool { v with cluster := (f v.cluster).2 } ∧
      Stay pool v { v with cluster := (f v.cluster).2 } ∧
      ∀ a, (f v.cluster).1 = .ok a → Q a
        ⟨{ v with cluster := (f v.cluster).2 }, l ++ [⟨some i, v, { v with cluster := (f v.cluster).2 }⟩]⟩) :
    (watching pool calls w).Leads i (Capacity.call cfg call f).run (fun r d => ∀ a, r = .ok a → Q a d) c := by
  have hanswer : ∀ answer : CallAnswer α, (watching pool calls w).Stable i fun d => ∀ a, answer = .ok a → Q a d :=
    fun answer d e h hr a ha => hQ a d e (h a ha) hr
  refine Discipline.Leads.always_bind (Discipline.leads_apply stable_true hanswer (fun d hi _ => ?_) trivial)
    fun answer d h => ?_
  · obtain ⟨hrun, hstay, hq⟩ := hstep d.state d.memory hi.good
    exact ⟨keeps_samePods hi rfl hrun hstay, hq⟩
  · cases answer with
    | ok a => exact Discipline.leads_pure fun e hr b hb => by cases hb; exact hQ a d e (h a rfl) hr
    | refused reason => exact Discipline.leads_pure fun _ _ _ hb => by cases hb
    | unanswered =>
      exact Discipline.Leads.always_bind (leads_sleep _) fun _ _ _ => Discipline.leads_pure fun _ _ _ hb => by cases hb

/-! ## Creating -/

theorem listed_of_create (hready : Ready pool w) (name : String) (now : UInt64) :
    AllRun pool { w with cluster := (w.cluster.create pool.id name now).2 } ∧
      Stay pool w { w with cluster := (w.cluster.create pool.id name now).2 } ∧
      ((w.cluster.create pool.id name now).1 = .ok () →
        Listed pool { w with cluster := (w.cluster.create pool.id name now).2 } name) := by
  unfold Cluster.create Cluster.faulty
  split
  · split
    · exact ⟨hready.running, fun _ h => h, nofun⟩
    · refine ⟨fun other o ho => ?_, fun other ⟨o, ho, hpool⟩ => ?_, fun _ => ⟨_, Table.get?_insert_self _ _ _, rfl⟩⟩
      · simp only [Cluster.insert, Table.get?_insert] at ho
        split at ho
        · next hname =>
          cases ho
          exact ⟨hname, fun _ => rfl⟩
        · exact hready.running other o ho
      · by_cases hname : name = other
        · exact ⟨_, by rw [← hname]; exact Table.get?_insert_self _ _ _, rfl⟩
        · exact ⟨o, (Table.get?_insert_of_ne _ _ hname).trans ho, hpool⟩
  · exact ⟨hready.running, fun _ h => h, nofun⟩
  · exact ⟨hready.running, fun _ h => h, nofun⟩

theorem keeps_insertPod {now : UInt64} (hi : calls i = .createPod) (hd : (watching pool calls w).Inv c)
    (hlisted : Listed pool c.state name) :
    (watching pool calls w).Keeps i c (Discipline.after (watching pool calls w) i (fun w =>
      { w with capacity := w.capacity.insertPod (.fresh name pool.id pool.slotsPerPod now now) }) c) := by
  refine keeps_capacity hd ?_ (fun other p hp hpool => ?_) fun r hbefore hafter => ?_
  · exact ((tidies_insertPod (Pod.isNew_fresh name pool.id _ now now)).vacates hd.good.order).1
  · unfold Capacity.insertPod at hp
    rw [Table.get?_insert] at hp
    split at hp
    · next he => exact he ▸ hlisted
    · exact hd.good.listed other p hp hpool
  · -- only a pod of the same name is replaced, and goes on being managed
    have hpod : name = r.pod := Classical.byContradiction fun hne => hafter (hbefore.insertPod hne)
    subst hpod
    refine .replaced i now rfl hi (fun hmanaged => hafter ?_) rfl
    rw [hmanaged]
    exact ⟨_, Table.get?_insert_self _ _ _⟩

theorem leads_createPod (hi : calls i = .createPod) :
    (watching pool calls w).Leads i (Capacity.createPod cfg pool).run
      (fun r d => ∀ p, r = .ok p → Recorded i (.managed p.name) d.memory) c := by
  refine Discipline.Leads.always_bind (R := fun _ _ => True) (Discipline.leads_apply stable_true (fun _ => stable_true)
    (fun d hi _ => ⟨keeps_samePods hi rfl hi.good.running fun _ h => h, trivial⟩) trivial) fun named d _ => ?_
  obtain ⟨name, now⟩ := named
  -- once the pod is in the cluster, it stays there
  refine Discipline.Leads.bind_run (leads_call (Q := fun _ d => Listed pool d.state name) (fun _ => stable_listed)
    fun _ _ hready => ?_) (fun _ d h => ?_) fun e d _ p hp => by cases hp
  · obtain ⟨hrun, hstay, hlisted⟩ := listed_of_create hready name now
    exact ⟨hrun, hstay, fun _ ha => hlisted ha⟩
  · refine Discipline.Leads.always_bind (Discipline.leads_modify stable_listed stable_recorded (fun d hd hlisted => ?_)
      (h () rfl)) fun _ d h => Discipline.leads_pure fun e hr p hp => by cases hp; exact stable_recorded d e h hr
    exact ⟨keeps_insertPod hi hd hlisted, recorded_now ⟨_, Table.get?_insert_self _ _ _⟩⟩

/-! ## Taking over a listing -/

/-- The process has listed the pods: these were all pods of the pool, and they are still there. -/
structure Saw (pool : AgentPool) (i : Nat) (observed : List ObservedPod) (c : Scene World (List (Step World))) : Prop where
  scan : ∃ scan ∈ c.memory, scan.process = some i ∧ ∀ name, Listed pool scan.before name → ∃ o ∈ observed, o.name = name
  running : ∀ o ∈ observed, o.phase = .running
  stay : ∀ o ∈ observed, Listed pool c.state o.name

theorem stable_saw (observed : List ObservedPod) : (watching pool calls w).Stable i (Saw pool i observed) := by
  intro c d h hr
  have hstay : ∀ o ∈ observed, Listed pool d.state o.name := fun o ho => stable_listed c d (h.stay o ho) hr
  obtain ⟨scan, hscan, hall⟩ := h.scan
  obtain ⟨l, hl, -⟩ := hr
  exact ⟨⟨scan, hl ▸ List.mem_append_left _ hscan, hall⟩, h.running, hstay⟩

theorem leads_list :
    (watching pool calls w).Leads i (Capacity.call cfg "list_pods" fun cluster => (cluster.list pool.id, cluster)).run
      (fun r d => ∀ observed, r = .ok observed → Saw pool i observed d) c := by
  refine leads_call (Q := Saw pool i) stable_saw fun v _ hready => ⟨hready.running, fun _ h => h, ?_⟩
  intro observed hlist
  obtain rfl : observed = v.cluster.pods.values.filter (·.pool == pool.id) := by
    unfold Cluster.list Cluster.faulty at hlist
    split at hlist
    · exact (CallAnswer.ok.inj hlist).symm
    · cases hlist
    · cases hlist
  have hrow : ∀ o, o ∈ v.cluster.pods.values.filter (·.pool == pool.id) ↔
      (∃ name, v.cluster.pods.get? name = some o) ∧ o.pool = pool.id := by
    intro o
    rw [List.mem_filter, Table.mem_values, beq_iff_eq]
  refine ⟨⟨_, List.mem_append_right _ (List.mem_singleton.2 rfl), rfl, fun name ⟨o, ho, hpool⟩ => ?_⟩, fun o ho => ?_,
    fun o ho => ?_⟩
  · exact ⟨o, (hrow o).2 ⟨⟨name, ho⟩, hpool⟩, (hready.running name o ho).1⟩
  · obtain ⟨⟨name, hget⟩, hpool⟩ := (hrow o).1 ho
    exact (hready.running name o hget).2 hpool
  · obtain ⟨⟨name, hget⟩, hpool⟩ := (hrow o).1 ho
    exact ⟨o, (hready.running name o hget).1 ▸ hget, hpool⟩

theorem keeps_takeOverAll {observed : List ObservedPod} (hi : calls i = .syncPods)
    (hd : (watching pool calls w).Inv c) (hsaw : Saw pool i observed c) :
    (watching pool calls w).Keeps i c (Discipline.after (watching pool calls w) i (fun w =>
      { w with capacity := w.capacity.takeOverAll pool w.now observed }) c) := by
  refine keeps_capacity hd ((tidies_takeOverAll _ pool _ observed).vacates hd.good.order).1 (fun name p hp hpool => ?_)
    fun r hbefore hafter => ?_
  · obtain ⟨o, ho, rfl⟩ := listed_of_takeOverAll hp hpool
    exact hsaw.stay o ho
  · obtain ⟨p, hp, hpool, hmissing⟩ := lost_of_takeOverAll hbefore hafter
    obtain ⟨scan, hscan, hown, hall⟩ := hsaw.scan
    refine .stale i scan rfl hi hscan hown (fun hlisted => ?_) (hd.good.listed r.pod p hp hpool)
    obtain ⟨o, ho, hname⟩ := hall r.pod hlisted
    exact hmissing o ho (by rw [hsaw.running o ho]; rfl) hname

theorem leads_syncPods (hi : calls i = .syncPods) :
    (watching pool calls w).Leads i (Capacity.syncPods cfg pool).run (fun _ _ => True) c := by
  refine Discipline.Leads.bind_run leads_list (fun observed d h => ?_) fun _ _ _ => trivial
  have hsaw := h observed rfl
  refine Discipline.Leads.always_bind (Discipline.leads_modify (stable_saw observed) stable_true
    (fun d hd hsaw => ⟨keeps_takeOverAll hi hd hsaw, trivial⟩) hsaw) fun _ d _ => ?_
  -- no pod that was listed has finished
  have hnone : observed.filter (·.phase.isFinished) = [] :=
    List.filter_eq_nil_iff.2 fun o ho => by rw [hsaw.running o ho]; nofun
  rw [hnone]
  exact Discipline.Leads.always (Discipline.leads_pure fun _ _ => trivial)

/-! ## Calls on single pods -/

/-- The change puts this on record, and loses nothing without excuse. -/
structure Records (pool : AgentPool) (calls : Nat → PodCall) (i : Nat) (w : World) (capacity : Capacity) (r : Record) :
    Prop where
  order : capacity.Order
  pools : ∀ name p', capacity.pods.get? name = some p' → ∃ p, w.capacity.pods.get? name = some p ∧ p'.pool = p.pool
  holds : r.Holds capacity
  explained : ∀ l, Explained pool calls l ⟨some i, w, { w with capacity }⟩

theorem leads_onCapacity {α : Type} {f : Capacity → UInt64 → Except CapacityError (α × Capacity)} (record : α → Record)
    (hf : ∀ w a capacity, Ready pool w → f w.capacity w.now = .ok (a, capacity) →
      Records pool calls i w capacity (record a)) :
    (watching pool calls w).Leads i (ofResult (Program.onCapacity f)).run
      (fun r d => ∀ a, r = .ok a → Recorded i (record a) d.memory) c := by
  have hanswer : ∀ r : Except CapacityError α,
      (watching pool calls w).Stable i fun d => ∀ a, r = .ok a → Recorded i (record a) d.memory :=
    fun r d e h hr a ha => stable_recorded d e (h a ha) hr
  refine Discipline.leads_apply stable_true hanswer (fun d hd _ => ?_) trivial
  cases hr : f d.state.capacity d.state.now with
  | error error =>
    simp only [Discipline.after, hr]
    exact ⟨keeps_samePods hd rfl hd.good.running fun _ h => h, fun _ ha => by cases ha⟩
  | ok result =>
    obtain ⟨a, capacity⟩ := result
    have hrecords := hf d.state a capacity hd.good hr
    simp only [Discipline.after, hr]
    refine ⟨keeps_capacity hd hrecords.order (fun name p' hp' hpool => ?_) (hrecords.explained d.memory), fun b hb => ?_⟩
    · obtain ⟨p, hp, hsame⟩ := hrecords.pools name p' hp'
      exact hd.good.listed name p hp (hsame ▸ hpool)
    · cases hb
      exact recorded_now hrecords.holds

theorem leads_editCapacity {f : Capacity → UInt64 → Except CapacityError Capacity} (record : Record)
    (hf : ∀ w capacity, Ready pool w → f w.capacity w.now = .ok capacity → Records pool calls i w capacity record) :
    (watching pool calls w).Leads i (ofResult (Program.editCapacity f)).run
      (fun r d => ∀ a, r = .ok a → Recorded i record d.memory) c := by
  refine leads_onCapacity (fun _ => record) fun w _ capacity hready h => ?_
  obtain ⟨capacity', hok, heq⟩ := Fallible.map_eq_ok_iff.1 h
  cases heq
  exact hf w _ hready hok

theorem pool_of_modify {c : Capacity} {pod : String} {f : Pod → Pod} {p' : Pod}
    (hp' : (c.pods.modify pod f).get? name = some p') (hf : ∀ p, (f p).pool = p.pool) :
    ∃ p, c.pods.get? name = some p ∧ p'.pool = p.pool := by
  rw [Table.get?_modify] at hp'
  split at hp'
  · obtain ⟨p, hp, rfl⟩ := Option.map_eq_some_iff.1 hp'
    exact ⟨p, hp, hf p⟩
  · exact ⟨p', hp', rfl⟩

theorem records_allocate {task now : UInt64} {kind : TaskKind} {p : Placement} {capacity : Capacity} (hready : Ready pool w)
    (h : w.capacity.allocate cfg pool.id task kind now = .ok (p, capacity)) :
    Records pool calls i w capacity (.bound p.spot task) := by
  have hbound := allocate_ok hready.order h
  obtain ⟨⟨s, hs, hidle⟩, -, rfl⟩ := allocate_reserves hready.order.named h
  exact ⟨hbound.order, fun name p' hp' => pool_of_modify hp' fun _ => rfl, Option.bind_eq_some_iff.1 hbound.here,
    fun l => explained_of_keeps fun r hr => hr.bind (y := p.spot) hready.order hs hidle task kind now⟩

theorem records_registerAgent {pod agent : String} {now : UInt64} {capacity : Capacity}
    (hi : calls i = .registerAgent pod agent) (hready : Ready pool w)
    (h : w.capacity.registerAgent pod agent now = .ok capacity) :
    Records pool calls i w capacity (.registered pod agent) := by
  refine ⟨order_registerAgent hready.order h, fun name p' hp' => ?_, holds_of_registerAgent h, fun l r hbefore hafter => ?_⟩
  · obtain ⟨-, rfl⟩ := registerAgent_ok_iff.1 h
    exact pool_of_modify hp' fun _ => rfl
  · refine Classical.byContradiction fun hnot => hafter (hbefore.registerAgent h fun old hr => ?_)
    exact Classical.byContradiction fun hne => hnot (.registered i pod old agent rfl hi hr hne)

theorem records_markRunning {x : Spot} {now : UInt64} {capacity : Capacity} (hready : Ready pool w)
    (h : w.capacity.markRunning x.pod x.slot now = .ok capacity) : Records pool calls i w capacity (.running x) := by
  obtain ⟨s, hs⟩ := slotAt_of_setSlot_ok h
  have horder := (markRunning_ok hready.order h).order
  obtain rfl := setSlot_ok h
  exact ⟨horder, fun name p' hp' => pool_of_modify hp' fun _ => rfl, ⟨s.markRunning now, slotAt_modifySlot_self hs, rfl⟩,
    fun l => explained_of_keeps fun r hr => hr.modifySlot fun _ _ => ⟨fun _ htask => htask, fun _ => rfl⟩⟩

/-! ## All calls -/

/-- If the call has succeeded, it has put on record what it promises. -/
def Kept (calls : Nat → PodCall) (i : Nat) (result : Except CapacityError PodAnswer)
    (c : Scene World (List (Step World))) : Prop :=
  ∀ answer r, result = .ok answer → Promises (calls i) answer r → Recorded i r c.memory

theorem leads_return {α : Type} {p : Fallible CapacityError α} {answer : α → PodAnswer} {record : α → Record}
    (hp : (watching pool calls w).Leads i p.run (fun r d => ∀ a, r = .ok a → Recorded i (record a) d.memory) c)
    (hpromise : ∀ a r, Promises (calls i) (answer a) r → r = record a) :
    (watching pool calls w).Leads i (do return answer (← p) : Fallible CapacityError PodAnswer).run (Kept calls i) c := by
  refine hp.bind_run (fun a d h => Discipline.leads_pure fun e hr other r ha hr' => ?_) fun _ _ _ _ _ ha => by cases ha
  cases ha
  rw [hpromise a r hr']
  exact stable_recorded d e (h a rfl) hr

theorem leads_program (cfg : CapacitySettings) :
    (watching pool calls w).Leads i ((calls i).program cfg pool) (Kept calls i) c := by
  cases hi : calls i with
  | createPod => exact leads_return (leads_createPod hi) fun a r h => by rw [hi] at h; exact h
  | syncPods =>
    refine (leads_syncPods hi).bind_run (fun _ _ _ => Discipline.leads_pure fun _ _ answer r ha h => ?_)
      fun _ _ _ _ _ ha => by cases ha
    cases ha
    rw [hi] at h
    exact h.elim
  | allocate task kind =>
    exact leads_return (leads_onCapacity (fun p : Placement => .bound p.spot task) fun w p capacity hready h =>
      records_allocate hready h) fun a r h => by rw [hi] at h; exact h
  | registerAgent pod agent =>
    exact leads_return (leads_editCapacity (.registered pod agent) fun w capacity hready h =>
      records_registerAgent hi hready h) fun a r h => by rw [hi] at h; exact h
  | markRunning x =>
    exact leads_return (leads_editCapacity (.running x) fun w capacity hready h => records_markRunning hready h)
      fun a r h => by rw [hi] at h; exact h

theorem keeping (cfg : CapacitySettings) (calls : Nat → PodCall) (hready : Ready pool w) :
    (watching pool calls w).Keeping (OutsidePods pool) (BeginsPodCall cfg pool calls) ⟨w, []⟩
      (fun i result d => ∀ a, result = .ok a → Kept calls i a d) where
  first := Discipline.accounted_first hready
  outside c d hc h := by
    obtain ⟨w', hpods, hrun, hstay⟩ := h
    refine ⟨hc.step ⟨hpods ▸ hc.good.order, fun name p hp hpool => ?_, hrun⟩ (explained_of_keeps fun r h => ?_),
      fun j => Discipline.rely_accounting hstay⟩
    · exact hstay name (hc.good.listed name p (hpods ▸ hp) hpool)
    · exact hpods ▸ h
  begins c i p d hc h := by
    obtain ⟨i⟩ := h
    exact ⟨⟨hc, fun j _ => Discipline.rely_refl _ j c⟩, leads_program cfg⟩

/-- Calls on a pool all of whose pods run: whatever a call that succeeded has put on record is on
    record still, unless it was lost since in a step that is excused: a sync took over a listing
    from before the pod was in the cluster, a creation put its pod over the same pod that was
    managed already, or another agent registered. -/
theorem live_pods_are_lost_to_races {cfg : CapacitySettings} {pool : AgentPool} {calls : Nat → PodCall} {w : World}
    {c : Scene World (List (Step World))} {crew : List (Program World (Except CapacityError PodAnswer))}
    (hready : Ready pool w)
    (hrun : (watching pool calls w).Run (OutsidePods pool) (BeginsPodCall cfg pool calls) ⟨w, []⟩ c crew) :
    Throughout (Explained pool calls) c.memory ∧
      ∀ i answer r, crew[i]? = some (.done (.ok answer)) → Promises (calls i) answer r →
        ∃ l₀ e l₁, c.memory = l₀ ++ e :: l₁ ∧ e.process = some i ∧ r.Holds e.after.capacity ∧
          (r.Holds c.state.capacity ∨ ∃ m₁ e' m₂, l₁ = m₁ ++ e' :: m₂ ∧ r.Holds e'.before.capacity ∧
            ¬r.Holds e'.after.capacity ∧ Excused pool calls r (l₀ ++ e :: m₁) e') := by
  obtain ⟨hchain, -, hsteps⟩ := (hrun.sound (keeping cfg calls hready)).1
  refine ⟨hsteps, fun i answer r hend hpromise => ?_⟩
  obtain ⟨e, he, hown, hholds⟩ := hrun.ended (keeping cfg calls hready) hend _ rfl answer r rfl hpromise
  obtain ⟨l₀, l₁, hcut⟩ := List.append_of_mem he
  refine ⟨l₀, e, l₁, hcut, hown, hholds, Classical.or_iff_not_imp_left.2 fun hlost => ?_⟩
  have hsince : Chain e.after l₁ c.state := (hcut ▸ hchain).split.2
  obtain ⟨m₁, e', m₂, rfl, hbefore, hafter, -⟩ := hsince.lost (P := fun w => r.Holds w.capacity) hholds hlost
  exact ⟨m₁, e', m₂, rfl, hbefore, hafter, hsteps (l₀ ++ e :: m₁) e' m₂ (by simp [hcut]) r hbefore hafter⟩

/-! ## Runs -/

theorem ready_emptyWorld : Ready (smallPool 1) emptyWorld where
  order := order_empty
  listed := nofun
  running := nofun

/-- The first pod as it was created. -/
def freshPod : Pod := .fresh firstPod "pool" 1 0 0

abbrev RunsTo (calls : Nat → PodCall) : Scene World (List (Step World)) →
    List (Program World (Except CapacityError PodAnswer)) → Prop :=
  (watching (smallPool 1) calls emptyWorld).Run (OutsidePods (smallPool 1)) (BeginsPodCall {} (smallPool 1) calls) ⟨emptyWorld, []⟩

/-- The next call begins and takes a number of steps at once. -/
def begun (calls : Nat → PodCall) (i steps : Nat) (c : Scene World (List (Step World))) :
    Program World (Except CapacityError PodAnswer) × Scene World (List (Step World)) :=
  (watching (smallPool 1) calls emptyWorld).carry i steps ((calls i).program {} (smallPool 1)) c

theorem RunsTo.begun {calls : Nat → PodCall} {c : Scene World (List (Step World))}
    {crew : List (Program World (Except CapacityError PodAnswer))} (h : RunsTo calls c crew) (steps : Nat) :
    RunsTo calls (begun calls crew.length steps c).2 (crew ++ [(begun calls crew.length steps c).1]) :=
  Discipline.Run.begun h (.call crew.length) steps

/-- The calls with these numbers, one after the other. -/
def inFull (calls : Nat → PodCall) (c : Scene World (List (Step World))) (numbers : List Nat) :
    Scene World (List (Step World)) :=
  numbers.foldl (fun c i => (begun calls i 10 c).2) c

/-- A pod is created, given a task, and synced. -/
def inTurn : Nat → PodCall
  | 0 => .createPod
  | 1 => .allocate 1 .plan
  | 2 => .registerAgent firstPod "agent"
  | 3 => .markRunning firstSlot
  | _ => .syncPods

theorem live_pods_are_lost_to_races_in_turn :
    ∃ c, RunsTo inTurn c [.done (.ok (.created freshPod)), .done (.ok (.placed ⟨firstSlot.pod, 0, none⟩)),
        .done (.ok .done), .done (.ok .done), .done (.ok .done)] ∧
      (∃ l₀ e l₁, c.memory = l₀ ++ e :: l₁ ∧ e.process = some 1 ∧ (Record.bound firstSlot 1).Holds e.after.capacity) ∧
      (Record.bound firstSlot 1).Holds c.state.capacity := by
  have hstart : RunsTo inTurn ⟨emptyWorld, []⟩ [] := .start
  have hrun := ((((hstart.begun 10).begun 10).begun 10).begun 10).begun 10
  obtain ⟨l₀, e, l₁, hcut, hown, hholds, -⟩ := (live_pods_are_lost_to_races ready_emptyWorld hrun).2 1
    (.placed ⟨firstSlot.pod, 0, none⟩) (.bound firstSlot 1) rfl rfl
  exact ⟨inFull inTurn ⟨emptyWorld, []⟩ [0, 1, 2, 3, 4], hrun, ⟨l₀, e, l₁, hcut, hown, hholds⟩, _, rfl, rfl⟩

/-- A sync begins first. -/
def syncFirst : Nat → PodCall
  | 0 => .syncPods
  | 1 => .createPod
  | 2 => .allocate 1 .plan
  | 3 => .registerAgent firstPod "agent"
  | _ => .markRunning firstSlot

/-- It has listed the pods, of which there are none. -/
def listedEarly : Program World (Except CapacityError PodAnswer) × Scene World (List (Step World)) :=
  begun syncFirst 0 1 ⟨emptyWorld, []⟩

/-- The other calls have all succeeded, and the sync goes on. -/
def staleSync : Program World (Except CapacityError PodAnswer) × Scene World (List (Step World)) :=
  (watching (smallPool 1) syncFirst emptyWorld).carry 0 10 listedEarly.1 (inFull syncFirst listedEarly.2 [1, 2, 3, 4])

/-- A creation begins first. -/
def creationFirst : Nat → PodCall
  | 0 => .createPod
  | 1 => .syncPods
  | 2 => .allocate 1 .plan
  | 3 => .registerAgent firstPod "agent"
  | _ => .markRunning firstSlot

/-- It has started its pod. -/
def startedEarly : Program World (Except CapacityError PodAnswer) × Scene World (List (Step World)) :=
  begun creationFirst 0 2 ⟨emptyWorld, []⟩

/-- The other calls have all succeeded, and the creation goes on. -/
def lateCreation : Program World (Except CapacityError PodAnswer) × Scene World (List (Step World)) :=
  (watching (smallPool 1) creationFirst emptyWorld).carry 0 10 startedEarly.1 (inFull creationFirst startedEarly.2 [1, 2, 3, 4])

/-- A sync that listed the pods before a pod was created gives it up, with the task and the agent on
    it. A creation that goes on after a sync has taken its pod over puts an empty one in its place.
    All calls succeed, and the cluster lists the pod as running from its creation on. -/
theorem live_pods_are_forgotten :
    (RunsTo syncFirst staleSync.2 [.done (.ok .done), .done (.ok (.created freshPod)),
        .done (.ok (.placed ⟨firstSlot.pod, 0, none⟩)), .done (.ok .done), .done (.ok .done)] ∧
      staleSync.2.state.cluster.pods.get? firstPod = some ⟨firstPod, "pool", .running, 0⟩ ∧
      staleSync.2.state.capacity.pods.get? firstPod = none) ∧
    RunsTo creationFirst lateCreation.2 [.done (.ok (.created freshPod)), .done (.ok .done),
        .done (.ok (.placed ⟨firstSlot.pod, 0, none⟩)), .done (.ok .done), .done (.ok .done)] ∧
      lateCreation.2.state.cluster.pods.get? firstPod = some ⟨firstPod, "pool", .running, 0⟩ ∧
      lateCreation.2.state.capacity.pods.get? firstPod = some freshPod ∧
      freshPod.agent = none ∧ freshPod.slots = [{ index := 0, updatedAt := 0 }] := by
  have hsync : RunsTo syncFirst ⟨emptyWorld, []⟩ [] := .start
  have hcreation : RunsTo creationFirst ⟨emptyWorld, []⟩ [] := .start
  have hcalls := ((((hsync.begun 1).begun 10).begun 10).begun 10).begun 10
  have hcalls' := ((((hcreation.begun 2).begun 10).begun 10).begun 10).begun 10
  have hlate : RunsTo syncFirst staleSync.2 _ := hcalls.carry (i := 0) (p := listedEarly.1) rfl 10
  have hlate' : RunsTo creationFirst lateCreation.2 _ := hcalls'.carry (i := 0) (p := startedEarly.1) rfl 10
  exact ⟨⟨hlate, rfl, rfl⟩, hlate', rfl, rfl, rfl, rfl⟩

end TaskFleet.LivePods
