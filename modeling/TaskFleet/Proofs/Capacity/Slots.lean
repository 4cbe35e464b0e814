/-
  TaskFleet.Proofs.Capacity.Slots — which task is on which slot, and what the operations of
  the pool do to that.

  A slot is known by its pod and its place on it (`Spot`). In a pool that is in `Order` an
  idle slot has no task on it.
  - `allocate_ok` … `reserve_ok`: the one slot that an operation changes.
  - `takeOverAll_ok`, `followTasks_ok`, `expireReservations_ok`: which tasks the parts of a
    reconciliation take off their slots.
-/

import TaskFleet.Proofs.Capacity.Pods

namespace TaskFleet

/-- A place for one task: a slot of a pod. -/
structure Spot where
  pod : String
  slot : Nat
  deriving DecidableEq, Repr

def Placement.spot (p : Placement) : Spot := ⟨p.pod, p.slot⟩

/-- The slot of the first pod of a small pool. -/
def firstSlot : Spot := ⟨firstPod, 0⟩

namespace Capacity

variable {c c' : Capacity} {x : Spot} {task : UInt64} {now : UInt64} {p : Placement} {kind : TaskKind}

def slotAt (c : Capacity) (x : Spot) : Option Slot := (c.pods.get? x.pod).bind fun p => p.slots[x.slot]?

def taskAt (c : Capacity) (x : Spot) : Option UInt64 := (c.slotAt x).bind (·.task)

/-- Pods are kept under their names, and nothing is on an idle slot. -/
structure Order (c : Capacity) : Prop where
  named : c.Named
  idle : ∀ x s, c.slotAt x = some s → s.status = .idle → s.task = none

theorem slotAt_of_empty (h : ∀ name, c.pods.get? name = none) (x : Spot) : c.slotAt x = none := by
  unfold slotAt
  rw [h]
  rfl

theorem taskAt_congr (h : c'.slotAt x = c.slotAt x) : c'.taskAt x = c.taskAt x := by unfold taskAt; rw [h]

theorem Order.taskAt_of_idle (hc : c.Order) {s : Slot} (hs : c.slotAt x = some s) (h : s.isIdle = true) :
    c.taskAt x = none := by
  unfold taskAt
  rw [hs]
  exact hc.idle x s hs (by simpa [Slot.isIdle] using h)

theorem order_empty : Order {} where
  named := by intro name p h; cases h
  idle := by intro x s h; cases h

/-! ## Changing one slot -/

theorem slotAt_modifySlot (c : Capacity) (y : Spot) (f : Slot → Slot) (x : Spot) :
    (c.modifySlot y.pod y.slot f).slotAt x = if x = y then (c.slotAt x).map f else c.slotAt x := by
  unfold slotAt modifySlot
  simp only [Table.get?_modify]
  by_cases hp : y.pod = x.pod
  · rw [if_pos hp]
    cases c.pods.get? x.pod with
    | none => simp
    | some p =>
      simp only [Option.map_some, Option.bind_some, Pod.modifySlot, List.getElem?_modify]
      by_cases hs : y.slot = x.slot
      · have hxy : x = y := by cases x; cases y; simp_all
        rw [if_pos hxy]
        simp [hs]
      · have hxy : x ≠ y := fun h => hs (by rw [h])
        rw [if_neg hxy]
        simp [hs]
  · have hxy : x ≠ y := fun h => hp (by rw [h])
    rw [if_neg hp, if_neg hxy]

theorem slotAt_modifySlot_of_ne {y : Spot} {f : Slot → Slot} (h : x ≠ y) :
    (c.modifySlot y.pod y.slot f).slotAt x = c.slotAt x := by rw [slotAt_modifySlot, if_neg h]

theorem slotAt_modifySlot_self {y : Spot} {f : Slot → Slot} {s : Slot} (h : c.slotAt y = some s) :
    (c.modifySlot y.pod y.slot f).slotAt y = some (f s) := by
  rw [slotAt_modifySlot, if_pos rfl, h]
  rfl

theorem Named.modify (hn : c.Named) (pod : String) {f : Pod → Pod} (hf : ∀ p, (f p).name = p.name) :
    Named { c with pods := c.pods.modify pod f } := by
  intro name q hq
  rw [Table.get?_modify] at hq
  split at hq
  · obtain ⟨p, hp, rfl⟩ := Option.map_eq_some_iff.1 hq
    rw [hf]; exact hn name p hp
  · exact hn name q hq

/-- Writing a slot keeps the order if nothing stays on a slot that becomes idle. -/
theorem Order.modifySlot (hc : c.Order) (y : Spot) {f : Slot → Slot}
    (hf : ∀ s, c.slotAt y = some s → (f s).status = .idle → (f s).task = none) :
    (c.modifySlot y.pod y.slot f).Order where
  named := hc.named.modify y.pod fun _ => rfl
  idle := by
    intro x s hs hidle
    rw [slotAt_modifySlot] at hs
    split at hs
    · next hxy =>
      obtain ⟨s₀, hs₀, rfl⟩ := Option.map_eq_some_iff.1 hs
      exact hf s₀ (hxy ▸ hs₀) hidle
    · exact hc.idle x s hs hidle

theorem setSlot_ok {y : Spot} {f : Slot → Slot} (h : c.setSlot y.pod y.slot f = .ok c') :
    c' = c.modifySlot y.pod y.slot f := by
  unfold setSlot at h
  cases hp : c.pod? y.pod with
  | error e => rw [hp] at h; cases h
  | ok q =>
    rw [hp] at h
    simp only [bind, Except.bind] at h
    split at h
    · exact (Except.ok.inj h).symm
    · cases h

theorem slotAt_of_setSlot_ok {f : Slot → Slot} {y : Spot} (h : c.setSlot y.pod y.slot f = .ok c') :
    ∃ s, c.slotAt y = some s := by
  unfold setSlot at h
  cases hp : c.pod? y.pod with
  | error e => rw [hp] at h; cases h
  | ok p =>
    rw [hp] at h
    simp only [bind, Except.bind] at h
    split at h
    · next hlt =>
      refine ⟨p.slots[y.slot], ?_⟩
      unfold slotAt
      rw [pod?_ok_iff.1 hp]
      exact List.getElem?_eq_getElem hlt
    · cases h

theorem setSlot_eq {f : Slot → Slot} {s : Slot} (h : c.slotAt x = some s) :
    c.setSlot x.pod x.slot f = .ok (c.modifySlot x.pod x.slot f) := by
  obtain ⟨q, hq, hs⟩ := Option.bind_eq_some_iff.1 h
  have hlt := (List.getElem?_eq_some_iff.1 hs).1
  unfold setSlot
  rw [pod?_ok_iff.2 hq]
  simp only [bind, Except.bind, hlt, if_true]
  rfl

/-! ## Allocating -/

theorem getElem?_of_freeSlot? {q : Pod} {i : Nat} (h : q.freeSlot? kind = some i) :
    ∃ s, q.slots[i]? = some s ∧ s.isIdle = true := by
  unfold Pod.freeSlot? at h
  split at h
  · cases h
  · obtain ⟨hlt, hidle, -⟩ := List.findIdx?_eq_some_iff_getElem.1 h
    exact ⟨q.slots[i], List.getElem?_eq_getElem hlt, hidle⟩

/-- Where a slot was reserved for a task: there was none on it, and nothing else changed. -/
structure Bound (c c' : Capacity) (y : Spot) (task : UInt64) : Prop where
  order : c'.Order
  free : c.taskAt y = none
  here : c'.taskAt y = some task
  others : ∀ x, x ≠ y → c'.taskAt x = c.taskAt x

theorem bound_of_idle (hc : c.Order) {y : Spot} {s : Slot} (hs : c.slotAt y = some s) (hidle : s.isIdle = true)
    (task : UInt64) (kind : TaskKind) (now : UInt64) :
    Bound c (c.modifySlot y.pod y.slot (·.bind .reserved task kind now)) y task where
  order := hc.modifySlot y fun s _ h => by cases h
  free := hc.taskAt_of_idle hs hidle
  here := by unfold taskAt; rw [slotAt_modifySlot_self hs]; rfl
  others := fun x hx => taskAt_congr (slotAt_modifySlot_of_ne hx)

/-- An operation reserved an idle slot for a task, and did nothing else. -/
structure Reserves (c c' : Capacity) (p : Placement) (task : UInt64) (kind : TaskKind) (now : UInt64) : Prop where
  idle : ∃ s, c.slotAt p.spot = some s ∧ s.isIdle = true
  agent : (c.pods.get? p.pod).map (·.agent) = some p.agent
  eq : c' = c.modifySlot p.pod p.slot (·.bind .reserved task kind now)

theorem reserves_of_freeSlot? {q : Pod} (hq : c.pods.get? p.pod = some q) (hi : q.freeSlot? kind = some p.slot)
    (ha : p.agent = q.agent) : Reserves c (c.modifySlot p.pod p.slot (·.bind .reserved task kind now)) p task kind now := by
  obtain ⟨s, hs, hidle⟩ := getElem?_of_freeSlot? hi
  refine ⟨⟨s, ?_, hidle⟩, by rw [hq, ha]; rfl, rfl⟩
  unfold slotAt Placement.spot
  rw [hq]
  exact hs

/-- The slot is one that its pod has free for the task. -/
theorem allocate_cases (hn : c.Named) {cfg : CapacitySettings} {pool : String}
    (h : c.allocate cfg pool task kind now = .ok (p, c')) :
    ∃ q, c.pods.get? p.pod = some q ∧ q.freeSlot? kind = some p.slot ∧ p.agent = q.agent ∧
      c' = c.modifySlot p.pod p.slot (·.bind .reserved task kind now) := by
  unfold allocate at h
  split at h
  · next q i hfree =>
    cases h
    unfold freeSlotIn? at hfree
    obtain ⟨q', hq', hsome⟩ := List.exists_of_findSome?_eq_some hfree
    split at hsome
    · obtain ⟨i', hi', heq⟩ := Option.map_eq_some_iff.1 hsome
      cases heq
      obtain ⟨⟨name, hget⟩, -⟩ := mem_podsIn.1 hq'
      exact ⟨q, by rw [hn name q hget]; exact hget, hi', rfl, rfl⟩
    · cases hsome
  · cases h

theorem allocate_reserves (hn : c.Named) {cfg : CapacitySettings} {pool : String}
    (h : c.allocate cfg pool task kind now = .ok (p, c')) : Reserves c c' p task kind now := by
  obtain ⟨q, hq, hi, ha, rfl⟩ := allocate_cases hn h
  exact reserves_of_freeSlot? hq hi ha

theorem allocate_ok (hc : c.Order) {cfg : CapacitySettings} {pool : String}
    (h : c.allocate cfg pool task kind now = .ok (p, c')) : Bound c c' p.spot task := by
  obtain ⟨⟨s, hs, hidle⟩, -, rfl⟩ := allocate_reserves hc.named h
  exact bound_of_idle hc hs hidle task kind now

theorem podOfAgent?_some {agent : String} {q : Pod} (h : c.podOfAgent? agent = some q) :
    (∃ name, c.pods.get? name = some q) ∧ q.agent = some agent := by
  refine ⟨Table.mem_values.1 (List.mem_of_find?_eq_some h), ?_⟩
  simpa using List.find?_some h

/-- The slot is on the pod that the agent registered from. -/
theorem allocateOnAgent_cases (hn : c.Named) {agent : String}
    (h : c.allocateOnAgent agent task kind now = .ok (p, c')) :
    ∃ q, c.pods.get? p.pod = some q ∧ q.freeSlot? kind = some p.slot ∧ p.agent = q.agent ∧ p.agent = some agent ∧
      c' = c.modifySlot p.pod p.slot (·.bind .reserved task kind now) := by
  unfold allocateOnAgent at h
  split at h
  · cases h
  · next q hq =>
    split at h
    · next i hi =>
      cases h
      obtain ⟨⟨name, hget⟩, hagent⟩ := podOfAgent?_some hq
      exact ⟨q, by rw [hn name q hget]; exact hget, hi, hagent.symm, rfl, rfl⟩
    · cases h

theorem allocateOnAgent_reserves (hn : c.Named) {agent : String}
    (h : c.allocateOnAgent agent task kind now = .ok (p, c')) :
    Reserves c c' p task kind now ∧ p.agent = some agent := by
  obtain ⟨q, hq, hi, ha, hagent, rfl⟩ := allocateOnAgent_cases hn h
  exact ⟨reserves_of_freeSlot? hq hi ha, hagent⟩

theorem allocateOnAgent_ok (hc : c.Order) {agent : String}
    (h : c.allocateOnAgent agent task kind now = .ok (p, c')) : Bound c c' p.spot task := by
  obtain ⟨⟨⟨s, hs, hidle⟩, -, rfl⟩, -⟩ := allocateOnAgent_reserves hc.named h
  exact bound_of_idle hc hs hidle task kind now

/-- The placement of a task is a slot that has it. -/
theorem taskAt_of_placementOf? (hn : c.Named) (h : c.placementOf? task = some p) : c.taskAt p.spot = some task := by
  unfold placementOf? at h
  obtain ⟨q, hq, hsome⟩ := List.exists_of_findSome?_eq_some h
  obtain ⟨i, hi, rfl⟩ := Option.map_eq_some_iff.1 hsome
  obtain ⟨name, hget⟩ := Table.mem_values.1 hq
  obtain ⟨hlt, htask, -⟩ := List.findIdx?_eq_some_iff_getElem.1 hi
  unfold taskAt slotAt Placement.spot
  simp only
  rw [hn name q hget, hget, Option.bind_some, List.getElem?_eq_getElem hlt]
  simpa using htask

theorem agent_of_placementOf? (hn : c.Named) (h : c.placementOf? task = some p) :
    (c.pods.get? p.pod).map (·.agent) = some p.agent := by
  unfold placementOf? at h
  obtain ⟨q, hq, hsome⟩ := List.exists_of_findSome?_eq_some h
  obtain ⟨i, hi, rfl⟩ := Option.map_eq_some_iff.1 hsome
  obtain ⟨name, hget⟩ := Table.mem_values.1 hq
  simp only
  rw [hn name q hget, hget]
  rfl

/-- A task without a placement is on no slot. -/
theorem taskAt_of_placementOf?_none (h : c.placementOf? task = none) (x : Spot) : c.taskAt x ≠ some task := by
  intro hx
  obtain ⟨s, hs, hst⟩ := Option.bind_eq_some_iff.1 hx
  obtain ⟨q, hq, hslot⟩ := Option.bind_eq_some_iff.1 hs
  have hnone := List.findSome?_eq_none_iff.1 h q (Table.mem_values.2 ⟨x.pod, hq⟩)
  rw [Option.map_eq_none_iff] at hnone
  have hno := List.findIdx?_eq_none_iff.1 hnone s (List.mem_of_getElem? hslot)
  simp [hst] at hno

/-! ## Writing the slot of a task -/

/-- No task is put on a slot or taken off one. -/
structure SameTasks (c c' : Capacity) : Prop where
  order : c'.Order
  tasks : ∀ x, c'.taskAt x = c.taskAt x

theorem SameTasks.refl (hc : c.Order) : SameTasks c c := ⟨hc, fun _ => rfl⟩

theorem sameTasks_modifySlot (hc : c.Order) (y : Spot) {f : Slot → Slot}
    (hf : ∀ s, c.slotAt y = some s → (f s).task = s.task ∧ ((f s).status = .idle → s.status = .idle)) :
    SameTasks c (c.modifySlot y.pod y.slot f) where
  order := hc.modifySlot y fun s hs hidle => by
    obtain ⟨htask, hstatus⟩ := hf s hs
    rw [htask]
    exact hc.idle y s hs (hstatus hidle)
  tasks := fun x => by
    unfold taskAt
    rw [slotAt_modifySlot]
    split
    · next hxy =>
      cases hs : c.slotAt x with
      | none => rfl
      | some s => exact (hf s (hxy ▸ hs)).1
    · rfl

theorem markRunning_ok (hc : c.Order) {y : Spot} (h : c.markRunning y.pod y.slot now = .ok c') : SameTasks c c' := by
  rw [setSlot_ok h]
  exact sameTasks_modifySlot hc y fun s _ => ⟨rfl, fun h => by cases h⟩

/-- A slot was given back: nothing is on it, and nothing else changed. -/
structure Cleared (c c' : Capacity) (y : Spot) : Prop where
  order : c'.Order
  here : c'.taskAt y = none
  others : ∀ x, x ≠ y → c'.taskAt x = c.taskAt x

theorem release_ok (hc : c.Order) {y : Spot} (h : c.release y.pod y.slot now = .ok c') : Cleared c c' y := by
  rw [setSlot_ok h]
  refine ⟨hc.modifySlot y fun s _ _ => rfl, ?_, fun x hx => taskAt_congr (slotAt_modifySlot_of_ne hx)⟩
  unfold taskAt
  rw [slotAt_modifySlot, if_pos rfl]
  cases c.slotAt y <;> rfl

/-- A slot is the task's now, whoever was on it, and nothing else changed. -/
structure Rebound (c c' : Capacity) (y : Spot) (task : UInt64) : Prop where
  order : c'.Order
  here : c'.taskAt y = some task
  others : ∀ x, x ≠ y → c'.taskAt x = c.taskAt x

theorem reserve_rebinds (hc : c.Order) {y : Spot} (h : c.reserve y.pod y.slot task now = .ok c') : Rebound c c' y task := by
  obtain ⟨s, hs⟩ := slotAt_of_setSlot_ok h
  rw [setSlot_ok h]
  refine ⟨hc.modifySlot y fun s _ hidle => ?_, ?_, fun x hx => taskAt_congr (slotAt_modifySlot_of_ne hx)⟩
  · cases hidle
  unfold taskAt
  rw [slotAt_modifySlot_self hs]
  rfl

theorem Rebound.sameTasks (h : Rebound c c' x task) (hx : c.taskAt x = some task) : SameTasks c c' where
  order := h.order
  tasks := fun y => by
    by_cases hy : y = x
    · rw [hy, h.here, hx]
    · exact h.others y hy

/-- Keeping a slot for the task that is on it leaves the task there. -/
theorem reserve_ok (hc : c.Order) {y : Spot} (hy : c.taskAt y = some task)
    (h : c.reserve y.pod y.slot task now = .ok c') : SameTasks c c' := (reserve_rebinds hc h).sameTasks hy

/-- Alone, a call that gives back the slot of a task clears the one that is found. -/
theorem run_releaseTask {w : World} (hn : w.capacity.Named) (hp : w.capacity.placementOf? task = some p) :
    (releaseTask task).run.run w =
      (.finished (.ok true), { w with capacity := w.capacity.modifySlot p.pod p.slot (·.clear w.now) }) := by
  obtain ⟨s, hs, -⟩ := Option.bind_eq_some_iff.1 (taskAt_of_placementOf? hn hp)
  exact run_editSlotOf hp (setSlot_eq (x := p.spot) hs)

/-- A call that keeps it reserves the one that is found. -/
theorem run_reserveTask {w : World} (hn : w.capacity.Named) (hp : w.capacity.placementOf? task = some p) :
    (reserveTask task).run.run w = (.finished (.ok true),
      { w with capacity := w.capacity.modifySlot p.pod p.slot (·.bind .reserved task .planAndApply w.now) }) := by
  obtain ⟨s, hs, -⟩ := Option.bind_eq_some_iff.1 (taskAt_of_placementOf? hn hp)
  exact run_editSlotOf hp (setSlot_eq (x := p.spot) hs)

/-! ## Agents and pools -/

/-- The agent that is registered on a pod, and the pool that the pod belongs to. -/
def affiliation (c : Capacity) (pod : String) : Option (Option String × String) :=
  (c.pods.get? pod).map fun q => (q.agent, q.pool)

theorem affiliation_modify (c : Capacity) (pod name : String) (f : Pod → Pod)
    (hf : ∀ q, (f q).agent = q.agent ∧ (f q).pool = q.pool) :
    affiliation { c with pods := c.pods.modify pod f } name = c.affiliation name := by
  unfold affiliation
  simp only [Table.get?_modify]
  split
  · cases c.pods.get? name with
    | none => rfl
    | some q => simp [hf q]
  · rfl

/-! ## Reconciliation -/

theorem slotAt_insertPod_of_ne {q : Pod} (h : x.pod ≠ q.name) : (c.insertPod q).slotAt x = c.slotAt x := by
  unfold slotAt insertPod
  rw [Table.get?_insert_of_ne _ _ (Ne.symm h)]

/-- A new pod has nothing on it. -/
theorem sameTasks_insertPod (hc : c.Order) {q : Pod} (hnew : c.pods.get? q.name = none)
    (hidle : ∀ s ∈ q.slots, s.task = none) : SameTasks c (c.insertPod q) := by
  have hslot : ∀ x, x.pod = q.name → (c.insertPod q).slotAt x = q.slots[x.slot]? := by
    intro x hx
    unfold slotAt insertPod
    rw [hx, Table.get?_insert_self]
    rfl
  have hnone : ∀ x s, x.pod = q.name → (c.insertPod q).slotAt x = some s → s.task = none := by
    intro x s hx hs
    rw [hslot x hx] at hs
    exact hidle s (List.mem_of_getElem? hs)
  refine ⟨⟨hc.named.insert rfl, fun x s hs hst => ?_⟩, fun x => ?_⟩
  · by_cases hx : x.pod = q.name
    · exact hnone x s hx hs
    · rw [slotAt_insertPod_of_ne hx] at hs
      exact hc.idle x s hs hst
  · by_cases hx : x.pod = q.name
    · have hbefore : c.taskAt x = none := by unfold taskAt slotAt; rw [hx, hnew]; rfl
      rw [hbefore]
      unfold taskAt
      cases hs : (c.insertPod q).slotAt x with
      | none => rfl
      | some s => exact hnone x s hx hs
    · exact taskAt_congr (slotAt_insertPod_of_ne hx)

theorem slotAt_modifyPod (c : Capacity) (pod : String) {f : Pod → Pod} (hf : ∀ q, (f q).slots = q.slots) (x : Spot) :
    slotAt { c with pods := c.pods.modify pod f } x = c.slotAt x := by
  unfold slotAt
  simp only [Table.get?_modify]
  split
  · cases c.pods.get? x.pod with
    | none => rfl
    | some q => simp [hf q]
  · rfl

/-- Changing what a pod says of itself leaves its slots alone. -/
theorem sameTasks_modifyPod (hc : c.Order) (pod : String) {f : Pod → Pod}
    (hf : ∀ q, (f q).name = q.name ∧ (f q).slots = q.slots) :
    SameTasks c { c with pods := c.pods.modify pod f } := by
  have hslot := slotAt_modifyPod c pod fun q => (hf q).2
  refine ⟨⟨hc.named.modify pod fun q => (hf q).1, fun x s hs => ?_⟩, fun x => taskAt_congr (hslot x)⟩
  rw [hslot] at hs
  exact hc.idle x s hs

theorem sameTasks_takeOver (hc : c.Order) (pool : AgentPool) (now : UInt64) (o : ObservedPod) :
    SameTasks c (c.takeOver pool now o) := by
  unfold takeOver
  split
  · exact sameTasks_modifyPod hc o.name fun _ => ⟨rfl, rfl⟩
  · next hno =>
    refine sameTasks_insertPod hc ?_ fun s hs => ?_
    · simpa [Table.contains, Pod.fresh] using hno
    · obtain ⟨i, _, rfl⟩ := List.mem_map.1 hs
      rfl

theorem SameTasks.trans {c'' : Capacity} (h : SameTasks c c') (h' : SameTasks c' c'') : SameTasks c c'' :=
  ⟨h'.order, fun x => (h'.tasks x).trans (h.tasks x)⟩

/-- Taking over the cluster's list takes a task off its slot only with the whole pod. -/
theorem takeOverAll_ok (hc : c.Order) (pool : AgentPool) (now : UInt64) (observed : List ObservedPod) :
    (c.takeOverAll pool now observed).Order ∧
      ∀ x, (c.takeOverAll pool now observed).taskAt x = c.taskAt x ∨
        (c.takeOverAll pool now observed).pods.get? x.pod = none := by
  have hfold : ∀ (l : List ObservedPod) (d : Capacity), SameTasks c d →
      SameTasks c (l.foldl (takeOver · pool now) d) := by
    intro l
    induction l with
    | nil => intro d hd; exact hd
    | cons o l ih => intro d hd; exact ih _ (hd.trans (sameTasks_takeOver hd.order pool now o))
  obtain ⟨live, hlive⟩ : ∃ live, live = observed.filter fun o => !o.phase.isFinished := ⟨_, rfl⟩
  obtain ⟨d, hd⟩ : ∃ d, d = live.foldl (takeOver · pool now) c := ⟨_, rfl⟩
  have hsame : SameTasks c d := hd ▸ hfold live c (.refl hc)
  have heq : c.takeOverAll pool now observed =
      { d with pods := d.pods.filter fun name p => p.pool != pool.id || live.any (·.name == name) } := by
    rw [hd, hlive]; rfl
  have hget : ∀ name q, (c.takeOverAll pool now observed).pods.get? name = some q → d.pods.get? name = some q := by
    intro name q hq
    rw [heq, Table.get?_filter] at hq
    exact (Option.filter_eq_some_iff.1 hq).1
  refine ⟨⟨fun name q hq => hsame.order.named name q (hget name q hq), fun x s hs => ?_⟩, fun x => ?_⟩
  · obtain ⟨q, hq, hslot⟩ := Option.bind_eq_some_iff.1 hs
    refine hsame.order.idle x s ?_
    unfold slotAt
    rw [hget x.pod q hq]
    exact hslot
  · cases hq : (c.takeOverAll pool now observed).pods.get? x.pod with
    | none => exact .inr rfl
    | some q =>
      left
      rw [← hsame.tasks x]
      unfold taskAt slotAt
      rw [hq, hget x.pod q hq]

/-- What a look at the store may do to a slot. -/
def Followed (store : Store) (now : UInt64) (s s' : Slot) : Prop :=
  s' = s ∨ ∃ task t, s.task = some task ∧ store.task? task = .ok t ∧ s' = s.followTask (t.map (·.status)) now

/-- Each slot is followed or left alone; where a row cannot be read, the rest is left alone. -/
theorem followed_slots (store : Store) (now : UInt64) (l : List Slot) (i : Nat) :
    (l[i]? = none ∧ (Slot.followTasks store now l).2[i]? = none) ∨
      ∃ s s', l[i]? = some s ∧ (Slot.followTasks store now l).2[i]? = some s' ∧ Followed store now s s' := by
  have hsame : ∀ (l : List Slot) (i : Nat), (l[i]? = none ∧ l[i]? = none) ∨
      ∃ s s', l[i]? = some s ∧ l[i]? = some s' ∧ Followed store now s s' := by
    intro l i
    cases h : l[i]? with
    | none => exact .inl ⟨rfl, rfl⟩
    | some s => exact .inr ⟨s, s, rfl, rfl, .inl rfl⟩
  induction l generalizing i with
  | nil => exact hsame [] i
  | cons s rest ih =>
    -- the first slot and the rest after it
    have hcons : ∀ s', Followed store now s s' →
        ((s :: rest)[i]? = none ∧ (s' :: (Slot.followTasks store now rest).2)[i]? = none) ∨
          ∃ a a', (s :: rest)[i]? = some a ∧ (s' :: (Slot.followTasks store now rest).2)[i]? = some a' ∧
            Followed store now a a' := by
      intro s' hs'
      cases i with
      | zero => exact .inr ⟨s, s', rfl, rfl, hs'⟩
      | succ i => exact ih i
    unfold Slot.followTasks
    cases htask : s.task with
    | none => exact hcons s (.inl rfl)
    | some task =>
      cases hrow : store.task? task with
      | error e => simpa [hrow] using hsame (s :: rest) i
      | ok t => simpa [hrow] using hcons _ (.inr ⟨task, t, htask, hrow, rfl⟩)

/-- A look at the store leaves a slot with its task, or finds that the task does not run. -/
theorem Followed.kept {store : Store} {s s' : Slot} (h : Followed store now s s') :
    s'.task = s.task ∨ ∃ task t, s.task = some task ∧ store.task? task = .ok t ∧ t.map (·.status) ≠ some .running := by
  rcases h with rfl | ⟨task, t, htask, hrow, rfl⟩
  · exact .inl rfl
  · by_cases hrun : t.map (·.status) = some .running
    · left; rw [hrun]; rfl
    · exact .inr ⟨task, t, htask, hrow, hrun⟩

theorem Followed.idle {store : Store} {s s' : Slot} (h : Followed store now s s')
    (hs : s.status = .idle → s.task = none) (hidle : s'.status = .idle) : s'.task = none := by
  rcases h with rfl | ⟨task, t, htask, -, rfl⟩
  · exact hs hidle
  · generalize t.map (·.status) = status at hidle ⊢
    unfold Slot.followTask at hidle ⊢
    cases status with
    | none => rfl
    | some st =>
      cases st with
      | running => exact hs hidle
      | applyPending => by_cases hres : s.status = .reserved <;> simp [hres] at hidle
      | pending =>
        by_cases hres : s.status = .reserved
        · simp [hres] at hidle
        · simp [hres, Slot.clear]
      | _ => rfl

theorem slotAt_followTasks (c : Capacity) (store : Store) (pod : String) (now : UInt64) (x : Spot) :
    (c.followTasks store pod now).2.slotAt x = c.slotAt x ∨
      ∃ s s', c.slotAt x = some s ∧ (c.followTasks store pod now).2.slotAt x = some s' ∧ Followed store now s s' := by
  unfold followTasks
  cases hp : c.pods.get? pod with
  | none => exact .inl rfl
  | some q =>
    unfold slotAt
    simp only [Table.get?_modify]
    split
    · next hx =>
      rw [← hx, hp, Option.map_some, Option.bind_some, Option.bind_some]
      rcases followed_slots store now q.slots x.slot with ⟨hn, hn'⟩ | h
      · left; rw [hn, hn']
      · exact .inr h
    · exact .inl rfl

/-- Looking after the tasks on a pod takes only tasks off their slots that do not run. -/
theorem followTasks_ok (hc : c.Order) (store : Store) (pod : String) (now : UInt64) :
    (c.followTasks store pod now).2.Order ∧ ∀ x, (c.followTasks store pod now).2.taskAt x = c.taskAt x ∨
      ∃ task t, c.taskAt x = some task ∧ store.task? task = .ok t ∧ t.map (·.status) ≠ some .running := by
  have hnamed : (c.followTasks store pod now).2.Named := by
    unfold followTasks
    cases c.pods.get? pod with
    | none => exact hc.named
    | some q => exact hc.named.modify pod fun _ => rfl
  refine ⟨⟨hnamed, fun x s hs hidle => ?_⟩, fun x => ?_⟩
  · rcases slotAt_followTasks c store pod now x with heq | ⟨s₀, s', hs₀, hs', hf⟩
    · exact hc.idle x s (heq ▸ hs) hidle
    · rw [hs'] at hs
      cases hs
      exact hf.idle (hc.idle x s₀ hs₀) hidle
  · rcases slotAt_followTasks c store pod now x with heq | ⟨s, s', hs, hs', hf⟩
    · exact .inl (taskAt_congr heq)
    · unfold taskAt
      rw [hs, hs']
      exact hf.kept

theorem slotAt_expireReservations (c : Capacity) (cfg : CapacitySettings) (pool : String) (now : UInt64) (x : Spot) :
    (c.expireReservations cfg pool now).slotAt x = c.slotAt x ∨
      (c.expireReservations cfg pool now).slotAt x = (c.slotAt x).map (·.expire cfg.reservationTtlSecs now) := by
  unfold slotAt expireReservations
  simp only [Table.get?_mapValues]
  cases c.pods.get? x.pod with
  | none => exact .inl rfl
  | some q =>
    simp only [Option.map_some, Option.bind_some]
    split
    · right; simp
    · exact .inl rfl

/-- Letting reservations run out takes tasks off slots that are reserved for too long. -/
theorem expireReservations_ok (hc : c.Order) (cfg : CapacitySettings) (pool : String) (now : UInt64) :
    (c.expireReservations cfg pool now).Order ∧ ∀ x, (c.expireReservations cfg pool now).taskAt x = c.taskAt x ∨
      ∃ s, c.slotAt x = some s ∧ s.status = .reserved ∧
        cfg.reservationTtlSecs.toNat < now.toNat - s.updatedAt.toNat := by
  have hexpire : ∀ s : Slot, s.expire cfg.reservationTtlSecs now = s ∨
      (s.status = .reserved ∧ cfg.reservationTtlSecs.toNat < now.toNat - s.updatedAt.toNat) ∧
        s.expire cfg.reservationTtlSecs now = s.clear now := by
    intro s
    unfold Slot.expire
    split
    · next h => exact .inr ⟨h, rfl⟩
    · exact .inl rfl
  have hnamed : (c.expireReservations cfg pool now).Named := by
    intro name q hq
    unfold expireReservations at hq
    rw [Table.get?_mapValues] at hq
    obtain ⟨q₀, hq₀, rfl⟩ := Option.map_eq_some_iff.1 hq
    have := hc.named name q₀ hq₀
    split <;> exact this
  refine ⟨⟨hnamed, fun x s hs hidle => ?_⟩, fun x => ?_⟩
  · rcases slotAt_expireReservations c cfg pool now x with heq | heq
    · exact hc.idle x s (heq ▸ hs) hidle
    · rw [heq] at hs
      obtain ⟨s₀, hs₀, rfl⟩ := Option.map_eq_some_iff.1 hs
      rcases hexpire s₀ with h | ⟨-, h⟩
      · rw [h] at hidle ⊢; exact hc.idle x s₀ hs₀ hidle
      · rw [h]; rfl
  · rcases slotAt_expireReservations c cfg pool now x with heq | heq
    · exact .inl (taskAt_congr heq)
    · cases hs : c.slotAt x with
      | none => left; unfold taskAt; rw [heq, hs]; rfl
      | some s =>
        rcases hexpire s with h | ⟨hres, -⟩
        · left; unfold taskAt; rw [heq, hs, Option.map_some, h]
        · exact .inr ⟨s, rfl, hres⟩

end Capacity

end TaskFleet
