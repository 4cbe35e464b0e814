/-
  TaskFleet.Proofs.Capacity.Pods — the pods of a pool, the agents on them, and pools with a single pod.

  - `mem_podsIn`: a pool's pods are exactly the managed ones that belong to it.
  - `Hosts`: the agent is registered on this pod and on no other. That is where every look-up
    finds it (`Hosts.find?`).
  - `Lone`: the pool has this pod and no other. A pod is given up exactly if nothing is on it
    (`removeIdle_ok_iff`), and the first pod of an empty pool is its only one (`Lone.of_insert`).
  - `run_deletePod` / `run_createPod`: what these programs do alone, on a cluster that works.
  - `smallPool`, `servedWorld`: the pool of one-slot pods in which runs are shown here and further on.
-/

import TaskFleet.Proofs.Runs

namespace TaskFleet

/-- Creations and deletions succeed. -/
structure Cluster.Works (c : Cluster) : Prop where
  creates : c.createFault = none
  deletes : c.deleteFault = none
  accepts : c.rejectsPods = false

namespace Capacity

variable {c c' : Capacity} {pool : String} {p q : Pod}

/-- Every pod is kept under its own name. -/
def Named (c : Capacity) : Prop := ∀ name p, c.pods.get? name = some p → p.name = name

theorem mem_podsIn : p ∈ c.podsIn pool ↔ (∃ name, c.pods.get? name = some p) ∧ p.pool = pool := by
  unfold podsIn
  rw [mem_sortBy, List.mem_filter, Table.mem_values, beq_iff_eq]

theorem mem_names_podsIn {name : String} (hn : c.Named) (hp : c.pods.get? name = some p) :
    name ∈ (c.podsIn pool).map (·.name) ↔ p.pool = pool := by
  rw [List.mem_map]
  constructor
  · rintro ⟨q, hq, rfl⟩
    obtain ⟨⟨k, hget⟩, hpool⟩ := mem_podsIn.1 hq
    rw [hn k q hget, hget] at hp
    cases hp
    exact hpool
  · exact fun hpool => ⟨p, mem_podsIn.2 ⟨⟨name, hp⟩, hpool⟩, hn name p hp⟩

theorem mem_names_idlePods {name : String} (hn : c.Named) :
    name ∈ (c.idlePods pool).map (·.name) ↔ ∃ p, c.pods.get? name = some p ∧ p.pool = pool ∧ p.isFullyIdle = true := by
  unfold idlePods
  rw [List.mem_map]
  constructor
  · rintro ⟨p, hp, rfl⟩
    obtain ⟨hp, hidle⟩ := List.mem_filter.1 hp
    obtain ⟨⟨k, hget⟩, hpool⟩ := mem_podsIn.1 hp
    exact ⟨p, hn k p hget ▸ hget, hpool, hidle⟩
  · rintro ⟨p, hp, hpool, hidle⟩
    exact ⟨p, List.mem_filter.2 ⟨mem_podsIn.2 ⟨⟨name, hp⟩, hpool⟩, hidle⟩, hn name p hp⟩

theorem pod?_ok_iff {name : String} : c.pod? name = .ok p ↔ c.pods.get? name = some p := by
  unfold pod?
  cases c.pods.get? name <;> simp

theorem Named.erase (hn : c.Named) (name : String) : Named { c with pods := c.pods.erase name } := by
  intro k p hp
  rw [Table.get?_erase] at hp
  split at hp
  · cases hp
  · exact hn k p hp

theorem Named.insert (hn : c.Named) (h : c'.pods = c.pods.insert p.name p) : c'.Named := by
  intro k q hq
  rw [h, Table.get?_insert] at hq
  split at hq
  · next e => cases hq; exact e
  · exact hn k q hq

/-! ## Agents -/

section

variable {pod agent name : String} {now : UInt64} {f : Pod → Pod}

/-- Changing what is on record of a pod, if the pod is there. -/
theorem edit_ok_iff : (c.pod? pod >>= fun _ => pure { c with pods := c.pods.modify pod f }) = .ok c' ↔
    (∃ p, c.pods.get? pod = some p) ∧ c' = { c with pods := c.pods.modify pod f } := by
  cases hp : c.pod? pod with
  | error e =>
    constructor
    · intro h
      cases h
    · rintro ⟨⟨p, hget⟩, -⟩
      rw [pod?_ok_iff.2 hget] at hp
      cases hp
  | ok p =>
    constructor
    · exact fun h => ⟨⟨p, pod?_ok_iff.1 hp⟩, (Except.ok.inj h).symm⟩
    · rintro ⟨-, rfl⟩
      rfl

theorem registerAgent_ok_iff : c.registerAgent pod agent now = .ok c' ↔
    (∃ p, c.pods.get? pod = some p) ∧
      c' = { c with pods := c.pods.modify pod fun p => { p with agent := some agent, lastHeartbeat := now } } :=
  edit_ok_iff

theorem heartbeat_ok_iff : c.heartbeat pod now = .ok c' ↔
    (∃ p, c.pods.get? pod = some p) ∧
      c' = { c with pods := c.pods.modify pod fun p => { p with lastHeartbeat := now } } :=
  edit_ok_iff

/-- The agent is registered on this pod and on no other. -/
structure Hosts (c : Capacity) (name agent : String) (p : Pod) : Prop where
  held : c.pods.get? name = some p
  named : p.name = name
  registered : p.agent = some agent
  only : ∀ other q, c.pods.get? other = some q → q.agent = some agent → other = name

/-- In whatever order the pods are gone through, the agent is found on its pod. -/
theorem Hosts.find? (h : c.Hosts name agent p) {pods : List Pod} (hpods : ∀ q, q ∈ pods ↔ q ∈ c.pods.values) :
    pods.find? (·.agent == some agent) = some p := by
  have hmem : p ∈ pods := (hpods p).2 (Table.mem_values.2 ⟨name, h.held⟩)
  cases hfound : pods.find? (·.agent == some agent) with
  | none => exact absurd (beq_iff_eq.2 h.registered) (List.find?_eq_none.1 hfound p hmem)
  | some q =>
    obtain ⟨other, hq⟩ := Table.mem_values.1 ((hpods q).1 (List.mem_of_find?_eq_some hfound))
    have hagent : q.agent = some agent := by simpa using List.find?_some hfound
    rw [h.only other q hq hagent, h.held] at hq
    exact hq.symm

theorem Hosts.podOfAgent? (h : c.Hosts name agent p) : c.podOfAgent? agent = some p := h.find? fun _ => Iff.rfl

/-- Changing the pod from which the agent registers, or the one from which it did. -/
theorem hosts_modify (hp : c.pods.get? name = some p) (hname : (f p).name = name)
    (hagent : (f p).agent = some agent)
    (honly : ∀ other q, c.pods.get? other = some q → q.agent = some agent → other = name) :
    Hosts { c with pods := c.pods.modify name f } name agent (f p) where
  held := by rw [Table.get?_modify, if_pos rfl, hp]; rfl
  named := hname
  registered := hagent
  only := by
    intro other q hq hregistered
    rw [Table.get?_modify] at hq
    split at hq
    · next hother => exact hother.symm
    · exact honly other q hq hregistered

theorem Hosts.modifySlot (h : c.Hosts name agent p) (i : Nat) (f : Slot → Slot) :
    (c.modifySlot name i f).Hosts name agent (p.modifySlot i f) := hosts_modify h.held h.named h.registered h.only

end

/-! ## A pool with one pod -/

structure Lone (c : Capacity) (pool : String) (p : Pod) : Prop where
  held : c.pods.get? p.name = some p
  inPool : p.pool = pool
  only : ∀ name q, c.pods.get? name = some q → q.pool = pool → q = p

/-- The same as an equation; a pod counts once because it is kept under one name. -/
theorem Lone.podsIn_eq (hn : c.Named) (h : c.Lone pool p) : c.podsIn pool = [p] := by
  -- the rows of the pool are all the same row, and no row stands twice in a table
  have hrows : c.pods.rows.filter (fun r => r.2.pool == pool) = [(p.name, p)] := by
    have hmem : ∀ r ∈ c.pods.rows.filter (fun r => r.2.pool == pool), r = (p.name, p) := by
      rintro ⟨name, q⟩ hr
      obtain ⟨hr, hq⟩ := List.mem_filter.1 hr
      have hget := Table.mem_rows_iff.1 hr
      have hqp : q = p := h.only name q hget (by simpa using hq)
      rw [← hn name q hget, hqp]
    have hself : (p.name, p) ∈ c.pods.rows.filter (fun r => r.2.pool == pool) :=
      List.mem_filter.2 ⟨Table.mem_rows_iff.2 h.held, by simpa using h.inPool⟩
    have hasc := c.pods.ascending.sublist (List.filter_sublist (p := fun r => r.2.pool == pool))
    cases hl : c.pods.rows.filter (fun r => r.2.pool == pool) with
    | nil => rw [hl] at hself; cases hself
    | cons a l =>
      rw [hl] at hmem hasc
      cases l with
      | nil => rw [hmem a List.mem_cons_self]
      | cons b l =>
        have hlt := (List.pairwise_cons.1 hasc).1 b List.mem_cons_self
        rw [hmem a List.mem_cons_self, hmem b (by simp)] at hlt
        exact absurd hlt (String.lt_irrefl _)
  unfold podsIn Table.values
  rw [List.filter_map]
  have : List.filter ((fun x => x.pool == pool) ∘ fun r : String × Pod => r.2) c.pods.rows = [(p.name, p)] := hrows
  rw [this]
  rfl

/-- A pod is given up exactly if nothing is on it. -/
theorem removeIdle_ok_iff {name : String} :
    c.removeIdle name = .ok c' ↔
      ∃ p, c.pods.get? name = some p ∧ p.isFullyIdle = true ∧ c' = { c with pods := c.pods.erase name } := by
  unfold removeIdle
  cases hp : c.pod? name with
  | error e =>
    constructor
    · intro h; cases h
    · rintro ⟨p, hget, -⟩
      rw [pod?_ok_iff.2 hget] at hp; cases hp
  | ok p =>
    have hget := pod?_ok_iff.1 hp
    by_cases hidle : p.isFullyIdle = true
    · constructor
      · intro h
        simp only [bind, Except.bind, hidle, if_true, pure, Except.pure, Except.ok.injEq] at h
        exact ⟨p, hget, hidle, h.symm⟩
      · rintro ⟨_, _, _, rfl⟩
        simp only [bind, Except.bind, hidle, if_true, pure, Except.pure]
    · constructor
      · intro h
        simp [bind, Except.bind, throw, throwThe, MonadExceptOf.throw, hidle] at h
      · rintro ⟨q, hq, hq', -⟩
        rw [hget] at hq
        cases hq
        exact absurd hq' hidle

/-- A pod that is not there is not found, and one on which something is is busy. -/
theorem removeIdle_error_iff {name : String} {e : CapacityError} :
    c.removeIdle name = .error e ↔
      (e = .podNotFound name ∧ c.pods.get? name = none) ∨
        (e = .podBusy name ∧ ∃ p, c.pods.get? name = some p ∧ p.isFullyIdle = false) := by
  unfold removeIdle
  cases hp : c.pods.get? name with
  | none =>
    have hpod : c.pod? name = .error (.podNotFound name) := by
      unfold pod?
      rw [hp]
    simp [hpod, bind, Except.bind, @eq_comm _ e]
  | some p =>
    rw [pod?_ok_iff.2 hp]
    cases hidle : p.isFullyIdle with
    | true => simp [bind, Except.bind, pure, Except.pure, hidle]
    | false => simp [bind, Except.bind, throw, throwThe, MonadExceptOf.throw, hidle, @eq_comm _ e]

theorem Lone.none_after_erase (hn : c.Named) (h : c.Lone pool p) {name : String}
    (hq : (c.pods.erase p.name).get? name = some q) : q.pool ≠ pool := by
  intro hpool
  rw [Table.get?_erase] at hq
  split at hq
  · cases hq
  · next hne =>
    have hqp := h.only name q hq hpool
    rw [← hqp] at hne
    exact hne (hn name q hq)

theorem Lone.of_insert (hnone : ∀ name q, c.pods.get? name = some q → q.pool ≠ p.pool)
    (h : c'.pods = c.pods.insert p.name p) : c'.Lone p.pool p where
  held := by rw [h]; exact Table.get?_insert_self _ _ _
  inPool := rfl
  only := by
    intro name q hq hpool
    rw [h, Table.get?_insert] at hq
    split at hq
    · cases hq; rfl
    · exact absurd hpool (hnone name q hq)

/-! ## Creating and deleting pods -/

open Fallible

variable (cfg : CapacitySettings) (pool : AgentPool) {w : World}

/-- What creating and deleting pods leaves alone. -/
structure SameHistory (w w' : World) : Prop where
  clock : w'.clock = w.clock
  trackers : w'.trackers = w.trackers
  works : w.cluster.Works → w'.cluster.Works

theorem run_deletePod {pod : String} (hc : w.cluster.Works) (h : w.capacity.removeIdle pod = .ok c) :
    ∃ w', (deletePod cfg pod).run.run w = (.finished (.ok ()), w') ∧ w'.capacity = c ∧ SameHistory w w' := by
  refine ⟨{ w with capacity := c, cluster := w.cluster.remove pod }, ?_, rfl, rfl, rfl, ?_⟩
  · unfold deletePod Program.editCapacity Program.onCapacity call
    simp [h, Except.map, Cluster.delete, Cluster.faulty, hc.deletes, outcome]
  · exact fun hc => ⟨hc.creates, hc.deletes, hc.accepts⟩

theorem run_deletePod_error {pod : String} {e : CapacityError} (h : w.capacity.removeIdle pod = .error e) :
    (deletePod cfg pod).run.run w = (.finished (.error e), w) := by
  unfold deletePod Program.editCapacity Program.onCapacity
  simp [h, Except.map]

theorem run_createPod (hc : w.cluster.Works) :
    ∃ w' name, (createPod cfg pool).run.run w =
        (.finished (.ok (.fresh name pool.id pool.slotsPerPod w.now w.now)), w') ∧
      w'.capacity.pods = w.capacity.pods.insert name (.fresh name pool.id pool.slotsPerPod w.now w.now) ∧
      SameHistory w w' := by
  obtain ⟨name, hname⟩ : ∃ name, name = (w.capacity.nextName pool.id w.now).1 := ⟨_, rfl⟩
  refine ⟨{ w with
    capacity := { w.capacity with nameSeq := w.capacity.nameSeq + 1 }.insertPod
      (.fresh name pool.id pool.slotsPerPod w.now w.now)
    cluster := (w.cluster.create pool.id name w.now).2 }, name, ?_, rfl, rfl, rfl, ?_⟩
  · unfold createPod call
    simp [Cluster.create, Cluster.faulty, hc.creates, hc.accepts, outcome, ← hname]
    exact ⟨rfl, rfl⟩
  · intro hc
    unfold Cluster.create Cluster.faulty
    simp only [hc.creates, hc.accepts, Bool.false_eq_true, if_false]
    exact ⟨hc.creates, hc.deletes, hc.accepts⟩

end Capacity

/-! ## A pool of pods with one slot -/

/-- The pool, with so many pods at the most. -/
def smallPool (most : UInt32) : AgentPool :=
  { id := "pool", kind := .kubernetes, minReplicas := 0, maxReplicas := most, slotsPerPod := 1 }

/-- A world without pods, agents and tasks. -/
def emptyWorld : World := { clock := 0 }

/-- The names of the first two pods that are created in the pool in that world. -/
def firstPod : String := "runplane-agent-pool-0-0"

def secondPod : String := "runplane-agent-pool-0-1"

/-- A workspace whose tasks run in the pool. -/
def smallWorkspace : Workspace := { id := "ws", mode := .kubernetes, pool := some "pool" }

/-- A pod of the pool with an agent on it. -/
def servedPod (name agent : String) (slot : Slot) : Pod :=
  { name, pool := "pool", agent := some agent, createdAt := 0, lastHeartbeat := 0, slots := [slot] }

/-- A pod whose slot is free. -/
def oneFreePod : Pod := servedPod "pod" "agent" { index := 0, updatedAt := 0 }

/-- The workspace, and that pod, whose agent is connected. -/
def servedWorld : World where
  store := ({} : Store).putWorkspace smallWorkspace
  capacity := ({} : Capacity).insertPod oneFreePod
  registry := ({} : Registry).connect "agent" (some "pool") (some "pod")
  clock := 0

end TaskFleet
