/-
  TaskFleet.Proofs.Capacity.PodRecords — what the pods under management have on record.

  That a pod is managed, which task a slot is bound to, that it runs, and which agent registered
  from a pod. Most changes of the pods keep all of this.
  - `Holds.of_pod`: everything that is on record of a pod is said by its slots and its agent.
  - `Holds.modifySlot`, `Holds.registerAgent`, `Holds.insertPod`: what a change of one pod keeps.
  - `lost_of_takeOverAll`: the only pods that are lost to a listing are those that it lacks.
-/

import TaskFleet.Proofs.Capacity.Maintenance

namespace TaskFleet.Capacity

/-- Something that is on record of the pods under management. -/
inductive Record where
  | managed (pod : String)
  | bound (x : Spot) (task : UInt64)
  | running (x : Spot)
  | registered (pod agent : String)
  deriving DecidableEq

namespace Record

def pod : Record → String
  | managed pod | registered pod _ => pod
  | bound x _ | running x => x.pod

def Holds : Record → Capacity → Prop
  | managed pod, c => ∃ p, c.pods.get? pod = some p
  | bound x task, c => ∃ s, c.slotAt x = some s ∧ s.task = some task
  | running x, c => ∃ s, c.slotAt x = some s ∧ s.status = .running
  | registered pod agent, c => ∃ p, c.pods.get? pod = some p ∧ p.agent = some agent

end Record

variable {c c' : Capacity} {r : Record} {p p' : Pod} {y : Spot} {f : Slot → Slot} {pool : AgentPool} {now : UInt64}
  {agent name : String}

theorem Record.Holds.managed (h : r.Holds c) : ∃ p, c.pods.get? r.pod = some p := by
  cases r with
  | managed pod => exact h
  | bound x task =>
    obtain ⟨s, hs, -⟩ := h
    obtain ⟨p, hp, -⟩ := Option.bind_eq_some_iff.1 hs
    exact ⟨p, hp⟩
  | running x =>
    obtain ⟨s, hs, -⟩ := h
    obtain ⟨p, hp, -⟩ := Option.bind_eq_some_iff.1 hs
    exact ⟨p, hp⟩
  | registered pod agent =>
    obtain ⟨p, hp, -⟩ := h
    exact ⟨p, hp⟩

theorem slotAt_of_pod {x : Spot} (hp : c.pods.get? x.pod = some p) (hp' : c'.pods.get? x.pod = some p')
    (hslots : p'.slots = p.slots) : c'.slotAt x = c.slotAt x := by
  unfold slotAt
  rw [hp, hp', Option.bind_some, Option.bind_some, hslots]

/-- What is on record of a pod is said by its slots and its agent. -/
theorem Record.Holds.of_pod (h : r.Holds c) (hp : c.pods.get? r.pod = some p) (hp' : c'.pods.get? r.pod = some p')
    (hslots : p'.slots = p.slots)
    (hagent : ∀ agent, r = .registered r.pod agent → p.agent = some agent → p'.agent = some agent) : r.Holds c' := by
  cases r with
  | managed pod => exact ⟨p', hp'⟩
  | bound x task =>
    obtain ⟨s, hs, htask⟩ := h
    exact ⟨s, (slotAt_of_pod hp hp' hslots).trans hs, htask⟩
  | running x =>
    obtain ⟨s, hs, hruns⟩ := h
    exact ⟨s, (slotAt_of_pod hp hp' hslots).trans hs, hruns⟩
  | registered pod agent =>
    obtain ⟨q, hq, hregistered⟩ := h
    obtain rfl : p = q := Option.some.inj (hp.symm.trans hq)
    exact ⟨p', hp', hagent agent rfl hregistered⟩

theorem Record.Holds.congr (h : r.Holds c) (hsame : c'.pods.get? r.pod = c.pods.get? r.pod) : r.Holds c' := by
  obtain ⟨p, hp⟩ := h.managed
  exact h.of_pod hp (hsame.trans hp) rfl fun _ _ hregistered => hregistered

/-! ## Changes of one pod -/

/-- Writing a slot keeps what is on record if the slot goes on with its task, and goes on running. -/
theorem Record.Holds.modifySlot (h : r.Holds c)
    (hf : ∀ s, c.slotAt y = some s → (∀ task, s.task = some task → (f s).task = some task) ∧
      (s.status = .running → (f s).status = .running)) : r.Holds (c.modifySlot y.pod y.slot f) := by
  have hpod : ∀ name p, c.pods.get? name = some p →
      ∃ p', (c.modifySlot y.pod y.slot f).pods.get? name = some p' ∧ p'.agent = p.agent := by
    intro name p hp
    unfold Capacity.modifySlot
    rw [Table.get?_modify, hp]
    split
    · exact ⟨_, rfl, rfl⟩
    · exact ⟨p, rfl, rfl⟩
  cases r with
  | managed pod =>
    obtain ⟨p, hp⟩ := h
    obtain ⟨p', hp', -⟩ := hpod pod p hp
    exact ⟨p', hp'⟩
  | bound x task =>
    obtain ⟨s, hs, htask⟩ := h
    by_cases hx : x = y
    · subst hx
      exact ⟨f s, slotAt_modifySlot_self hs, (hf s hs).1 task htask⟩
    · exact ⟨s, (slotAt_modifySlot_of_ne hx).trans hs, htask⟩
  | running x =>
    obtain ⟨s, hs, hruns⟩ := h
    by_cases hx : x = y
    · subst hx
      exact ⟨f s, slotAt_modifySlot_self hs, (hf s hs).2 hruns⟩
    · exact ⟨s, (slotAt_modifySlot_of_ne hx).trans hs, hruns⟩
  | registered pod agent =>
    obtain ⟨p, hp, hregistered⟩ := h
    obtain ⟨p', hp', hagent⟩ := hpod pod p hp
    exact ⟨p', hp', hagent.trans hregistered⟩

/-- Binding an idle slot keeps what is on record. -/
theorem Record.Holds.bind (h : r.Holds c) (hc : c.Order) {s : Slot} (hs : c.slotAt y = some s) (hidle : s.isIdle = true)
    (task : UInt64) (kind : TaskKind) (now : UInt64) :
    r.Holds (c.modifySlot y.pod y.slot (·.bind .reserved task kind now)) := by
  refine h.modifySlot fun s' hs' => ?_
  rw [hs] at hs'
  cases hs'
  have hstatus : s.status = .idle := by simpa [Slot.isIdle] using hidle
  refine ⟨fun task htask => ?_, fun hruns => ?_⟩
  · rw [hc.idle y s hs hstatus] at htask
    cases htask
  · rw [hstatus] at hruns
    cases hruns

/-- Putting a pod under management keeps what is on record of others. -/
theorem Record.Holds.insertPod (h : r.Holds c) (hne : p.name ≠ r.pod) : r.Holds (c.insertPod p) :=
  h.congr (Table.get?_insert_of_ne _ _ hne)

/-- Registering an agent keeps all but the agent that was registered from the pod before. -/
theorem Record.Holds.registerAgent (h : r.Holds c) (hok : c.registerAgent name agent now = .ok c')
    (hr : ∀ old, r = .registered name old → old = agent) : r.Holds c' := by
  obtain ⟨-, rfl⟩ := registerAgent_ok_iff.1 hok
  obtain ⟨p, hp⟩ := h.managed
  by_cases hname : name = r.pod
  · have hp' : (c.pods.modify name fun p => { p with agent := some agent, lastHeartbeat := now }).get? r.pod =
        some { p with agent := some agent, lastHeartbeat := now } := by
      rw [Table.get?_modify, if_pos hname, hp]
      rfl
    exact h.of_pod hp hp' rfl fun old hold _ => congrArg some (hr old (hname ▸ hold)).symm
  · refine h.congr ?_
    rw [Table.get?_modify, if_neg hname]

theorem holds_of_registerAgent (hok : c.registerAgent name agent now = .ok c') :
    (Record.registered name agent).Holds c' := by
  obtain ⟨⟨p, hp⟩, rfl⟩ := registerAgent_ok_iff.1 hok
  exact ⟨_, by rw [Table.get?_modify, if_pos rfl, hp]; rfl, rfl⟩

theorem order_registerAgent (hc : c.Order) (hok : c.registerAgent name agent now = .ok c') : c'.Order := by
  obtain ⟨-, rfl⟩ := registerAgent_ok_iff.1 hok
  have hsame := sameTasks_modifyPod hc name (f := fun p => { p with agent := some agent, lastHeartbeat := now })
    fun _ => ⟨rfl, rfl⟩
  exact hsame.order

/-! ## Taking over a listing -/

variable {live observed : List ObservedPod}

/-- Taking a listed pod over changes no pod that is managed, but for when it was last heard of. -/
theorem takeOver_keeps (pool : AgentPool) (now : UInt64) (o : ObservedPod) (hp : c.pods.get? name = some p) :
    ∃ p', (c.takeOver pool now o).pods.get? name = some p' ∧ p'.slots = p.slots ∧ p'.agent = p.agent ∧ p'.pool = p.pool := by
  unfold takeOver
  split
  · rw [Table.get?_modify, hp]
    split
    · exact ⟨_, rfl, rfl, rfl, rfl⟩
    · exact ⟨p, rfl, rfl, rfl, rfl⟩
  · next hno =>
    have hne : o.name ≠ name := by
      rintro rfl
      simp [Table.contains, hp] at hno
    exact ⟨p, (Table.get?_insert_of_ne _ _ hne).trans hp, rfl, rfl, rfl⟩

theorem foldl_takeOver_keeps (pool : AgentPool) (now : UInt64) (live : List ObservedPod) (hp : c.pods.get? name = some p) :
    ∃ p', (live.foldl (takeOver · pool now) c).pods.get? name = some p' ∧
      p'.slots = p.slots ∧ p'.agent = p.agent ∧ p'.pool = p.pool := by
  induction live generalizing c p with
  | nil => exact ⟨p, hp, rfl, rfl, rfl⟩
  | cons o live ih =>
    obtain ⟨p₁, hp₁, hslots₁, hagent₁, hpool₁⟩ := takeOver_keeps pool now o hp
    obtain ⟨p', hp', hslots, hagent, hpool⟩ := ih hp₁
    exact ⟨p', hp', hslots.trans hslots₁, hagent.trans hagent₁, hpool.trans hpool₁⟩

/-- What is lost to a listing is on record of a pod of its pool that it does not show as alive. -/
theorem lost_of_takeOverAll (h : r.Holds c) (hlost : ¬r.Holds (c.takeOverAll pool now observed)) :
    ∃ p, c.pods.get? r.pod = some p ∧ p.pool = pool.id ∧
      ∀ o ∈ observed, o.phase.isFinished = false → o.name ≠ r.pod := by
  obtain ⟨p, hp⟩ := h.managed
  obtain ⟨p', hp', hslots, hagent, hpool⟩ :=
    foldl_takeOver_keeps pool now (observed.filter fun o => !o.phase.isFinished) hp
  have hdropped : (p'.pool != pool.id || (observed.filter fun o => !o.phase.isFinished).any (·.name == r.pod)) = false := by
    refine Bool.eq_false_iff.2 fun hkept => hlost (h.of_pod hp ?_ hslots fun _ _ hregistered => hagent.trans hregistered)
    unfold takeOverAll
    rw [Table.get?_filter, hp']
    exact Option.filter_eq_some_iff.2 ⟨rfl, hkept⟩
  obtain ⟨hin, hnone⟩ := Bool.or_eq_false_iff.1 hdropped
  refine ⟨p, hp, hpool ▸ (by simpa using hin), fun o ho halive hname => ?_⟩
  have hlive : o ∈ observed.filter fun o => !o.phase.isFinished := List.mem_filter.2 ⟨ho, by rw [halive]; rfl⟩
  have hnot := List.any_eq_false.1 hnone o hlive
  exact hnot (beq_iff_eq.2 hname)

/-- The pods of the pool that are managed after a listing are all on it. -/
theorem listed_of_takeOverAll (hp : (c.takeOverAll pool now observed).pods.get? name = some p) (hpool : p.pool = pool.id) :
    ∃ o ∈ observed, o.name = name := by
  unfold takeOverAll at hp
  rw [Table.get?_filter] at hp
  have hkept := (Option.filter_eq_some_iff.1 hp).2
  rcases Bool.or_eq_true_iff.1 hkept with hout | hany
  · exact absurd hpool (by simpa using hout)
  · obtain ⟨o, ho, hname⟩ := List.any_eq_true.1 hany
    exact ⟨o, (List.mem_filter.1 ho).1, beq_iff_eq.1 hname⟩

end TaskFleet.Capacity
