/-
  TaskFleet.Proofs.Dispatch.ApplyAffinity — the apply of a task runs where its plan ran.

  A task whose plan ended waits for an operator, and the agent that made the plan is the one to
  carry it out. What brings the task back is its slot: it is reserved when the plan ends, and
  an attempt on a task whose apply is due looks for the slot before it looks for an agent.
  - `stands_onTaskCompleted`: the end of the plan reserves the slot, from the current time on.
  - `applies_run_on_their_slots`: the reservation outlasts everything that happens meanwhile,
    and the confirmed apply goes to the agent of the slot's pod.
-/

import TaskFleet.Proofs.Dispatch.ReservedSlots
import TaskFleet.Proofs.Dispatch.Resume
import TaskFleet.Proofs.Dispatch.UniquePlacement

namespace TaskFleet

namespace Dispatch

open Fallible Program Capacity Store

variable {cfg : Settings} {n : Nat} {w w' : World} {t : Task} {c c' : Capacity} {task : UInt64} {x : Spot}
  {agent pool : String}

/-! ## The end of the plan -/

/-- The only slot of a task is found, and reserving it keeps it for the task. -/
theorem stands_reserve (hc : c.Order) (honly : ∀ y, c.taskAt y = some task → y = x) (hx : c.taskAt x = some task)
    (hpod : c.affiliation x.pod = some (some agent, pool)) (now : UInt64) :
    ∃ p c' s, c.placementOf? task = some p ∧ c.reserve p.pod p.slot task now = .ok c' ∧ c'.slotAt x = some s ∧
      s.updatedAt = now ∧ Reservation.Stands ⟨task, x, pool, agent, now⟩ c' := by
  cases hp : c.placementOf? task with
  | none => exact absurd hx (taskAt_of_placementOf?_none hp x)
  | some p =>
    have hspot : p.spot = x := honly p.spot (taskAt_of_placementOf? hc.named hp)
    obtain ⟨s, hs, -⟩ := Option.bind_eq_some_iff.1 hx
    obtain ⟨f, hf⟩ : ∃ f : Slot → Slot, f = (·.bind .reserved task .planAndApply now) := ⟨_, rfl⟩
    have hok : c.reserve p.pod p.slot task now = .ok (c.modifySlot x.pod x.slot f) := by
      rw [← hspot, hf]
      exact setSlot_eq (x := p.spot) (hspot ▸ hs)
    have hslot : (c.modifySlot x.pod x.slot f).slotAt x = some (f s) := slotAt_modifySlot_self hs
    have hsame := reserve_ok hc (y := p.spot) (taskAt_of_placementOf? hc.named hp) hok
    refine ⟨p, _, f s, rfl, hok, hslot, by rw [hf]; rfl, hsame.order, fun y hy => honly y ((hsame.tasks y).symm.trans hy),
      ⟨f s, hslot, ?_⟩, ?_⟩
    · rw [hf]
      exact ⟨rfl, rfl, UInt64.le_refl now⟩
    · exact (affiliation_modify c x.pod x.pod (·.modifySlot x.slot f) fun _ => ⟨rfl, rfl⟩).trans hpod

/-- The end of a plan, while others leave the rows and the pods alone. -/
theorem stands_onTaskCompleted (hc : w.capacity.Order) (honly : ∀ y, w.capacity.taskAt y = some task → y = x)
    (hx : w.capacity.taskAt x = some task) (hpod : w.capacity.affiliation x.pod = some (some agent, pool))
    (ht : w.store.task? task = .ok (some t)) (hst : t.status = .applyPending) {r : Except String (Except DispatchError Unit)}
    (he : Ends Elsewhere n (onTaskCompleted task).run w r w') :
    ∃ s, w'.capacity.slotAt x = some s ∧ Reservation.Stands ⟨task, x, pool, agent, s.updatedAt⟩ w'.capacity := by
  rcases ends_readStore_bind he with ⟨e, ⟨w₁, hw₁, herror⟩, -, -⟩ | ⟨n₁, found, w₁, -, hw₁, hfound, he⟩
  · rw [hw₁.1, ht] at herror
    cases herror
  rw [hw₁.1, ht] at hfound
  cases hfound
  simp only [hst, if_true] at he
  obtain ⟨_, -, he⟩ := ends_always he
  obtain ⟨m, r', w₂, hreserve, hafter⟩ := ends_ignoring he
  rw [hafter.2]
  rw [← hw₁.2] at hc honly hx hpod
  rcases ends_editSlotOf (fun _ _ h => h.2) hreserve with ⟨hnone, -, -⟩ | ⟨q, w₃, hq, -, ⟨c, hok, -, hw₂⟩ | ⟨e, herror, -, -⟩⟩
  · exact absurd hx (taskAt_of_placementOf?_none hnone x)
  all_goals obtain ⟨p, c', s, hp, hreserved, hslot, hsince, hstands⟩ := stands_reserve hc honly hx hpod w₃.now
  all_goals cases hq.symm.trans hp
  · cases hreserved.symm.trans hok
    have hsame : w₂.capacity = c := hw₂.2
    exact ⟨s, hsame ▸ hslot, hsince ▸ hsame ▸ hstands⟩
  · cases hreserved.symm.trans herror

/-! ## The apply -/

/-- A task that stands on its slot is found there, with the agent of its pod. -/
theorem placement_of_stands {v : Reservation} (h : v.Stands c) :
    ∃ p, c.placementOf? v.task = some p ∧ p.spot = v.spot ∧ p.agent = some v.agent := by
  obtain ⟨s, hs, hkeeps⟩ := h.slot
  have htask : c.taskAt v.spot = some v.task := by
    unfold taskAt
    rw [hs]
    exact hkeeps.task
  cases hp : c.placementOf? v.task with
  | none => exact absurd htask (taskAt_of_placementOf?_none hp v.spot)
  | some p =>
    have hspot : p.spot = v.spot := h.only p.spot (taskAt_of_placementOf? h.order.named hp)
    refine ⟨p, rfl, hspot, ?_⟩
    have hagent := agent_of_placementOf? h.order.named hp
    obtain ⟨q, hq, haff⟩ := Option.map_eq_some_iff.1 h.pod
    rw [show p.pod = v.spot.pod from congrArg Spot.pod hspot, hq] at hagent
    exact (Option.some.inj hagent).symm.trans (congrArg Prod.fst haff)

/-- A task whose plan ran on a slot of a pod, and then ended: the slot is reserved for it. As
    long as the task waits for its apply, its pod is listed and the time to live has not passed,
    the slot stays reserved and the pod stays, whatever else is done and happens. When the
    apply is confirmed and may start, it is sent to the agent of that pod, and that slot runs. -/
theorem applies_run_on_their_slots {w₀ w₁ w₂ : World} {r : Except String (Except DispatchError Unit)}
    (hn : w₀.capacity.Named) (hs : w₀.store.Keyed) (hnone : ∀ x, w₀.capacity.taskAt x = none)
    (hrun : Relation.ReflTransGen (Operation cfg) w₀ w₁) (hx : w₁.capacity.taskAt x = some task)
    (hpod : w₁.capacity.affiliation x.pod = some (some agent, pool)) (ht : w₁.store.task? task = .ok (some t))
    (hst : t.status = .applyPending) (he : Ends Elsewhere n (onTaskCompleted task).run w₁ r w₂) :
    ∃ s, w₂.capacity.slotAt x = some s ∧ s.status = .reserved ∧ s.task = some task ∧
      ∀ w₃, Reservation.Watched ⟨task, x, pool, agent, s.updatedAt⟩ cfg.capacity w₂ →
        Relation.ReflTransGen (Reservation.Meanwhile cfg ⟨task, x, pool, agent, s.updatedAt⟩) w₂ w₃ →
        (∃ s', w₃.capacity.slotAt x = some s' ∧ s'.status = .reserved ∧ s'.task = some task) ∧
        w₃.capacity.affiliation x.pod = some (some agent, pool) ∧ (∃ o, w₃.cluster.pods.get? x.pod = some o) ∧
        ∀ settings process t conn, w₃.store.task? task = .ok (some t) → w₃.locks.line t.workspace = [] →
          Ready settings t agent conn w₃ →
          Resumes (executeConfirmedApply settings process t.workspace task) t x agent conn w₃ ∧
          ((w₃.store.tasksWhere (·.workspace == t.workspace)).map
              (·.find? fun u => u.status == .applyPending && u.isApplyConfirmed) = .ok (some t) →
            Resumes (tryDispatch settings process t.workspace) t x agent conn w₃) := by
  have hplaced := (placed_of_no_tasks hn hs hnone).run hrun
  obtain ⟨s, hslot, hstands⟩ :=
    stands_onTaskCompleted hplaced.order (fun y hy => hplaced.once task y x hy hx) hx hpod ht hst he
  have hstore : w₂.store = w₁.store := (ends_onTaskCompleted_vacating he).store
  obtain ⟨s₀, hs₀, hkeeps⟩ := hstands.slot
  cases hslot.symm.trans hs₀
  refine ⟨s, hslot, hkeeps.status, hkeeps.task, fun w₃ hwatched hmeanwhile => ?_⟩
  have hguarded : Reservation.Guarded ⟨task, x, pool, agent, s.updatedAt⟩ cfg.capacity w₂ :=
    ⟨hstands, hwatched, hstore ▸ hplaced.keyed, t, hstore ▸ ht, hst⟩
  have hg := hguarded.run hmeanwhile
  obtain ⟨s', hs', hkeeps'⟩ := hg.stands.slot
  obtain ⟨o, ho, -⟩ := hg.watched.listed
  refine ⟨⟨s', hs', hkeeps'.status, hkeeps'.task⟩, hg.stands.pod, ⟨o, ho⟩, ?_⟩
  intro settings process u conn hu hfree hready
  obtain ⟨p, hp, hspot, hagent⟩ := placement_of_stands hg.stands
  obtain rfl : u.id = task := (hg.keyed.task?_iff.1 hu).2
  rw [← show p.spot = x from hspot]
  exact ⟨run_executeConfirmedApply process hready hu hfree hg.stands.order.named hp hagent,
    fun hfirst => run_tryDispatch process hready hu hfirst hfree hg.stands.order.named hp hagent⟩

/-! ## A pool with one pod -/

/-- A task to be planned and applied, and a pod of its pool whose agent is connected. -/
def onePodIdle : World where
  store := ((({} : Store).putWorkspace smallWorkspace).addTask (.submitted "ws" .planAndApply 0 .manual) 1).2
  capacity := ({ nameSeq := 1 } : Capacity).insertPod { Pod.fresh (podName "pool" 0 0) "pool" 2 0 0 with agent := some "agent" }
  registry := ({} : Registry).connect "agent" (some "pool") (some (podName "pool" 0 0))
  cluster := ({} : Cluster).insert ⟨podName "pool" 0 0, "pool", .running, 0⟩
  clock := 0

def onePodPool : AgentPool where
  id := "pool"
  kind := .kubernetes
  minReplicas := 1
  maxReplicas := 1

/-- What an executor writes when a plan ends that is to be applied. -/
def endPlan (t : Task) : Except StoreError Task :=
  if t.status = .running ∧ t.kind = .planAndApply then .ok { t with status := .applyPending } else .ok t

def afterChange (w : World) : Except StoreError (Task × Store) → World
  | .ok (_, store) => { w with store }
  | .error _ => w

def planStarted : World := ((tryDispatch { holder := "a" } 0 "ws").run.run onePodIdle).2

/-- Five seconds later. -/
def planEnded : World := { afterChange planStarted (planStarted.store.updateTask 1 endPlan) with clock := 5000 }

def slotReserved : World := ((onTaskCompleted 1).run.run planEnded).2

def poolReconciled : World := ((ignoring (Capacity.reconcile {} onePodPool)).run slotReserved).2

def applyConfirmed : World := afterChange poolReconciled (poolReconciled.store.confirmApply 1 "alice" 5)

theorem keyed_onePodIdle : onePodIdle.store.Keyed := (keyed_empty.congr rfl).setTask _

theorem taskAt_onePodIdle (x : Spot) : onePodIdle.capacity.taskAt x = none := by
  have horder : Order { nameSeq := 1 } := ⟨order_empty.named, order_empty.idle⟩
  have hsame : SameTasks { nameSeq := 1 } onePodIdle.capacity := sameTasks_insertPod horder rfl fun s hs => by
    obtain ⟨i, -, rfl⟩ := List.mem_map.1 hs
    rfl
  exact (hsame.tasks x).trans rfl

theorem advances_endPlan {t t' : Task} (h : endPlan t = .ok t') : Advances t t' := by
  unfold endPlan at h
  split at h
  · next hrun => cases h; exact ⟨rfl, .inr ⟨hrun.1, .inl ⟨rfl, hrun.2⟩⟩⟩
  · cases h; exact ⟨rfl, .inl ⟨rfl, id⟩⟩

theorem run_planEnded : Relation.ReflTransGen (Operation { holder := "a" }) onePodIdle planEnded := by
  have hrun : (tryDispatch { holder := "a" } 0 "ws").run.run onePodIdle = (.finished (.ok (.started 1 (some "agent"))), planStarted) := rfl
  obtain ⟨n, hstarted⟩ : ∃ n, Ends Elsewhere n (tryDispatch { holder := "a" } 0 "ws").run onePodIdle _ planStarted := Ends.of_run hrun
  obtain ⟨t, s, hrow, hended⟩ : ∃ t s, planStarted.store.updateTask 1 endPlan = .ok (t, s) ∧
      planEnded = { planStarted with store := s, clock := 5000 } := ⟨_, _, rfl, rfl⟩
  have hstart : Operation { holder := "a" } onePodIdle planStarted := .tryDispatch 0 "ws" hstarted fun _ _ h => by cases h
  have hend : Operation { holder := "a" } planStarted { planStarted with store := s } :=
    .event (.change 1 endPlan (fun _ _ h => advances_endPlan h) hrow)
  have htime : Operation { holder := "a" } { planStarted with store := s } planEnded := hended ▸ .event (.surroundings _ rfl rfl)
  exact ((Relation.ReflTransGen.single hstart).tail hend).tail htime

/-- The slot that the plan ran on. -/
def keptSlot : Reservation := ⟨1, ⟨podName "pool" 0 0, 0⟩, "pool", "agent", 5⟩

theorem watched_keptSlot {w : World} (hcluster : w.cluster = onePodIdle.cluster) (hclock : w.clock = 5000) :
    keptSlot.Watched {} w := by
  have hnow : w.now = 5 := by unfold World.now; rw [hclock]; rfl
  refine ⟨fun name o ho => ?_, ⟨_, by rw [hcluster]; rfl, rfl, rfl⟩, by rw [hnow]; decide, by rw [hnow]; decide⟩
  rw [hcluster] at ho
  unfold onePodIdle Cluster.insert at ho
  rw [Table.get?_insert] at ho
  split at ho
  · next hname => cases ho; exact hname
  · cases ho

theorem run_applyConfirmed : Relation.ReflTransGen (Reservation.Meanwhile { holder := "a" } keptSlot) slotReserved applyConfirmed := by
  have hrun : (ignoring (Capacity.reconcile {} onePodPool)).run slotReserved = (.finished (), poolReconciled) := rfl
  obtain ⟨n, hreconciled⟩ : ∃ n, Ends (keptSlot.Watching {}) n (ignoring (Capacity.reconcile {} onePodPool)) slotReserved _
    poolReconciled := Ends.of_run hrun
  obtain ⟨t, s, hrow, hdue, hst, hconfirmed⟩ : ∃ t s, poolReconciled.store.confirmApply 1 "alice" 5 = .ok (t, s) ∧
      s.task? 1 = .ok (some t) ∧ t.status = .applyPending ∧ applyConfirmed = { poolReconciled with store := s } :=
    ⟨_, _, rfl, rfl, rfl, rfl⟩
  have hreconcile : Reservation.Meanwhile { holder := "a" } keptSlot slotReserved poolReconciled :=
    .chore (.reconcile onePodPool) (notNext_podName (.inl (by decide))) hreconciled
  have hconfirm : Reservation.Meanwhile { holder := "a" } keptSlot poolReconciled applyConfirmed :=
    hconfirmed ▸ .event (.confirm 1 "alice" 5 hrow) rfl ⟨t, hdue, hst⟩ (watched_keptSlot rfl rfl)
  exact (Relation.ReflTransGen.single hreconcile).tail hconfirm

/-- A pool is reconciled and the apply is confirmed, then it goes to the agent that planned it. -/
theorem applies_run_on_their_slots_one_pod :
    ∃ w conn, (executeConfirmedApply { holder := "a" } 0 "ws" 1).run.run applyConfirmed =
        (.finished (.ok (.started 1 (some "agent"))), w) ∧
      w.capacity.RunsOn 1 ⟨podName "pool" 0 0, 0⟩ (some "agent") ∧
      applyConfirmed.registry.Delivers w.registry "agent" conn ⟨1, "ws", .apply⟩ := by
  have hdone : (onTaskCompleted 1).run.run planEnded = (.finished (.ok ()), slotReserved) := rfl
  obtain ⟨n, hcompleted⟩ : ∃ n, Ends Elsewhere n (onTaskCompleted 1).run planEnded _ slotReserved := Ends.of_run hdone
  have hx : planEnded.capacity.taskAt ⟨podName "pool" 0 0, 0⟩ = some 1 := rfl
  have hpod : planEnded.capacity.affiliation (podName "pool" 0 0) = some (some "agent", "pool") := rfl
  obtain ⟨t, ht, hst⟩ : ∃ t, planEnded.store.task? 1 = .ok (some t) ∧ t.status = .applyPending := ⟨_, rfl, rfl⟩
  have hnamed : onePodIdle.capacity.Named := order_empty.named.insert rfl
  obtain ⟨s, hs, -, -, hafter⟩ := applies_run_on_their_slots hnamed keyed_onePodIdle taskAt_onePodIdle run_planEnded hx hpod ht hst
    hcompleted
  have hslot : slotReserved.capacity.slotAt ⟨podName "pool" 0 0, 0⟩ = some ⟨0, .reserved, some 1, some .planAndApply, 5⟩ := rfl
  cases hslot.symm.trans hs
  obtain ⟨-, -, -, hdispatch⟩ := hafter applyConfirmed (watched_keptSlot rfl rfl) run_applyConfirmed
  obtain ⟨u, conn, hu, hid, hws, hfree, hready⟩ : ∃ u conn, applyConfirmed.store.task? 1 = .ok (some u) ∧ u.id = 1 ∧
      u.workspace = "ws" ∧ applyConfirmed.locks.line u.workspace = [] ∧ Ready { holder := "a" } u "agent" conn applyConfirmed :=
    ⟨_, _, rfl, rfl, rfl, rfl, ⟨rfl, rfl, ⟨_, _, rfl, rfl, rfl, rfl⟩, ⟨_, _, rfl⟩, rfl, rfl, ⟨rfl, rfl, by decide⟩⟩⟩
  obtain ⟨⟨w, hrun, hruns, hsent⟩, -⟩ := hdispatch { holder := "a" } 0 u conn hu hfree hready
  rw [hid, hws] at hrun
  rw [hws] at hsent
  rw [hid] at hruns hsent
  exact ⟨w, conn, hrun, hruns, hsent⟩

end Dispatch

end TaskFleet
