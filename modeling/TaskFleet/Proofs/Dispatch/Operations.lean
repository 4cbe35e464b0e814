/-
  TaskFleet.Proofs.Dispatch.Operations — what an orchestrator does, call after call, and what
  happens around it.

  - `Apart`: what an attempt on a task leaves alone of the pods, whatever it answers.
  - `Chore`: the calls beside the attempts. All but sweeps vacate slots at most
    (`Chore.vacating`); a sweep gives back tasks whose leases have run out (`ends_sweep`).
  - `WorldEvent`: what executors, operators, agents and the surroundings do between two calls.
  - `Operation`: one completed call, or one event.
-/

import TaskFleet.Dispatch.Completion
import TaskFleet.Proofs.Autoscale.Composition
import TaskFleet.Proofs.Dispatch.SlotLeaks
import TaskFleet.Proofs.Recovery.Sweep

namespace TaskFleet

namespace Dispatch

open Fallible Program Capacity Store

variable {cfg : Settings} {process n : Nat} {w w' : World} {workspace : String} {t : Task} {c : Capacity}

/-! ## Attempts -/

/-- The task that an attempt starts is in the store and waits. -/
theorem Chosen.holds {R : World → World → Prop} (hR : ∀ w w', R w w' → w'.store = w.store) (hs : w.store.Keyed)
    (h : Chosen R workspace w t w') : w.store.Holds t ∧ (t.status = .pending ∨ t.status = .applyPending) := by
  cases h with
  | next w₁ hw hnext _ =>
    rw [hR _ _ hw] at hnext
    obtain ⟨ht, -, hst⟩ := nextTask_holds hs hnext
    exact ⟨ht, .inl hst⟩
  | resumed w₁ w₂ seens seen hw _ _ hw₂ hfound hst _ =>
    rw [hR _ _ hw₂, hR _ _ hw] at hfound
    exact ⟨(hs.task?_iff.1 hfound).1, .inr hst⟩
  | confirmed w₁ task hw hfound hrefusal _ =>
    rw [hR _ _ hw] at hfound
    exact ⟨(hs.task?_iff.1 hfound).1, .inr (status_of_refusal hrefusal)⟩

/-- What an attempt on a task does to the pods: it has at most one slot in its hand, and agents
    and pools stay as they are. -/
structure Apart (task : UInt64) (c : Capacity) (place : Option Placement) (c' : Capacity) : Prop where
  holding : Holding task place c c'
  order : c'.Order
  pods : ∀ pod, c'.affiliation pod = c.affiliation pod

theorem Apart.modifySlot {task : UInt64} {c₁ c₂ : Capacity} {place place' : Option Placement} {x : Spot} {f : Slot → Slot}
    (h : Apart task c place c₁) (hholding : Holding task place' c c₂) (horder : c₂.Order)
    (heq : c₂ = c₁.modifySlot x.pod x.slot f) : Apart task c place' c₂ := by
  refine ⟨hholding, horder, fun pod => ?_⟩
  rw [heq, ← h.pods pod]
  exact affiliation_modify c₁ x.pod pod (·.modifySlot x.slot f) fun _ => ⟨rfl, rfl⟩

theorem Apart.empty (hc : c.Order) (task : UInt64) : Apart task c none c := ⟨.empty hc.named task, hc, fun _ => rfl⟩

theorem Apart.held {task : UInt64} {p : Placement} (hc : c.Order) (hp : c.placementOf? task = some p) : Apart task c (some p) c :=
  ⟨.held hc.named hp, hc, fun _ => rfl⟩

theorem handles_apart (c : Capacity) : Handles true t (Apart t.id c) where
  named := fun _ _ h => h.order.named
  agent := fun p _ h => h.holding.agent p rfl
  reserve := fun p c₁ c₂ now _ h hr => by
    obtain ⟨⟨s, hs, hidle⟩, -, heq⟩ := id hr
    have hbound := bound_of_idle h.order hs hidle t.id t.kind now
    exact h.modifySlot (x := p.spot) (h.holding.reserve hr) (heq ▸ hbound.order) heq
  release := fun p c₁ now h => by
    obtain ⟨c₂, hok, hheld⟩ := h.holding.release now
    exact ⟨c₂, hok, h.modifySlot hheld (release_ok (y := p.spot) h.order hok).order (setSlot_ok (y := p.spot) hok)⟩
  mark := fun p c₁ now h => by
    obtain ⟨c₂, hok, hheld, hruns⟩ := h.holding.markRunning now
    exact ⟨c₂, hok, h.modifySlot hheld (markRunning_ok (y := p.spot) h.order hok).order (setSlot_ok (y := p.spot) hok), hruns⟩

theorem enters_apart (hc : c.Order) : Enters t (Apart t.id c) c where
  held := fun _ _ hp => .held hc hp
  empty := fun _ => .empty hc t.id

/-! ## Chores -/

/-- What an orchestrator does beside its attempts: looking after tasks that may be over,
    sweeps, and the upkeep and scaling of pods. -/
inductive Chore (cfg : Settings) : Program World Unit → Prop
  | completed (task : UInt64) : Chore cfg (ignoring (onTaskCompleted task))
  | sweep (now : UInt64) : Chore cfg (ignoring (Recovery.sweep now))
  | reconcile (pool : AgentPool) : Chore cfg (ignoring (reconcile cfg.capacity pool))
  | createPod (pool : AgentPool) : Chore cfg (ignoring (createPod cfg.capacity pool))
  | deletePod (pod : String) : Chore cfg (ignoring (deletePod cfg.capacity pod))
  | scalePool (pool : AgentPool) : Chore cfg (ignoring (Autoscale.scalePool cfg pool))
  | ensurePods (pool : String) : Chore cfg (ignoring (Autoscale.ensurePods cfg pool))
  | restartUnhealthy (pool : AgentPool) : Chore cfg (ignoring (Autoscale.restartUnhealthy cfg pool))
  | cycle : Chore cfg (ignoring (Autoscale.cycle cfg))

theorem vacating_of_elsewhere (h : Elsewhere w w') : Vacating w w' := vacating_samePods h.1 h.2

/-- The slot of a task is found and then changed, and a change of it puts no task on a slot. -/
theorem ends_editSlot_vacating {task : UInt64} {f : Placement → Capacity → UInt64 → Except CapacityError Capacity}
    {r : Except String Unit}
    (hf : ∀ p now c', w.capacity.placementOf? task = some p → f p w.capacity now = .ok c' → Vacates w.capacity c')
    (he : Ends Elsewhere n (ignoring (editSlotOf task f)) w r w') : Vacating w w' := by
  obtain ⟨m, r', w₁, he, hafter⟩ := ends_ignoring he
  refine trans_of Vacating ?_ (vacating_of_elsewhere hafter)
  rcases ends_editSlotOf (fun _ _ h => h.2) he with ⟨-, -, hw⟩ | ⟨p, w₂, hp, hw₂, ⟨c, hc, -, hw₁⟩ | ⟨e, -, -, hw₁⟩⟩
  · exact vacating_of_elsewhere hw
  · have hvacates : Vacating w { w₂ with capacity := c } := ⟨hw₂.1, hf p _ c hp hc⟩
    exact trans_of Vacating hvacates (vacating_of_elsewhere hw₁)
  · exact vacating_of_elsewhere (trans_of Elsewhere hw₂ hw₁)

theorem ends_onTaskCompleted_vacating {task : UInt64} {r : Except String (Except DispatchError Unit)}
    (he : Ends Elsewhere n (onTaskCompleted task).run w r w') : Vacating w w' := by
  rcases ends_readStore_bind he with ⟨e, -, -, hw⟩ | ⟨n₁, found, w₁, -, hw₁, -, he⟩
  · exact vacating_of_elsewhere hw
  refine trans_of Vacating (vacating_of_elsewhere hw₁) ?_
  cases found with
  | none => exact vacating_of_elsewhere (ends_done he).2.2
  | some t =>
    simp only at he
    split at he
    · obtain ⟨r', -, he⟩ := ends_always he
      exact ends_editSlot_vacating (fun p now c' hp h => SameTasks.vacates fun hc =>
        reserve_ok hc (taskAt_of_placementOf? hc.named hp) h) he
    · split at he
      · have hrelease : ∀ p now c', w₁.capacity.placementOf? task = some p → w₁.capacity.release p.pod p.slot now = .ok c' →
            Vacates w₁.capacity c' := by
          intro p now c' _ h hc
          have hcleared := release_ok (y := p.spot) hc h
          refine ⟨hcleared.order, fun x => ?_⟩
          by_cases hx : x = p.spot
          · exact .inr (hx ▸ hcleared.here)
          · exact .inl (hcleared.others x hx)
        rw [run_always_bind] at he
        rcases he.bind with ⟨m, -, he⟩ | ⟨n₂, n₃, _, w₂, -, he, hrest⟩
        · exact ends_editSlot_vacating hrelease he
        refine trans_of Vacating (ends_editSlot_vacating hrelease he) (vacating_of_elsewhere ?_)
        refine Program.Steps.ends (R := Elsewhere) ?_ hrest fun _ _ h => h
        refine steps_bind (steps_always (Program.steps_modify fun w => ?_)) fun _ => ?_
        · rw [World.spawn_hooks]
          exact ⟨rfl, rfl⟩
        · exact steps_always (Program.steps_modify fun w => ⟨rfl, rfl⟩)
      · exact vacating_of_elsewhere (ends_done he).2.2

/-- All chores but sweeps leave the rows alone and put no task on a slot. -/
theorem Chore.vacating {p : Program World Unit} {r : Except String Unit} (h : Chore cfg p) (he : Ends Elsewhere n p w r w') :
    Vacating w w' ∨ ∃ now, p = ignoring (Recovery.sweep now) := by
  have hsteps : p.Steps Vacating → Vacating w w' := fun hp => hp.ends he fun _ _ => vacating_of_elsewhere
  have hreconcile : ∀ pool, (Capacity.reconcile cfg.capacity pool).run.Steps Vacating := steps_reconcile maintains_vacating
  have hscales : Autoscale.Scales cfg fun _ p => p.Steps Vacating :=
    Autoscale.scales_steps maintains_vacating (fun _ _ => vacating_samePods rfl rfl) fun _ _ => vacating_samePods rfl rfl
  cases h with
  | completed task =>
    obtain ⟨m, r', w₁, he, hafter⟩ := ends_ignoring he
    exact .inl (trans_of Vacating (ends_onTaskCompleted_vacating he) (vacating_of_elsewhere hafter))
  | sweep now => exact .inr ⟨now, rfl⟩
  | reconcile pool => exact .inl (hsteps (steps_ignoring (hreconcile pool)))
  | createPod pool => exact .inl (hsteps (steps_ignoring (steps_createPod maintains_vacating pool)))
  | deletePod pod => exact .inl (hsteps (steps_ignoring (steps_deletePod maintains_vacating pod)))
  | scalePool pool => exact .inl (hsteps (steps_ignoring (hscales.scalePool (hreconcile pool))))
  | ensurePods pool => exact .inl (hsteps (steps_ignoring (hscales.ensurePods hreconcile pool)))
  | restartUnhealthy pool => exact .inl (hsteps (steps_ignoring hscales.restartUnhealthy))
  | cycle => exact .inl (hsteps (steps_ignoring (hscales.cycle hreconcile)))

/-! ## Sweeps -/

theorem ends_reclaimExpired {now : UInt64} {r : Except String (Except StoreError (List UInt64))} (hs : w.store.Keyed)
    (he : Ends Elsewhere n (Recovery.onStore (StoreProgram.reclaimExpired now)).run w r w') :
    w'.capacity = w.capacity ∧ ∃ ts, (ts.map (·.id)).Nodup ∧ (∀ t ∈ ts, w.store.Holds t ∧ t.hasExpiredLease now = true) ∧
      w'.store = w.store.giveBackAll ts := by
  have hsteps : (Recovery.onStore (StoreProgram.reclaimExpired now)).run.Steps SamePods :=
    Recovery.steps_onStore (fun _ _ _ => rfl) (Program.steps_trivial _)
  obtain ⟨ts, hlist, hrun⟩ := StoreProgram.run_reclaimExpired hs now
  refine ⟨hsteps.ends he fun _ _ h => h.2, ts, hlist.nodup, fun t ht => (hlist.mem t).1 ht, ?_⟩
  rcases Ends.focus (fun _ _ => rfl) (fun _ _ h => h.1) he with ⟨a, -, hend⟩ | ⟨m, -, hend⟩
  · exact (congrArg Prod.snd (hrun.symm.trans hend)).symm
  · cases congrArg Prod.fst (hrun.symm.trans hend)

/-- Whatever becomes of a sweep, it gave back the tasks whose leases had run out, or nothing. -/
theorem ends_sweep {now : UInt64} {r : Except String Unit} (hs : w.store.Keyed)
    (he : Ends Elsewhere n (ignoring (Recovery.sweep now)) w r w') :
    w'.capacity = w.capacity ∧ ∃ ts, (ts.map (·.id)).Nodup ∧ (∀ t ∈ ts, w.store.Holds t ∧ t.hasExpiredLease now = true) ∧
      w'.store = w.store.giveBackAll ts := by
  have hread : ∀ (w : World) (s : Store), w.store = s → Elsewhere w { w with store := s } := fun w s h => ⟨h.symm, rfl⟩
  have hsweep : ∀ {m : Nat} {r' : Except String (Except StoreError Nat)} {w₁ : World},
      Ends Elsewhere m (Recovery.sweep now).run w r' w₁ → ∃ (m' : Nat) (r'' : _) (w₂ : World),
        Ends Elsewhere m' (Recovery.onStore (StoreProgram.reclaimExpired now)).run w r'' w₂ ∧ Elsewhere w₂ w₁ := by
    intro m r' w₁ he
    rcases ends_bind he with ⟨m, -, he⟩ | ⟨e, -, he⟩ | ⟨n₁, n₂, reclaimed, w₂, -, he, hrest⟩
    · exact ⟨_, _, _, he, refl w₁⟩
    · exact ⟨_, _, _, he, refl w₁⟩
    · refine ⟨_, _, _, he, Program.Steps.ends (R := Elsewhere) ?_ hrest fun _ _ h => h⟩
      refine steps_bind (Recovery.steps_onStore hread (Program.steps_get (fun _ => rfl) _)) fun pending => ?_
      refine steps_bind (Recovery.steps_onStore hread (Recovery.steps_addWaiting (fun _ => rfl) _ _)) fun workspaces => ?_
      exact steps_bind (steps_always (.forEach (fun ws => Program.steps_modify fun w => ⟨rfl, rfl⟩) _)) fun _ => trivial
  obtain ⟨m, r', w₁, he, hw⟩ : ∃ (m : Nat) (r' : _) (w₁ : World), Ends Elsewhere m (Recovery.sweep now).run w r' w₁ ∧ Elsewhere w₁ w' := by
    rcases he.bind with ⟨m, -, he⟩ | ⟨n₁, n₂, result, w₁, -, he, hrest⟩
    · exact ⟨_, _, _, he, refl w'⟩
    · exact ⟨_, _, _, he, (ends_done hrest).2.2⟩
  obtain ⟨m', r'', w₂, he, hw₂⟩ := hsweep he
  obtain ⟨hpods, ts, hdistinct, hts, hstore⟩ := ends_reclaimExpired hs he
  have hlast : Elsewhere w₂ w' := trans_of Elsewhere hw₂ hw
  exact ⟨hlast.2.trans hpods, ts, hdistinct, hts, hlast.1.trans hstore⟩

/-! ## Events -/

/-- A change of a row beside the attempts and sweeps: it may move a task that runs on to its
    apply or to its end, or leave the status and renew or drop the lease, if there is one. -/
def Advances (t t' : Task) : Prop :=
  t'.id = t.id ∧
    (t'.status = t.status ∧ (t.lease = none → t'.lease = none) ∨
      t.status = .running ∧ (t'.status = .applyPending ∧ t.kind = .planAndApply ∨ t'.status.isTerminal = true))

/-- What happens beside the orchestrator's operations: executors move the tasks that run on,
    operators submit tasks under new IDs and confirm applies, agents register and report, and
    anything but the rows and the pods may change, the pools and modes of workspaces among it. -/
inductive WorldEvent (w : World) : World → Prop
  | change {t' : Task} {s' : Store} (task : UInt64) (change : Task → Except StoreError Task) :
      (∀ t t', change t = .ok t' → Advances t t') → w.store.updateTask task change = .ok (t', s') →
      WorldEvent w { w with store := s' }
  | confirm {t' : Task} {s' : Store} (task : UInt64) (user : String) (now : UInt64) :
      w.store.confirmApply task user now = .ok (t', s') → WorldEvent w { w with store := s' }
  | create {t' : Task} {s' : Store} (t : Task) : w.store.task? (w.store.lastTaskId + 1) = .ok none →
      w.store.createTask t = some (t', s') → WorldEvent w { w with store := s' }
  | register {c' : Capacity} (pod agent : String) : w.capacity.registerAgent pod agent w.now = .ok c' →
      WorldEvent w { w with capacity := c' }
  | heartbeat {c' : Capacity} (pod : String) :
      w.capacity.heartbeat pod w.now = .ok c' → WorldEvent w { w with capacity := c' }
  | surroundings (w' : World) : w'.store.tasks = w.store.tasks → w'.capacity = w.capacity → WorldEvent w w'

theorem WorldEvent.keyed (hs : w.store.Keyed) (h : WorldEvent w w') : w'.store.Keyed := by
  cases h with
  | change task change hchange hu =>
    obtain ⟨t, ht, -, hc, hset⟩ := hs.of_updateTask hu
    rw [hset (hchange _ _ hc).1]
    exact hs.setTask _
  | confirm task user now hu =>
    obtain ⟨t, ht, -, -, rfl, rfl⟩ := hs.of_confirmApply hu
    exact hs.setTask _
  | create t hnew hcreate =>
    obtain ⟨-, -, hset⟩ := createTask_cases hcreate
    rw [hset]
    exact (hs.congr rfl).setTask _
  | register => exact hs
  | heartbeat => exact hs
  | surroundings w' hrows _ => exact hs.congr hrows

/-- Of the pods, events change at most what one of them says of itself. -/
theorem WorldEvent.pods (h : WorldEvent w w') : w'.capacity = w.capacity ∨
    ∃ (pod : String) (f : Pod → Pod), (∀ q, (f q).name = q.name ∧ (f q).slots = q.slots) ∧
      w'.capacity = { w.capacity with pods := w.capacity.pods.modify pod f } := by
  cases h with
  | change => exact .inl rfl
  | confirm => exact .inl rfl
  | create => exact .inl rfl
  | register pod agent hr =>
    obtain ⟨-, rfl⟩ := registerAgent_ok_iff.1 hr
    exact .inr ⟨pod, fun p => { p with agent := some agent, lastHeartbeat := w.now }, fun _ => ⟨rfl, rfl⟩, rfl⟩
  | heartbeat pod hr =>
    obtain ⟨-, rfl⟩ := heartbeat_ok_iff.1 hr
    exact .inr ⟨pod, fun p => { p with lastHeartbeat := w.now }, fun _ => ⟨rfl, rfl⟩, rfl⟩
  | surroundings w' _ hpods => exact .inl hpods

/-- One completed operation of an orchestrator, or one event. While an operation is under way,
    nobody else writes to the store or to the pods. -/
inductive Operation (cfg : Settings) (w w' : World) : Prop
  | tryDispatch {n : Nat} {result : Except DispatchError DispatchOutcome} (process : Nat) (workspace : String) :
      Ends Elsewhere n (tryDispatch cfg process workspace).run w (.ok result) w' →
      (∀ ws m, result ≠ .error (.crashed ws m)) → Operation cfg w w'
  | executeConfirmedApply {n : Nat} {result : Except DispatchError DispatchOutcome} (process : Nat) (workspace : String)
      (task : UInt64) : Ends Elsewhere n (executeConfirmedApply cfg process workspace task).run w (.ok result) w' →
      (∀ ws m, result ≠ .error (.crashed ws m)) → Operation cfg w w'
  | chore {n : Nat} {p : Program World Unit} : Chore cfg p → Ends Elsewhere n p w (.ok ()) w' → Operation cfg w w'
  | event : WorldEvent w w' → Operation cfg w w'

end Dispatch

end TaskFleet
