/-
  TaskFleet.Proofs.Dispatch.SlotKeeping — a task that was started keeps its slot while it runs,
  but for a few mishaps.

  Attempts, completions and reconciliations of any number interleave with each other and with
  whoever else changes rows and pods. A confirmed apply is started from the row that was read
  before its attempt waited for the lock, so the attempt may look up the slot of a task that
  runs by then, and give it back. A completion finds the slot of its task in one step and
  changes it in another one, whoever is on it by then.
  - `steps_reconcile`, `leads_onTaskCompleted`: what takes a task off its slot besides.
  - `Launched.kept_or_ended`: a slot that was taken is not somebody else's to spare.
  - `started_tasks_keep_their_slots`: every excuse, in every run.
  - `late_apply_frees_the_slot`: two attempts to start one apply, of which the second is late.
-/

import TaskFleet.Dispatch.Completion
import TaskFleet.Proofs.Dispatch.SlotAttempts

namespace TaskFleet.Tenure

open Fallible Dispatch Discipline

variable {A : Roles} {i j : Nat} {c d : Moment} {t t' : Task} {w w' : World}
  {x : Spot} {task : UInt64} {α : Type} {F : Moment → Prop}

/-! ## Reconciliation -/

/-- A step that is proper whoever takes it. -/
def Lawful (w w' : World) : Prop := Sane w → ∀ A p h, Proper A p h w w'

theorem Quiet.lawful (hq : Quiet w w') : Lawful w w' := fun hs => (hq hs).proper

theorem leads_lawful {p : Program World α} (hp : p.Steps Lawful) : (tenure A).Leads i p (fun _ _ => True) c :=
  Ensures.mono (Ensures.of_steps (F := fun _ => True) hp (fun _ _ _ _ => trivial)
    (fun _ _ hi _ hstep => ⟨keeps_of_proper hi (hstep hi.sane _ _ _), trivial⟩) trivial) fun _ _ _ _ _ _ => trivial

theorem lawful_capacity {capacity : Capacity} (hc : Sane w → capacity.Order ∧
      ∀ x task, w.capacity.taskAt x = some task → capacity.taskAt x ≠ some task →
        ∀ A p h, Excuse A h ⟨p, w, { w with capacity }⟩ x task) : Lawful w { w with capacity } := by
  intro hs A p h
  obtain ⟨ho, hexcuse⟩ := hc hs
  exact proper_capacity hs ho fun x task hbefore hafter => hexcuse x task hbefore hafter A p h

theorem steps_sleep (d : Duration) : (Program.sleep d).Steps Quiet := by
  refine .bind (Program.steps_apply fun w => ?_) fun _ => Program.steps_waitFor _
  exact quiet_of_same ⟨rfl, .refl, rfl⟩

theorem steps_call (cfg : CapacitySettings) (name : String) (f : Cluster → CallAnswer α × Cluster) :
    (Capacity.call cfg name f).run.Steps Quiet := by
  refine steps_bind (steps_always (Program.steps_apply fun w => quiet_of_same ⟨rfl, .refl, rfl⟩)) fun answer => ?_
  cases answer with
  | ok a => exact Program.steps_pure _
  | refused reason => exact Program.steps_pure _
  | unanswered =>
    exact steps_bind (steps_always (steps_sleep cfg.backendTimeout)) fun _ => Program.steps_pure _

/-- A task whose row is looked up does not run if the row does not say so. -/
theorem not_running_of_task? (hs : Sane w) {found : Option Task} (hfound : w.store.task? task = .ok found)
    (hst : found.map (·.status) ≠ some .running) : ¬Running w task := by
  rintro ⟨t, ht, hid, hrun⟩
  have hrow := hs.keyed.task?_iff.2 ⟨ht, hid⟩
  rw [hfound] at hrow
  cases hrow
  exact hst (by rw [Option.map_some, hrun])

theorem steps_syncPods (cfg : CapacitySettings) (pool : AgentPool) :
    (Capacity.syncPods cfg pool).run.Steps Lawful := by
  refine steps_bind ((steps_call cfg _ _).mono fun _ _ => Quiet.lawful) fun observed => ?_
  refine steps_bind (steps_always (Program.steps_modify fun w => ?_)) fun _ => ?_
  · refine lawful_capacity fun hs => ?_
    obtain ⟨ho, htasks⟩ := Capacity.takeOverAll_ok hs.order pool w.now observed
    refine ⟨ho, fun x task hbefore hafter A p h => .mishap (.dropped ?_)⟩
    exact (htasks x).resolve_left fun hsame => hafter (hsame.trans hbefore)
  · refine steps_always (Program.Steps.forEach (fun pod => steps_ignoring ?_) _)
    exact (steps_call cfg _ _).mono fun _ _ => Quiet.lawful

theorem steps_followTasksOn (pods : List String) : (Capacity.followTasksOn pods).run.Steps Lawful := by
  induction pods with
  | nil => exact Program.steps_pure _
  | cons pod rest ih =>
    refine steps_bind (Program.steps_apply fun w => lawful_capacity fun hs => ?_) fun _ => ih
    obtain ⟨ho, htasks⟩ := Capacity.followTasks_ok hs.order w.store pod w.now
    refine ⟨ho, fun x task hbefore hafter A p h => .idle ?_⟩
    rcases htasks x with hsame | ⟨task', found, htask, hfound, hst⟩
    · exact absurd (hsame.trans hbefore) hafter
    · have hsame : task' = task := Option.some.inj (htask.symm.trans hbefore)
      rw [← hsame]
      exact not_running_of_task? hs hfound hst

theorem steps_reconcile (cfg : CapacitySettings) (pool : AgentPool) :
    (Capacity.reconcile cfg pool).run.Steps Lawful := by
  refine steps_bind (steps_syncPods cfg pool) fun _ => ?_
  refine steps_bind (steps_always ((steps_read _).mono fun _ _ => Quiet.lawful)) fun pods => ?_
  refine steps_bind (steps_always (steps_ignoring (steps_followTasksOn pods))) fun _ => ?_
  refine steps_always (Program.steps_modify fun w => lawful_capacity fun hs => ?_)
  obtain ⟨ho, htasks⟩ := Capacity.expireReservations_ok hs.order cfg pool.id w.now
  refine ⟨ho, fun x task hbefore hafter A p h => ?_⟩
  rcases htasks x with hsame | ⟨s, hs, hreserved⟩
  · exact absurd (hsame.trans hbefore) hafter
  · exact .mishap (.ranOut cfg pool.id s rfl hs hreserved.1 hreserved.2)

/-! ## Completions -/

/-- Between the search for a slot and the change of it, the slot may get another task. -/
theorem leads_editSlotOf (hF : Steady A i F) (hc : F c)
    {edit : Placement → Capacity → UInt64 → Except CapacityError Capacity}
    (hedit : ∀ d p capacity, Inv A d → F d → Saw i p.spot task d.memory →
      edit p d.state.capacity d.state.now = .ok capacity →
      Proper A (some i) d.memory d.state { d.state with capacity }) :
    (tenure A).Leads i (Capacity.editSlotOf task edit).run (fun _ _ => True) c := by
  refine .always_bind (R := fun found d => ∀ p, found = some p → F d ∧ Saw i p.spot task d.memory) ?_ fun found d hd => ?_
  · refine ensures_get fun d hr hi e hde _ => ?_
    rintro _ ⟨⟩ p hp
    have hnext : F (next i d d.state) := hF.own d d.state hi (hF.rely c d hc hr) (ownStep_refl hi)
    have hbound : d.state.capacity.taskAt p.spot = some task := Capacity.taskAt_of_placementOf? hi.order.named hp
    have hsaw : Saw i p.spot task (next i d d.state).memory :=
      ⟨d.memory, ⟨some i, d.state, d.state⟩, [], rfl, ⟨rfl, hbound⟩, fun e' he' => by cases he'⟩
    exact ⟨hF.rely _ e hnext hde, (lasting_since _ i p.spot task).steady.rely _ e hsaw hde⟩
  · cases found with
    | none => exact leads_pure fun _ _ => trivial
    | some p =>
      obtain ⟨hFd, hsaw⟩ := hd p rfl
      have hsteady := hF.and (lasting_since _ i p.spot task : Lasting i p.spot task (Saw i p.spot task)).steady
      refine .bind_run (R := fun _ _ => True) ?_ (fun _ _ _ => leads_pure fun _ _ => trivial) fun _ _ _ => trivial
      show (tenure A).Leads i (Program.editCapacity (edit p)) (fun _ _ => True) d
      refine leads_onCapacity hsteady ⟨hFd, hsaw⟩ (fun e a capacity hi he hr => ⟨?_, fun _ _ => trivial⟩) fun _ _ _ => trivial
      obtain ⟨capacity', hr', heq⟩ := map_eq_ok_iff.1 hr
      cases heq
      exact hedit e p _ hi he.1 he.2 hr'

/-- Keeping the slot of a task takes another task off only where it has come to the slot since. -/
theorem leads_reserveTask (hA : A.completes i task) :
    (tenure A).Leads i (Capacity.reserveTask task).run (fun _ _ => True) c := by
  refine leads_editSlotOf (steady_true A i) trivial fun d p capacity hi _ hsaw hr => ?_
  have hrebound := Capacity.reserve_rebinds (y := p.spot) hi.order hr
  refine proper_capacity hi.sane hrebound.order fun x other hbefore hafter => ?_
  by_cases hx : x = p.spot
  · subst hx
    have hne : task ≠ other := fun h => hafter (h ▸ hrebound.here)
    exact .mishap (.misled i task rfl hA hne (hsaw.outdated hi hne hbefore))
  · rw [hrebound.others x hx] at hafter
    exact absurd hbefore hafter

/-- Giving back the slot of a task that is over takes another one off only in that case, too. -/
theorem leads_releaseTask (hA : A.completes i task) (hrow : ∃ t', c.state.store.Holds t' ∧ t.Continues t') (hid : t.id = task)
    (hover : t.status.isTerminal = true) : (tenure A).Leads i (Capacity.releaseTask task).run (fun _ _ => True) c := by
  refine leads_editSlotOf (steady_row i t) hrow fun d p capacity hi hd hsaw hr => ?_
  have hcleared := Capacity.release_ok (y := p.spot) hi.order hr
  refine proper_capacity hi.sane hcleared.order fun x other hbefore hafter => ?_
  by_cases hx : x = p.spot
  · subst hx
    by_cases hne : task = other
    · -- the task itself was seen to be over
      refine .idle ?_
      rintro ⟨t₁, ht₁, hid₁, hrun⟩
      obtain ⟨t', ht', hgoes⟩ := hd
      have hsame : t₁ = t' := Store.holds_inj ht₁ ht' (hid₁.trans (hne.symm.trans (hid.symm.trans hgoes.id.symm)))
      have hend := hgoes.ended hover
      rw [← hsame, hrun] at hend
      cases hend
    · exact .mishap (.misled i task rfl hA hne (hsaw.outdated hi hne hbefore))
  · rw [hcleared.others x hx] at hafter
    exact absurd hbefore hafter

theorem leads_onTaskCompleted (hA : A.completes i task) :
    (tenure A).Leads i (onTaskCompleted task).run (fun _ _ => True) c := by
  refine leads_read (f := (·.task? task)) (steady_true A i) trivial (fun _ _ => trivial) fun d found hi _ hfound => ?_
  cases found with
  | none => exact leads_pure fun _ _ => trivial
  | some t =>
    obtain ⟨ht, hid⟩ := hi.keyed.task?_iff.1 hfound
    simp only
    split
    · exact .always (.bind (leads_reserveTask hA) fun _ _ _ => leads_pure fun _ _ => trivial)
    · split
      · next hover =>
        have hrow : ∃ t', (next i d d.state).state.store.Holds t' ∧ t.Continues t' := ⟨t, ht, .refl t⟩
        refine .always_bind (R := fun _ _ => True) ?_ fun _ e _ => ?_
        · exact .bind (leads_releaseTask hA hrow hid hover) fun _ _ _ => leads_pure fun _ _ => trivial
        · refine leads_quiet ?_ (steady_true A i) trivial
          refine steps_bind (steps_always (steps_same fun w => ?_)) fun _ => ?_
          · rw [World.spawn_hooks]
            exact ⟨rfl, .refl, rfl⟩
          · exact steps_always (steps_same fun _ => ⟨rfl, .refl, rfl⟩)
      · exact leads_pure fun _ _ => trivial

/-! ## Runs -/

/-- What somebody beside the processes may make of a row: the task goes on, is not started,
    and waits for its apply only if it is exclusive. -/
structure Proceeds (t t' : Task) : Prop where
  goes : t.Continues t'
  running : t'.status = .running → t.status = .running
  waiting : t'.status = .applyPending → t'.kind.isExclusive = true

/-- The report that a plan is done is such a change. -/
theorem proceeds_concludePlan {now : UInt64} (h : LocalCommand.concludePlan now t = .ok t') : Proceeds t t' := by
  have hsuccess : LocalCommand.concludeSuccess .plan now t = .ok t' := h
  have hgoes : t.Continues t' := continues_of_tame (Task.tame_concludeSuccess hsuccess)
  unfold LocalCommand.concludePlan at h
  split at h
  · next hkind =>
    obtain ⟨-, rfl⟩ := Store.move_ok_iff.1 h
    exact ⟨hgoes, fun hst => (by cases hst), fun _ => by rw [hkind]; rfl⟩
  · obtain ⟨-, rfl⟩ := Store.conclude_ok_iff.1 h
    exact ⟨hgoes, fun hst => (by cases hst), fun hst => (by cases hst)⟩

/-- What happens beside the processes: operators submit and confirm, agents and commands
    change rows without starting them, and everything but the rows, the locks and the tasks
    on their slots may change at any time. -/
inductive TenureEvent (w : World) : World → Prop
  /-- A task is created while the counter of IDs has a fresh one. -/
  | create {t' : Task} {store : Store} (t : Task) : t.status = .pending →
      (∀ u, w.store.Holds u → u.id ≠ w.store.lastTaskId + 1) →
      w.store.createTask t = some (t', store) → TenureEvent w { w with store }
  | confirm {t' : Task} {store : Store} (task : UInt64) (user : String) (now : UInt64) :
      w.store.confirmApply task user now = .ok (t', store) → TenureEvent w { w with store }
  | change {t' : Task} {store : Store} (task : UInt64) (change : Task → Except StoreError Task) :
      (∀ t t', w.store.Holds t → change t = .ok t' → Proceeds t t') →
      w.store.updateTask task change = .ok (t', store) → TenureEvent w { w with store }
  | surroundings (w' : World) : SameHere w w' → TenureEvent w w'

theorem TenureEvent.lawful (he : TenureEvent w w') : Lawful w w' := by
  intro hs A p h
  cases he with
  | @create new _ t hpending hfresh hcreate =>
    obtain ⟨-, hnew, hstore⟩ := Store.createTask_cases hcreate
    obtain ⟨counted, hcounted⟩ : ∃ counted, counted = { w.store with lastTaskId := w.store.lastTaskId + 1 } := ⟨_, rfl⟩
    have hrows : counted.tasks = w.store.tasks := by rw [hcounted]
    have hid : new.id = w.store.lastTaskId + 1 := by rw [hnew]
    have hstatus : new.status = .pending := by rw [hnew]; exact hpending
    have hheld : ∀ u, counted.Holds u ↔ w.store.Holds u := fun u => Store.Holds.congr hrows
    have hkeyed : counted.Keyed := hs.keyed.congr hrows
    rw [hstore, ← hcounted]
    refine ⟨hkeyed.setTask new, fun u hu hst => ?_, fun u hu => ⟨u, ?_, .refl u⟩, hs.order, fun u hu hrun _ hno => ?_,
      fun _ _ _ hlock => hlock, fun _ _ hf => absurd hf.1 hf.2⟩
    · rcases Store.holds_setTask.1 hu with rfl | ⟨hu, -⟩
      · rw [hstatus] at hst; cases hst
      · exact hs.waiting u ((hheld u).1 hu) hst
    · exact Store.holds_setTask.2 (.inr ⟨(hheld u).2 hu, by rw [hid]; exact hfresh u hu⟩)
    · rcases Store.holds_setTask.1 hu with rfl | ⟨hu, -⟩
      · rw [hstatus] at hrun; cases hrun
      · exact absurd ⟨u, (hheld u).1 hu, rfl, hrun⟩ hno
  | @confirm t' store task user now hc =>
    obtain ⟨t, ht, -, -, hrow, rfl⟩ := hs.keyed.of_confirmApply hc
    have hgoes : t.Continues t' := by rw [hrow]; exact ⟨rfl, rfl, rfl, fun hover => hover⟩
    have hstatus : t'.status = t.status := by rw [hrow]
    exact (harmless_setTask hs ht hgoes hstatus).proper A p h
  | change task change hchange hu =>
    obtain ⟨t, ht, -, hch, hset⟩ := hs.keyed.of_updateTask hu
    have hproceeds := hchange t _ ht hch
    rw [hset hproceeds.goes.id]
    exact proper_setTask hs ht hproceeds.goes hproceeds.waiting fun hrun _ => .inl (hproceeds.running hrun)
  | surroundings w' hsame => exact (quiet_of_same hsame hs).proper A p h

inductive OutsideTenure (c : Moment) : Moment → Prop
  | event (w' : World) : TenureEvent c.state w' → OutsideTenure c ⟨w', c.memory ++ [⟨none, c.state, w'⟩]⟩

/-- The processes that begin, each with settings of its own and in its role. -/
inductive BeginsInRole (A : Roles) (c : Moment) (process : Nat) :
    Program World (Option DispatchOutcome) → Moment → Prop
  | dispatch (cfg : Settings) (workspace : String) :
      BeginsInRole A c process (Except.toOption <$> (tryDispatch cfg process workspace).run) c
  | apply (cfg : Settings) (workspace : String) (task : UInt64) : A.applies process →
      BeginsInRole A c process (Except.toOption <$> (executeConfirmedApply cfg process workspace task).run) c
  | completed (task : UInt64) : A.completes process task →
      BeginsInRole A c process ((fun _ => none) <$> (onTaskCompleted task).run) c
  | reconcile (cfg : CapacitySettings) (pool : AgentPool) :
      BeginsInRole A c process ((fun _ => none) <$> (Capacity.reconcile cfg pool).run) c

/-- What is true of an answer from when it is given on. -/
def Answered (i : Nat) (answer : Option DispatchOutcome) (c : Moment) : Prop :=
  ∀ o, answer = some o → Outcome i o c

theorem leads_attempt {p : Fallible DispatchError DispatchOutcome} (hp : (tenure A).Leads i p.run (Result i) c) :
    (tenure A).Leads i (Except.toOption <$> p.run) (Answered i) c := by
  rw [map_eq_pure_bind]
  refine .bind hp fun r d hd => leads_pure fun e hr o ho => ?_
  cases r with
  | ok a =>
    have hsame : a = o := Option.some.inj ho
    exact (hd o (by rw [hsame])).rely hr
  | error err => cases ho

theorem leads_unanswered {p : Program World α} (hp : (tenure A).Leads i p (fun _ _ => True) c) :
    (tenure A).Leads i ((fun _ => none) <$> p) (Answered i) c := by
  rw [map_eq_pure_bind]
  exact .bind hp fun _ _ _ => leads_pure fun _ _ o ho => by cases ho

theorem BeginsInRole.leads {p : Program World (Option DispatchOutcome)} (hb : BeginsInRole A c i p d) :
    d = c ∧ (tenure A).Leads i p (Answered i) c := by
  cases hb with
  | dispatch cfg workspace => exact ⟨rfl, leads_attempt (leads_tryDispatch workspace)⟩
  | apply cfg workspace task hA => exact ⟨rfl, leads_attempt (leads_executeConfirmedApply hA workspace task)⟩
  | completed task hA => exact ⟨rfl, leads_unanswered (leads_onTaskCompleted hA)⟩
  | reconcile cfg pool => exact ⟨rfl, leads_unanswered (leads_lawful (steps_reconcile cfg pool))⟩

theorem keeping {w : World} (hs : w.store = {}) (hc : w.capacity = {}) :
    (tenure A).Keeping OutsideTenure (BeginsInRole A) ⟨w, []⟩ fun i r d =>
      ∀ answer, r = .ok answer → Answered i answer d where
  first := by
    have hnone : ∀ t, ¬w.store.Holds t := by intro t ht; rw [hs] at ht; cases ht
    refine ⟨⟨w, rfl⟩, ?_, fun t ht => absurd ht (hnone t), ?_, fun t i ht => absurd ht (hnone t), ?_, ?_⟩
    · show w.store.Keyed
      rw [hs]; exact Store.keyed_empty
    · show w.capacity.Order
      rw [hc]; exact Capacity.order_empty
    · intro e he; cases he
    · intro h e h' x task hsplit
      cases h <;> cases hsplit
  outside := by
    rintro c d hi ⟨w', he⟩
    have hproper := he.lawful hi.sane A none c.memory
    refine ⟨hi.step hproper, fun j => ⟨_, rfl, ⟨rfl, rfl⟩, fun e he => ?_⟩⟩
    rw [List.mem_singleton.1 he]
    exact hproper.fair fun h => by cases h
  begins := by
    intro c i p d hi hb
    obtain ⟨rfl, hleads⟩ := hb.leads
    exact ⟨⟨hi, fun j _ => (tenure A).rely_refl j d⟩, hleads⟩

/-! ## How a started task comes off its slot -/

/-- In one of the steps since the start somebody else took the task off the slot: the task
    had left running by then, or it was a mishap. -/
def Ended (A : Roles) (h₀ h₁ : History) (i : Nat) (x : Spot) (task : UInt64) : Prop :=
  ∃ h₂ e h₃, h₁ = h₂ ++ e :: h₃ ∧ e.Frees x task ∧ e.process ≠ some i ∧
    ((∃ e' ∈ h₂ ++ [e], ¬Running e'.before task) ∨ Mishap A (h₀ ++ h₂) e x task)

/-- A task stays on its slot while nobody takes it off. -/
theorem bound_of_not_frees {l : History} (hchain : Chain w l w') (hl : ∀ e ∈ l, ¬e.Frees x task)
    (hbound : w.capacity.taskAt x = some task) : w'.capacity.taskAt x = some task :=
  hchain.preserves (P := fun w => w.capacity.taskAt x = some task)
    (fun e he hbefore => Classical.not_not.1 fun hafter => hl e he ⟨hbefore, hafter⟩) hbound

/-- What a process took and nobody took from it, nobody else has to spare. -/
theorem not_spare (hi : Inv A c) {h₁ h₂ h₃ : History} {b e : Step World} (hm : c.memory = (h₁ ++ b :: h₂) ++ e :: h₃)
    (htakes : b.Takes i x task) (hkept : ∀ e' ∈ h₂, ¬e'.Frees x task) (he : e.process ≠ some i) :
    ¬Spare (h₁ ++ b :: h₂) e x task := by
  rintro ⟨k₁, u, k₂, hcut, hu, -, hbinds, hlast, t, ht, hid, hshared⟩
  obtain ⟨first, hchain⟩ := hi.chain
  rw [hm] at hchain
  have hpast := hchain.split.1
  rcases cut_cases hcut with ⟨-, rfl, -⟩ | ⟨m, rfl, rfl⟩ | ⟨m, rfl, rfl⟩
  · exact he (hu ▸ htakes.own)
  · -- bound after the process took it, so it was not free to be bound again
    have hbetween := hpast.split.2.split.1
    exact hbinds.1 (bound_of_not_frees hbetween (fun e' he' => hkept e' (List.mem_append_left _ he')) htakes.bound)
  · -- bound before the process took it, so the process found it there for a task that needs the lock
    rw [List.append_assoc, List.cons_append] at hpast
    have hbetween := hpast.split.2.split.1
    have hbound := bound_of_not_frees hbetween (fun e' he' => hlast e' (List.mem_append_left _ he')) hbinds.2
    rcases htakes.how with hagain | ⟨t', ht', hid', hex, -⟩
    · exact hagain.1 hbound
    · obtain ⟨v, hv, hgoes⟩ := hi.past e (by rw [hm]; simp) t (.inl ht)
      obtain ⟨v', hv', hgoes'⟩ := hi.past b (by rw [hm]; simp) t' (.inr ht')
      have hsame : v = v' := Store.holds_inj hv hv' (hgoes.id.trans (hid.trans (hid'.symm.trans hgoes'.id.symm)))
      rw [← hgoes'.kind, ← hsame, hgoes.kind, hshared] at hex
      cases hex

/-- Whoever else started the task since then found it not running. -/
theorem left_of_startedBy {h₀ h₁ : History} {s : Step World} (hs : s.process = some i) (hstarts : s.Starts task)
    (hj : some j ≠ some i) (h : StartedBy (h₀ ++ s :: h₁) j task) : ∃ e ∈ h₁, ¬Running e.before task := by
  obtain ⟨k₁, u, k₂, hcut, hu, hagain, hlast⟩ := h
  rcases cut_cases hcut with ⟨-, rfl, -⟩ | ⟨m, rfl, rfl⟩ | ⟨m, rfl, rfl⟩
  · exact absurd (hu.symm.trans hs) hj
  · exact ⟨u, by simp, hagain.1⟩
  · exact absurd hstarts (hlast s (by simp))

/-- A task that was started with a slot is still on it, or lost it before the start, or came
    off it in one of the ways that are left. -/
theorem Launched.kept_or_ended (hl : Launched i x task c.memory) (hi : Inv A c) :
    ∃ h₀ s h₁, c.memory = h₀ ++ s :: h₁ ∧ s.process = some i ∧ s.Starts task ∧ HasTaken i x task h₀ ∧
      (Robbed h₀ i x ∨ c.state.capacity.taskAt x = some task ∨ Ended A (h₀ ++ [s]) h₁ i x task) := by
  obtain ⟨h₀, s, h₁, hm, hs, hstarts, hhas, hown⟩ := hl
  refine ⟨h₀, s, h₁, hm, hs, hstarts, hhas, ?_⟩
  obtain ⟨k, b, m, rfl, htakes, hheld⟩ := hhas
  by_cases hfreed : ∃ e ∈ m, e.Frees x task
  · obtain ⟨e, he, hfrees⟩ := hfreed
    exact .inl ⟨k, b, m, task, rfl, htakes, e, he, fun hp => hheld e he hp hfrees, hfrees⟩
  by_cases hnow : c.state.capacity.taskAt x = some task
  · exact .inr (.inl hnow)
  -- the first step that takes the task off the slot comes after the start
  obtain ⟨first, hchain⟩ := hi.chain
  have hcut : c.memory = k ++ b :: (m ++ s :: h₁) := by rw [hm]; simp
  rw [hcut] at hchain
  obtain ⟨l, e, h₃, hlost, hbefore, hafter, hall⟩ :=
    hchain.split.2.lost (P := fun w => w.capacity.taskAt x = some task) htakes.bound hnow
  have hkept : ∀ e' ∈ l, ¬e'.Frees x task := fun e' he' hfrees => hfrees.2 (hall e' he').2
  obtain ⟨h₂, rfl, rfl⟩ : ∃ h₂, l = m ++ s :: h₂ ∧ h₁ = h₂ ++ e :: h₃ := by
    rcases cut_cases hlost with ⟨-, rfl, -⟩ | hlater | ⟨q, rfl, -⟩
    · exact absurd ⟨hbefore, hafter⟩ (hown s List.mem_cons_self hs)
    · exact hlater
    · exact absurd ⟨e, by simp, hbefore, hafter⟩ hfreed
  have hother : e.process ≠ some i := fun hp => hown e (by simp) hp ⟨hbefore, hafter⟩
  refine .inr (.inr ⟨h₂, e, h₃, rfl, ⟨hbefore, hafter⟩, hother, ?_⟩)
  have hsplit : c.memory = (k ++ b :: (m ++ s :: h₂)) ++ e :: h₃ := by rw [hm]; simp
  have hsince : k ++ b :: (m ++ s :: h₂) = (k ++ b :: m) ++ s :: h₂ := by simp
  cases hi.excused _ e h₃ x task hsplit ⟨hbefore, hafter⟩ with
  | idle hidle => exact .inl ⟨e, by simp, hidle⟩
  | own j hj hstarted =>
    rw [hsince] at hstarted
    obtain ⟨u, hu, hleft⟩ := left_of_startedBy hs hstarts (hj ▸ hother) hstarted
    exact .inl ⟨u, List.mem_append_left _ hu, hleft⟩
  | spare hspare => exact absurd hspare (not_spare hi hsplit htakes hkept hother)
  | mishap hmishap =>
    right
    rw [hsince] at hmishap
    rw [List.append_assoc]
    exact hmishap

/-- In every run, a step takes a task off its slot only with an excuse. A task that was
    started on an agent of a pod had a slot, unless somebody had already freed it, and stays
    on it until it leaves running, but for the mishaps: its pod is gone, its reservation ran
    out, or its slot is given back by a confirmed apply that came too late, by an attempt
    that was robbed of the slot, or by the completion of another task, which was on the slot
    when the completion looked and was taken off it before the slot was written. -/
theorem started_tasks_keep_their_slots {w : World} {crew : List (Program World (Option DispatchOutcome))}
    (hs : w.store = {}) (hc : w.capacity = {}) (hrun : (tenure A).Run OutsideTenure (BeginsInRole A) ⟨w, []⟩ c crew) :
    (∀ h e h' x task, c.memory = h ++ e :: h' → e.Frees x task → Excuse A h e x task) ∧
    ∀ i task agent, crew[i]? = some (.done (some (.started task (some agent)))) →
      OffPods c.memory i task ∨
      ∃ x h₀ s h₁, c.memory = h₀ ++ s :: h₁ ∧ s.process = some i ∧ s.Starts task ∧ HasTaken i x task h₀ ∧
        (Robbed h₀ i x ∨ c.state.capacity.taskAt x = some task ∨ Ended A (h₀ ++ [s]) h₁ i x task) := by
  have hi := (hrun.sound (keeping hs hc)).1
  refine ⟨hi.excused, fun i task agent hend => ?_⟩
  rcases hrun.ended (keeping hs hc) hend _ rfl _ rfl task agent rfl with hoff | ⟨x, hlaunched⟩
  · exact .inl hoff
  · exact .inr ⟨x, hlaunched.kept_or_ended hi⟩

/-! ## Two attempts to start one apply -/

/-- Every process may start a confirmed apply, and none looks after a task that may be over. -/
def applying : Roles := ⟨fun _ => True, fun _ _ => False⟩

def confirmedRow : Task :=
  { Task.submitted "ws" .planAndApply 0 .manual with
    id := 1
    status := .applyPending
    stage := some .applyPending
    confirmedBy := some "alice"
    confirmedAt := some 0 }

/-- A free slot, and a task whose apply is confirmed. -/
def applyReady : World :=
  { servedWorld with
    store := (servedWorld.store.addTask (.submitted "ws" .planAndApply 0 .manual) 1).2.setTask confirmedRow }

def confirmedApply (process : Nat) : Program World (Option DispatchOutcome) :=
  Except.toOption <$> (executeConfirmedApply { holder := "a" } process "ws" 1).run

/-- An attempt ran to its end. -/
def applyStarted : World := ((confirmedApply 0).run applyReady).2

theorem run_confirmedApply :
    (confirmedApply 0).run applyReady = (.finished (some (.started 1 (some "agent"))), applyStarted) := by rfl

/-- The runs from an empty orchestrator, in which every process may start a confirmed apply. -/
abbrev RunsTo : Moment → List (Program World (Option DispatchOutcome)) → Prop :=
  (tenure applying).Run OutsideTenure (BeginsInRole applying) ⟨{ clock := 0 }, []⟩

theorem run_applyReady : ∃ m, RunsTo ⟨applyReady, m⟩ [] := by
  have hstart : RunsTo ⟨{ clock := 0 }, []⟩ [] := .start
  have hpod : SameHere { clock := 0 } servedWorld := by
    refine ⟨rfl, fun ho => Capacity.sameTasks_insertPod ho rfl fun s hs => ?_, rfl⟩
    rw [List.mem_singleton.1 hs]
  have hready := hstart.outside (.event _ (.surroundings _ hpod))
  have hcreated := hready.outside
    (.event _ (.create (.submitted "ws" .planAndApply 0 .manual) rfl (fun u hu => by cases hu) rfl))
  have hplanned := hcreated.outside (.event _ (.change 1 (LocalCommand.concludePlan 0)
    (fun _ _ _ h => proceeds_concludePlan h) rfl))
  exact ⟨_, hplanned.outside (.event _ (.confirm 1 "alice" 0 rfl))⟩

theorem started_tasks_keep_their_slots_one_apply :
    ∃ c, RunsTo c [.done (some (.started 1 (some "agent")))] ∧
      c.state.capacity.taskAt ⟨"pod", 0⟩ = some 1 ∧
      (∀ h e h' x task, c.memory = h ++ e :: h' → e.Frees x task → Excuse applying h e x task) ∧
      (OffPods c.memory 0 1 ∨
        ∃ x h₀ s h₁, c.memory = h₀ ++ s :: h₁ ∧ s.process = some 0 ∧ s.Starts 1 ∧ HasTaken 0 x 1 h₀ ∧
          (Robbed h₀ 0 x ∨ c.state.capacity.taskAt x = some 1 ∨ Ended applying (h₀ ++ [s]) h₁ 0 x 1)) := by
  obtain ⟨m, hdue⟩ := run_applyReady
  have hbegun := hdue.begins (.apply { holder := "a" } "ws" 1 trivial)
  obtain ⟨m', hended⟩ := hbegun.alone (i := 0) rfl run_confirmedApply
  have hkept := started_tasks_keep_their_slots rfl rfl hended
  exact ⟨_, hended, rfl, hkept.1, hkept.2 0 1 "agent" rfl⟩

/-- An attempt that read the row before another one started the task. -/
def lateApply : Program World (Option DispatchOutcome) := ((confirmedApply 1).advance 1 applyReady).1

theorem advance_confirmedApply : (confirmedApply 1).advance 1 applyReady = (lateApply, applyReady) := by rfl

/-- Then it ran to its end, too. -/
def slotFreed : World := (lateApply.run applyStarted).2

theorem run_lateApply : lateApply.run applyStarted = (.finished (some (.skipped 1)), slotFreed) := by rfl

/-- It looks for the task's slot and finds the one that the task runs on, and when its claim
    is refused it gives that slot back. -/
theorem late_apply_frees_the_slot :
    ∃ c c', RunsTo c [.done (some (.started 1 (some "agent"))), lateApply] ∧
      c.state.capacity.taskAt ⟨"pod", 0⟩ = some 1 ∧
      lateApply.run c.state = (.finished (some (.skipped 1)), c'.state) ∧
      RunsTo c' [.done (some (.started 1 (some "agent"))), .done (some (.skipped 1))] ∧
      Running c'.state 1 ∧ c'.state.capacity.placementOf? 1 = none ∧
      (c'.state.capacity.pods.get? "pod").isSome = true := by
  obtain ⟨m, hdue⟩ := run_applyReady
  have hfirst := hdue.begins (.apply { holder := "a" } "ws" 1 trivial)
  have hboth : RunsTo ⟨applyReady, m⟩ [confirmedApply 0, confirmedApply 1] :=
    hfirst.begins (.apply { holder := "a" } "ws" 1 trivial)
  obtain ⟨m₁, hread⟩ := hboth.advance (i := 1) rfl 1
  rw [advance_confirmedApply] at hread
  obtain ⟨m₂, hstarted⟩ := hread.alone (i := 0) (p := confirmedApply 0) rfl run_confirmedApply
  obtain ⟨m₃, hfreed⟩ := hstarted.alone (i := 1) (p := lateApply) rfl run_lateApply
  have hrunning : Running slotFreed 1 :=
    ⟨{ confirmedRow with status := .running, stage := some .applying, agent := some "agent", startedAt := some 0 },
      rfl, rfl, rfl⟩
  exact ⟨_, _, hstarted, rfl, run_lateApply, hfreed, hrunning, rfl, rfl⟩

end TaskFleet.Tenure
