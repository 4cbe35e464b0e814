/-
  TaskFleet.Proofs.Dispatch.LocalEndings — a local run leaves its task finished, whatever its engine
  did.

  Here the engine is a parameter: any program that never crashes and touches nothing of the store
  but the row of the task, by valid updates. It answers that all went well, or with an error, or not
  in time. The pods, the queue and the jobs are the run's own meanwhile.
  - `runLocalBy`: a local run, given its engine; `runLocal_eq_by`, `works_work`: the executors of
    this machine are such engines.
  - `ends_failIfStillRunning`, `ends_onTaskCompleted`: the two things that follow the engine's work,
    each with all that it does.
  - `local_runs_finalize`: what a local run makes of the row that the engine left.
-/

import TaskFleet.Proofs.Capacity.FreedSlots
import TaskFleet.Proofs.Dispatch.LocalRuns
import TaskFleet.Proofs.Store.TaskWrites

namespace TaskFleet.LocalRuns

open Dispatch Fallible Program

variable {cfg : Settings} {start : CommandSpec → Task → AgentAction → ProgramEnd} {t u : Task} {id : UInt64} {n : Nat}
  {w w₁ w' : World} {s s' : Store} {α : Type}

/-! ## Engines -/

/-- The row of a task is updated: it is still the row of that task, and its status is at most one
    move of the table away. -/
def Update (id : UInt64) (s s' : Store) : Prop :=
  ∃ change u', (∀ t t' : Task, change t = .ok t' → t'.id = t.id ∧ (t'.status = t.status ∨ t.status.canMove t'.status = true)) ∧
    s.updateTask id change = .ok (u', s')

/-- The world goes on, with the pods, the queue and the jobs as they are, and the clock never turned
    back. -/
structure Passes (w w' : World) : Prop where
  capacity : w'.capacity = w.capacity
  queue : w'.queue = w.queue
  spawned : w'.spawned = w.spawned
  clock : w.clock ≤ w'.clock

theorem Passes.trans (h : Passes w w₁) (h' : Passes w₁ w') : Passes w w' :=
  ⟨h'.capacity.trans h.capacity, h'.queue.trans h.queue, h'.spawned.trans h.spawned, UInt64.le_trans h.clock h'.clock⟩

theorem passes_refl (w : World) : Passes w w := ⟨rfl, rfl, rfl, UInt64.le_refl _⟩

/-- What an engine may do: update the row of its task, again and again. -/
structure Works (id : UInt64) (w w' : World) : Prop extends Passes w w' where
  updates : Relation.ReflTransGen (Update id) w.store w'.store

instance : IsPreorder World (Works id) where
  refl w := ⟨passes_refl w, .refl⟩
  trans _ _ _ h h' := ⟨h.toPasses.trans h'.toPasses, h.updates.trans h'.updates⟩

/-- What others may do meanwhile. -/
structure ByOthers (w w' : World) : Prop extends Passes w w' where
  store : w'.store = w.store

instance : IsPreorder World ByOthers where
  refl w := ⟨passes_refl w, rfl⟩
  trans _ _ _ h h' := ⟨h.toPasses.trans h'.toPasses, h'.store.trans h.store⟩

theorem ByOthers.works (h : ByOthers w w') : Works id w w' := ⟨h.toPasses, by rw [h.store]⟩

/-- A local run whose engine is this program. The engine answers with nothing if it did not return
    in time. -/
def runLocalBy (engine : Program World (Option (Except LocalError Unit))) (cfg : Settings) (t : Task) : Program World Unit :=
  engine >>= finish cfg t

theorem runLocal_eq_by (cfg : Settings) (start : CommandSpec → Task → AgentAction → ProgramEnd) (t : Task) :
    runLocal cfg start t = runLocalBy (Program.apply (work start t)) cfg t := runLocal_eq cfg start t

/-- The executor of this machine is such an engine. -/
theorem works_work (start : CommandSpec → Task → AgentAction → ProgramEnd) (t : Task) :
    (Program.apply (work start t)).Calm (Works t.id) := by
  refine calm_apply fun w => ?_
  unfold work
  cases hwork : w.executor.execute start (localAction t) t w.now w.store with
  | none => exact refl w
  | some r =>
    obtain ⟨result, store⟩ := r
    refine ⟨⟨rfl, rfl, rfl, UInt64.le_refl _⟩, ?_⟩
    cases Store.oneChange_execute hwork with
    | untouched => exact .refl
    | change change hmild hr =>
      exact .single ⟨change, _, fun u u' h => ⟨(hmild u u' h).id, (hmild u u' h).move⟩, hr⟩

/-! ## The row of the task -/

/-- The store has the row of the task. -/
def HasRow (id : UInt64) (u : Task) (s : Store) : Prop := s.task? id = .ok (some u) ∧ u.id = id

/-- The store with a row of the task in the place of the one before. -/
def withRow (s : Store) (id : UInt64) (u : Task) : Store := { s with tasks := s.tasks.insert (taskKey id) (.record u) }

theorem hasRow_withRow (s : Store) (h : u.id = id) : HasRow id u (withRow s id u) :=
  ⟨Store.task?_eq_some_iff.2 (Table.get?_insert_self _ _ _), h⟩

theorem HasRow.update (h : HasRow id u s) (hu : Update id s s') : ∃ u', HasRow id u' s' := by
  obtain ⟨change, u', hvalid, hok⟩ := hu
  obtain ⟨u₀, hrow, hchange, rfl⟩ := Store.updateTask_ok_iff.1 hok
  rw [h.1] at hrow
  cases hrow
  exact ⟨u', hasRow_withRow s ((hvalid u u' hchange).1.trans h.2)⟩

theorem HasRow.updates (h : ∃ u, HasRow id u s) (hu : Relation.ReflTransGen (Update id) s s') :
    ∃ u', HasRow id u' s' := by
  induction hu with
  | refl => exact h
  | tail _ hlast ih =>
    obtain ⟨u, hu⟩ := ih
    exact hu.update hlast

/-! ## The end of the engine's work -/

/-- What is said about a task that an engine left running. -/
def verdict (cfg : Settings) : Option (Except LocalError Unit) → String
  | some (.ok ()) => noFinalStatus
  | some (.error e) => e.message
  | none => timedOut cfg.dispatch.localTimeout

theorem ends_failureOf {result : Option (Except LocalError Unit)} {r : Except String (Option String)}
    (he : Ends ByOthers n (failureOf cfg result) w r w') :
    ∃ failure, r = .ok failure ∧ failure.getD noFinalStatus = verdict cfg result ∧ ByOthers w w' := by
  match result with
  | some (.ok ()) =>
    obtain ⟨-, rfl, hw⟩ := ends_done he
    exact ⟨none, rfl, rfl, hw⟩
  | some (.error e) =>
    obtain ⟨-, rfl, hw⟩ := ends_done he
    exact ⟨some e.message, rfl, rfl, hw⟩
  | none =>
    -- the alarm and the wait for it
    have hsleep : (Program.sleep cfg.dispatch.localTimeout).Calm ByOthers :=
      (calm_apply fun w => ⟨⟨rfl, rfl, rfl, UInt64.le_refl _⟩, rfl⟩).bind fun _ => calm_waitFor _
    obtain ⟨n₁, n₂, _, w₁, -, hw₁, -, he⟩ := hsleep.bind_ends he fun _ _ h => h
    obtain ⟨-, rfl, hw⟩ := ends_done he
    exact ⟨_, rfl, rfl, trans_of ByOthers hw₁ hw⟩

/-- The row of a task that an engine left running, once the run has failed it. -/
def failedRow (u : Task) (message : String) (now : UInt64) : Task :=
  { u with
    status := .failed
    errorMessage := some (u.errorMessage.getD message)
    completedAt := some now
    lease := none }

theorem failIfRunning_eq (message : String) (now : UInt64) (h : u.status = .running) :
    Task.failIfRunning message now u = .ok (failedRow u message now) := by
  unfold Task.failIfRunning
  rw [if_neg (by simp [h])]
  exact Store.conclude_ok_iff.2 ⟨by rw [h]; rfl, rfl⟩

/-- What the run makes of the row: a running one fails, any other is kept. -/
def Settles (id : UInt64) (message : String) (u final : Task) (w w' : World) : Prop :=
  (u.status ≠ .running ∧ final = u ∧ w'.store = w.store) ∨
    u.status = .running ∧ w'.store = withRow w.store id final ∧
      ∃ clock, w.clock ≤ clock ∧ clock ≤ w'.clock ∧ final = failedRow u message (clock / 1000)

theorem ends_failIfStillRunning {failure : Option String} {r : Except String (Except DispatchError Unit)}
    (hu : HasRow id u w.store) (he : Ends ByOthers n (failIfStillRunning id failure).run w r w') :
    ∃ answer final, r = .ok answer ∧ HasRow id final w'.store ∧ Settles id (failure.getD noFinalStatus) u final w w' ∧
      Passes w w' := by
  rcases ends_readStore_bind he with ⟨e, ⟨w₁, hw₁, hread⟩, -, -⟩ | ⟨n₁, found, w₁, -, hw₁, hread, he⟩
  · rw [hw₁.store, hu.1] at hread
    cases hread
  rw [hw₁.store, hu.1] at hread
  cases hread
  simp only at he
  split at he
  · next hruns =>
    rw [run_always_bind] at he
    obtain ⟨n₂, w₂, -, hw₂, he⟩ := he.get_bind
    rw [run_ofResult_bind, map_eq_pure_bind, LawfulMonad.bind_assoc] at he
    obtain ⟨n₃, w₃, hw₃, hend⟩ := ends_transact_bind he
    have hstart : ByOthers w w₃ := trans_of ByOthers (trans_of ByOthers hw₁ hw₂) hw₃
    have hupdate : w₃.store.updateTask id (Task.failIfRunning (failure.getD noFinalStatus) w₂.now) =
        .ok (failedRow u (failure.getD noFinalStatus) w₂.now, withRow w₃.store id (failedRow u (failure.getD noFinalStatus) w₂.now)) :=
      Store.updateTask_ok_iff.2 ⟨u, by rw [hstart.store]; exact hu.1, failIfRunning_eq _ _ hruns, rfl⟩
    rcases hend with ⟨a, store, hok, he⟩ | ⟨e, herr, -⟩
    · rw [hupdate] at hok
      cases hok
      obtain ⟨-, hr, hw'⟩ := ends_done he
      have hclock : w.clock ≤ w₂.clock := UInt64.le_trans hw₁.clock hw₂.clock
      refine ⟨_, failedRow u (failure.getD noFinalStatus) w₂.now, hr, ?_, .inr ⟨hruns, ?_, w₂.clock, hclock, ?_, rfl⟩, ?_⟩
      · rw [hw'.store]
        exact hasRow_withRow _ hu.2
      · rw [hw'.store, hstart.store]
      · exact UInt64.le_trans hw₃.clock hw'.clock
      · exact hstart.toPasses.trans ⟨hw'.capacity, hw'.queue, hw'.spawned, hw'.clock⟩
    · rw [hupdate] at herr
      cases herr
  · next hstopped =>
    obtain ⟨-, hr, hw'⟩ := ends_done he
    have hall : ByOthers w w' := trans_of ByOthers hw₁ hw'
    exact ⟨_, u, hr, by rw [hall.store]; exact hu, .inl ⟨hstopped, rfl, hall.store⟩, hall.toPasses⟩

/-! ## What follows -/

/-- A slot that the task has is of a kind afterwards, and every other slot is as it was. -/
def SlotLeft (P : Slot → Prop) (id : UInt64) (c c' : Capacity) : Prop :=
  (∀ p, c.placementOf? id = some p → ∃ s, c'.slotAt p.spot = some s ∧ P s) ∧
    ∀ x, (∀ p, c.placementOf? id = some p → x ≠ p.spot) → c'.slotAt x = c.slotAt x

/-- The slot is kept for the task. -/
def KeptFor (id : UInt64) (s : Slot) : Prop := s.status = .reserved ∧ s.task = some id

theorem slotLeft_none {P : Slot → Prop} {c : Capacity} (h : c.placementOf? id = none) : SlotLeft P id c c := by
  refine ⟨fun p hp => ?_, fun _ _ => rfl⟩
  rw [h] at hp
  cases hp

theorem slotLeft_modifySlot {P : Slot → Prop} {c : Capacity} {p : Placement} {s : Slot} {f : Slot → Slot}
    (hp : c.placementOf? id = some p) (hs : c.slotAt p.spot = some s) (hf : P (f s)) :
    SlotLeft P id c (c.modifySlot p.pod p.slot f) := by
  constructor
  · intro q hq
    rw [hp] at hq
    cases hq
    exact ⟨f s, Capacity.slotAt_modifySlot_self (y := p.spot) hs, hf⟩
  · intro x hx
    exact Capacity.slotAt_modifySlot_of_ne (y := p.spot) (hx p hp)

/-- A task that has a slot is on it. -/
theorem slotAt_of_placementOf? {c : Capacity} {p : Placement} (hn : c.Named) (hp : c.placementOf? id = some p) :
    ∃ s, c.slotAt p.spot = some s ∧ s.task = some id :=
  Option.bind_eq_some_iff.1 (Capacity.taskAt_of_placementOf? hn hp)

/-- The slot of a task is changed, in a call that runs alone among the pods: the one that is found is
    the one that is changed. -/
theorem ends_slotLeft {P : Slot → Prop} {edit : UInt64 → Slot → Slot} {r : Except String (Except CapacityError Bool)}
    (hn : w.capacity.Named) (hP : ∀ now s, P (edit now s))
    (he : Ends ByOthers n (Capacity.editSlotOf id fun p c now => c.setSlot p.pod p.slot (edit now)).run w r w') :
    (∃ answer, r = .ok answer) ∧ w'.store = w.store ∧ w'.queue = w.queue ∧ w'.spawned = w.spawned ∧ w.clock ≤ w'.clock ∧
      SlotLeft P id w.capacity w'.capacity := by
  rcases Capacity.ends_editSlotOf (fun _ _ h => h.capacity) he with ⟨hnone, hr, hw⟩ | ⟨p, w₁, hp, hw₁, hchange⟩
  · exact ⟨⟨_, hr⟩, hw.store, hw.queue, hw.spawned, hw.clock, hw.capacity.symm ▸ slotLeft_none hnone⟩
  obtain ⟨s, hs, -⟩ := slotAt_of_placementOf? hn hp
  have hset := Capacity.setSlot_eq (x := p.spot) (f := edit w₁.now) hs
  rcases hchange with ⟨c, hc, hr, hw'⟩ | ⟨e, herror, -, -⟩
  · cases hset.symm.trans hc
    refine ⟨⟨_, hr⟩, hw'.store.trans hw₁.store, hw'.queue.trans hw₁.queue, hw'.spawned.trans hw₁.spawned,
      UInt64.le_trans hw₁.clock hw'.clock, ?_⟩
    rw [hw'.capacity]
    exact slotLeft_modifySlot hp hs (hP w₁.now s)
  · cases hset.symm.trans herror

/-- Whether a task that is over has this told to the outside. -/
def Fires : Hook → Task → Prop
  | .runTriggers, t => t.status = .applied
  | .driftResult, t => t.kind = .driftCheck
  | .inventorySync, t => t.kind = .planAndApply ∧ (t.status = .applied ∨ t.status = .failed)

theorem mem_hooks (hook : Hook) (t : Task) : hook ∈ t.hooks ↔ Fires hook t := by
  unfold Task.hooks
  cases hook <;> simp [Fires]

theorem nodup_hooks (t : Task) : t.hooks.Nodup := by
  unfold Task.hooks
  by_cases happlied : t.status = .applied
  · by_cases hdrift : t.kind = .driftCheck
    · simp [happlied, hdrift]
    · by_cases hexclusive : t.kind = .planAndApply <;> simp [happlied, hdrift, hexclusive]
  · by_cases hdrift : t.kind = .driftCheck
    · simp [happlied, hdrift]
    · by_cases hsync : t.kind = .planAndApply ∧ t.status = .failed <;> simp [happlied, hdrift, hsync]

/-- What follows once the row of the task is as it is to be. A task that is over gives its slot
    back, has every hook that is due fired once, and its workspace is due; a task that waits for its
    apply keeps its slot, and nothing is queued. -/
structure WindsUp (id : UInt64) (u : Task) (w w' : World) : Prop where
  done : u.status.isTerminal = true →
    SlotLeft Slot.IsFree id w.capacity w'.capacity ∧
    (∃ fired : List Hook, w'.spawned = w.spawned ++ fired.map (.fireHook · id) ∧ fired.Nodup ∧
      ∀ hook, hook ∈ fired ↔ Fires hook u) ∧
    (∃ d, w'.queue.deadline? u.workspace = some d ∧ d ≤ w'.clock) ∧
    ∀ name, name ≠ u.workspace → w'.queue.deadline? name = w.queue.deadline? name
  waiting : u.status = .applyPending →
    SlotLeft (KeptFor id) id w.capacity w'.capacity ∧ w'.queue = w.queue ∧ w'.spawned = w.spawned
  pending : u.status = .pending → w'.capacity = w.capacity ∧ w'.queue = w.queue ∧ w'.spawned = w.spawned

theorem WindsUp.after (h : WindsUp id u w₁ w') (hw : Passes w w₁) : WindsUp id u w w' := by
  obtain ⟨hover, hwaiting, hpending⟩ := h
  rw [hw.capacity, hw.queue, hw.spawned] at hover hwaiting hpending
  exact ⟨hover, hwaiting, hpending⟩

theorem WindsUp.before (h : WindsUp id u w w₁) (hw : Passes w₁ w') : WindsUp id u w w' where
  done := fun hover => by
    obtain ⟨hslot, hfired, ⟨d, hd, hdue⟩, hothers⟩ := h.done hover
    rw [hw.capacity, hw.queue, hw.spawned]
    exact ⟨hslot, hfired, ⟨d, hd, UInt64.le_trans hdue hw.clock⟩, hothers⟩
  waiting := fun hwait => by
    rw [hw.capacity, hw.queue, hw.spawned]
    exact h.waiting hwait
  pending := fun hpending => by
    rw [hw.capacity, hw.queue, hw.spawned]
    exact h.pending hpending

/-- The call for a task that is at this row: it answers, whatever it answers, and leaves all rows alone. -/
structure Completes (id : UInt64) (u : Task) (w : World) (r : Except String (Except DispatchError Unit)) (w' : World) : Prop where
  answered : ∃ answer, r = .ok answer
  store : w'.store = w.store
  clock : w.clock ≤ w'.clock
  closes : WindsUp id u w w'

theorem Completes.after {r : Except String (Except DispatchError Unit)} (h : Completes id u w₁ r w')
    (hw : ByOthers w w₁) :
    Completes id u w r w' :=
  ⟨h.answered, h.store.trans hw.store, UInt64.le_trans hw.clock h.clock, h.closes.after hw.toPasses⟩

/-- A part of a run whose failure is ignored, and which does not crash. -/
theorem ends_ignoring_bind {ε β : Type} {p : Fallible ε α} {k : Unit → Program World β} {r : Except String β}
    (hp : ∀ n w' r, Ends ByOthers n p.run w r w' → ∃ answer, r = .ok answer)
    (he : Ends ByOthers n (ignoring p >>= k) w r w') :
    ∃ n₁ n₂ answer w₁, Ends ByOthers n₁ p.run w (.ok answer) w₁ ∧ Ends ByOthers n₂ (k ()) w₁ r w' := by
  unfold Fallible.ignoring at he
  simp only [LawfulMonad.bind_assoc, pure_bind] at he
  rcases he.bind with ⟨m, -, hcrash⟩ | ⟨n₁, n₂, answer, w₁, -, hend, hrest⟩
  · obtain ⟨_, hr⟩ := hp _ _ _ hcrash
    cases hr
  · exact ⟨n₁, n₂, answer, w₁, hend, hrest⟩

theorem ends_keepsSlot {r : Except String (Except DispatchError Unit)} (hn : w.capacity.Named) (hst : u.status = .applyPending)
    (he : Ends ByOthers n (ExceptT.run (always (ignoring (Capacity.reserveTask id)))) w r w') :
    Completes id u w r w' := by
  rw [run_always, map_eq_pure_bind] at he
  have hkept : ∀ now (s : Slot), KeptFor id (s.bind .reserved id .planAndApply now) := fun _ _ => ⟨rfl, rfl⟩
  obtain ⟨n₁, n₂, _, w₁, hreserve, he⟩ := ends_ignoring_bind (fun _ _ _ h => (ends_slotLeft hn hkept h).1) he
  obtain ⟨-, hstore, hqueue, hspawned, hclock, hleft⟩ := ends_slotLeft hn hkept hreserve
  obtain ⟨-, hr, hw'⟩ := ends_done he
  refine ⟨⟨_, hr⟩, hw'.store.trans hstore, UInt64.le_trans hclock hw'.clock, ?_, ?_, ?_⟩
  · intro hover
    rw [hst] at hover
    cases hover
  · intro _
    exact ⟨hw'.capacity ▸ hleft, hw'.queue.trans hqueue, hw'.spawned.trans hspawned⟩
  · intro hpending
    rw [hst] at hpending
    cases hpending

theorem ends_givesBack {r : Except String (Except DispatchError Unit)} (hn : w.capacity.Named) (hid : u.id = id)
    (hover : u.status.isTerminal = true)
    (he : Ends ByOthers n (ExceptT.run do
      always (ignoring (Capacity.releaseTask id))
      always (Program.modify fun w => u.hooks.foldl (fun w hook => w.spawn (.fireHook hook u.id)) w)
      always (Program.modify (·.trigger u.workspace))) w r w') : Completes id u w r w' := by
  rw [run_always_bind] at he
  have hfree : ∀ now (s : Slot), (s.clear now).IsFree := fun now s => Slot.isFree_clear s now
  obtain ⟨n₁, n₂, _, w₁, hrelease, he⟩ := ends_ignoring_bind (fun _ _ _ h => (ends_slotLeft hn hfree h).1) he
  obtain ⟨-, hstore₁, hqueue₁, hspawned₁, hclock₁, hleft⟩ := ends_slotLeft hn hfree hrelease
  rw [run_always_bind] at he
  obtain ⟨n₃, w₂, -, hw₂, he⟩ := he.modify_bind
  rw [run_always, World.spawn_hooks] at he
  obtain ⟨n₄, w₃, -, hw₃, he⟩ := ends_step he
  obtain ⟨-, hr, hw'⟩ := ends_done he
  have hclock : w.clock ≤ w₃.clock := UInt64.le_trans hclock₁ (UInt64.le_trans hw₂.clock hw₃.clock)
  have hstore : w'.store = w.store := hw'.store.trans (hw₃.store.trans (hw₂.store.trans hstore₁))
  refine ⟨⟨_, hr⟩, hstore, UInt64.le_trans hclock hw'.clock, fun _ => ?_, ?_, ?_⟩
  · refine ⟨?_, ⟨u.hooks, ?_, nodup_hooks u, fun hook => mem_hooks hook u⟩, ?_, fun name hname => ?_⟩
    · have hcapacity : w'.capacity = w₁.capacity := hw'.capacity.trans (hw₃.capacity.trans hw₂.capacity)
      rw [hcapacity]
      exact hleft
    · have hspawned : w₂.spawned = w.spawned := hw₂.spawned.trans hspawned₁
      rw [hw'.spawned, ← hspawned, ← hid]
      exact hw₃.spawned
    · obtain ⟨d, hd, hdue⟩ := World.due_trigger w₃ u.workspace
      rw [hw'.queue]
      exact ⟨d, hd, UInt64.le_trans hdue hw'.clock⟩
    · have hqueue : w₃.queue = w.queue := hw₃.queue.trans (hw₂.queue.trans hqueue₁)
      rw [hw'.queue, ← hqueue]
      exact World.deadline?_trigger_of_ne (Ne.symm hname)
  · intro hwait
    rw [hwait] at hover
    cases hover
  · intro hpending
    rw [hpending] at hover
    cases hover

theorem ends_onTaskCompleted {r : Except String (Except DispatchError Unit)} (hu : HasRow id u w.store)
    (hn : w.capacity.Named)
    (he : Ends ByOthers n (onTaskCompleted id).run w r w') : Completes id u w r w' := by
  rcases ends_readStore_bind he with ⟨e, ⟨w₁, hw₁, hread⟩, -, -⟩ | ⟨n₁, found, w₁, -, hw₁, hread, he⟩
  · rw [hw₁.store, hu.1] at hread
    cases hread
  rw [hw₁.store, hu.1] at hread
  cases hread
  simp only at he
  have hn₁ : w₁.capacity.Named := by rw [hw₁.capacity]; exact hn
  split at he
  · next hst => exact (ends_keepsSlot hn₁ hst he).after hw₁
  · next hst =>
    split at he
    · next hover => exact (ends_givesBack hn₁ hu.2 hover he).after hw₁
    · next hnot =>
      obtain ⟨-, hr, hw'⟩ := ends_done he
      have hall : ByOthers w w' := trans_of ByOthers hw₁ hw'
      refine ⟨⟨_, hr⟩, hall.store, hall.clock, fun hover => absurd hover hnot, fun hwait => absurd hwait hst, fun _ => ?_⟩
      exact ⟨hall.capacity, hall.queue, hall.spawned⟩

/-! ## Whole runs -/

theorem Settles.not_running {message : String} {final : Task} (h : Settles id message u final w w') :
    final.status ≠ .running := by
  rcases h with ⟨hstopped, rfl, -⟩ | ⟨-, -, clock, -, -, rfl⟩
  · exact hstopped
  · exact fun h => by cases h

/-- The row is settled somewhere between two worlds. -/
theorem Settles.within {message : String} {final : Task} {w₂ : World} (h : Settles id message u final w₁ w₂)
    (hw : ByOthers w w₁)
    (hstore : w'.store = w₂.store) (hclock : w₂.clock ≤ w'.clock) : Settles id message u final w w' := by
  rcases h with ⟨hstopped, hsame, hkept⟩ | ⟨hruns, hrow, clock, hafter, hbefore, hfinal⟩
  · exact .inl ⟨hstopped, hsame, hstore.trans (hkept.trans hw.store)⟩
  · refine .inr ⟨hruns, ?_, clock, UInt64.le_trans hw.clock hafter, UInt64.le_trans hbefore hclock, hfinal⟩
    rw [hstore, hrow, hw.store]

/-- What a run does once the engine is done. -/
theorem ends_finish {result : Option (Except LocalError Unit)} {r : Except String Unit} (hu : HasRow t.id u w.store)
    (hn : w.capacity.Named) (he : Ends ByOthers n (finish cfg t result) w r w') :
    r = .ok () ∧ ∃ final, HasRow t.id final w'.store ∧ Settles t.id (verdict cfg result) u final w w' ∧
      WindsUp t.id final w w' := by
  rcases he.bind with ⟨m, -, hcrash⟩ | ⟨n₁, n₂, failure, w₁, -, hfailure, he⟩
  · obtain ⟨_, hr, -⟩ := ends_failureOf hcrash
    cases hr
  obtain ⟨_, hr, hmessage, hw₁⟩ := ends_failureOf hfailure
  cases hr
  have hu₁ : HasRow t.id u w₁.store := by rw [hw₁.store]; exact hu
  obtain ⟨n₃, n₄, _, w₂, hfail, he⟩ := ends_ignoring_bind (fun n w' r he => by
    obtain ⟨answer, -, hr, -⟩ := ends_failIfStillRunning hu₁ he
    exact ⟨answer, hr⟩) he
  obtain ⟨-, final, -, hfinal, hsettles, hpasses⟩ := ends_failIfStillRunning hu₁ hfail
  have hpasses : Passes w w₂ := hw₁.toPasses.trans hpasses
  have hn₂ : w₂.capacity.Named := by rw [hpasses.capacity]; exact hn
  rw [← bind_pure (ignoring (onTaskCompleted t.id))] at he
  obtain ⟨n₅, n₆, _, w₃, hcomplete, he⟩ := ends_ignoring_bind (fun n w' r he => (ends_onTaskCompleted hfinal hn₂ he).answered) he
  obtain ⟨-, hstore, hclock, hcloses⟩ := ends_onTaskCompleted hfinal hn₂ hcomplete
  obtain ⟨-, rfl, hw'⟩ := ends_done he
  have hsame : w'.store = w₂.store := hw'.store.trans hstore
  refine ⟨rfl, final, by rw [hsame]; exact hfinal, ?_, (hcloses.after hpasses).before hw'.toPasses⟩
  rw [hmessage] at hsettles
  exact hsettles.within hw₁ hsame (UInt64.le_trans hclock hw'.clock)

/-- A local run ends without a crash, and the task is not running then. A row that the engine left
    running is failed, with the message that is on it, or else with what is to be said of the engine;
    any other row is as the engine left it. What follows goes by the row that is there then. The runs
    on this machine are such runs. -/
theorem local_runs_finalize (cfg : Settings) (start : CommandSpec → Task → AgentAction → ProgramEnd) (t : Task) :
    (runLocal cfg start t = runLocalBy (Program.apply (work start t)) cfg t ∧
      (Program.apply (work start t)).Calm (Works t.id)) ∧
    ∀ engine : Program World (Option (Except LocalError Unit)), engine.Calm (Works t.id) → ∀ n w r w',
      (∃ u, HasRow t.id u w.store) → w.capacity.Named → Ends ByOthers n (runLocalBy engine cfg t) w r w' →
      r = .ok () ∧ ∃ n₁ result w₁ u final, Ends ByOthers n₁ engine w (.ok result) w₁ ∧ Works t.id w w₁ ∧
        HasRow t.id u w₁.store ∧ HasRow t.id final w'.store ∧ final.status ≠ .running ∧
        Settles t.id (verdict cfg result) u final w₁ w' ∧ WindsUp t.id final w₁ w' := by
  refine ⟨⟨runLocal_eq_by cfg start t, works_work start t⟩, fun engine hengine n w r w' hrow hn he => ?_⟩
  obtain ⟨n₁, n₂, result, w₁, -, hworks, hend, he⟩ := hengine.bind_ends he fun _ _ h => h.works
  obtain ⟨u, hu⟩ := HasRow.updates hrow hworks.updates
  obtain ⟨hr, final, hfinal, hsettles, hcloses⟩ := ends_finish hu (by rw [hworks.capacity]; exact hn) he
  exact ⟨hr, n₁, result, w₁, u, final, hend, hworks, hu, hfinal, hsettles.not_running, hsettles, hcloses⟩

/-- A plan is claimed, and the engine is going to leave a message on it and break down. -/
def breakingDown : World where
  store := ({} : Store).setTask plan
  executor := .scripted .breakDownWithMessage
  clock := 60000
where
  plan : Task :=
    { id := 1, workspace := "ws", kind := .plan, status := .running, stage := some .planning, createdAt := 0, startedAt := some 0 }

/-- The run ends, and the plan has failed with the message that the engine left. -/
theorem local_runs_finalize_broken_engine :
    ∃ w' final, (runLocal { holder := "a" } (fun _ _ _ => .notStarted "") breakingDown.plan).run breakingDown =
        (.finished (), w') ∧
      HasRow 1 final w'.store ∧ final.status ≠ .running ∧ final.errorMessage = some "partial output" ∧
      final.completedAt = some 60 ∧ w'.queue.deadline? "ws" = some 60000 := by
  obtain ⟨⟨heq, hworks⟩, hall⟩ := local_runs_finalize { holder := "a" } (fun _ _ _ => .notStarted "") breakingDown.plan
  have hrun : (runLocal { holder := "a" } (fun _ _ _ => .notStarted "") breakingDown.plan).run breakingDown =
      (.finished (), _) := rfl
  obtain ⟨n, hend⟩ := Ends.of_run hrun
  have hnamed : breakingDown.capacity.Named := by
    intro name p hp
    cases hp
  rw [heq] at hend
  obtain ⟨-, -, -, -, -, final, -, -, -, hfinal, hstopped, -⟩ :=
    hall _ hworks n _ _ _ ⟨breakingDown.plan, rfl, rfl⟩ hnamed hend
  refine ⟨_, final, hrun, hfinal, hstopped, ?_⟩
  have hrow := hfinal.1
  cases hrow
  exact ⟨rfl, rfl, rfl⟩

end TaskFleet.LocalRuns
