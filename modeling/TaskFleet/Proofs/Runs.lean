/-
  TaskFleet.Proofs.Runs — equations that push a run, or the failures of a program, through
  its parts.

  - `run_*_bind`: a program that starts with one step, run alone.
  - `run_always` / `run_ofResult` / `run_throw`: a program that may fail, as a plain one.
  - `run_transact`, `run_onCapacity`, `run_schedule`: one step on the store, the pods or the queue.
  - `run_editSlotOf`: the slot of a task is found and changed while nobody intervenes.
  - `run_onStore`: a program over the store leaves the rest of the world alone.
-/

import TaskFleet.Capacity.Reconcile

namespace TaskFleet

namespace Program

variable {σ α β : Type}

/-! ## Runs -/

@[simp] theorem run_get_bind (f : σ → α) (k : α → Program σ β) (s : σ) : (get f >>= k).run s = (k (f s)).run s := rfl

@[simp] theorem run_modify_bind (f : σ → σ) (k : Unit → Program σ β) (s : σ) :
    (modify f >>= k).run s = (k ()).run (f s) := rfl

@[simp] theorem run_apply_bind (f : σ → α × σ) (k : α → Program σ β) (s : σ) :
    (apply f >>= k).run s = (k (f s).1).run (f s).2 := rfl

@[simp] theorem run_map_get (g : α → β) (f : σ → α) (s : σ) : (g <$> get f).run s = (.finished (g (f s)), s) := rfl

@[simp] theorem run_map_modify (g : Unit → β) (f : σ → σ) (s : σ) :
    (g <$> modify f).run s = (.finished (g ()), f s) := rfl

@[simp] theorem run_map_apply (g : α → β) (f : σ → α × σ) (s : σ) :
    (g <$> apply f).run s = (.finished (g (f s).1), (f s).2) := rfl

theorem run_applyOrCrash {message : String} {f : σ → Option (α × σ)} {a : α} {s s' : σ} (h : f s = some (a, s')) :
    (applyOrCrash message f).run s = (.finished a, s') := by
  unfold applyOrCrash
  rw [run_apply_bind, h]
  rfl

theorem run_applyOrCrash_none {message : String} {f : σ → Option (α × σ)} {s : σ} (h : f s = none) :
    (applyOrCrash message f).run s = (.crashed message, s) := by
  unfold applyOrCrash
  rw [run_apply_bind, h]
  rfl

/-- A first part that ends hands its value and its state on. -/
theorem run_bind_finished {p : Program σ α} {a : α} {s s' : σ} (k : α → Program σ β) (h : p.run s = (.finished a, s')) :
    (p >>= k).run s = (k a).run s' := by rw [run_bind, h]

/-- A first part that crashes is all that runs. -/
theorem run_bind_crashed {p : Program σ α} {m : String} {s s' : σ} (k : α → Program σ β) (h : p.run s = (.crashed m, s')) :
    (p >>= k).run s = (.crashed m, s') := by rw [run_bind, h]

/-- A first part that waits in vain is all that runs. -/
theorem run_bind_stuck {p : Program σ α} {s s' : σ} (k : α → Program σ β) (h : p.run s = (.stuck, s')) :
    (p >>= k).run s = (.stuck, s') := by rw [run_bind, h]

/-- A run of two parts that finishes, seen from its end. -/
theorem of_run_bind {p : Program σ α} {k : α → Program σ β} {b : β} {s s' : σ} (h : (p >>= k).run s = (.finished b, s')) :
    ∃ a s₁, p.run s = (.finished a, s₁) ∧ (k a).run s₁ = (.finished b, s') := by
  rw [run_bind] at h
  generalize hx : p.run s = x at h
  obtain ⟨e, s₁⟩ := x
  cases e with
  | finished a => exact ⟨a, s₁, rfl, h⟩
  | crashed m => cases h
  | stuck => cases h

theorem run_attempt (p : Program σ α) (s : σ) :
    p.attempt.run s =
      match p.run s with
      | (.finished a, s') => (.finished (.ok a), s')
      | (.crashed m, s') => (.finished (.error m), s')
      | (.stuck, s') => (.stuck, s') := by
  induction p generalizing s with
  | done a => rfl
  | crash m => rfl
  | step act next ih => exact ih s (act s)
  | await ready next ih =>
    simp only [attempt, run]
    split
    · exact ih s
    · rfl

theorem run_waitFor {ready : σ → Bool} {s : σ} (h : ready s = true) : (waitFor ready).run s = (.finished (), s) := by
  unfold waitFor run
  rw [if_pos h]
  rfl

theorem run_waitFor_stuck {ready : σ → Bool} {s : σ} (h : ready s = false) : (waitFor ready).run s = (.stuck, s) := by
  unfold waitFor run
  rw [if_neg (by simp [h])]

/-- What is done at the end is done however the program ended. -/
theorem run_andFinally {p : Program σ α} {f : σ → σ} {e : Ending α} {s s' : σ} (he : e ≠ .stuck) (h : p.run s = (e, s')) :
    (p.andFinally (modify f)).run s = (e, f s') := by
  cases e with
  | finished a =>
    have hattempt : p.attempt.run s = (.finished (.ok a), s') := by rw [run_attempt, h]
    exact run_bind_finished _ hattempt
  | crashed m =>
    have hattempt : p.attempt.run s = (.finished (.error m), s') := by rw [run_attempt, h]
    exact run_bind_finished _ hattempt
  | stuck => exact absurd rfl he

end Program

namespace Fallible

variable {ε ε' α β : Type}

/-! ## Failures -/

@[simp] theorem mapError_ok (f : ε → ε') (a : α) : Except.mapError f (.ok a) = .ok a := rfl

@[simp] theorem mapError_error (f : ε → ε') (e : ε) : Except.mapError f (.error e : Except ε α) = .error (f e) := rfl

theorem map_eq_ok_iff {e : Except ε α} {f : α → β} {b : β} : e.map f = .ok b ↔ ∃ a, e = .ok a ∧ f a = b := by
  cases e <;> simp [Except.map]

@[simp] theorem run_always (p : Program World α) : (always p : Fallible ε α).run = Except.ok <$> p := rfl

@[simp] theorem run_ofResult (p : Program World (Except ε α)) : (ofResult p).run = p := rfl

@[simp] theorem run_throw (e : ε) : (throw e : Fallible ε α).run = pure (.error e) := rfl

@[simp] theorem run_pure (a : α) : (pure a : Fallible ε α).run = pure (.ok a) := rfl

theorem run_bind (p : Fallible ε α) (k : α → Fallible ε β) :
    (p >>= k).run = p.run >>= fun r => match r with
      | .ok a => (k a).run
      | .error e => pure (.error e) := rfl

@[simp] theorem run_always_bind (p : Program World α) (k : α → Fallible ε β) :
    (always p >>= k).run = p >>= fun a => (k a).run := by
  rw [run_bind, run_always, map_eq_pure_bind, bind_assoc]
  simp

@[simp] theorem run_ofResult_bind (p : Program World (Except ε α)) (k : α → Fallible ε β) :
    (ofResult p >>= k).run = p >>= fun r => match r with
      | .ok a => (k a).run
      | .error e => pure (.error e) := rfl

/-- A first part that ends well hands its value and its world on. -/
theorem run_bind_ok {p : Fallible ε α} {a : α} {w w' : World} (k : α → Fallible ε β)
    (h : p.run.run w = (.finished (.ok a), w')) : (p >>= k).run.run w = (k a).run.run w' := by
  rw [run_bind, Program.run_bind_finished _ h]

theorem run_always_crashed {p : Program World α} {m : String} {w w' : World} (h : p.run w = (.crashed m, w')) :
    (always p : Fallible ε α).run.run w = (.crashed m, w') := by
  rw [run_always, map_eq_pure_bind]
  exact Program.run_bind_crashed _ h

theorem run_always_finished {p : Program World α} {a : α} {w w' : World} (h : p.run w = (.finished a, w')) :
    (always p : Fallible ε α).run.run w = (.finished (.ok a), w') := by
  rw [run_always, map_eq_pure_bind, Program.run_bind_finished _ h]
  rfl

theorem run_ignoring {p : Fallible ε α} {r : Except ε α} {w w' : World} (h : p.run.run w = (.finished r, w')) :
    (ignoring p).run w = (.finished (), w') :=
  Program.run_bind_finished _ h

end Fallible

/-! ## Steps on a part of the world -/

namespace Program

variable {α : Type} {w : World}

theorem run_transact {f : Store → Except StoreError (α × Store)} {a : α} {store : Store} (h : f w.store = .ok (a, store)) :
    (transact f).run w = (.finished (.ok a), { w with store }) := by
  unfold transact
  rw [run_apply, h]

theorem run_transact_error {f : Store → Except StoreError (α × Store)} {e : StoreError} (h : f w.store = .error e) :
    (transact f).run w = (.finished (.error e), w) := by
  unfold transact
  rw [run_apply, h]

theorem run_onCapacity {f : Capacity → UInt64 → Except CapacityError (α × Capacity)} {a : α} {capacity : Capacity}
    (h : f w.capacity w.now = .ok (a, capacity)) : (onCapacity f).run w = (.finished (.ok a), { w with capacity }) := by
  unfold onCapacity
  rw [run_apply, h]

theorem run_editCapacity {f : Capacity → UInt64 → Except CapacityError Capacity} {capacity : Capacity}
    (h : f w.capacity w.now = .ok capacity) : (editCapacity f).run w = (.finished (.ok ()), { w with capacity }) :=
  run_onCapacity (by rw [h]; rfl)

theorem run_claimTask {id : UInt64} {request : ClaimRequest} {edit : Task → Task} {c : Claim} {store : Store}
    (h : w.store.claimTask id request edit = .ok (c, store)) (hc : c ≠ .tooLong) :
    (claimTask id request edit).run w = (.finished (.ok c), { w with store }) := by
  unfold claimTask
  rw [run_bind_finished _ (run_transact h)]
  cases c with
  | tooLong => exact absurd rfl hc
  | _ => rfl

theorem run_claimTask_tooLong {id : UInt64} {request : ClaimRequest} {edit : Task → Task} {store : Store}
    (h : w.store.claimTask id request edit = .ok (.tooLong, store)) :
    (claimTask id request edit).run w = (.crashed sumTooLarge, { w with store }) := by
  unfold claimTask
  rw [run_bind_finished _ (run_transact h)]
  rfl

theorem run_schedule {workspace : String} {delay : Duration} {notBefore : UInt64} (h : w.after? delay = some notBefore) :
    (schedule workspace delay).run w = (.finished (), w.scheduleAt workspace notBefore) :=
  run_applyOrCrash (by rw [h]; rfl)

theorem run_schedule_none {workspace : String} {delay : Duration} (h : w.after? delay = none) :
    (schedule workspace delay).run w = (.crashed sumTooLarge, w) :=
  run_applyOrCrash_none (by rw [h]; rfl)

end Program

/-! ## The slot of a task -/

namespace Capacity

variable {w : World} {task : UInt64} {f : Placement → Capacity → UInt64 → Except CapacityError Capacity}

theorem run_editSlotOf_none (h : w.capacity.placementOf? task = none) :
    (editSlotOf task f).run.run w = (.finished (.ok false), w) := by
  unfold editSlotOf
  rw [Fallible.run_always_bind, Program.run_get_bind, h]
  rfl

theorem run_editSlotOf {p : Placement} {capacity : Capacity} (h : w.capacity.placementOf? task = some p)
    (hf : f p w.capacity w.now = .ok capacity) :
    (editSlotOf task f).run.run w = (.finished (.ok true), { w with capacity }) := by
  unfold editSlotOf
  rw [Fallible.run_always_bind, Program.run_get_bind, h]
  exact Fallible.run_bind_ok (p := Fallible.ofResult (Program.editCapacity (f p))) _ (Program.run_editCapacity hf)

end Capacity

/-! ## Programs over the store -/

theorem Program.run_onStore {α : Type} (p : Program Store α) (w : World) :
    (onStore p).run w = ((p.run w.store).1, { w with store := (p.run w.store).2 }) := by
  unfold onStore
  induction p generalizing w with
  | done a => rfl
  | crash m => rfl
  | step act next ih => exact ih w.store { w with store := act w.store }
  | await ready next ih =>
    simp only [focus, run]
    split
    · exact ih w
    · rfl

namespace StoreProgram

variable {α β : Type} {s s' : Store}

theorem run_read_bind {f : Store → Except StoreError α} {a : α} (k : α → StoreProgram β) (h : f s = .ok a) :
    (read f >>= k).run.run s = (k a).run.run s := by
  show Program.run (ExceptT.bindCont k (f s)) s = _
  rw [h]
  rfl

theorem run_transaction_bind {f : Store → Except StoreError (α × Store)} {a : α} (k : α → StoreProgram β)
    (h : f s = .ok (a, s')) : (transaction f >>= k).run.run s = (k a).run.run s' := by
  show Program.run (ExceptT.bindCont k _) _ = _
  simp only [h]
  rfl

theorem run_read_bind_error {f : Store → Except StoreError α} {e : StoreError} (k : α → StoreProgram β) (h : f s = .error e) :
    (read f >>= k).run.run s = (.finished (.error e), s) := by
  show Program.run (ExceptT.bindCont k (f s)) s = _
  rw [h]
  rfl

/-- A first part that ends well hands its value and its store on. -/
theorem run_bind_finished {p : StoreProgram α} {a : α} (k : α → StoreProgram β)
    (h : p.run.run s = (.finished (.ok a), s')) : (p >>= k).run.run s = (k a).run.run s' := by
  show (p.run >>= ExceptT.bindCont k).run s = _
  rw [Program.run_bind, h]
  rfl

end StoreProgram

end TaskFleet
