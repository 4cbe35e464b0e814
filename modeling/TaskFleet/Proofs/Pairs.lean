/-
  TaskFleet.Proofs.Pairs — two programs, each run alone, side by side.

  From related states the runs end alike: both finish with the same value, or both crash with the
  same message, or both wait for others, and the last states are related again. How they are
  related may depend on the value; after a crash and while waiting it may not.
  - `Alike`: two endings; `Pairs`: two programs.
  - `Pairs.bind`, `pairs_get`, `pairs_apply`, …: one rule per building block.
  - `Pairs.bind_run`: the same for programs that may fail, where a failure is a value.
  - `pairs_same`, `pairs_same_of`: a program beside itself, from the same state (`Same`).
-/

import TaskFleet.Proofs.Runs

namespace TaskFleet

namespace Program

variable {σ α β : Type} {P P' : σ → σ → Prop} {M : α → σ → σ → Prop} {Q Q' : β → σ → σ → Prop} {C : σ → σ → Prop}

/-- Two runs end alike, in states related by `Q` if they finished and by `C` if they did not. -/
inductive Alike (Q : β → σ → σ → Prop) (C : σ → σ → Prop) : Ending β × σ → Ending β × σ → Prop
  | finished (b : β) {s t : σ} : Q b s t → Alike Q C (.finished b, s) (.finished b, t)
  | crashed (m : String) {s t : σ} : C s t → Alike Q C (.crashed m, s) (.crashed m, t)
  | stuck {s t : σ} : C s t → Alike Q C (.stuck, s) (.stuck, t)

/-- From states that `P` relates the programs end alike. -/
def Pairs (P : σ → σ → Prop) (p q : Program σ β) (Q : β → σ → σ → Prop) (C : σ → σ → Prop) : Prop :=
  ∀ s t, P s t → Alike Q C (p.run s) (q.run t)

theorem Alike.mono {x y : Ending β × σ} (h : Alike Q C x y) (hQ : ∀ b s t, Q b s t → Q' b s t) : Alike Q' C x y := by
  cases h with
  | finished b h => exact .finished b (hQ b _ _ h)
  | crashed m h => exact .crashed m h
  | stuck h => exact .stuck h

theorem Pairs.mono {p q : Program σ β} (h : Pairs P p q Q C) (hP : ∀ s t, P' s t → P s t)
    (hQ : ∀ b s t, Q b s t → Q' b s t) : Pairs P' p q Q' C := fun s t hst => (h s t (hP s t hst)).mono hQ

theorem Pairs.pre {p q : Program σ β} (h : Pairs P p q Q C) (hP : ∀ s t, P' s t → P s t) : Pairs P' p q Q C :=
  h.mono hP fun _ _ _ h => h

theorem Pairs.post {p q : Program σ β} (h : Pairs P p q Q C) (hQ : ∀ b s t, Q b s t → Q' b s t) : Pairs P p q Q' C :=
  h.mono (fun _ _ h => h) hQ

/-- What is known of the states beforehand. -/
theorem pairs_of {p q : Program σ β} (h : ∀ s t, P s t → Pairs (fun s' t' => s' = s ∧ t' = t) p q Q C) : Pairs P p q Q C :=
  fun s t hst => h s t hst s t ⟨rfl, rfl⟩

/-! ## Building blocks -/

theorem pairs_pure {b : β} (h : ∀ s t, P s t → Q b s t) : Pairs P (pure b) (pure b) Q C :=
  fun s t hst => .finished b (h s t hst)

theorem pairs_crash {m : String} (h : ∀ s t, P s t → C s t) : Pairs P (.crash m) (.crash m) Q C :=
  fun s t hst => .crashed m (h s t hst)

theorem pairs_apply {f g : σ → β × σ} (h : ∀ s t, P s t → (f s).1 = (g t).1 ∧ Q (f s).1 (f s).2 (g t).2) :
    Pairs P (apply f) (apply g) Q C := by
  intro s t hst
  obtain ⟨hvalue, hQ⟩ := h s t hst
  rw [run_apply, run_apply, ← hvalue]
  exact .finished _ hQ

theorem pairs_get {f g : σ → β} (h : ∀ s t, P s t → f s = g t ∧ Q (f s) s t) : Pairs P (get f) (get g) Q C :=
  pairs_apply (f := fun s => (f s, s)) (g := fun s => (g s, s)) h

theorem pairs_modify {f g : σ → σ} {Q : Unit → σ → σ → Prop} (h : ∀ s t, P s t → Q () (f s) (g t)) :
    Pairs P (modify f) (modify g) Q C :=
  pairs_apply (f := fun s => ((), f s)) (g := fun s => ((), g s)) fun s t hst => ⟨rfl, h s t hst⟩

theorem pairs_applyOrCrash {message : String} {f g : σ → Option (β × σ)}
    (h : ∀ s t, P s t → (f s = none ∧ g t = none ∧ C s t) ∨ ∃ b s' t', f s = some (b, s') ∧ g t = some (b, t') ∧ Q b s' t') :
    Pairs P (applyOrCrash message f) (applyOrCrash message g) Q C := by
  intro s t hst
  rcases h s t hst with ⟨hf, hg, hC⟩ | ⟨b, s', t', hf, hg, hQ⟩
  · rw [run_applyOrCrash_none hf, run_applyOrCrash_none hg]
    exact .crashed message hC
  · rw [run_applyOrCrash hf, run_applyOrCrash hg]
    exact .finished b hQ

theorem pairs_waitFor {ready ready' : σ → Bool} {Q : Unit → σ → σ → Prop}
    (h : ∀ s t, P s t → ready s = ready' t ∧ (ready s = true → Q () s t) ∧ C s t) :
    Pairs P (waitFor ready) (waitFor ready') Q C := by
  intro s t hst
  obtain ⟨hready, hQ, hC⟩ := h s t hst
  unfold waitFor
  simp only [run, ← hready]
  split
  · next hr => exact .finished () (hQ hr)
  · exact .stuck hC

theorem Pairs.bind {p q : Program σ α} {k l : α → Program σ β} (hp : Pairs P p q M C)
    (hk : ∀ a, Pairs (M a) (k a) (l a) Q C) : Pairs P (p >>= k) (q >>= l) Q C := by
  intro s t hst
  rw [run_bind, run_bind]
  generalize hx : p.run s = x
  generalize hy : q.run t = y
  have hend := hp s t hst
  rw [hx, hy] at hend
  cases hend with
  | finished a h => exact hk a _ _ h
  | crashed m h => exact .crashed m h
  | stuck h => exact .stuck h

theorem Pairs.map {p q : Program σ α} (f : α → β) (hp : Pairs P p q (fun a => Q (f a)) C) : Pairs P (f <$> p) (f <$> q) Q C := by
  rw [map_eq_pure_bind, map_eq_pure_bind]
  exact hp.bind fun a => pairs_pure fun _ _ h => h

/-- After an attempt, what is related after a crash is related in the same way after a value. -/
theorem Pairs.attempt {p q : Program σ β} (hp : Pairs P p q Q C) :
    Pairs P p.attempt q.attempt (fun r s t => match r with | Except.ok b => Q b s t | Except.error _ => C s t) C := by
  intro s t hst
  rw [run_attempt, run_attempt]
  generalize hx : p.run s = x
  generalize hy : q.run t = y
  have hend := hp s t hst
  rw [hx, hy] at hend
  cases hend with
  | finished b h => exact .finished (Except.ok b) h
  | crashed m h => exact .finished (Except.error m) h
  | stuck h => exact .stuck h

theorem Pairs.andFinally {p q : Program σ β} {f g : σ → σ} (hp : Pairs P p q (fun b s t => Q b (f s) (g t)) C)
    (hC : ∀ s t, C s t → C (f s) (g t)) : Pairs P (p.andFinally (modify f)) (q.andFinally (modify g)) Q C := by
  refine hp.attempt.bind fun r => ?_
  cases r with
  | ok b => exact (pairs_modify (Q := fun _ => Q b) fun s t h => h).bind fun _ => pairs_pure fun _ _ h => h
  | error m => exact (pairs_modify (Q := fun _ => C) hC).bind fun _ => pairs_crash fun _ _ h => h

/-- A program beside itself, from the same state. -/
theorem pairs_same (p : Program σ β) : Pairs (fun s t => s = t) p p (fun _ s t => s = t) (fun s t => s = t) := by
  rintro s _ rfl
  generalize p.run s = x
  obtain ⟨e, s'⟩ := x
  cases e with
  | finished b => exact .finished b rfl
  | crashed m => exact .crashed m rfl
  | stuck => exact .stuck rfl

/-- The same state on both sides, of which something is known. -/
def Same (I : σ → Prop) (s t : σ) : Prop := s = t ∧ I s

/-- A program beside itself, with what is known after a run that finishes. -/
theorem pairs_same_of {p : Program σ β} {I : σ → Prop} {J : β → σ → Prop}
    (h : ∀ s b s', I s → p.run s = (.finished b, s') → J b s') :
    Pairs (Same I) p p (fun b => Same (J b)) fun s t => s = t := by
  rintro s _ ⟨rfl, hI⟩
  have hend := h s
  generalize p.run s = x at hend
  obtain ⟨e, s'⟩ := x
  cases e with
  | finished b => exact .finished b ⟨rfl, hend b s' hI rfl⟩
  | crashed m => exact .crashed m rfl
  | stuck => exact .stuck rfl

/-- Programs that end alike in the same states have the same run. -/
theorem Alike.eq {x y : Ending β × σ} (h : Alike (fun _ s t => s = t) (fun s t => s = t) x y) : x = y := by
  cases h with
  | finished b h => rw [h]
  | crashed m h => rw [h]
  | stuck h => rw [h]

end Program

/-! ## Programs that may fail -/

namespace Fallible

open Program

variable {ε α β : Type} {P : World → World → Prop} {Q : Except ε β → World → World → Prop} {C : World → World → Prop}

theorem pairs_bind {M : Except ε α → World → World → Prop} {p q : Fallible ε α} {k l : α → Fallible ε β}
    (hp : Pairs P p.run q.run M C) (hk : ∀ a, Pairs (M (.ok a)) (k a).run (l a).run Q C)
    (herr : ∀ e s t, M (.error e) s t → Q (.error e) s t) : Pairs P (p >>= k).run (q >>= l).run Q C := by
  rw [run_bind, run_bind]
  refine hp.bind fun r => ?_
  cases r with
  | ok a => exact hk a
  | error e => exact pairs_pure (herr e)

theorem pairs_always {p q : Program World β} (hp : Pairs P p q (fun b => Q (.ok b)) C) :
    Pairs P (always p : Fallible ε β).run (always q : Fallible ε β).run Q C := by
  rw [run_always, run_always]
  exact hp.map _

end Fallible

/-! ## The queue and the locks -/

namespace Program

variable {β : Type} {P : World → World → Prop} {Q : β → World → World → Prop} {C : World → World → Prop} {process : Nat}
  {workspace : String}

/-- At the same time of day, the workspace is queued in both worlds or in neither. -/
theorem pairs_schedule {delay : Duration} {Q : Unit → World → World → Prop} (hclock : ∀ s t, P s t → s.clock = t.clock)
    (h : ∀ s t notBefore, P s t → Q () (s.scheduleAt workspace notBefore) (t.scheduleAt workspace notBefore))
    (hcrash : ∀ s t, P s t → C s t) : Pairs P (schedule workspace delay) (schedule workspace delay) Q C := by
  refine pairs_applyOrCrash fun s t hst => ?_
  have hafter : s.after? delay = t.after? delay := by unfold World.after?; rw [hclock s t hst]
  rw [← hafter]
  cases s.after? delay with
  | none => exact .inl ⟨rfl, rfl, hcrash s t hst⟩
  | some notBefore => exact .inr ⟨(), _, _, rfl, rfl, h s t notBefore hst⟩

/-- A claim is its transaction, and the lease that would end too late is found too long in both worlds. -/
theorem Pairs.claimTask {id : UInt64} {r r' : ClaimRequest} {edit edit' : Task → Task}
    {Q : Except StoreError Claim → World → World → Prop}
    (h : Pairs P (transact (·.claimTask id r edit)) (transact (·.claimTask id r' edit')) Q C)
    (hcrash : ∀ s t, Q (.ok .tooLong) s t → C s t) :
    Pairs P (Program.claimTask id r edit) (Program.claimTask id r' edit') Q C := by
  refine h.bind fun answer => ?_
  match answer with
  | .error e => exact pairs_pure fun _ _ h => h
  | .ok claim =>
    cases claim with
    | tooLong => exact pairs_crash hcrash
    | _ => exact pairs_pure fun _ _ h => h

/-- What is done under a lock, in worlds in which the lock is had by the same process. -/
theorem Pairs.withLock {p q : Program World β} (hp : Pairs P p q Q C)
    (hholds : ∀ s t, P s t → s.locks.holds workspace process = t.locks.holds workspace process)
    (hrequest : ∀ s t, P s t → P { s with locks := s.locks.request workspace process }
      { t with locks := t.locks.request workspace process })
    (hwaits : ∀ s t, P s t → C s t)
    (hrelease : ∀ b s t, Q b s t → Q b { s with locks := s.locks.release workspace process }
      { t with locks := t.locks.release workspace process })
    (hcrash : ∀ s t, C s t → C { s with locks := s.locks.release workspace process }
      { t with locks := t.locks.release workspace process }) :
    Pairs P (Program.withLock process workspace p) (Program.withLock process workspace q) Q C := by
  have hlock : Pairs P (requestLock process workspace) (requestLock process workspace) (fun _ => P) C :=
    (pairs_modify (Q := fun _ => P) hrequest).bind fun _ =>
      pairs_waitFor fun s t hst => ⟨hholds s t hst, fun _ => hst, hwaits s t hst⟩
  exact hlock.bind fun _ => (hp.post hrelease).andFinally hcrash

end Program

end TaskFleet
