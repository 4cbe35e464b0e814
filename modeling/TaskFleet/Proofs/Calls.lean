/-
  TaskFleet.Proofs.Calls — whole calls, while others take steps between those of the caller.

  A call ends (`Ends`) with a value or a crash in some last state, after a number of steps of
  its own; before, between and after them others change the state as far as a relation lets
  them. Others that may pause and go on form a preorder.
  - `Ends.bind`, `Ends.attempt`, `Ends.get_bind`, …: one rule per building block, each of which
    names the states in the middle.
  - `Calm`: programs that never crash and of which every step is of a kind; such a call ends
    with a value, and what every step and everybody else keeps is kept by it (`Calm.ends`).
  - `Steps.ends`: the same for calls that may crash, without the value; `Steps.run`: for runs.
  - `Ends.of_run`, `Ends.run_eq`: a call that nobody interrupts; `Ends.focus`: a call on a part of the state
    that others leave alone.
  - `Composes`: a property of programs that holds of a sequence if it holds of its parts.
  - `SamePods`, `SameStore`, `Elsewhere`, `SameSurroundings`: what calls, or others in them, leave
    alone.
-/

import Mathlib.Order.Defs.Unbundled
import TaskFleet.Proofs.Interleaving

namespace TaskFleet

namespace Program

variable {σ α β : Type} {others others' R : σ → σ → Prop} {n : Nat} {s s' : σ}

/-- The program ends as told, in so many steps of its own, while others change the state. -/
inductive Ends (others : σ → σ → Prop) : Nat → Program σ α → σ → Except String α → σ → Prop
  | done (a : α) (s : σ) : Ends others 0 (.done a) s (.ok a) s
  | crash (m : String) (s : σ) : Ends others 0 (.crash m) s (.error m) s
  | step {n : Nat} {act : σ → σ} {next : σ → Program σ α} {s s' : σ} {r : Except String α} :
      Ends others n (next s) (act s) r s' → Ends others (n + 1) (.step act next) s r s'
  | await {n : Nat} {ready : σ → Bool} {next : Program σ α} {s s' : σ} {r : Except String α} : ready s = true →
      Ends others n next s r s' → Ends others (n + 1) (.await ready next) s r s'
  | other {n : Nat} {p : Program σ α} {s s₁ s' : σ} {r : Except String α} : others s s₁ →
      Ends others n p s₁ r s' → Ends others n p s r s'

theorem Ends.mono {p : Program σ α} {r : Except String α} (h : Ends others n p s r s')
    (hle : ∀ s s', others s s' → others' s s') : Ends others' n p s r s' := by
  induction h with
  | done a s => exact .done a s
  | crash m s => exact .crash m s
  | step _ ih => exact .step ih
  | await hready _ ih => exact .await hready ih
  | other ho _ ih => exact .other (hle _ _ ho) ih

/-- What others do at the end is part of the call. -/
theorem Ends.after {p : Program σ α} {r : Except String α} {s₁ : σ} (h : Ends others n p s r s₁) (ho : others s₁ s') :
    Ends others n p s r s' := by
  induction h with
  | done a s => exact .other ho (.done a s')
  | crash m s => exact .other ho (.crash m s')
  | step _ ih => exact .step (ih ho)
  | await hready _ ih => exact .await hready (ih ho)
  | other hfirst _ ih => exact .other hfirst (ih ho)

/-- A program that is run to its end with nobody else at work. -/
theorem Ends.of_run {p : Program σ α} {a : α} (h : p.run s = (.finished a, s')) : ∃ n, Ends others n p s (.ok a) s' := by
  induction p generalizing s with
  | done b => cases h; exact ⟨0, .done _ _⟩
  | crash m => cases h
  | step act next ih =>
    obtain ⟨n, hn⟩ := ih s h
    exact ⟨n + 1, .step hn⟩
  | await ready next ih =>
    unfold run at h
    split at h
    · next hready =>
      obtain ⟨n, hn⟩ := ih h
      exact ⟨n + 1, .await hready hn⟩
    · cases h

/-- A run that waits for nobody has ended, perhaps with a crash. -/
theorem Ends.of_run_ended {p : Program σ α} {e : Ending α} (h : p.run s = (e, s')) (he : e ≠ .stuck) :
    ∃ n r, Ends others n p s r s' := by
  induction p generalizing s with
  | done b => cases h; exact ⟨0, _, .done _ _⟩
  | crash m => cases h; exact ⟨0, _, .crash _ _⟩
  | step act next ih =>
    obtain ⟨n, r, hn⟩ := ih s h
    exact ⟨n + 1, r, .step hn⟩
  | await ready next ih =>
    unfold run at h
    split at h
    · next hready =>
      obtain ⟨n, r, hn⟩ := ih h
      exact ⟨n + 1, r, .await hready hn⟩
    · cases h; exact absurd rfl he

/-- A call in which the others do nothing is a run. -/
theorem Ends.run_eq {p : Program σ α} {a : α} (h : Ends Eq n p s (.ok a) s') : p.run s = (.finished a, s') := by
  generalize hr : Except.ok a = r at h
  induction h with
  | done b s => cases hr; rfl
  | crash m s => cases hr
  | step _ ih => exact ih hr
  | await hready _ ih =>
    unfold run
    rw [if_pos hready]
    exact ih hr
  | other ho _ ih => exact ho ▸ ih hr

/-! ## Calm programs -/

/-- The program never crashes, and every step that may change the state is of a kind. -/
def Calm (S : σ → σ → Prop) : Program σ α → Prop
  | .done _ => True
  | .crash _ => False
  | .step act next => ∀ s, S s (act s) ∧ (next s).Calm S
  | .await _ next => next.Calm S

theorem Calm.bind {p : Program σ α} {k : α → Program σ β} (hp : p.Calm R) (hk : ∀ a, (k a).Calm R) : (p >>= k).Calm R := by
  show (p.bind k).Calm R
  induction p with
  | done a => exact hk a
  | crash m => exact hp.elim
  | step act next ih => intro s; exact ⟨(hp s).1, ih s (hp s).2⟩
  | await ready next ih => exact ih hp

theorem calm_pure (a : α) : (pure a : Program σ α).Calm R := trivial

theorem Calm.map {p : Program σ α} (f : α → β) (hp : p.Calm R) : (f <$> p).Calm R := hp.bind fun _ => trivial

theorem calm_get (hR : ∀ s, R s s) (f : σ → α) : (get f).Calm R := fun s => ⟨hR s, trivial⟩

theorem calm_modify {f : σ → σ} (hf : ∀ s, R s (f s)) : (modify f).Calm R := fun s => ⟨hf s, trivial⟩

theorem calm_apply {f : σ → α × σ} (hf : ∀ s, R s (f s).2) : (apply f).Calm R := fun s => ⟨hf s, trivial⟩

theorem calm_waitFor (ready : σ → Bool) : (waitFor ready).Calm R := trivial

theorem Calm.forEach {p : α → Program σ Unit} (hp : ∀ a, (p a).Calm R) (l : List α) : (Program.forEach p l).Calm R := by
  induction l with
  | nil => trivial
  | cons a l ih => exact (hp a).bind fun _ => ih

theorem Calm.mono {R' : σ → σ → Prop} {p : Program σ α} (hp : p.Calm R) (hle : ∀ s s', R s s' → R' s s') : p.Calm R' := by
  induction p with
  | done a => trivial
  | crash m => exact hp.elim
  | step act next ih => intro s; exact ⟨hle _ _ (hp s).1, ih s (hp s).2⟩
  | await ready next ih => exact ih hp

theorem Calm.ends [IsPreorder σ R] {p : Program σ α} {r : Except String α} (hp : p.Calm R) (h : Ends others n p s r s')
    (ho : ∀ s s', others s s' → R s s') : ∃ a, r = .ok a ∧ R s s' := by
  induction h with
  | done a s => exact ⟨a, rfl, refl s⟩
  | crash m s => exact hp.elim
  | step _ ih =>
    obtain ⟨a, rfl, hR⟩ := ih (hp _).2
    exact ⟨a, rfl, trans_of R (hp _).1 hR⟩
  | await _ _ ih => exact ih hp
  | other hother _ ih =>
    obtain ⟨a, rfl, hR⟩ := ih hp
    exact ⟨a, rfl, trans_of R (ho _ _ hother) hR⟩

/-- What every step and everybody else keeps is kept by the whole call. -/
theorem Steps.ends [IsPreorder σ R] {p : Program σ α} {r : Except String α} (hp : p.Steps R) (h : Ends others n p s r s')
    (ho : ∀ s s', others s s' → R s s') : R s s' := by
  induction h with
  | done a s => exact refl s
  | crash m s => exact refl s
  | step _ ih => exact trans_of R (hp _).1 (ih (hp _).2)
  | await _ _ ih => exact ih hp
  | other hother _ ih => exact trans_of R (ho _ _ hother) (ih hp)

/-- What every step keeps is kept by a run with nobody else at work. -/
theorem Steps.run [IsPreorder σ R] {p : Program σ α} {e : Ending α} (hp : p.Steps R) (h : p.run s = (e, s')) : R s s' := by
  induction p generalizing s with
  | done a => cases h; exact refl _
  | crash m => cases h; exact refl _
  | step act next ih => exact trans_of R (hp s).1 (ih s (hp s).2 h)
  | await ready next ih =>
    unfold Program.run at h
    split at h
    · exact ih hp h
    · cases h; exact refl _

/-! ## Inversion -/

section

variable [IsPreorder σ others]

theorem ends_done {a : α} {r : Except String α} (h : Ends others n (.done a) s r s') :
    n = 0 ∧ r = .ok a ∧ others s s' := by
  generalize hp : (Program.done a : Program σ α) = p at h
  induction h with
  | done b s => cases hp; exact ⟨rfl, rfl, refl s⟩
  | other ho _ ih =>
    obtain ⟨hn, hr, ho'⟩ := ih hp
    exact ⟨hn, hr, trans_of others ho ho'⟩
  | crash m s => cases hp
  | step _ _ => cases hp
  | await _ _ _ => cases hp

theorem ends_crash {m : String} {r : Except String α} (h : Ends others n (.crash m) s r s') :
    n = 0 ∧ r = .error m ∧ others s s' := by
  generalize hp : (Program.crash m : Program σ α) = p at h
  induction h with
  | crash m s => cases hp; exact ⟨rfl, rfl, refl s⟩
  | other ho _ ih =>
    obtain ⟨hn, hr, ho'⟩ := ih hp
    exact ⟨hn, hr, trans_of others ho ho'⟩
  | done a s => cases hp
  | step _ _ => cases hp
  | await _ _ _ => cases hp

theorem ends_step {act : σ → σ} {next : σ → Program σ α} {r : Except String α}
    (h : Ends others n (.step act next) s r s') :
    ∃ k s₁, n = k + 1 ∧ others s s₁ ∧ Ends others k (next s₁) (act s₁) r s' := by
  generalize hp : Program.step act next = p at h
  induction h with
  | step hnext _ => cases hp; exact ⟨_, _, rfl, refl _, hnext⟩
  | other ho _ ih =>
    obtain ⟨k, s₁, hk, ho₁, hnext⟩ := ih hp
    exact ⟨k, s₁, hk, trans_of others ho ho₁, hnext⟩
  | done a s => cases hp
  | crash m s => cases hp
  | await _ _ _ => cases hp

theorem ends_await {ready : σ → Bool} {next : Program σ α} {r : Except String α}
    (h : Ends others n (.await ready next) s r s') :
    ∃ k s₁, n = k + 1 ∧ others s s₁ ∧ ready s₁ = true ∧ Ends others k next s₁ r s' := by
  generalize hp : Program.await ready next = p at h
  induction h with
  | await hready hnext _ => cases hp; exact ⟨_, _, rfl, refl _, hready, hnext⟩
  | other ho _ ih =>
    obtain ⟨k, s₁, hk, ho₁, hrest⟩ := ih hp
    exact ⟨k, s₁, hk, trans_of others ho ho₁, hrest⟩
  | done a s => cases hp
  | crash m s => cases hp
  | step _ _ => cases hp

/-- A call of two parts ends with a crash of the first, or goes on with the value of it. -/
theorem Ends.bind {p : Program σ α} {k : α → Program σ β} {r : Except String β} (h : Ends others n (p >>= k) s r s') :
    (∃ m, r = .error m ∧ Ends others n p s (.error m) s') ∨
      ∃ n₁ n₂ a s₁, n = n₁ + n₂ ∧ Ends others n₁ p s (.ok a) s₁ ∧ Ends others n₂ (k a) s₁ r s' := by
  replace h : Ends others n (p.bind k) s r s' := h
  induction p generalizing n s with
  | done a => exact .inr ⟨0, n, a, s, (Nat.zero_add n).symm, .done a s, h⟩
  | crash m =>
    obtain ⟨rfl, rfl, ho⟩ := ends_crash h
    exact .inl ⟨m, rfl, .other ho (.crash m s')⟩
  | step act next ih =>
    obtain ⟨n', s₁, rfl, ho, hnext⟩ := ends_step h
    rcases ih s₁ hnext with ⟨m, rfl, hp⟩ | ⟨n₁, n₂, a, s₂, rfl, hp, hk⟩
    · exact .inl ⟨m, rfl, .other ho (.step hp)⟩
    · exact .inr ⟨n₁ + 1, n₂, a, s₂, by omega, .other ho (.step hp), hk⟩
  | await ready next ih =>
    obtain ⟨n', s₁, rfl, ho, hready, hnext⟩ := ends_await h
    rcases ih hnext with ⟨m, rfl, hp⟩ | ⟨n₁, n₂, a, s₂, rfl, hp, hk⟩
    · exact .inl ⟨m, rfl, .other ho (.await hready hp)⟩
    · exact .inr ⟨n₁ + 1, n₂, a, s₂, by omega, .other ho (.await hready hp), hk⟩

/-- A calm first part has a value. -/
theorem Calm.bind_ends [IsPreorder σ R] {p : Program σ α} {k : α → Program σ β} {r : Except String β} (hp : p.Calm R)
    (h : Ends others n (p >>= k) s r s') (ho : ∀ s s', others s s' → R s s') :
    ∃ n₁ n₂ a s₁, n = n₁ + n₂ ∧ R s s₁ ∧ Ends others n₁ p s (.ok a) s₁ ∧ Ends others n₂ (k a) s₁ r s' := by
  rcases h.bind with ⟨m, rfl, hm⟩ | ⟨n₁, n₂, a, s₁, hn, ha, hk⟩
  · obtain ⟨a, hr, -⟩ := hp.ends hm ho
    cases hr
  · obtain ⟨_, -, hR⟩ := hp.ends ha ho
    exact ⟨n₁, n₂, a, s₁, hn, hR, ha, hk⟩

theorem Ends.attempt {p : Program σ α} {r : Except String (Except String α)} (h : Ends others n p.attempt s r s') :
    ∃ r', r = .ok r' ∧ Ends others n p s r' s' := by
  induction p generalizing n s with
  | done a =>
    obtain ⟨rfl, rfl, ho⟩ := ends_done h
    exact ⟨.ok a, rfl, .other ho (.done a s')⟩
  | crash m =>
    obtain ⟨rfl, rfl, ho⟩ := ends_done h
    exact ⟨.error m, rfl, .other ho (.crash m s')⟩
  | step act next ih =>
    obtain ⟨n', s₁, rfl, ho, hnext⟩ := ends_step h
    obtain ⟨r', rfl, hp⟩ := ih s₁ hnext
    exact ⟨r', rfl, .other ho (.step hp)⟩
  | await ready next ih =>
    obtain ⟨n', s₁, rfl, ho, hready, hnext⟩ := ends_await h
    obtain ⟨r', rfl, hp⟩ := ih hnext
    exact ⟨r', rfl, .other ho (.await hready hp)⟩

theorem Ends.map {f : α → β} {p : Program σ α} {r : Except String β} (h : Ends others n (f <$> p) s r s') :
    ∃ r', r = r'.map f ∧ Ends others n p s r' s' := by
  rw [map_eq_pure_bind] at h
  rcases h.bind with ⟨m, rfl, hp⟩ | ⟨n₁, n₂, a, s₁, rfl, hp, hk⟩
  · exact ⟨.error m, rfl, hp⟩
  · obtain ⟨rfl, rfl, ho⟩ := ends_done hk
    exact ⟨.ok a, rfl, hp.after ho⟩

/-- A last change is made however the call before it ended. -/
theorem Ends.andFinally {p : Program σ α} {f : σ → σ} {r : Except String α}
    (h : Ends others n (p.andFinally (modify f)) s r s') :
    ∃ n' s₁, n = n' + 1 ∧ Ends others n' p s r s₁ ∧ others (f s₁) s' := by
  unfold Program.andFinally at h
  rcases h.bind with ⟨m, -, hp⟩ | ⟨n₁, n₂, r₁, s₁, rfl, hp, hk⟩
  · obtain ⟨r', hr', -⟩ := hp.attempt
    cases hr'
  · obtain ⟨r', hr', hp⟩ := hp.attempt
    cases hr'
    obtain ⟨n', s₂, rfl, ho, hend⟩ := ends_step hk
    cases r₁ with
    | ok a =>
      obtain ⟨rfl, rfl, ho'⟩ := ends_done hend
      exact ⟨n₁, s₂, rfl, hp.after ho, ho'⟩
    | error m =>
      obtain ⟨rfl, rfl, ho'⟩ := ends_crash hend
      exact ⟨n₁, s₂, rfl, hp.after ho, ho'⟩

/-- A call on a part of the state ends as the program does alone on that part, if the others
    leave the part alone. -/
theorem Ends.focus {τ : Type} {part : τ → σ} {put : σ → τ → τ} {rest : τ → τ → Prop} [IsPreorder τ rest]
    (hput : ∀ a t, part (put a t) = a) (hrest : ∀ t t', rest t t' → part t' = part t) {p : Program σ α} {t t' : τ}
    {r : Except String α} (h : Ends rest n (p.focus part put) t r t') :
    (∃ a, r = .ok a ∧ p.run (part t) = (.finished a, part t')) ∨
      ∃ m, r = .error m ∧ p.run (part t) = (.crashed m, part t') := by
  induction p generalizing n t with
  | done a =>
    obtain ⟨-, rfl, ho⟩ := ends_done h
    exact .inl ⟨a, rfl, by rw [hrest _ _ ho]; rfl⟩
  | crash m =>
    obtain ⟨-, rfl, ho⟩ := ends_crash h
    exact .inr ⟨m, rfl, by rw [hrest _ _ ho]; rfl⟩
  | step act next ih =>
    obtain ⟨n', t₁, -, ho, hnext⟩ := ends_step h
    have hend := ih (part t₁) hnext
    rw [hput, hrest _ _ ho] at hend
    exact hend
  | await ready next ih =>
    obtain ⟨n', t₁, -, ho, hready, hnext⟩ := ends_await h
    have hend := ih hnext
    rw [hrest _ _ ho] at hend hready
    simp only [run, hready, if_true]
    exact hend

/-! ## Building blocks -/

theorem Ends.get_bind {f : σ → α} {k : α → Program σ β} {r : Except String β} (h : Ends others n (get f >>= k) s r s') :
    ∃ n' s₁, n = n' + 1 ∧ others s s₁ ∧ Ends others n' (k (f s₁)) s₁ r s' := ends_step h

theorem Ends.modify_bind {f : σ → σ} {k : Unit → Program σ β} {r : Except String β}
    (h : Ends others n (modify f >>= k) s r s') :
    ∃ n' s₁, n = n' + 1 ∧ others s s₁ ∧ Ends others n' (k ()) (f s₁) r s' := ends_step h

theorem Ends.apply_bind {f : σ → α × σ} {k : α → Program σ β} {r : Except String β}
    (h : Ends others n (apply f >>= k) s r s') :
    ∃ n' s₁, n = n' + 1 ∧ others s s₁ ∧ Ends others n' (k (f s₁).1) (f s₁).2 r s' := ends_step h

/-- Where there is no result, the call crashes and leaves the state alone. -/
theorem Ends.applyOrCrash_bind {message : String} {f : σ → Option (α × σ)} {k : α → Program σ β} {r : Except String β}
    (h : Ends others n (applyOrCrash message f >>= k) s r s') :
    ∃ n' s₁, others s s₁ ∧ ((∃ a s₂, f s₁ = some (a, s₂) ∧ Ends others n' (k a) s₂ r s') ∨
      f s₁ = none ∧ r = .error message ∧ others s₁ s') := by
  obtain ⟨n', s₁, -, ho, hend⟩ := ends_step h
  refine ⟨n', s₁, ho, ?_⟩
  cases hf : f s₁ with
  | some r =>
    simp only [hf] at hend
    exact .inl ⟨r.1, r.2, rfl, hend⟩
  | none =>
    simp only [hf] at hend
    obtain ⟨-, hr, ho'⟩ := ends_crash hend
    exact .inr ⟨rfl, hr, ho'⟩

end

end Program

/-! ## Programs that may fail -/

namespace Fallible

open Program

variable {others : World → World → Prop} [IsPreorder World others] {ε α β : Type} {n : Nat} {w w' : World}

/-- A call of two parts ends with the crash or the failure of the first, or goes on with the
    value of it. -/
theorem ends_bind {p : Fallible ε α} {k : α → Fallible ε β} {r : Except String (Except ε β)}
    (h : Ends others n (p >>= k).run w r w') :
    (∃ m, r = .error m ∧ Ends others n p.run w (.error m) w') ∨
      (∃ e, r = .ok (.error e) ∧ Ends others n p.run w (.ok (.error e)) w') ∨
      ∃ n₁ n₂ a w₁, n = n₁ + n₂ ∧ Ends others n₁ p.run w (.ok (.ok a)) w₁ ∧ Ends others n₂ (k a).run w₁ r w' := by
  rw [run_bind] at h
  rcases h.bind with ⟨m, rfl, hp⟩ | ⟨n₁, n₂, result, w₁, rfl, hp, hk⟩
  · exact .inl ⟨m, rfl, hp⟩
  · cases result with
    | ok a => exact .inr (.inr ⟨n₁, n₂, a, w₁, rfl, hp, hk⟩)
    | error e =>
      obtain ⟨rfl, rfl, ho⟩ := ends_done hk
      exact .inr (.inl ⟨e, rfl, hp.after ho⟩)

theorem calm_bind {R : World → World → Prop} {p : Fallible ε α} {k : α → Fallible ε β} (hp : p.run.Calm R)
    (hk : ∀ a, (k a).run.Calm R) : (p >>= k).run.Calm R := by
  rw [run_bind]
  refine hp.bind fun r => ?_
  cases r with
  | ok a => exact hk a
  | error e => trivial

/-- A calm first part fails or has a value. -/
theorem calm_bind_ends {R : World → World → Prop} [IsPreorder World R] {p : Fallible ε α} {k : α → Fallible ε β}
    {r : Except String (Except ε β)} (hp : p.run.Calm R) (h : Ends others n (p >>= k).run w r w')
    (ho : ∀ w w', others w w' → R w w') :
    (∃ e, r = .ok (.error e) ∧ R w w') ∨ ∃ n' a w₁, R w w₁ ∧ Ends others n' (k a).run w₁ r w' := by
  rcases ends_bind h with ⟨m, -, hend⟩ | ⟨e, hr, hend⟩ | ⟨n₁, n₂, a, w₁, -, hend, hrest⟩
  all_goals obtain ⟨_, hcalm, hR⟩ := hp.ends hend ho
  · cases hcalm
  · exact .inl ⟨e, hr, hR⟩
  · exact .inr ⟨n₂, a, w₁, hR, hrest⟩

theorem calm_always {R : World → World → Prop} {p : Program World α} (hp : p.Calm R) :
    (always p : Fallible ε α).run.Calm R := hp.map _

theorem ends_always {p : Program World α} {r : Except String (Except ε α)}
    (h : Ends others n (always p : Fallible ε α).run w r w') : ∃ r', r = r'.map .ok ∧ Ends others n p w r' w' := by
  rw [run_always] at h
  exact h.map

theorem ends_always_ok {p : Program World α} {a : α} (h : Ends others n (always p : Fallible ε α).run w (.ok (.ok a)) w') :
    Ends others n p w (.ok a) w' := by
  obtain ⟨r, hr, he⟩ := ends_always h
  cases r with
  | error m => cases hr
  | ok b =>
    cases hr
    exact he

end Fallible

/-! ## Properties of programs -/

/-- A property of programs that sequences inherit. -/
structure Composes (C : ∀ α : Type, Program World α → Prop) : Prop where
  pure {α : Type} (a : α) : C α (pure a)
  bind {α β : Type} {p : Program World α} {k : α → Program World β} : C α p → (∀ a, C β (k a)) → C β (p >>= k)

namespace Composes

variable {C : ∀ α : Type, Program World α → Prop} {ε α β : Type}

theorem map (hC : Composes C) {p : Program World α} (f : α → β) (hp : C α p) : C β (f <$> p) := by
  rw [map_eq_pure_bind]
  exact hC.bind hp fun _ => hC.pure _

theorem bind_run (hC : Composes C) {p : Fallible ε α} {k : α → Fallible ε β} (hp : C _ p.run) (hk : ∀ a, C _ (k a).run) :
    C _ (p >>= k).run := by
  rw [Fallible.run_bind]
  refine hC.bind hp fun r => ?_
  cases r with
  | ok a => exact hk a
  | error e => exact hC.pure _

theorem always (hC : Composes C) {p : Program World α} (hp : C α p) : C _ (Fallible.always p : Fallible ε α).run := by
  rw [Fallible.run_always]
  exact hC.map _ hp

theorem ignoring (hC : Composes C) {p : Fallible ε α} (hp : C _ p.run) : C _ (Fallible.ignoring p) :=
  hC.bind hp fun _ => hC.pure _

theorem forEach (hC : Composes C) {p : α → Program World Unit} (hp : ∀ a, C _ (p a)) (l : List α) :
    C _ (Program.forEach p l) := by
  induction l with
  | nil => exact hC.pure _
  | cons a l ih => exact hC.bind (hp a) fun _ => ih

theorem steps (R : World → World → Prop) : Composes fun _ p => p.Steps R where
  pure a := Program.steps_pure a
  bind := Program.Steps.bind

theorem calm (R : World → World → Prop) : Composes fun _ p => p.Calm R where
  pure a := Program.calm_pure a
  bind := Program.Calm.bind

end Composes

/-! ## What others leave alone -/

/-- The pods and their slots stay as they are. -/
def SamePods (w w' : World) : Prop := w'.capacity = w.capacity

instance : IsPreorder World SamePods where
  refl _ := rfl
  trans _ _ _ h h' := h'.trans h

/-- The records stay as they are. -/
def SameStore (w w' : World) : Prop := w'.store = w.store

instance : IsPreorder World SameStore where
  refl _ := rfl
  trans _ _ _ h h' := h'.trans h

/-- Only what lies beside the store and the pods may change: clocks, cluster, agents, locks. -/
def Elsewhere (w w' : World) : Prop := w'.store = w.store ∧ w'.capacity = w.capacity

instance : IsPreorder World Elsewhere where
  refl _ := ⟨rfl, rfl⟩
  trans _ _ _ h h' := ⟨h'.1.trans h.1, h'.2.trans h.2⟩

/-- The cluster and the time of day stay as they are. -/
structure SameSurroundings (w w' : World) : Prop where
  cluster : w'.cluster = w.cluster
  clock : w'.clock = w.clock

instance : IsPreorder World SameSurroundings where
  refl _ := ⟨rfl, rfl⟩
  trans _ _ _ h h' := ⟨h'.cluster.trans h.cluster, h'.clock.trans h.clock⟩

theorem samePods_refl (w : World) : SamePods w w := rfl

/-! ## Steps on a part of the world -/

theorem Program.calm_read {α : Type} (f : World → α) : (Program.get f).Calm SamePods := calm_get samePods_refl f

/-- One operation on the pods, among others that leave the pods alone. -/
theorem Program.ends_onCapacity {α β : Type} {n : Nat} {w w' : World}
    {f : Capacity → UInt64 → Except CapacityError (α × Capacity)} {k : Except CapacityError α → Program World β}
    {r : Except String β} (h : Ends SamePods n (onCapacity f >>= k) w r w') :
    ∃ n' now w₁, (∃ a, f w.capacity now = .ok (a, w₁.capacity) ∧ Ends SamePods n' (k (.ok a)) w₁ r w') ∨
      ∃ e, f w.capacity now = .error e ∧ w₁.capacity = w.capacity ∧ Ends SamePods n' (k (.error e)) w₁ r w' := by
  obtain ⟨n', w₁, rfl, hw, hk⟩ := h.apply_bind
  have hw : w₁.capacity = w.capacity := hw
  rw [← hw]
  cases hf : f w₁.capacity w₁.now with
  | ok r =>
    rw [hf] at hk
    exact ⟨n', w₁.now, { w₁ with capacity := r.2 }, .inl ⟨r.1, hf, hk⟩⟩
  | error e =>
    rw [hf] at hk
    exact ⟨n', w₁.now, w₁, .inr ⟨e, hf, rfl, hk⟩⟩

/-- One transaction on the store. -/
theorem Program.ends_transact_bind {others : World → World → Prop} [IsPreorder World others] {α β : Type} {n : Nat}
    {w w' : World} {f : Store → Except StoreError (α × Store)} {k : Except StoreError α → Program World β}
    {r : Except String β} (h : Ends others n (transact f >>= k) w r w') :
    ∃ n' w₁, others w w₁ ∧
      ((∃ a store, f w₁.store = .ok (a, store) ∧ Ends others n' (k (.ok a)) { w₁ with store } r w') ∨
        ∃ e, f w₁.store = .error e ∧ Ends others n' (k (.error e)) w₁ r w') := by
  obtain ⟨n', w₁, -, hw, hk⟩ := h.apply_bind
  refine ⟨n', w₁, hw, ?_⟩
  cases hf : f w₁.store with
  | ok r =>
    rw [hf] at hk
    exact .inl ⟨r.1, r.2, rfl, hk⟩
  | error e =>
    rw [hf] at hk
    exact .inr ⟨e, rfl, hk⟩

/-- A claim that is answered; or its lease would end too late. -/
theorem Program.ends_claimTask_bind {others : World → World → Prop} [IsPreorder World others] {β : Type} {n : Nat}
    {w w' : World} {id : UInt64} {request : ClaimRequest} {edit : Task → Task}
    {k : Except StoreError Claim → Program World β} {r : Except String β}
    (h : Ends others n (claimTask id request edit >>= k) w r w') :
    ∃ n' w₁, others w w₁ ∧
      ((∃ c store, w₁.store.claimTask id request edit = .ok (c, store) ∧
          Ends others n' (k (.ok c)) { w₁ with store } r w') ∨
        (∃ e, Ends others n' (k (.error e)) w₁ r w') ∨
        ∃ store, w₁.store.claimTask id request edit = .ok (.tooLong, store) ∧ r = .error sumTooLarge ∧
          others { w₁ with store } w') := by
  unfold claimTask at h
  rw [LawfulMonad.bind_assoc] at h
  obtain ⟨n', w₁, hw, ⟨c, store, hclaim, hk⟩ | ⟨e, -, hk⟩⟩ := ends_transact_bind h
  · refine ⟨n', w₁, hw, ?_⟩
    cases c with
    | tooLong =>
      obtain ⟨-, hr, hw'⟩ := ends_crash hk
      exact .inr (.inr ⟨store, hclaim, hr, hw'⟩)
    | _ => exact .inl ⟨_, store, hclaim, hk⟩
  · exact ⟨n', w₁, hw, .inr (.inl ⟨e, hk⟩)⟩

/-- Queueing a workspace, at a time that there is. -/
theorem Program.ends_schedule_bind {others : World → World → Prop} [IsPreorder World others] {β : Type} {n : Nat}
    {w w' : World} {workspace : String} {delay : Duration} {k : Unit → Program World β} {r : Except String β}
    (h : Ends others n (schedule workspace delay >>= k) w r w') :
    (∃ n' w₁ notBefore, others w w₁ ∧ w₁.after? delay = some notBefore ∧
      Ends others n' (k ()) (w₁.scheduleAt workspace notBefore) r w') ∨
      ∃ w₁, others w w₁ ∧ w₁.after? delay = none ∧ r = .error sumTooLarge ∧ others w₁ w' := by
  obtain ⟨n', w₁, hw, ⟨_, w₂, hf, hk⟩ | ⟨hf, hr, hw'⟩⟩ := h.applyOrCrash_bind
  · obtain ⟨notBefore, hafter, heq⟩ := Option.map_eq_some_iff.1 hf
    cases heq
    exact .inl ⟨n', w₁, notBefore, hw, hafter, hk⟩
  · exact .inr ⟨w₁, hw, Option.map_eq_none_iff.1 hf, hr, hw'⟩

/-- A look at the store, whose failure ends the call. -/
theorem Fallible.ends_readStore_bind {others : World → World → Prop} [IsPreorder World others] {α β ε : Type} {n : Nat}
    {w w' : World} {g : StoreError → ε} {f : Store → Except StoreError α} {k : α → Fallible ε β}
    {r : Except String (Except ε β)}
    (h : Program.Ends others n (ofResult (Except.mapError g <$> Program.readStore f) >>= k).run w r w') :
    (∃ e, (∃ w₁, others w w₁ ∧ f w₁.store = .error e) ∧ r = .ok (.error (g e)) ∧ others w w') ∨
      ∃ n' a w₁, n = n' + 1 ∧ others w w₁ ∧ f w₁.store = .ok a ∧ Program.Ends others n' (k a).run w₁ r w' := by
  obtain ⟨n', w₁, hn, hw, hend⟩ := Program.ends_step h
  replace hend : Program.Ends others n' (ExceptT.bindCont k (Except.mapError g (f w₁.store))) w₁ r w' := hend
  cases hf : f w₁.store with
  | ok a =>
    rw [hf] at hend
    exact .inr ⟨n', a, w₁, hn, hw, hf, hend⟩
  | error e =>
    rw [hf] at hend
    obtain ⟨-, hr, hw'⟩ := Program.ends_done hend
    exact .inl ⟨e, ⟨w₁, hw, hf⟩, hr, trans_of others hw hw'⟩

/-- A call whose answer is dropped: the call, and then what others do. -/
theorem Fallible.ends_ignoring {others : World → World → Prop} [IsPreorder World others] {α ε : Type} {n : Nat}
    {w w' : World} {p : Fallible ε α} {r : Except String Unit} (h : Program.Ends others n (ignoring p) w r w') :
    ∃ m r' w₁, Program.Ends others m p.run w r' w₁ ∧ others w₁ w' := by
  rcases h.bind with ⟨m, -, hcrash⟩ | ⟨n₁, n₂, answer, w₁, -, hend, hrest⟩
  · exact ⟨n, _, w', hcrash, refl_of others w'⟩
  · exact ⟨n₁, _, w₁, hend, (Program.ends_done hrest).2.2⟩

/-- A call that finds the slot of a task and changes it, among others that leave the pods alone: what
    was found is still there. -/
theorem Capacity.ends_editSlotOf {others : World → World → Prop} [IsPreorder World others]
    (hpods : ∀ w w', others w w' → SamePods w w') {n : Nat} {w w' : World} {task : UInt64}
    {f : Placement → Capacity → UInt64 → Except CapacityError Capacity} {r : Except String (Except CapacityError Bool)}
    (h : Program.Ends others n (editSlotOf task f).run w r w') :
    (w.capacity.placementOf? task = none ∧ r = .ok (.ok false) ∧ others w w') ∨
      ∃ p w₁, w.capacity.placementOf? task = some p ∧ others w w₁ ∧
        ((∃ c, f p w.capacity w₁.now = .ok c ∧ r = .ok (.ok true) ∧ others { w₁ with capacity := c } w') ∨
          ∃ e, f p w.capacity w₁.now = .error e ∧ r = .ok (.error e) ∧ others w₁ w') := by
  unfold editSlotOf at h
  rw [Fallible.run_always_bind] at h
  obtain ⟨n₁, w₁, -, hw₁, h⟩ := h.get_bind
  have hsame : w₁.capacity = w.capacity := hpods w w₁ hw₁
  rw [hsame] at h
  cases hp : w.capacity.placementOf? task with
  | none =>
    rw [hp] at h
    obtain ⟨-, hr, hw'⟩ := Program.ends_done h
    exact .inl ⟨rfl, hr, trans_of others hw₁ hw'⟩
  | some p =>
    rw [hp] at h
    obtain ⟨n₂, w₂, -, hw₂, h⟩ := Program.ends_step h
    have hsame : w₂.capacity = w.capacity := (hpods w₁ w₂ hw₂).trans hsame
    refine .inr ⟨p, w₂, rfl, trans_of others hw₁ hw₂, ?_⟩
    rw [← hsame]
    cases hf : f p w₂.capacity w₂.now with
    | ok c =>
      simp only [hf, Except.map] at h
      obtain ⟨-, hr, hw'⟩ := Program.ends_done h
      exact .inl ⟨c, rfl, hr, hw'⟩
    | error e =>
      simp only [hf, Except.map] at h
      obtain ⟨-, hr, hw'⟩ := Program.ends_done h
      exact .inr ⟨e, rfl, hr, hw'⟩

end TaskFleet
