/-
  TaskFleet.Proofs.Interleaving — what a process may count on while others take steps.

  Processes share one state and a memory of what they were seen to do. A discipline fixes an
  invariant of both and, for each process, what it relies on: how the steps of everybody else
  may change them. `Ensures` is what a process keeps to until it ends, whoever else steps in
  between: its own steps keep the invariant and never break what another process relies on.
  - `Ensures.bind`, `Ensures.attempt`, `ensures_get`, …: one rule per building block. `Leads` is
    the case in which nothing is said of crashes.
  - `Run.alone`, `Run.carry`, `Run.begun`: runs in which one process gets ahead alone, so that they
    can be computed.
  - `Run.invariant`: what every step of every process keeps is kept by the run.
  - `Run.sound`: if every process that begins keeps to the discipline, then so does every run,
    and whatever a process ensured at its end stays true from then on.
-/

import TaskFleet.Proofs.Runs

namespace TaskFleet

namespace Program

variable {σ α β : Type} {S S' : σ → σ → Prop}

/-- What is left of a program after a number of steps that it takes alone, and the state. -/
def advance : Nat → Program σ α → σ → Program σ α × σ
  | n + 1, .step act next, s => advance n (next s) (act s)
  | n + 1, .await ready next, s => if ready s then advance n next s else (.await ready next, s)
  | _, p, s => (p, s)

/-- Every step of the program that may change the state is of a kind. -/
def Steps (S : σ → σ → Prop) : Program σ α → Prop
  | .done _ => True
  | .crash _ => True
  | .step act next => ∀ s, S s (act s) ∧ (next s).Steps S
  | .await _ next => next.Steps S

theorem Steps.bind {p : Program σ α} {k : α → Program σ β} (hp : p.Steps S) (hk : ∀ a, (k a).Steps S) :
    (p >>= k).Steps S := by
  show (p.bind k).Steps S
  induction p with
  | done a => exact hk a
  | crash m => trivial
  | step act next ih => intro s; exact ⟨(hp s).1, ih s (hp s).2⟩
  | await ready next ih => exact ih hp

theorem Steps.mono {p : Program σ α} (hp : p.Steps S) (hS : ∀ s s', S s s' → S' s s') : p.Steps S' := by
  induction p with
  | done a => trivial
  | crash m => trivial
  | step act next ih => intro s; exact ⟨hS _ _ (hp s).1, ih s (hp s).2⟩
  | await ready next ih => exact ih hp

theorem Steps.attempt {p : Program σ α} (hp : p.Steps S) : p.attempt.Steps S := by
  induction p with
  | done a => trivial
  | crash m => trivial
  | step act next ih => intro s; exact ⟨(hp s).1, ih s (hp s).2⟩
  | await ready next ih => exact ih hp

theorem Steps.map {p : Program σ α} (f : α → β) (hp : p.Steps S) : (f <$> p).Steps S :=
  hp.bind fun _ => trivial

theorem Steps.andFinally {p : Program σ α} {last : Program σ Unit} (hp : p.Steps S) (hlast : last.Steps S) :
    (p.andFinally last).Steps S := by
  refine hp.attempt.bind fun r => hlast.bind fun _ => ?_
  cases r <;> trivial

theorem steps_trivial (p : Program σ α) : p.Steps fun _ _ => True := by
  induction p with
  | done a => trivial
  | crash m => trivial
  | step act next ih => exact fun s => ⟨trivial, ih s⟩
  | await ready next ih => exact ih

theorem steps_pure (a : α) : (pure a : Program σ α).Steps S := trivial

theorem steps_get (hS : ∀ s, S s s) (f : σ → α) : (get f).Steps S := fun s => ⟨hS s, trivial⟩

theorem steps_modify {f : σ → σ} (hf : ∀ s, S s (f s)) : (modify f).Steps S := fun s => ⟨hf s, trivial⟩

theorem steps_apply {f : σ → α × σ} (hf : ∀ s, S s (f s).2) : (apply f).Steps S := fun s => ⟨hf s, trivial⟩

theorem steps_applyOrCrash {message : String} {f : σ → Option (α × σ)} (hS : ∀ s, S s s)
    (hf : ∀ s a s', f s = some (a, s') → S s s') : (applyOrCrash message f).Steps S := by
  refine .bind (steps_apply fun s => ?_) fun found => by cases found <;> trivial
  split
  · next a s' h => exact hf s a s' h
  · exact hS s

theorem steps_waitFor (ready : σ → Bool) : (waitFor ready).Steps S := trivial

theorem Steps.focus {τ : Type} {T : τ → τ → Prop} {part : τ → σ} {put : σ → τ → τ} {p : Program σ α} (hp : p.Steps S)
    (hT : ∀ t s', S (part t) s' → T t (put s' t)) : (p.focus part put).Steps T := by
  induction p with
  | done a => trivial
  | crash m => trivial
  | step act next ih => intro t; exact ⟨hT t _ (hp (part t)).1, ih (part t) (hp (part t)).2⟩
  | await ready next ih => exact ih hp

theorem Steps.bind_run {ε : Type} {p : ExceptT ε (Program σ) α} {k : α → ExceptT ε (Program σ) β} (hp : p.run.Steps S)
    (hk : ∀ a, (k a).run.Steps S) : (p >>= k).run.Steps S := by
  refine Steps.bind hp fun r => ?_
  cases r with
  | ok a => exact hk a
  | error e => trivial

theorem Steps.forEach {p : α → Program σ Unit} (hp : ∀ a, (p a).Steps S) (l : List α) : (forEach p l).Steps S := by
  induction l with
  | nil => trivial
  | cons a l ih => exact (hp a).bind fun _ => ih

end Program

/-- A transaction, by what it does to the world if it succeeds. -/
theorem Program.steps_transact {S : World → World → Prop} {α : Type} {f : Store → Except StoreError (α × Store)}
    (hS : ∀ w, S w w) (hf : ∀ w a s', f w.store = .ok (a, s') → S w { w with store := s' }) :
    (Program.transact f).Steps S := by
  refine Program.steps_apply fun w => ?_
  cases hr : f w.store with
  | ok r => exact hf w r.1 r.2 hr
  | error e => exact hS w

section

variable {S : World → World → Prop}

theorem Program.steps_claimTask {id : UInt64} {r : ClaimRequest} {edit : Task → Task}
    (h : (Program.transact (·.claimTask id r edit)).Steps S) : (Program.claimTask id r edit).Steps S :=
  h.bind fun answer => by cases answer with | ok c => cases c <;> trivial | error e => trivial

theorem Program.steps_createTask {t : Task} (hS : ∀ w, S w w)
    (h : ∀ w t' s', w.store.createTask t = some (t', s') → S w { w with store := s' }) : (Program.createTask t).Steps S :=
  Program.steps_applyOrCrash hS fun w a w' hw => by
    obtain ⟨r, hr, hw'⟩ := Option.map_eq_some_iff.1 hw
    cases hw'
    exact h w r.1 r.2 hr

theorem Program.steps_schedule {workspace : String} {delay : Duration} (hS : ∀ w, S w w)
    (h : ∀ w t, S w (w.scheduleAt workspace t)) : (Program.schedule workspace delay).Steps S :=
  Program.steps_applyOrCrash hS fun w a w' hw => by
    obtain ⟨t, -, hw'⟩ := Option.map_eq_some_iff.1 hw
    cases hw'
    exact h w t

end

namespace Fallible

variable {S : World → World → Prop} {ε α β : Type}

theorem steps_bind {p : Fallible ε α} {k : α → Fallible ε β} (hp : p.run.Steps S) (hk : ∀ a, (k a).run.Steps S) :
    (p >>= k).run.Steps S := Program.Steps.bind_run hp hk

theorem steps_always {p : Program World α} (hp : p.Steps S) : (always p : Fallible ε α).run.Steps S := hp.map _

theorem steps_ignoring {p : Fallible ε α} (hp : p.run.Steps S) : (ignoring p).Steps S := hp.bind fun _ => trivial

end Fallible

theorem Capacity.steps_editSlotOf {S : World → World → Prop} {task : UInt64}
    {f : Placement → Capacity → UInt64 → Except CapacityError Capacity} (hS : ∀ w, S w w)
    (hedit : ∀ p, (Program.editCapacity (f p)).Steps S) : (Capacity.editSlotOf task f).run.Steps S := by
  refine Fallible.steps_bind (Fallible.steps_always (Program.steps_get hS _)) fun found => ?_
  cases found with
  | none => trivial
  | some p => exact Fallible.steps_bind (p := Fallible.ofResult (Program.editCapacity (f p))) (hedit p) fun _ => trivial

/-- A cut of a history with one more event is before that event or at it. -/
theorem cut_snoc {α : Type} {l l₁ l₂ : List α} {a b : α} (h : l ++ [b] = l₁ ++ a :: l₂) :
    (l = l₁ ∧ b = a) ∨ ∃ l₂', l = l₁ ++ a :: l₂' := by
  rcases List.eq_nil_or_concat l₂ with rfl | ⟨l₂', z, rfl⟩
  · obtain ⟨hl, hb⟩ := List.append_inj' h rfl
    exact .inl ⟨hl, (List.cons.inj hb).1⟩
  · have hcut : l ++ [b] = (l₁ ++ a :: l₂') ++ [z] := by rw [h]; simp
    exact .inr ⟨l₂', (List.append_inj' hcut rfl).1⟩

/-- A state with the memory of the steps that led to it. -/
structure Scene (σ η : Type) where
  state : σ
  memory : η

structure Discipline (σ η : Type) where
  /-- What is remembered when a process changes the state. -/
  observe : Nat → σ → σ → η → η
  Inv : Scene σ η → Prop
  /-- What a process relies on about the steps of others. -/
  Rely : Nat → Scene σ η → Scene σ η → Prop
  /-- A step that leaves the state alone disturbs nobody. -/
  idle : ∀ i c, Inv c → Inv ⟨c.state, observe i c.state c.state c.memory⟩ ∧
    ∀ j, Rely j c ⟨c.state, observe i c.state c.state c.memory⟩
  rely_refl : ∀ i c, Rely i c c
  rely_trans : ∀ i c d e, Rely i c d → Rely i d e → Rely i c e

namespace Discipline

variable {σ η α β : Type} (D : Discipline σ η) (i : Nat)

/-- The scene after a step of a process. -/
def after (act : σ → σ) (c : Scene σ η) : Scene σ η := ⟨act c.state, D.observe i c.state (act c.state) c.memory⟩

/-- A step of a process that keeps the invariant and what all others rely on. -/
def Keeps (c d : Scene σ η) : Prop := D.Inv d ∧ ∀ j, j ≠ i → D.Rely j c d

/-- From this scene on, and however others interfere, the process takes only steps that keep
    to the discipline, and ends in a scene as described. -/
def Ensures : Program σ α → (Except String α → Scene σ η → Prop) → Scene σ η → Prop
  | .done a, Q, c => ∀ d, D.Rely i c d → D.Inv d → Q (.ok a) d
  | .crash m, Q, c => ∀ d, D.Rely i c d → D.Inv d → Q (.error m) d
  | .step act next, Q, c => ∀ d, D.Rely i c d → D.Inv d →
      D.Keeps i d (D.after i act d) ∧ Ensures (next d.state) Q (D.after i act d)
  | .await ready next, Q, c => ∀ d, D.Rely i c d → D.Inv d → ready d.state = true → Ensures next Q d

variable {D i} {c d : Scene σ η} {Q Q' : Except String α → Scene σ η → Prop}

/-! ## Structural rules -/

/-- Interference before the first step changes nothing. -/
theorem Ensures.rely {p : Program σ α} (h : D.Ensures i p Q c) (hr : D.Rely i c d) : D.Ensures i p Q d := by
  cases p with
  | done a => intro e he; exact h e (D.rely_trans i c d e hr he)
  | crash m => intro e he; exact h e (D.rely_trans i c d e hr he)
  | step act next => intro e he; exact h e (D.rely_trans i c d e hr he)
  | await ready next => intro e he; exact h e (D.rely_trans i c d e hr he)

/-- A process may wait for the interference to come before it commits itself. -/
theorem Ensures.of_rely {p : Program σ α} (h : ∀ d, D.Rely i c d → D.Inv d → D.Ensures i p Q d) :
    D.Ensures i p Q c := by
  cases p with
  | done a => intro d hr hi; exact h d hr hi d (D.rely_refl i d) hi
  | crash m => intro d hr hi; exact h d hr hi d (D.rely_refl i d) hi
  | step act next => intro d hr hi; exact h d hr hi d (D.rely_refl i d) hi
  | await ready next => intro d hr hi; exact h d hr hi d (D.rely_refl i d) hi

theorem Ensures.mono {p : Program σ α} (h : D.Ensures i p Q c) (hq : ∀ r d, D.Inv d → Q r d → Q' r d) :
    D.Ensures i p Q' c := by
  induction p generalizing c with
  | done a => intro d hr hi; exact hq _ _ hi (h d hr hi)
  | crash m => intro d hr hi; exact hq _ _ hi (h d hr hi)
  | step act next ih =>
    intro d hr hi
    obtain ⟨hk, hn⟩ := h d hr hi
    exact ⟨hk, ih _ hn⟩
  | await ready next ih => intro d hr hi hready; exact ih (h d hr hi hready)

/-- What holds at the end of a process goes on to hold. -/
theorem Ensures.stable {p : Program σ α} (h : D.Ensures i p Q c) :
    D.Ensures i p (fun r d => ∀ e, D.Rely i d e → D.Inv e → Q r e) c := by
  induction p generalizing c with
  | done a => intro d hr _ e he; exact h e (D.rely_trans i c d e hr he)
  | crash m => intro d hr _ e he; exact h e (D.rely_trans i c d e hr he)
  | step act next ih =>
    intro d hr hi
    obtain ⟨hk, hn⟩ := h d hr hi
    exact ⟨hk, ih _ hn⟩
  | await ready next ih => intro d hr hi hready; exact ih (h d hr hi hready)

theorem Ensures.bind {p : Program σ α} {k : α → Program σ β} {Q : Except String β → Scene σ η → Prop}
    (h : D.Ensures i p (fun r d => match r with
      | .ok a => D.Ensures i (k a) Q d
      | .error m => Q (.error m) d) c) : D.Ensures i (p >>= k) Q c := by
  show D.Ensures i (p.bind k) Q c
  induction p generalizing c with
  | done a => exact .of_rely h
  | crash m => exact h
  | step act next ih =>
    intro d hr hi
    obtain ⟨hk, hn⟩ := h d hr hi
    exact ⟨hk, ih _ hn⟩
  | await ready next ih => intro d hr hi hready; exact ih (h d hr hi hready)

theorem Ensures.attempt {p : Program σ α} {Q : Except String (Except String α) → Scene σ η → Prop}
    (h : D.Ensures i p (fun r d => Q (.ok r) d) c) : D.Ensures i p.attempt Q c := by
  induction p generalizing c with
  | done a => exact h
  | crash m => exact h
  | step act next ih =>
    intro d hr hi
    obtain ⟨hk, hn⟩ := h d hr hi
    exact ⟨hk, ih _ hn⟩
  | await ready next ih => intro d hr hi hready; exact ih (h d hr hi hready)

theorem ensures_pure {a : α} (h : ∀ d, D.Rely i c d → D.Inv d → Q (.ok a) d) : D.Ensures i (pure a) Q c := h

theorem Ensures.andFinally {p : Program σ α} {last : Program σ Unit}
    (h : D.Ensures i p (fun r d => D.Ensures i last (fun u e => match u with
      | .ok () => Q r e
      | .error m => Q (.error m) e) d) c) : D.Ensures i (p.andFinally last) Q c := by
  unfold Program.andFinally
  refine .bind (.attempt (h.mono fun r d _ hlast => ?_))
  refine .bind (hlast.stable.mono fun u e hi hq => ?_)
  cases u with
  | error m => exact hq e (D.rely_refl i e) hi
  | ok u =>
    cases r with
    | ok a => exact hq
    | error m => exact hq

/-- A step that the process takes keeps to the discipline, and so does what is left of it. -/
theorem Ensures.moves {p p' : Program σ α} {s' : σ} (h : D.Ensures i p Q c) (hi : D.Inv c)
    (hmove : Program.Moves p c.state p' s') :
    D.Keeps i c ⟨s', D.observe i c.state s' c.memory⟩ ∧ D.Ensures i p' Q ⟨s', D.observe i c.state s' c.memory⟩ := by
  cases hmove with
  | step act next => exact h c (D.rely_refl i c) hi
  | await ready next _ hready =>
    obtain ⟨hinv, hrely⟩ := D.idle i c hi
    exact ⟨⟨hinv, fun j _ => hrely j⟩, (h c (D.rely_refl i c) hi hready).rely (hrely i)⟩

/-! ## Building blocks -/

theorem ensures_get {f : σ → α}
    (h : ∀ d, D.Rely i c d → D.Inv d → ∀ e, D.Rely i (D.after i id d) e → D.Inv e → Q (.ok (f d.state)) e) :
    D.Ensures i (Program.get f) Q c := by
  intro d hr hi
  obtain ⟨hinv, hrely⟩ := D.idle i d hi
  exact ⟨⟨hinv, fun j _ => hrely j⟩, fun e he hie => h d hr hi e he hie⟩

theorem ensures_modify {f : σ → σ} {Q : Except String Unit → Scene σ η → Prop}
    (h : ∀ d, D.Rely i c d → D.Inv d → D.Keeps i d (D.after i f d) ∧
      ∀ e, D.Rely i (D.after i f d) e → D.Inv e → Q (.ok ()) e) : D.Ensures i (Program.modify f) Q c := h

theorem ensures_apply {f : σ → α × σ}
    (h : ∀ d, D.Rely i c d → D.Inv d → D.Keeps i d (D.after i (fun s => (f s).2) d) ∧
      ∀ e, D.Rely i (D.after i (fun s => (f s).2) d) e → D.Inv e → Q (.ok (f d.state).1) e) :
    D.Ensures i (Program.apply f) Q c := h

theorem ensures_waitFor {ready : σ → Bool} {Q : Except String Unit → Scene σ η → Prop}
    (h : ∀ d, D.Rely i c d → D.Inv d → ready d.state = true → ∀ e, D.Rely i d e → D.Inv e → Q (.ok ()) e) :
    D.Ensures i (Program.waitFor ready) Q c := h

/-! ## Programs that may fail -/

section

variable {D : Discipline World η} {c : Scene World η} {ε ε' : Type}

theorem Ensures.bind_run {p : Fallible ε α} {k : α → Fallible ε β}
    {Q : Except String (Except ε β) → Scene World η → Prop}
    (h : D.Ensures i p.run (fun r d => match r with
      | .ok (.ok a) => D.Ensures i (k a).run Q d
      | .ok (.error e) => Q (.ok (.error e)) d
      | .error m => Q (.error m) d) c) : D.Ensures i (p >>= k).run Q c := by
  rw [Fallible.run_bind]
  refine .bind (h.stable.mono fun r d hi hq => ?_)
  match r with
  | .ok (.ok a) => exact hq d (D.rely_refl i d) hi
  | .ok (.error e) => exact hq
  | .error m => exact hq d (D.rely_refl i d) hi

theorem Ensures.always {p : Program World α} {Q : Except String (Except ε α) → Scene World η → Prop}
    (h : D.Ensures i p (fun r d => Q (r.map .ok) d) c) : D.Ensures i (Fallible.always p : Fallible ε α).run Q c := by
  rw [Fallible.run_always, map_eq_pure_bind]
  refine .bind (h.stable.mono fun r d hi hq => ?_)
  cases r with
  | ok a => exact hq
  | error m => exact hq d (D.rely_refl i d) hi

end

/-! ## Ends without a crash -/

variable (D i) in
/-- The process keeps to the discipline and, if it ends without a crash, ends as described. -/
def Leads (p : Program σ α) (Q : α → Scene σ η → Prop) (c : Scene σ η) : Prop :=
  D.Ensures i p (fun r d => ∀ a, r = .ok a → Q a d) c

section

variable {R Q : α → Scene σ η → Prop} {p : Program σ α}

theorem Leads.mono (hp : D.Leads i p R c) (h : ∀ a d, R a d → Q a d) : D.Leads i p Q c :=
  Ensures.mono hp fun _ d _ hr a ha => h a d (hr a ha)

theorem Leads.bind {k : α → Program σ β} {Q : β → Scene σ η → Prop} (hp : D.Leads i p R c)
    (hk : ∀ a d, R a d → D.Leads i (k a) Q d) : D.Leads i (p >>= k) Q c := by
  refine Ensures.bind (Ensures.mono hp fun r d _ hr => ?_)
  cases r with
  | ok a => exact hk a d (hr a rfl)
  | error m => intro b hb; cases hb

theorem leads_pure {a : α} (hQ : ∀ d, D.Rely i c d → Q a d) : D.Leads i (pure a) Q c :=
  ensures_pure fun d hr _ b hb => by cases hb; exact hQ d hr

theorem Leads.attempt {Q : Except String α → Scene σ η → Prop} (hp : D.Leads i p (fun a d => Q (.ok a) d) c)
    (hcrash : ∀ m d, Q (.error m) d) : D.Leads i p.attempt Q c := by
  refine Ensures.attempt (Ensures.mono hp fun r d _ hr b hb => ?_)
  cases hb
  cases r with
  | ok a => exact hr a rfl
  | error m => exact hcrash m d

end

section

variable {D : Discipline World η} {c : Scene World η} {ε : Type}

theorem Leads.bind_run {p : Fallible ε α} {k : α → Fallible ε β} {R : Except ε α → Scene World η → Prop}
    {Q : Except ε β → Scene World η → Prop} (hp : D.Leads i p.run R c)
    (hk : ∀ a d, R (.ok a) d → D.Leads i (k a).run Q d) (hfail : ∀ e d, R (.error e) d → Q (.error e) d) :
    D.Leads i (p >>= k).run Q c := by
  refine Ensures.bind_run (Ensures.mono hp fun r d _ hr => ?_)
  match r with
  | .ok (.ok a) => exact hk a d (hr _ rfl)
  | .ok (.error e) => intro b hb; cases hb; exact hfail e d (hr _ rfl)
  | .error m => intro b hb; cases hb

/-- A claim is its transaction, as far as it does not crash. -/
theorem ensures_claimTask {id : UInt64} {r : ClaimRequest} {edit : Task → Task}
    {Q : Except String (Except StoreError Claim) → Scene World η → Prop}
    (h : D.Ensures i (Program.transact (·.claimTask id r edit)) Q c)
    (hcrash : ∀ m d, D.Inv d → Q (.ok (.ok .tooLong)) d → Q (.error m) d) : D.Ensures i (Program.claimTask id r edit) Q c := by
  refine .bind ((Ensures.stable h).mono fun r d hi hr => ?_)
  match r with
  | .error m => exact hr d (D.rely_refl i d) hi
  | .ok (.error err) => exact hr
  | .ok (.ok claim) =>
    cases claim with
    | tooLong => exact fun e he hi => hcrash _ e hi (hr e he hi)
    | _ => exact hr

theorem leads_claimTask {id : UInt64} {r : ClaimRequest} {edit : Task → Task}
    {Q : Except StoreError Claim → Scene World η → Prop} (h : D.Leads i (Program.transact (·.claimTask id r edit)) Q c) :
    D.Leads i (Program.claimTask id r edit) Q c :=
  ensures_claimTask h fun _ _ _ _ _ ha => nomatch ha

theorem Leads.always_bind {p : Program World α} {k : α → Fallible ε β} {R : α → Scene World η → Prop}
    {Q : Except ε β → Scene World η → Prop} (hp : D.Leads i p R c) (hk : ∀ a d, R a d → D.Leads i (k a).run Q d) :
    D.Leads i (Fallible.always p >>= k).run Q c := by
  rw [Fallible.run_always_bind]
  exact hp.bind hk

theorem Leads.always {p : Program World α} {Q : Except ε α → Scene World η → Prop}
    (hp : D.Leads i p (fun a d => Q (.ok a) d) c) : D.Leads i (Fallible.always p : Fallible ε α).run Q c := by
  refine Ensures.always (Ensures.mono hp fun r d _ hd b hb => ?_)
  cases r with
  | ok a => cases hb; exact hd a rfl
  | error m => cases hb

end

variable (D i) in
/-- What others do not take away. -/
def Stable (F : Scene σ η → Prop) : Prop := ∀ c d, F c → D.Rely i c d → F d

section

variable {F : Scene σ η → Prop}

theorem leads_apply {f : σ → α × σ} {Q : α → Scene σ η → Prop} (hF : D.Stable i F) (hQ : ∀ a, D.Stable i (Q a))
    (hstep : ∀ d, D.Inv d → F d → D.Keeps i d (D.after i (fun s => (f s).2) d) ∧
      Q (f d.state).1 (D.after i (fun s => (f s).2) d)) (hc : F c) : D.Leads i (Program.apply f) Q c := by
  refine ensures_apply fun d hr hi => ?_
  obtain ⟨hkeeps, hq⟩ := hstep d hi (hF c d hc hr)
  exact ⟨hkeeps, fun e he _ a ha => by cases ha; exact hQ _ _ e hq he⟩

theorem leads_get {f : σ → α} {Q : α → Scene σ η → Prop} (hF : D.Stable i F) (hQ : ∀ a, D.Stable i (Q a))
    (hread : ∀ d, D.Inv d → F d → Q (f d.state) (D.after i id d)) (hc : F c) : D.Leads i (Program.get f) Q c := by
  refine leads_apply (f := fun s => (f s, id s)) hF hQ (fun d hi hd => ?_) hc
  obtain ⟨hinv, hrely⟩ := D.idle i d hi
  exact ⟨⟨hinv, fun j _ => hrely j⟩, hread d hi hd⟩

theorem leads_modify {f : σ → σ} {G : Scene σ η → Prop} (hF : D.Stable i F) (hG : D.Stable i G)
    (hstep : ∀ d, D.Inv d → F d → D.Keeps i d (D.after i f d) ∧ G (D.after i f d)) (hc : F c) :
    D.Leads i (Program.modify f) (fun _ => G) c :=
  leads_apply (f := fun s => ((), f s)) hF (fun _ => hG) hstep hc

theorem leads_waitFor {ready : σ → Bool} {G : Scene σ η → Prop} (hF : D.Stable i F) (hG : D.Stable i G)
    (hready : ∀ d, D.Inv d → F d → ready d.state = true → G d) (hc : F c) :
    D.Leads i (Program.waitFor ready) (fun _ => G) c :=
  ensures_waitFor fun d hr hi hd e he _ _ _ => hG d e (hready d hi (hF c d hc hr) hd) he

end

/-! ## Programs of which every step is of a kind -/

/-- A program all of whose steps are of a kind that keeps to the discipline, and leaves a
    fact alone that others leave alone too. -/
theorem Ensures.of_steps {S : σ → σ → Prop} {F : Scene σ η → Prop} {p : Program σ α} (hp : p.Steps S)
    (hrely : ∀ c d, F c → D.Rely i c d → F d)
    (hstep : ∀ c act, D.Inv c → F c → S c.state (act c.state) → D.Keeps i c (D.after i act c) ∧ F (D.after i act c))
    (hF : F c) : D.Ensures i p (fun _ d => F d) c := by
  induction p generalizing c with
  | done a => intro d hr _; exact hrely c d hF hr
  | crash m => intro d hr _; exact hrely c d hF hr
  | step act next ih =>
    intro d hr hi
    obtain ⟨hk, hF'⟩ := hstep d act hi (hrely c d hF hr) (hp d.state).1
    exact ⟨hk, ih d.state (hp d.state).2 hF'⟩
  | await ready next ih => intro d hr _ _; exact ih hp (hrely c d hF hr)

/-! ## Runs -/

variable {ρ : Type} (outside : Scene σ η → Scene σ η → Prop)
  (begins : Scene σ η → Nat → Program σ ρ → Scene σ η → Prop)

variable (D) in
/-- The interleavings of any number of processes: something outside changes the scene, a
    process begins under the next free number, or one of them takes a step. -/
inductive Run (first : Scene σ η) : Scene σ η → List (Program σ ρ) → Prop
  | start : Run first first []
  | outside {c d : Scene σ η} {crew : List (Program σ ρ)} : Run first c crew → outside c d → Run first d crew
  | begins {c d : Scene σ η} {crew : List (Program σ ρ)} {p : Program σ ρ} : Run first c crew →
      begins c crew.length p d → Run first d (crew ++ [p])
  | moves {c : Scene σ η} {crew : List (Program σ ρ)} {i : Nat} {p p' : Program σ ρ} {s' : σ} : Run first c crew →
      crew[i]? = some p → Program.Moves p c.state p' s' →
      Run first ⟨s', D.observe i c.state s' c.memory⟩ (crew.set i p')

/-- The parts of a run keep to the discipline. -/
structure Keeping (first : Scene σ η) (post : Nat → Except String ρ → Scene σ η → Prop) : Prop where
  first : D.Inv first
  outside : ∀ c d, D.Inv c → outside c d → D.Inv d ∧ ∀ j, D.Rely j c d
  begins : ∀ c i p d, D.Inv c → begins c i p d → D.Keeps i c d ∧ D.Ensures i p (post i) d

variable {outside begins}

theorem Run.sound {first c : Scene σ η} {crew : List (Program σ ρ)} {post : Nat → Except String ρ → Scene σ η → Prop}
    (hk : D.Keeping outside begins first post) (h : D.Run outside begins first c crew) :
    D.Inv c ∧ ∀ i p, crew[i]? = some p → D.Ensures i p (post i) c := by
  induction h with
  | start => exact ⟨hk.first, fun i p hp => by simp at hp⟩
  | outside _ hout ih =>
    obtain ⟨hinv, hall⟩ := ih
    obtain ⟨hinv', hrely⟩ := hk.outside _ _ hinv hout
    exact ⟨hinv', fun i p hp => (hall i p hp).rely (hrely i)⟩
  | @begins c d crew p _ hbegin ih =>
    obtain ⟨hinv, hall⟩ := ih
    obtain ⟨⟨hinv', hrely⟩, hensures⟩ := hk.begins _ _ _ _ hinv hbegin
    refine ⟨hinv', fun i q hq => ?_⟩
    rcases Nat.lt_trichotomy i crew.length with hlt | heq | hgt
    · rw [List.getElem?_append_left hlt] at hq
      exact (hall i q hq).rely (hrely i (Nat.ne_of_lt hlt))
    · rw [heq, List.getElem?_append_right (Nat.le_refl _), Nat.sub_self] at hq
      cases hq
      exact heq ▸ hensures
    · rw [List.getElem?_eq_none (by simp; omega)] at hq
      cases hq
  | @moves c crew i p p' s' _ hp hmove ih =>
    obtain ⟨hinv, hall⟩ := ih
    -- what the process that moved goes on to ensure, and what the others may rely on
    obtain ⟨⟨hinv', hrely⟩, hensures⟩ := (hall i p hp).moves hinv hmove
    refine ⟨hinv', fun j q hq => ?_⟩
    by_cases hj : i = j
    · subst hj
      rw [List.getElem?_set_self (List.getElem?_eq_some_iff.1 hp).1] at hq
      cases hq
      exact hensures
    · rw [List.getElem?_set_ne hj] at hq
      exact (hall j q hq).rely (hrely j (Ne.symm hj))

/-- Runs of processes all of whose steps are of a kind: what such steps keep, and whatever happens
    outside, is kept by the run. -/
theorem Run.invariant {S : σ → σ → Prop} {I : Scene σ η → Prop} {first c : Scene σ η} {crew : List (Program σ ρ)}
    (hfirst : I first) (houtside : ∀ c d, I c → outside c d → I d)
    (hbegins : ∀ c i p d, I c → begins c i p d → I d ∧ p.Steps S)
    (hstep : ∀ c i s', I c → S c.state s' → I ⟨s', D.observe i c.state s' c.memory⟩)
    (hidle : ∀ c i, I c → I ⟨c.state, D.observe i c.state c.state c.memory⟩)
    (h : D.Run outside begins first c crew) : I c ∧ ∀ p ∈ crew, p.Steps S := by
  induction h with
  | start => exact ⟨hfirst, fun p hp => by cases hp⟩
  | outside _ hout ih => exact ⟨houtside _ _ ih.1 hout, ih.2⟩
  | begins _ hbegin ih =>
    obtain ⟨hd, hp⟩ := hbegins _ _ _ _ ih.1 hbegin
    refine ⟨hd, fun q hq => ?_⟩
    rcases List.mem_append.1 hq with hq | hq
    · exact ih.2 q hq
    · rw [List.mem_singleton.1 hq]
      exact hp
  | @moves c crew i p p' s' _ hp hmove ih =>
    obtain ⟨hinv, hall⟩ := ih
    have hsteps := hall p (List.mem_of_getElem? hp)
    -- what is left of the process is of the kind too
    obtain ⟨hinv', hrest⟩ : I ⟨s', D.observe i c.state s' c.memory⟩ ∧ p'.Steps S := by
      cases hmove with
      | step act next => exact ⟨hstep c i _ hinv (hsteps c.state).1, (hsteps c.state).2⟩
      | await ready next => exact ⟨hidle c i hinv, hsteps⟩
    refine ⟨hinv', fun q hq => ?_⟩
    rcases List.mem_or_eq_of_mem_set hq with hq | rfl
    · exact hall q hq
    · exact hrest

/-- What a process ensured at its end is true whenever it has ended. -/
theorem Run.ended {first c : Scene σ η} {crew : List (Program σ ρ)} {post : Nat → Except String ρ → Scene σ η → Prop}
    (hk : D.Keeping outside begins first post) (h : D.Run outside begins first c crew) {a : ρ}
    (hend : crew[i]? = some (.done a)) : post i (.ok a) c := by
  obtain ⟨hinv, hall⟩ := h.sound hk
  exact hall i _ hend c (D.rely_refl i c) hinv

/-- While nobody else steps in, a process of a run does what it does alone. -/
theorem Run.alone {first c : Scene σ η} {crew : List (Program σ ρ)} {p : Program σ ρ} {a : ρ} {s' : σ}
    (h : D.Run outside begins first c crew) (hp : crew[i]? = some p) (hrun : p.run c.state = (.finished a, s')) :
    ∃ m, D.Run outside begins first ⟨s', m⟩ (crew.set i (.done a)) := by
  induction p generalizing c crew with
  | done b =>
    cases hrun
    obtain ⟨hlt, hget⟩ := List.getElem?_eq_some_iff.1 hp
    rw [← hget, List.set_getElem_self]
    exact ⟨c.memory, h⟩
  | crash m => cases hrun
  | step act next ih =>
    have hmoved := h.moves hp (.step act next c.state)
    have hlt := (List.getElem?_eq_some_iff.1 hp).1
    have hend := ih c.state hmoved (List.getElem?_set_self hlt) hrun
    rwa [List.set_set] at hend
  | await ready next ih =>
    unfold Program.run at hrun
    split at hrun
    · next hready =>
      have hmoved := h.moves hp (.await ready next c.state hready)
      have hlt := (List.getElem?_eq_some_iff.1 hp).1
      have hend := ih hmoved (List.getElem?_set_self hlt) hrun
      rwa [List.set_set] at hend
    · cases hrun

variable (D i) in
/-- What is left of a process after a number of steps that it takes alone, and the scene. -/
def carry : Nat → Program σ α → Scene σ η → Program σ α × Scene σ η
  | n + 1, .step act next, c => carry n (next c.state) (D.after i act c)
  | n + 1, .await ready next, c => if ready c.state then carry n next (D.after i id c) else (.await ready next, c)
  | _, p, c => (p, c)

/-- Whatever is closed under the steps of processes is closed under steps that one of them takes
    alone. -/
theorem carry_of_moves {R : Scene σ η → List (Program σ ρ) → Prop}
    (hmoves : ∀ {c crew p p' s'}, R c crew → crew[i]? = some p → Program.Moves p c.state p' s' →
      R ⟨s', D.observe i c.state s' c.memory⟩ (crew.set i p'))
    {crew : List (Program σ ρ)} {p : Program σ ρ} (h : R c crew) (hp : crew[i]? = some p) (n : Nat) :
    R (D.carry i n p c).2 (crew.set i (D.carry i n p c).1) := by
  have hstay : R c (crew.set i p) := by
    obtain ⟨hlt, hget⟩ := List.getElem?_eq_some_iff.1 hp
    rw [← hget, List.set_getElem_self]
    exact h
  have hlt := (List.getElem?_eq_some_iff.1 hp).1
  induction n generalizing c crew p with
  | zero => exact hstay
  | succ n ih =>
    cases p with
    | done b => exact hstay
    | crash m => exact hstay
    | step act next =>
      have hmoved := hmoves h hp (.step act next c.state)
      have hset : (crew.set i (next c.state))[i]? = some (next c.state) := List.getElem?_set_self hlt
      have hend := ih hmoved hset (by rwa [List.set_set]) (by rwa [List.length_set])
      rwa [List.set_set] at hend
    | await ready next =>
      unfold Discipline.carry
      split
      · next hready =>
        have hmoved := hmoves h hp (.await ready next c.state hready)
        have hset : (crew.set i next)[i]? = some next := List.getElem?_set_self hlt
        have hend := ih hmoved hset (by rwa [List.set_set]) (by rwa [List.length_set])
        rwa [List.set_set] at hend
      · exact hstay

theorem Run.carry {first c : Scene σ η} {crew : List (Program σ ρ)} {p : Program σ ρ}
    (h : D.Run outside begins first c crew) (hp : crew[i]? = some p) (n : Nat) :
    D.Run outside begins first (D.carry i n p c).2 (crew.set i (D.carry i n p c).1) :=
  carry_of_moves (R := D.Run outside begins first) .moves h hp n

/-- A process begins and takes a number of steps at once. -/
theorem Run.begun {first c d : Scene σ η} {crew : List (Program σ ρ)} {p : Program σ ρ}
    (h : D.Run outside begins first c crew) (hbegin : begins c crew.length p d) (n : Nat) :
    D.Run outside begins first (D.carry crew.length n p d).2 (crew ++ [(D.carry crew.length n p d).1]) := by
  have hcarried := (h.begins hbegin).carry (i := crew.length) (p := p) (by simp) n
  rwa [List.set_append_right _ _ (Nat.le_refl _), Nat.sub_self, List.set_cons_zero] at hcarried

theorem carry_eq_advance (n : Nat) (p : Program σ α) (c : Scene σ η) :
    ((D.carry i n p c).1, (D.carry i n p c).2.state) = p.advance n c.state := by
  induction n generalizing p c with
  | zero => rfl
  | succ n ih =>
    cases p with
    | done b => rfl
    | crash m => rfl
    | step act next => exact ih (next c.state) (D.after i act c)
    | await ready next =>
      unfold carry Program.advance
      split
      · exact ih next (D.after i id c)
      · rfl

/-- The same without what is remembered of it. -/
theorem Run.advance {first c : Scene σ η} {crew : List (Program σ ρ)} {p : Program σ ρ}
    (h : D.Run outside begins first c crew) (hp : crew[i]? = some p) (n : Nat) :
    ∃ m, D.Run outside begins first ⟨(p.advance n c.state).2, m⟩ (crew.set i (p.advance n c.state).1) := by
  have hcarried := h.carry hp n
  rw [← carry_eq_advance (D := D) (i := i) n p c]
  exact ⟨_, hcarried⟩

end Discipline

end TaskFleet
