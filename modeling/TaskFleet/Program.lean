/-
  TaskFleet.Program — work made of atomic steps on a shared state.

  A program is data: what it does next, given the state it finds. Between two of its steps
  other programs may take steps of their own; inside a step nothing intervenes. A program
  waits by naming the states in which it may go on, and may end early by a crash.
  - `run` executes a program alone; `run_bind` splits a run at any point.
  - `Moves` is one step of a program among others.
  - `attempt` turns a crash into a value, keeping every write made before it.
-/

namespace TaskFleet

/-- A program over states `σ` that ends with an `α`. -/
inductive Program (σ α : Type) where
  | done (result : α)
  | crash (message : String)
  /-- Changes the state at once; what follows may depend on the state before the change. -/
  | step (act : σ → σ) (next : σ → Program σ α)
  /-- Goes on only in a state that is ready. -/
  | await (ready : σ → Bool) (next : Program σ α)

namespace Program

variable {σ τ α β γ : Type}

def bind : Program σ α → (α → Program σ β) → Program σ β
  | done a, k => k a
  | crash m, _ => crash m
  | step act next, k => step act fun s => (next s).bind k
  | await ready next, k => await ready (next.bind k)

instance : Monad (Program σ) where
  pure := done
  bind := bind

theorem bind_done (p : Program σ α) : p.bind done = p := by
  induction p with
  | done a => rfl
  | crash m => rfl
  | step act next ih => simp only [bind, ih]
  | await ready next ih => simp only [bind, ih]

theorem bind_assoc (p : Program σ α) (f : α → Program σ β) (g : β → Program σ γ) :
    (p.bind f).bind g = p.bind fun a => (f a).bind g := by
  induction p with
  | done a => rfl
  | crash m => rfl
  | step act next ih => simp only [bind, ih]
  | await ready next ih => simp only [bind, ih]

instance : LawfulMonad (Program σ) :=
  LawfulMonad.mk' (Program σ) bind_done (fun _ _ => rfl) bind_assoc

/-! ## Building blocks -/

/-- Reads the state. -/
def get (f : σ → α) : Program σ α := step id fun s => done (f s)

/-- Changes the state. -/
def modify (f : σ → σ) : Program σ Unit := step f fun _ => done ()

/-- Computes a result and a new state, in one step. -/
def apply (f : σ → α × σ) : Program σ α := step (fun s => (f s).2) fun s => done (f s).1

/-- A value that is there, or a crash. -/
def orCrash (message : String) : Option α → Program σ α
  | some a => done a
  | none => crash message

/-- Computes a result and a new state, in one step; where there is none, the state stays as it
    is and the program crashes. -/
def applyOrCrash (message : String) (f : σ → Option (α × σ)) : Program σ α := do
  orCrash message (← apply fun s =>
    match f s with
    | some (a, s') => (some a, s')
    | none => (none, s))

/-- Waits for a state that is ready. -/
def waitFor (ready : σ → Bool) : Program σ Unit := await ready (done ())

/-- The program with a crash as a value. -/
def attempt : Program σ α → Program σ (Except String α)
  | done a => done (.ok a)
  | crash m => done (.error m)
  | step act next => step act fun s => (next s).attempt
  | await ready next => await ready next.attempt

/-- A crash again, or the value. -/
def resume : Except String α → Program σ α
  | .ok a => done a
  | .error m => crash m

/-- Runs `last` after `p`, also when `p` crashes. -/
def andFinally (p : Program σ α) (last : Program σ Unit) : Program σ α := do
  let r ← p.attempt
  last
  resume r

/-- The same program on a part of a larger state. -/
def focus (part : τ → σ) (put : σ → τ → τ) : Program σ α → Program τ α
  | done a => done a
  | crash m => crash m
  | step act next => step (fun t => put (act (part t)) t) fun t => (next (part t)).focus part put
  | await ready next => await (fun t => ready (part t)) (next.focus part put)

/-! ## A program alone -/

/-- How a run ends. -/
inductive Ending (α : Type) where
  | finished (result : α)
  | crashed (message : String)
  /-- It waits for a change that only others can make. -/
  | stuck
  deriving DecidableEq, Repr

/-- Runs a program with nobody else at work. -/
def run : Program σ α → σ → Ending α × σ
  | done a, s => (.finished a, s)
  | crash m, s => (.crashed m, s)
  | step act next, s => (next s).run (act s)
  | await ready next, s => if ready s then next.run s else (.stuck, s)

@[simp] theorem run_pure (a : α) (s : σ) : (pure a : Program σ α).run s = (.finished a, s) := rfl
@[simp] theorem run_done (a : α) (s : σ) : (done a : Program σ α).run s = (.finished a, s) := rfl
@[simp] theorem run_get (f : σ → α) (s : σ) : (get f).run s = (.finished (f s), s) := rfl
@[simp] theorem run_modify (f : σ → σ) (s : σ) : (modify f).run s = (.finished (), f s) := rfl
@[simp] theorem run_apply (f : σ → α × σ) (s : σ) : (apply f).run s = (.finished (f s).1, (f s).2) := rfl

theorem run_bind (p : Program σ α) (k : α → Program σ β) (s : σ) :
    (p >>= k).run s =
      match p.run s with
      | (.finished a, s') => (k a).run s'
      | (.crashed m, s') => (.crashed m, s')
      | (.stuck, s') => (.stuck, s') := by
  show (p.bind k).run s = _
  induction p generalizing s with
  | done a => rfl
  | crash m => rfl
  | step act next ih => simp only [bind, run, ih]
  | await ready next ih =>
    simp only [bind, run]
    split
    · exact ih s
    · rfl

/-! ## A program among others -/

/-- One step of a program. -/
inductive Moves : Program σ α → σ → Program σ α → σ → Prop
  | step (act : σ → σ) (next : σ → Program σ α) (s : σ) : Moves (step act next) s (next s) (act s)
  | await (ready : σ → Bool) (next : Program σ α) (s : σ) : ready s = true → Moves (await ready next) s next s

end Program

end TaskFleet
