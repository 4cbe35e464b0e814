/-
  TaskFleet.Proofs.LocalCommand.RowEndings — what the commands of this machine make of the rows.

  While a program runs, anybody may write to its task's row. At the program's end the row is read
  again, and what becomes of it depends on what the row is then: the table of moves decides whether
  the end can be written at all.
  - `Ends`: the rows a program's end can make of a row, one constructor for each way to end.
  - `execute_ok_iff`: a command succeeds exactly if it ran to an end that the row allows.
  - `commands_keep_their_contract`: what a dispatcher may rely on, for every row, every
    configuration and everything that can become of a program.
-/

import TaskFleet.LocalCommand.Executor
import TaskFleet.Proofs.Store.RowChanges

namespace TaskFleet.LocalCommand

variable {commands : LocalCommands} {start : CommandSpec → Task → AgentAction → ProgramEnd} {action : AgentAction}
  {spec : CommandSpec} {result : ProgramEnd} {status : ExitStatus} {stderr : List UInt8} {message : String} {now : UInt64}
  {s s' : Store} {t u u' : Task} {id : UInt64}

/-! ## The end of a row -/

/-- What the end of a program makes of the row `u`. -/
inductive Ends (now : UInt64) (u : Task) : AgentAction → ProgramEnd → String → Task → Prop
  /-- A plan of an exclusive task waits for its apply. -/
  | planned {program : String} {stderr : List UInt8} :
      u.kind = .planAndApply → u.status.canMove .applyPending = true →
      Ends now u .plan (.ended (.code 0) stderr) program { u with status := .applyPending, stage := some .applyPending }
  | succeeded {program : String} {stderr : List UInt8} :
      u.kind ≠ .planAndApply → u.status.canMove .success = true →
      Ends now u .plan (.ended (.code 0) stderr) program
        { u with status := .success, completedAt := some now, lease := none }
  | applied {program : String} {stderr : List UInt8} :
      u.status.canMove .applied = true →
      Ends now u .apply (.ended (.code 0) stderr) program
        { u with status := .applied, completedAt := some now, lease := none }
  | failed {action : AgentAction} {program : String} {status : ExitStatus} {stderr : List UInt8} :
      status ≠ .code 0 → u.status.canMove .failed = true →
      Ends now u action (.ended status stderr) program { u with
        status := .failed
        errorMessage := some (failureMessage program status stderr)
        completedAt := some now
        lease := none }

/-- The change of the row that a program's end asks for. -/
def ending (action : AgentAction) (program : String) (status : ExitStatus) (stderr : List UInt8) (now : UInt64) :
    Task → Except StoreError Task :=
  if status = .code 0 then concludeSuccess action now else concludeFailure (failureMessage program status stderr) now

theorem concludePlan_ok_iff : concludePlan now u = .ok u' ↔
    (u.kind = .planAndApply ∧ u.status.canMove .applyPending = true ∧
      u' = { u with status := .applyPending, stage := some .applyPending }) ∨
    u.kind ≠ .planAndApply ∧ u.status.canMove .success = true ∧
      u' = { u with status := .success, completedAt := some now, lease := none } := by
  unfold concludePlan
  split
  · next hkind => simp [hkind, Store.move_ok_iff]
  · next hkind => simp [hkind, Store.conclude_ok_iff]

theorem ending_ok_iff : ending action spec.program status stderr now u = .ok u' ↔
    Ends now u action (.ended status stderr) spec.program u' := by
  unfold ending
  constructor
  · intro h
    split at h
    · next hzero =>
      subst hzero
      cases action with
      | plan =>
        rcases concludePlan_ok_iff.1 h with ⟨hkind, hmove, rfl⟩ | ⟨hkind, hmove, rfl⟩
        · exact .planned hkind hmove
        · exact .succeeded hkind hmove
      | apply =>
        obtain ⟨hmove, rfl⟩ := Store.conclude_ok_iff.1 h
        exact .applied hmove
    · next hfailed =>
      obtain ⟨hmove, rfl⟩ := Store.conclude_ok_iff.1 h
      exact .failed hfailed hmove
  · intro h
    cases h with
    | planned hkind hmove => exact concludePlan_ok_iff.2 (.inl ⟨hkind, hmove, rfl⟩)
    | succeeded hkind hmove => exact concludePlan_ok_iff.2 (.inr ⟨hkind, hmove, rfl⟩)
    | applied hmove => exact Store.conclude_ok_iff.2 ⟨hmove, rfl⟩
    | failed hfailed hmove =>
      rw [if_neg hfailed]
      exact Store.conclude_ok_iff.2 ⟨hmove, rfl⟩

namespace Ends

variable {program : String} (h : Ends now u action result program u')

include h

theorem canMove : u.status.canMove u'.status = true := by
  cases h <;> assumption

/-- No row is allowed to move to the status that it has. -/
theorem ne : u' ≠ u := by
  rintro rfl
  have hmove := h.canMove
  cases hstatus : u'.status <;> rw [hstatus] at hmove <;> cases hmove

/-- The row is over, its lease too, or it is that of an exclusive task after its plan. -/
theorem terminal_or_planned : (u'.status.isTerminal = true ∧ u'.completedAt = some now ∧ u'.lease = none) ∨
    action = .plan ∧ u.kind = .planAndApply ∧ u'.status = .applyPending ∧ u'.stage = some .applyPending := by
  cases h with
  | planned hkind => exact .inr ⟨rfl, hkind, rfl, rfl⟩
  | succeeded => exact .inl ⟨rfl, rfl, rfl⟩
  | applied => exact .inl ⟨rfl, rfl, rfl⟩
  | failed => exact .inl ⟨rfl, rfl, rfl⟩

/-- Only a running task can have been applied. -/
theorem of_applied (happlied : u'.status = .applied) :
    action = .apply ∧ u.status = .running ∧ ∃ stderr, result = .ended (.code 0) stderr := by
  have hruns : u.status = .running := by
    have hmove := h.canMove
    rw [happlied] at hmove
    cases hstatus : u.status <;> rw [hstatus] at hmove <;> first | rfl | cases hmove
  cases h with
  | planned => cases happlied
  | succeeded => cases happlied
  | applied => exact ⟨rfl, hruns, _, rfl⟩
  | failed => cases happlied

/-- What the end of a program does not write. -/
theorem same_otherwise : u' = { u with
    status := u'.status
    stage := u'.stage
    errorMessage := u'.errorMessage
    completedAt := u'.completedAt
    lease := u'.lease } := by
  cases h <;> rfl

end Ends

/-! ## One command -/

theorem conclude_ok_iff : conclude s id action spec result now = .ok s' ↔
    ∃ u u', s.task? id = .ok (some u) ∧ Ends now u action result spec.program u' ∧
      s' = { s with tasks := s.tasks.insert (taskKey id) (.record u') } := by
  cases result with
  | notStarted reason =>
    constructor
    · intro h
      cases h
    · rintro ⟨u, u', -, hends, -⟩
      cases hends
  | ended status stderr =>
    have hconclude : conclude s id action spec (.ended status stderr) now =
        ((s.updateTask id (ending action spec.program status stderr now)).map (·.2)).mapError .store := rfl
    rw [hconclude]
    constructor
    · intro h
      cases hupdate : s.updateTask id (ending action spec.program status stderr now) with
      | error e =>
        rw [hupdate] at h
        cases h
      | ok r =>
        rw [hupdate] at h
        cases h
        obtain ⟨u, hu, hending, hs'⟩ := Store.updateTask_ok_iff.1 hupdate
        exact ⟨u, r.1, hu, ending_ok_iff.1 hending, hs'⟩
    · rintro ⟨u, u', hu, hends, rfl⟩
      rw [Store.updateTask_ok_iff.2 ⟨u, hu, ending_ok_iff.2 hends, rfl⟩]
      rfl

/-- A command succeeds exactly if it is configured, its program ran to an end, the row can be read, and its status
    allows that end. -/
theorem execute_ok_iff : execute commands start action t now s = .ok s' ↔
    ∃ spec u u', specFor commands action = some spec ∧ s.task? t.id = .ok (some u) ∧
      Ends now u action (start spec t action) spec.program u' ∧ s' = { s with tasks := s.tasks.insert (taskKey t.id) (.record u') } := by
  unfold execute
  cases hspec : specFor commands action with
  | none => simp
  | some spec =>
    simp only [conclude_ok_iff]
    constructor
    · rintro ⟨u, u', hu, hends, rfl⟩
      exact ⟨spec, u, u', rfl, hu, hends, rfl⟩
    · rintro ⟨spec', u, u', hspec', hu, hends, rfl⟩
      cases hspec'
      exact ⟨u, u', hu, hends, rfl⟩

/-! ## The contract -/

/-- Nothing but the row of the task has changed. -/
structure OnlyRow (id : UInt64) (s s' : Store) : Prop where
  tasks : ∀ key, key ≠ taskKey id → s'.tasks.get? key = s.tasks.get? key
  workspaces : s'.workspaces = s.workspaces
  pools : s'.pools = s.pools
  lastTaskId : s'.lastTaskId = s.lastTaskId

theorem onlyRow_insert (s : Store) (id : UInt64) (u : Task) :
    OnlyRow id s { s with tasks := s.tasks.insert (taskKey id) (.record u) } :=
  ⟨fun _ hkey => Table.get?_insert_of_ne _ _ (Ne.symm hkey), rfl, rfl, rfl⟩

/-- What a dispatcher may rely on, whatever the row has become since the program was started. -/
structure Contract (commands : LocalCommands) (start : CommandSpec → Task → AgentAction → ProgramEnd)
    (action : AgentAction) (t : Task) (now : UInt64) (s : Store) (result : Except LocalError Unit) (s' : Store) : Prop where
  /-- A command succeeds if and only if the row allows the end of its program. -/
  succeeds : result = .ok () ↔ ∃ spec u u', specFor commands action = some spec ∧ s.task? t.id = .ok (some u) ∧
    Ends now u action (start spec t action) spec.program u'
  /-- One that succeeds has changed the row of its task, which is over or waits for its apply, and no other. -/
  ended : result = .ok () → OnlyRow t.id s s' ∧
    ∃ u u', s.task? t.id = .ok (some u) ∧ s'.task? t.id = .ok (some u') ∧ u' ≠ u ∧
      ((u'.status.isTerminal = true ∧ u'.completedAt = some now ∧ u'.lease = none) ∨
        action = .plan ∧ u.kind = .planAndApply ∧ u'.status = .applyPending ∧ u'.stage = some .applyPending)
  /-- One that fails has changed nothing. -/
  failed : ∀ e, result = .error e → s' = s
  /-- A row that has become applied was running, and the program of the apply went well. -/
  applied : ∀ key u u', s.tasks.get? key = some (.record u) → s'.tasks.get? key = some (.record u') →
    u'.status = .applied → u.status = .applied ∨
      key = taskKey t.id ∧ action = .apply ∧ u.status = .running ∧
        ∃ spec stderr, commands.apply = some spec ∧ start spec t .apply = .ended (.code 0) stderr
  /-- In no row anything else is written: confirmation, agent, retries and start stay. -/
  kept : ∀ key u', s'.tasks.get? key = some (.record u') → ∃ u, s.tasks.get? key = some (.record u) ∧
    u' = { u with
      status := u'.status
      stage := u'.stage
      errorMessage := u'.errorMessage
      completedAt := u'.completedAt
      lease := u'.lease }

theorem contract_failed {e : LocalError} (h : execute commands start action t now s = .error e) :
    Contract commands start action t now s (.error e) s where
  succeeds := by
    constructor
    · intro hok
      cases hok
    · rintro ⟨spec, u, u', hspec, hu, hends⟩
      rw [execute_ok_iff.2 ⟨spec, u, u', hspec, hu, hends, rfl⟩] at h
      cases h
  ended := nofun
  failed _ _ := rfl
  applied key u u' hu hu' happlied := by
    rw [hu] at hu'
    cases hu'
    exact .inl happlied
  kept key u' hu' := ⟨u', hu', rfl⟩

theorem contract_succeeded (h : execute commands start action t now s = .ok s') :
    Contract commands start action t now s (.ok ()) s' := by
  obtain ⟨spec, u, u', hspec, hu, hends, rfl⟩ := execute_ok_iff.1 h
  have hrow := Store.get?_of_task? hu
  have hrow' := Table.get?_insert_self s.tasks (taskKey t.id) (.record u')
  have honly := onlyRow_insert s t.id u'
  refine ⟨⟨fun _ => ⟨spec, u, u', hspec, hu, hends⟩, fun _ => rfl⟩, fun _ => ⟨honly, u, u', hu, ?_, hends.ne,
    hends.terminal_or_planned⟩, nofun, fun key v v' hv hv' happlied => ?_, fun key v' hv' => ?_⟩
  · exact Store.task?_eq_some_iff.2 hrow'
  · by_cases hkey : key = taskKey t.id
    · subst hkey
      rw [hrow] at hv
      rw [hrow'] at hv'
      cases hv
      cases hv'
      obtain ⟨rfl, hruns, stderr, hend⟩ := hends.of_applied happlied
      exact .inr ⟨rfl, rfl, hruns, spec, stderr, hspec, hend⟩
    · rw [honly.tasks key hkey, hv] at hv'
      cases hv'
      exact .inl happlied
  · by_cases hkey : key = taskKey t.id
    · subst hkey
      rw [hrow'] at hv'
      cases hv'
      exact ⟨u, hrow, hends.same_otherwise⟩
    · rw [honly.tasks key hkey] at hv'
      exact ⟨v', hv', rfl⟩

/-- For every task, every store as it is when the program has come to its end, every configuration and everything
    that can become of a program, the commands of this machine keep their contract. -/
theorem commands_keep_their_contract (commands : LocalCommands) (start : CommandSpec → Task → AgentAction → ProgramEnd)
    (action : AgentAction) (t : Task) (now : UInt64) (s : Store) :
    ∃ result s', (Executor.commands commands).execute start action t now s = some (result, s') ∧
      Contract commands start action t now s result s' := by
  cases h : execute commands start action t now s with
  | error e => exact ⟨.error e, s, by simp only [Executor.execute, h], contract_failed h⟩
  | ok s' => exact ⟨.ok (), s', by simp only [Executor.execute, h], contract_succeeded h⟩

end TaskFleet.LocalCommand
