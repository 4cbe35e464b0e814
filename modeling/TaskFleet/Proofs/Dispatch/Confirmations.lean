/-
  TaskFleet.Proofs.Dispatch.Confirmations — how long the confirmation of an apply lasts.

  Whoever rewrites a row leaves alone who confirmed it, except an operator who confirms it again.
  That operator may have no name, and then the row is not confirmed any more.
  - `Edit`: all that may happen to the task table. Jobs, calls and executors do nothing else
    (`BeginsJobOrCall.steps`).
  - `Edit.keeps`: the only edits that end a confirmation.
  - `confirmations_last`: in every run, a confirmed row stays confirmed until one of them.
  - `nameless_confirmation_ends_another`: an apply that could have started is refused.
-/

import TaskFleet.Proofs.Dispatch.Writes
import TaskFleet.Proofs.Traces

namespace TaskFleet.Confirmations

open Fallible Store Dispatch

variable {s s' : Store} {t t' : Task} {id : UInt64} {user : String} {now : UInt64} {w : World} {i : Nat}

/-! ## Confirmed rows -/

/-- The task under this ID is there, and an operator with a name confirmed it. -/
def Confirmed (s : Store) (id : UInt64) : Prop := ∃ t, s.taskRow id = some (.record t) ∧ t.isApplyConfirmed = true

/-- An operator without a name confirms the task. -/
def TakesBack (id : UInt64) (s s' : Store) : Prop := ∃ now t, s.confirmApply id "" now = .ok (t, s')

/-- The ID is given to a new task. -/
def Reissues (id : UInt64) (s s' : Store) : Prop := ∃ t t', s.createTask t = some (t', s') ∧ t'.id = id

theorem isApplyConfirmed_congr (h : t'.confirmedBy = t.confirmedBy) : t'.isApplyConfirmed = t.isApplyConfirmed := by
  unfold Task.isApplyConfirmed
  rw [h]

theorem isApplyConfirmed_confirm (t : Task) (user : String) (now : UInt64) :
    { t with confirmedBy := some user, confirmedAt := some now }.isApplyConfirmed = true ↔ user ≠ "" := by
  simp [Task.isApplyConfirmed]

theorem Confirmed.congr (h : Confirmed s id) (hrows : s'.tasks = s.tasks) : Confirmed s' id := by
  unfold Confirmed taskRow
  rw [hrows]
  exact h

/-- A row is written, perhaps the confirmed one. -/
theorem Confirmed.insert {other : UInt64} (h : Confirmed s id) (hrow : other = id → t'.isApplyConfirmed = true) :
    Confirmed { s with tasks := s.tasks.insert (taskKey other) (.record t') } id := by
  unfold Confirmed taskRow
  by_cases hid : other = id
  · exact ⟨t', by rw [hid]; exact Table.get?_insert_self _ _ _, hrow hid⟩
  · rw [Table.get?_insert_of_ne _ _ fun hkey => hid (taskKey_inj.1 hkey)]
    exact h

theorem Confirmed.of_task? {other : UInt64} (h : Confirmed s id) (ht : s.task? other = .ok (some t)) (hid : other = id) :
    t.isApplyConfirmed = true := by
  obtain ⟨u, hu, hconfirmed⟩ := h
  have hrow := task?_eq_some_iff.1 (hid ▸ ht)
  rw [hu] at hrow
  cases hrow
  exact hconfirmed

/-- A confirmation that is accepted is stored, and it counts if the operator has a name. -/
theorem confirmApply_stored (h : s.confirmApply id user now = .ok (t, s')) :
    s'.taskRow id = some (.record t) ∧ (t.isApplyConfirmed = true ↔ user ≠ "") := by
  obtain ⟨u, -, -, rfl, rfl⟩ := confirmApply_ok_iff.1 h
  exact ⟨Table.get?_insert_self _ _ _, isApplyConfirmed_confirm u user now⟩

/-! ## Edits -/

/-- What may happen to the task table in one step. -/
inductive Edit (s : Store) : Store → Prop
  | untouched {s' : Store} : s'.tasks = s.tasks → Edit s s'
  | create {t' : Task} {s' : Store} (t : Task) : s.createTask t = some (t', s') → Edit s s'
  | confirm {t' : Task} {s' : Store} (id : UInt64) (user : String) (now : UInt64) :
      s.confirmApply id user now = .ok (t', s') → Edit s s'
  | change {t' : Task} {s' : Store} (id : UInt64) (change : Task → Except StoreError Task) :
      (∀ t t', change t = .ok t' → t'.confirmedBy = t.confirmedBy) → s.updateTask id change = .ok (t', s') → Edit s s'
  | claim {answer : Claim} {s' : Store} (id : UInt64) (r : ClaimRequest) (edit : Task → Task) :
      (∀ t, (edit t).confirmedBy = t.confirmedBy) → s.claimTask id r edit = .ok (answer, s') → Edit s s'

theorem Edit.of_taskWrite (h : TaskWrite s s') : Edit s s' := by
  cases h with
  | untouched h => exact .untouched h
  | change id change hchange h => exact .change id change (fun t t' hc => (hchange t t' hc).confirmedBy) h
  | claim id r edit hedit h => exact .claim id r edit (fun t => (hedit t).2.2) h

/-- A confirmed row stays confirmed, unless an operator without a name confirms it or its ID is
    given to a new task. -/
theorem Edit.keeps (h : Edit s s') (hconfirmed : Confirmed s id) :
    Confirmed s' id ∨ TakesBack id s s' ∨ Reissues id s s' := by
  cases h with
  | untouched h => exact .inl (hconfirmed.congr h)
  | @create row _ t h =>
    obtain ⟨-, hrow, rfl⟩ := createTask_cases h
    by_cases hid : row.id = id
    · exact .inr (.inr ⟨t, row, h, hid⟩)
    · exact .inl (hconfirmed.insert fun h => absurd h hid)
  | confirm other user now h =>
    obtain ⟨u, hu, -, rfl, rfl⟩ := confirmApply_ok_iff.1 h
    by_cases hid : other = id
    · by_cases huser : user = ""
      · subst hid huser
        exact .inr (.inl ⟨now, _, h⟩)
      · exact .inl (hconfirmed.insert fun _ => (isApplyConfirmed_confirm u user now).2 huser)
    · exact .inl (hconfirmed.insert fun h => absurd h hid)
  | change other change hchange h =>
    obtain ⟨u, hu, hc, rfl⟩ := updateTask_ok_iff.1 h
    refine .inl (hconfirmed.insert fun hid => ?_)
    rw [isApplyConfirmed_congr (hchange _ _ hc)]
    exact hconfirmed.of_task? hu hid
  | claim other r edit hedit h =>
    rcases claimTask_cases h with ⟨-, rfl⟩ | ⟨u, hu, -, -, -, rfl⟩
    · exact .inl hconfirmed
    · refine .inl (hconfirmed.insert fun hid => ?_)
      have hsame : (taken u r edit).confirmedBy = u.confirmedBy := hedit _
      rw [isApplyConfirmed_congr hsame]
      exact hconfirmed.of_task? hu hid

/-- No ID is given again that the counter has reached. -/
theorem Reissues.above (h : Reissues id s s') : s.lastTaskId < id := by
  obtain ⟨t, t', hcreate, rfl⟩ := h
  obtain ⟨hlt, rfl, -⟩ := createTask_cases hcreate
  exact hlt

/-! ## Runs -/

abbrev History := Scene World (List (Step World))

/-- A step that does to the task table what may happen to it. -/
def Edits (w w' : World) : Prop := Edit w.store w'.store

/-- Beside the processes, operators submit and confirm, executors and other orchestrators change
    and claim rows, and everything but the tasks may change at any time. -/
def OutsideConfirmations (c d : History) : Prop :=
  Edits c.state d.state ∧ d.memory = c.memory ++ [⟨none, c.state, d.state⟩]

/-- The processes that begin: the jobs of an orchestrator, turn by turn, and the calls that it
    serves. -/
inductive BeginsJobOrCall (c : History) (process : Nat) : Program World Unit → History → Prop
  | turn (o : Orchestrator) (job : Job) : BeginsJobOrCall c process (do let _ ← o.turn process job) c
  | submit (t : Task) : BeginsJobOrCall c process (do let _ ← Orchestrator.submit t) c
  | confirm (o : Orchestrator) (task : UInt64) (user : String) :
      BeginsJobOrCall c process (ignoring (o.confirm process task user)) c
  | dispatch (cfg : Settings) (workspace : String) :
      BeginsJobOrCall c process (ignoring (tryDispatch cfg process workspace)) c
  | apply (cfg : Settings) (workspace : String) (task : UInt64) :
      BeginsJobOrCall c process (ignoring (executeConfirmedApply cfg process workspace task)) c
  | completed (task : UInt64) : BeginsJobOrCall c process (ignoring (onTaskCompleted task)) c
  | sweep (now : UInt64) : BeginsJobOrCall c process (ignoring (Recovery.sweep now)) c
  | recover : BeginsJobOrCall c process (ignoring Recovery.recover) c

theorem edits_writes {α : Type} {p : Program World α} (hp : p.Steps Writes) : p.Steps Edits :=
  hp.mono fun _ _ h => .of_taskWrite h

theorem edits_submit (t : Task) : (Orchestrator.submit t).Steps Edits := by
  refine .bind (Program.steps_createTask (fun _ => .untouched rfl) fun w t' s' h => .create t h) fun t => ?_
  exact .bind (Program.steps_modify fun w => .untouched rfl) fun _ => Program.steps_pure _

theorem edits_confirm (o : Orchestrator) (process : Nat) (task : UInt64) (user : String) :
    (o.confirm process task user).run.Steps Edits := by
  refine steps_bind (.map _ (.bind (edits_writes (writes_aside (steps_read _))) fun now => ?_)) fun t => ?_
  · exact Program.steps_transact (fun w => .untouched rfl) fun w t s' h => .confirm task user now h
  · exact edits_writes (writes_executeConfirmedApply process t.workspace task)

theorem BeginsJobOrCall.steps {c d : History} {p : Program World Unit} (h : BeginsJobOrCall c i p d) :
    d = c ∧ p.Steps Edits := by
  cases h with
  | turn o job => exact ⟨rfl, .bind (edits_writes (o.writes_turn i job)) fun _ => trivial⟩
  | submit t => exact ⟨rfl, .bind (edits_submit t) fun _ => trivial⟩
  | confirm o task user => exact ⟨rfl, steps_ignoring (edits_confirm o i task user)⟩
  | dispatch cfg workspace => exact ⟨rfl, steps_ignoring (edits_writes (writes_tryDispatch i workspace))⟩
  | apply cfg workspace task => exact ⟨rfl, steps_ignoring (edits_writes (writes_executeConfirmedApply i workspace task))⟩
  | completed task => exact ⟨rfl, steps_ignoring (edits_writes (writes_tidy (tidy_onTaskCompleted task)))⟩
  | sweep now => exact ⟨rfl, steps_ignoring (edits_writes (writes_tidy (tidy_sweep now)))⟩
  | recover => exact ⟨rfl, steps_ignoring (edits_writes (writes_tidy tidy_recover))⟩

abbrev RunsTo (first : World) : History → List (Program World Unit) → Prop :=
  (Discipline.recording World).Run OutsideConfirmations BeginsJobOrCall ⟨first, []⟩

/-- The run so far, all of whose steps are edits. -/
abbrev Edited (first : World) : History → Prop :=
  Discipline.Accounted first (fun _ => True) fun _ e => Edits e.before e.after

theorem edited_of_run {first : World} {c : History} {crew : List (Program World Unit)} (h : RunsTo first c crew) :
    Edited first c := by
  refine (Discipline.Run.invariant (S := Edits) (I := Edited first) (Discipline.accounted_first trivial)
    ?_ ?_ ?_ ?_ h).1
  · rintro c ⟨w, m⟩ hi ⟨hedits, hm⟩
    have hm : m = c.memory ++ [⟨none, c.state, w⟩] := hm
    subst hm
    exact hi.step trivial hedits
  · intro c i p d hi hbegins
    obtain ⟨rfl, hp⟩ := hbegins.steps
    exact ⟨hi, hp⟩
  · exact fun c i s' hi hstep => hi.step trivial hstep
  · exact fun c i hi => hi.step trivial (.untouched rfl)

/-- In every run, a task that is confirmed stays confirmed until an operator without a name confirms
    it, or its ID is given to another task, which the counter had not reached before. A confirmation
    that is accepted is stored as answered, and the task is confirmed by it unless the operator has no
    name. -/
theorem confirmations_last {first : World} {c : History} {crew : List (Program World Unit)} (hrun : RunsTo first c crew)
    (id : UInt64) :
    (∀ before e after, c.memory = before ++ e :: after → Confirmed e.before.store id →
      Confirmed c.state.store id ∨ ∃ e' ∈ e :: after, Confirmed e'.before.store id ∧ ¬Confirmed e'.after.store id ∧
        (TakesBack id e'.before.store e'.after.store ∨
          Reissues id e'.before.store e'.after.store ∧ e'.before.store.lastTaskId < id)) ∧
    ∀ (s : Store) (user : String) (now : UInt64) (t : Task) (s' : Store), s.confirmApply id user now = .ok (t, s') →
      s'.taskRow id = some (.record t) ∧ (t.isApplyConfirmed = true ↔ user ≠ "") := by
  refine ⟨fun before e after hl hconfirmed => ?_, fun s user now t s' h => confirmApply_stored h⟩
  have hi := edited_of_run hrun
  refine Classical.or_iff_not_imp_left.2 fun hlost => ?_
  have hsince : Chain e.before (e :: after) c.state := ⟨rfl, (hl ▸ hi.chain).split.2⟩
  obtain ⟨l₁, e', l₂, hcut, hbefore, hafter, -⟩ := hsince.lost (P := fun w => Confirmed w.store id) hconfirmed hlost
  have hedits := hi.steps (before ++ l₁) e' l₂ (by rw [hl, hcut, List.append_assoc])
  refine ⟨e', by rw [hcut]; simp, hbefore, hafter, ?_⟩
  rcases (hedits.keeps hbefore).resolve_left hafter with htaken | hreissued
  · exact .inl htaken
  · exact .inr ⟨hreissued, hreissued.above⟩

/-! ## An apply that waits -/

/-- The task, confirmed by this operator at this time. -/
def confirmedTask (user : String) (now : UInt64) : Task :=
  { Task.submitted "ws" .planAndApply 0 .manual with
    id := 1, status := .applyPending, confirmedBy := some user, confirmedAt := some now }

/-- A task that waits for its apply on this machine. -/
def unconfirmed : World where
  store := (({} : Store).putWorkspace { id := "ws", mode := .onHost }).setTask
    { Task.submitted "ws" .planAndApply 0 .manual with id := 1, status := .applyPending }
  clock := 0

def byAlice : World := { unconfirmed with store := unconfirmed.store.setTask (confirmedTask "alice" 0) }

def byNobody : World := { unconfirmed with store := unconfirmed.store.setTask (confirmedTask "" 1) }

theorem run_byAlice : RunsTo unconfirmed ⟨byAlice, [⟨none, unconfirmed, byAlice⟩]⟩ [] := by
  have hstart : RunsTo unconfirmed ⟨unconfirmed, []⟩ [] := .start
  exact hstart.outside ⟨.confirm 1 "alice" 0 rfl, rfl⟩

/-- The apply starts. -/
def applied : Program World Unit × History :=
  (Discipline.recording World).carry 0 100 (ignoring (executeConfirmedApply { holder := "a" } 0 "ws" 1))
    ⟨byAlice, [⟨none, unconfirmed, byAlice⟩]⟩

theorem confirmations_last_one_apply :
    (∃ c, RunsTo unconfirmed c [.done ()] ∧ (∃ t, c.state.store.taskRow 1 = some (.record t) ∧ t.status = .running) ∧
      (Confirmed c.state.store 1 ∨ ∃ e' ∈ applied.2.memory.tail, Confirmed e'.before.store 1 ∧
        ¬Confirmed e'.after.store 1 ∧ (TakesBack 1 e'.before.store e'.after.store ∨
          Reissues 1 e'.before.store e'.after.store ∧ e'.before.store.lastTaskId < 1))) ∧
    unconfirmed.store.confirmApply 1 "alice" 0 = .ok (confirmedTask "alice" 0, byAlice.store) ∧
      byAlice.store.taskRow 1 = some (.record (confirmedTask "alice" 0)) := by
  have hrun : RunsTo unconfirmed applied.2 [applied.1] := run_byAlice.begun (.apply { holder := "a" } "ws" 1) 100
  obtain ⟨hlast, hstored⟩ := confirmations_last hrun 1
  have hkept := hlast [⟨none, unconfirmed, byAlice⟩] ⟨some 0, byAlice, byAlice⟩ applied.2.memory.tail.tail rfl ⟨_, rfl, rfl⟩
  have hconfirm : unconfirmed.store.confirmApply 1 "alice" 0 = .ok (confirmedTask "alice" 0, byAlice.store) := rfl
  exact ⟨⟨applied.2, hrun, ⟨_, rfl, rfl⟩, hkept⟩, hconfirm, (hstored _ _ _ _ _ hconfirm).1⟩

/-- An operator with a name confirms the apply, which may start now. Another one, without a name,
    confirms it again, which is accepted, and the apply is refused. -/
theorem nameless_confirmation_ends_another :
    RunsTo unconfirmed ⟨byAlice, [⟨none, unconfirmed, byAlice⟩]⟩ [] ∧ Confirmed byAlice.store 1 ∧
      (∃ w, (executeConfirmedApply { holder := "a" } 0 "ws" 1).run.run byAlice =
        (.finished (.ok (.started 1 none)), w)) ∧
      byAlice.store.confirmApply 1 "" 1 = .ok (confirmedTask "" 1, byNobody.store) ∧
      (∃ m, RunsTo unconfirmed ⟨byNobody, m⟩ []) ∧ (confirmedTask "" 1).isApplyConfirmed = false ∧
      byNobody.store.taskRow 1 = some (.record (confirmedTask "" 1)) ∧
      (executeConfirmedApply { holder := "a" } 0 "ws" 1).run.run byNobody =
        (.finished (.error (.unconfirmedApply 1)), byNobody) := by
  have hagain : byAlice.store.confirmApply 1 "" 1 = .ok (confirmedTask "" 1, byNobody.store) := rfl
  have htaken := run_byAlice.outside (d := ⟨byNobody, [⟨none, unconfirmed, byAlice⟩] ++ [⟨none, byAlice, byNobody⟩]⟩)
    ⟨.confirm 1 "" 1 hagain, rfl⟩
  exact ⟨run_byAlice, ⟨_, rfl, rfl⟩, ⟨_, rfl⟩, hagain, ⟨_, htaken⟩, rfl, rfl, rfl⟩

end TaskFleet.Confirmations
