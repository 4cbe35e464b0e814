/-
  TaskFleet.Proofs.Recovery.LateSweeps — sweeps that take back claims while others use the store.

  A sweep looks for the tasks whose lease ran out, and then takes them back, in one transaction
  each. It does not look at the lease again.
  - `Grounded`: whatever a sweep takes back it had found, with a lease that had run out, and it is
    running at that moment; the row may only be another one if somebody else changed it since.
  - `TookBack`: how far a sweep has come. It stops at the first row that cannot be taken back.
  - `sweeps_take_back_running_tasks`: both, for sweeps in every interleaving.
  - `late_sweep_takes_back_a_settled_task`: the lease was dropped before the row was rewritten.
-/

import TaskFleet.Dispatch.Claim
import TaskFleet.Proofs.Store.Transactions
import TaskFleet.Proofs.Traces

namespace TaskFleet.LateSweeps

open Store StoreProgram

/-! ## Rows that can be taken back -/

/-- The task is running, or pending in the middle of its apply. -/
def Underway (t : Task) : Prop := t.status = .running ∨ (t.status = .pending ∧ t.stage = some .applying)

theorem underway_of_giveBack {t t' : Task} (h : t.giveBack = .ok t') : Underway t ∧ ¬Underway t' := by
  rcases giveBack_ok_iff.1 h with ⟨hst, hmove, rfl⟩ | ⟨hst, hmove, rfl⟩
  · refine ⟨?_, by simp [Underway]⟩
    cases hs : t.status with
    | running => exact .inl hs
    | pending => exact .inr ⟨hs, hst⟩
    | _ => rw [hs] at hmove; cases hmove
  · refine ⟨?_, by simp [Underway]⟩
    cases hs : t.status with
    | running => exact .inl hs
    | _ => rw [hs] at hmove; cases hmove

theorem Underway.giveBack {t : Task} (h : Underway t) : ∃ t', t.giveBack = .ok t' := by
  by_cases hst : t.stage = some .applying
  · refine ⟨_, giveBack_ok_iff.2 (.inl ⟨hst, ?_, rfl⟩)⟩
    rcases h with h | ⟨h, -⟩
    · rw [h]; rfl
    · rw [h]; rfl
  · refine ⟨_, giveBack_ok_iff.2 (.inr ⟨hst, ?_, rfl⟩)⟩
    rcases h with h | ⟨-, h⟩
    · rw [h]; rfl
    · exact absurd h hst

/-- The step takes back the task in this row. -/
def TakesBack (id : UInt64) (t : Task) (e : Step Store) : Prop :=
  e.before.taskRow id = some (.record t) ∧
    ∃ t', t.giveBack = .ok t' ∧ e.after = { e.before with tasks := e.before.tasks.insert (taskKey id) (.record t') }

/-! ## What is said of a run -/

variable {now : Nat → UInt64} {i : Nat} {l l' l₁ l₂ : List (Step Store)} {e : Step Store}

/-- A sweep looked at the store and found these tasks, the steps `l` ago. -/
structure Found (now : UInt64) (i : Nat) (scan : Step Store) (ts : List Task) : Prop where
  process : scan.process = some i
  quiet : scan.after = scan.before
  found : scan.before.tasksWhere (·.hasExpiredLease now) = .ok ts

/-- What a sweep takes back it had found with a lease that had run out, and it is under way. It is
    the task that was found, if that was under its own key, unless somebody else has changed the
    row since. -/
def Justified (now : UInt64) (i : Nat) (l : List (Step Store)) (e : Step Store) : Prop :=
  ∃ l₀ scan l₁ ts t u, l = l₀ ++ scan :: l₁ ∧ Found now i scan ts ∧ t ∈ ts ∧ TakesBack t.id u e ∧
    (scan.before.Holds t → u ≠ t → ∃ e' ∈ l₁, e'.process ≠ some i ∧ e'.after.taskRow t.id ≠ e'.before.taskRow t.id)

/-- What a sweep changes in the step, it takes back with reason. -/
def Grounded (now : Nat → UInt64) (l : List (Step Store)) (e : Step Store) : Prop :=
  ∀ i, e.process = some i → e.after ≠ e.before → Justified (now i) i l e

/-- A sweep has found these tasks, has taken back the tasks `done`, and has changed nothing else. -/
def TookBack (now : UInt64) (i : Nat) (ts done : List Task) (l : List (Step Store)) : Prop :=
  ∃ l₀ scan l₁, l = l₀ ++ scan :: l₁ ∧ Found now i scan ts ∧
    (∀ t ∈ done, ∃ e ∈ l₁, e.process = some i ∧ ∃ u, TakesBack t.id u e) ∧
    ∀ e ∈ l₁, e.process = some i → e.after ≠ e.before → ∃ t ∈ done, ∃ u, TakesBack t.id u e

/-- The sweep came upon a row that it could not take back. -/
def Failed (i : Nat) (t : Task) (l : List (Step Store)) : Prop :=
  ∃ e ∈ l, e.process = some i ∧ e.after = e.before ∧ ∀ u, e.before.taskRow t.id = some (.record u) → ¬Underway u

/-- The sweep could not even look. -/
def Blind (now : UInt64) (i : Nat) (error : StoreError) (l : List (Step Store)) : Prop :=
  ∃ scan ∈ l, scan.process = some i ∧ scan.before.tasksWhere (·.hasExpiredLease now) = .error error

/-- The step leaves the store alone, if it is the process's. -/
def Fair (i : Nat) (e : Step Store) : Prop := e.process = some i → e.after = e.before

theorem TookBack.append {ts done : List Task} {t : UInt64} (h : TookBack t i ts done l) (hfair : ∀ e ∈ l', Fair i e) :
    TookBack t i ts done (l ++ l') := by
  obtain ⟨l₀, scan, l₁, rfl, hfound, hdone, hown⟩ := h
  refine ⟨l₀, scan, l₁ ++ l', by simp, hfound, fun t ht => ?_, fun e he hi hchange => ?_⟩
  · obtain ⟨e, he, hback⟩ := hdone t ht
    exact ⟨e, List.mem_append_left _ he, hback⟩
  · rcases List.mem_append.1 he with he | he
    · exact hown e he hi hchange
    · exact absurd (hfair e he hi) hchange

/-- The row is the task that was found, or the task in it is not under way any more. -/
def FoundOrStopped (t : Task) (s : Store) : Prop :=
  s.taskRow t.id = some (.record t) ∨ ∃ v, s.taskRow t.id = some (.record v) ∧ ¬Underway v

theorem FoundOrStopped.congr {t : Task} {s s' : Store} (h : FoundOrStopped t s) (hrow : s'.taskRow t.id = s.taskRow t.id) :
    FoundOrStopped t s' := by
  unfold FoundOrStopped
  rw [hrow]
  exact h

/-- What a sweep finds in the row of a task that it is to take back. -/
theorem justified_of_takesBack {s : Store} {ts done : List Task} {t u : Task} (h : TookBack (now i) i ts done l)
    (ht : t ∈ ts) (hback : TakesBack t.id u e) (hchain : Chain s l e.before) : Justified (now i) i l e := by
  obtain ⟨l₀, scan, l₁, rfl, hfound, -, hown⟩ := h
  refine ⟨l₀, scan, l₁, ts, t, u, rfl, hfound, ht, hback, fun hheld hne => ?_⟩
  have hsince : Chain scan.after l₁ e.before := hchain.split.2
  -- without others, the row is as it was found, or the sweep itself has taken it back
  have hfirst : FoundOrStopped t scan.after := .inl (hfound.quiet ▸ hheld)
  have hlast : ¬FoundOrStopped t e.before := by
    obtain ⟨hrow, u', hu', -⟩ := hback
    rintro (h | ⟨v, h, hv⟩)
    · rw [hrow] at h
      cases h
      exact hne rfl
    · rw [hrow] at h
      cases h
      exact hv (underway_of_giveBack hu').1
  obtain ⟨m₁, e', m₂, rfl, hbefore, hafter, -⟩ := hsince.lost hfirst hlast
  refine ⟨e', by simp, fun hi => ?_, fun hsame => ?_⟩
  · -- a step of the sweep itself does not take this away
    refine hafter ?_
    have hchange : e'.after ≠ e'.before := fun hsame => hafter (hsame ▸ hbefore)
    obtain ⟨t', -, v, hrow, v', hv', hstore⟩ := hown e' (by simp) hi hchange
    by_cases hid : t'.id = t.id
    · refine .inr ⟨v', ?_, (underway_of_giveBack hv').2⟩
      rw [hstore, taskRow, hid, Table.get?_insert_self]
    · refine hbefore.congr ?_
      rw [hstore]
      exact Table.get?_insert_of_ne _ _ fun hkey => hid (taskKey_inj.1 hkey)
  · exact hafter (hbefore.congr hsame)

/-! ## The discipline -/

/-- What sweeps at these times keep to, from this store on. -/
def sweeping (now : Nat → UInt64) (s : Store) : Discipline Store (List (Step Store)) :=
  .accounting s (fun _ => True) (Grounded now) Fair (fun _ _ _ _ _ hchange => absurd rfl hchange) fun _ _ _ _ => rfl

/-- What happens outside: any transaction of anybody. -/
inductive OutsideSweeps (c : Scene Store (List (Step Store))) : Scene Store (List (Step Store)) → Prop
  | transaction (s : Store) : OutsideSweeps c ⟨s, c.memory ++ [⟨none, c.state, s⟩]⟩

/-- Sweeps begin, at any number of times. -/
inductive BeginsSweep (now : Nat → UInt64) (c : Scene Store (List (Step Store))) :
    Nat → Program Store (Except StoreError (List UInt64)) → Scene Store (List (Step Store)) → Prop
  | sweep (i : Nat) : BeginsSweep now c i (reclaimExpired (now i)).run c

/-- How a sweep ends. -/
def Ended (now : UInt64) (i : Nat) : Except StoreError (List UInt64) → List (Step Store) → Prop
  | .ok ids, l => ∃ ts, ids = ts.map (·.id) ∧ TookBack now i ts ts l
  | .error error, l => Blind now i error l ∨ ∃ ts t rest, TookBack now i (ts ++ t :: rest) ts l ∧ Failed i t l

variable {s : Store} {c d : Scene Store (List (Step Store))} {crew : List (Program Store (Except StoreError (List UInt64)))}

theorem stable_tookBack {t : UInt64} {ts done : List Task} :
    (sweeping now s).Stable i fun c => TookBack t i ts done c.memory := by
  rintro c d h ⟨l, hl, -, hfair⟩
  rw [hl]
  exact h.append hfair

theorem stable_ended {t : UInt64} {r : Except StoreError (List UInt64)} :
    (sweeping now s).Stable i fun c => Ended t i r c.memory := by
  rintro c d h ⟨l, hl, -, hfair⟩
  rw [hl]
  cases r with
  | ok ids =>
    obtain ⟨ts, hids, htook⟩ := h
    exact ⟨ts, hids, htook.append hfair⟩
  | error error =>
    rcases h with ⟨scan, hmem, hscan⟩ | ⟨ts, t, rest, htook, e, hmem, hfailed⟩
    · exact .inl ⟨scan, List.mem_append_left _ hmem, hscan⟩
    · exact .inr ⟨ts, t, rest, htook.append hfair, e, List.mem_append_left _ hmem, hfailed⟩

/-- The scene after a step of a sweep. -/
def stepped (i : Nat) (c : Scene Store (List (Step Store))) (s' : Store) : Scene Store (List (Step Store)) :=
  ⟨s', c.memory ++ [⟨some i, c.state, s'⟩]⟩

/-- A step of a sweep that is justified, if it changes anything. -/
theorem keeps_step {s' : Store} (hi : (sweeping now s).Inv c)
    (hj : s' ≠ c.state → Justified (now i) i c.memory ⟨some i, c.state, s'⟩) :
    (sweeping now s).Keeps i c (stepped i c s') := by
  refine Discipline.keeps_accounting hi trivial (fun j hj' hchange => ?_)
    fun j hne hj' => absurd (Option.some.inj hj') hne.symm
  cases hj'
  exact hj hchange

/-- What a sweep knows after it has tried to take back one more task. -/
def Tried (now : UInt64) (i : Nat) (ts done : List Task) (t : Task) (r : Except StoreError Task) (l : List (Step Store)) :
    Prop :=
  match r with
  | .ok _ => TookBack now i ts (done ++ [t]) l
  | .error error => Ended now i (.error error) l

theorem stable_tried {n : UInt64} {ts done : List Task} {t : Task} (r : Except StoreError Task) :
    (sweeping now s).Stable i fun c => Tried n i ts done t r c.memory := by
  cases r with
  | ok u => exact stable_tookBack
  | error error => exact fun c d h hr => stable_ended (r := .error error) c d h hr

theorem tookBack_snoc {n : UInt64} {ts done : List Task} {t u : Task} (h : TookBack n i ts done l) (hi : e.process = some i)
    (hback : TakesBack t.id u e) : TookBack n i ts (done ++ [t]) (l ++ [e]) := by
  obtain ⟨l₀, scan, l₁, rfl, hfound, hdone, hown⟩ := h
  refine ⟨l₀, scan, l₁ ++ [e], by simp, hfound, fun t' ht' => ?_, fun e' he' hi' hchange => ?_⟩
  · rcases List.mem_append.1 ht' with ht' | ht'
    · obtain ⟨e', he', hback'⟩ := hdone t' ht'
      exact ⟨e', List.mem_append_left _ he', hback'⟩
    · rw [List.mem_singleton.1 ht']
      exact ⟨e, by simp, hi, u, hback⟩
  · rcases List.mem_append.1 he' with he' | he'
    · obtain ⟨t', ht', hback'⟩ := hown e' he' hi' hchange
      exact ⟨t', List.mem_append_left _ ht', hback'⟩
    · rw [List.mem_singleton.1 he']
      exact ⟨t, by simp, u, hback⟩

/-- One transaction of a sweep. -/
theorem leads_reclaim {ts done rest : List Task} {t : Task} (hts : ts = done ++ t :: rest)
    (h : TookBack (now i) i ts done c.memory) :
    (sweeping now s).Leads i (transaction (·.reclaim t.id)).run (fun r d => Tried (now i) i ts done t r d.memory) c := by
  refine Discipline.leads_apply stable_tookBack stable_tried (fun d hi h => ?_) h
  cases hr : d.state.reclaim t.id with
  | ok r =>
    obtain ⟨u', s'⟩ := r
    obtain ⟨u, hu, hback, rfl⟩ := updateTask_ok_iff.1 hr
    have htakes : TakesBack t.id u
        ⟨some i, d.state, { d.state with tasks := d.state.tasks.insert (taskKey t.id) (.record u') }⟩ :=
      ⟨task?_eq_some_iff.1 hu, u', hback, rfl⟩
    simp only [Discipline.after, hr]
    refine ⟨keeps_step hi fun _ => justified_of_takesBack h (hts ▸ by simp) htakes hi.chain, ?_⟩
    exact tookBack_snoc h rfl htakes
  | error error =>
    simp only [Discipline.after, hr]
    refine ⟨keeps_step hi fun hchange => absurd rfl hchange, .inr ⟨done, t, rest, ?_, ⟨some i, d.state, d.state⟩, ?_⟩⟩
    · rw [← hts]
      exact h.append fun e he _ => by rw [List.mem_singleton.1 he]
    · refine ⟨List.mem_append_right _ (List.mem_singleton.2 rfl), rfl, rfl, fun u hu hunder => ?_⟩
      obtain ⟨u', hback⟩ := hunder.giveBack
      have hok := updateTask_ok_iff.2 ⟨u, task?_eq_some_iff.2 hu, hback, rfl⟩
      rw [Store.reclaim, hok] at hr
      cases hr

theorem leads_reclaimEach {ts : List Task} (done rest : List Task) (hts : ts = done ++ rest)
    (h : TookBack (now i) i ts done c.memory) :
    (sweeping now s).Leads i (reclaimEach rest).run
      (fun r d => match r with
        | .ok ids => ids = rest.map (·.id) ∧ TookBack (now i) i ts ts d.memory
        | .error error => Ended (now i) i (.error error) d.memory) c := by
  induction rest generalizing done c with
  | nil =>
    rw [List.append_nil] at hts
    subst hts
    exact Discipline.leads_pure fun d hr => ⟨rfl, stable_tookBack c d h hr⟩
  | cons t rest ih =>
    refine Discipline.Leads.bind (leads_reclaim hts h) fun r c h => ?_
    cases r with
    | error error => exact Discipline.leads_pure fun d hr => stable_ended c d h hr
    | ok u =>
      refine Discipline.Leads.bind (ih (done ++ [t]) (by simp [hts]) h) fun r c h => ?_
      cases r with
      | error error => exact Discipline.leads_pure fun d hr => stable_ended c d h hr
      | ok ids =>
        obtain ⟨rfl, htook⟩ := h
        exact Discipline.leads_pure fun d hr => ⟨rfl, stable_tookBack c d htook hr⟩

/-- What a sweep knows after it has looked. -/
def Looked (now : Nat → UInt64) (i : Nat) (r : Except StoreError (List Task)) (c : Scene Store (List (Step Store))) : Prop :=
  match r with
  | .ok ts => TookBack (now i) i ts [] c.memory
  | .error error => Ended (now i) i (.error error) c.memory

theorem stable_looked (r : Except StoreError (List Task)) : (sweeping now s).Stable i (Looked now i r) := by
  cases r with
  | ok ts => exact stable_tookBack
  | error error => exact fun c d h hr => stable_ended (r := .error error) c d h hr

theorem leads_reclaimExpired :
    (sweeping now s).Leads i (reclaimExpired (now i)).run (fun r d => Ended (now i) i r d.memory) c := by
  have hstable : (sweeping now s).Stable i fun _ => True := fun _ _ _ _ => trivial
  refine Discipline.Leads.bind (R := Looked now i) (Discipline.leads_get hstable stable_looked (fun d hi _ => ?_) trivial)
    fun r c h => ?_
  · show Looked now i (d.state.tasksWhere (·.hasExpiredLease (now i))) (stepped i d d.state)
    cases hfound : d.state.tasksWhere (·.hasExpiredLease (now i)) with
    | ok ts => exact ⟨d.memory, ⟨some i, d.state, d.state⟩, [], rfl, ⟨rfl, rfl, hfound⟩, by simp, by simp⟩
    | error error => exact .inl ⟨⟨some i, d.state, d.state⟩, List.mem_append_right _ (List.mem_singleton.2 rfl), rfl, hfound⟩
  · cases r with
    | error error => exact Discipline.leads_pure fun d hr => stable_ended c d h hr
    | ok ts =>
      refine (leads_reclaimEach [] ts rfl h).mono fun r d h => ?_
      cases r with
      | ok ids => exact ⟨ts, h⟩
      | error error => exact h

theorem keeping (now : Nat → UInt64) (s : Store) :
    (sweeping now s).Keeping OutsideSweeps (BeginsSweep now) ⟨s, []⟩
      (fun i r d => ∀ a, r = .ok a → Ended (now i) i a d.memory) where
  first := Discipline.accounted_first trivial
  outside c d hc h := by
    obtain ⟨s'⟩ := h
    exact ⟨hc.step trivial nofun, fun j => Discipline.rely_accounting nofun⟩
  begins c i p d hc h := by
    obtain ⟨i⟩ := h
    exact ⟨⟨hc, fun j _ => Discipline.rely_refl _ j c⟩, leads_reclaimExpired⟩

/-- Sweeps that take back claims beside any other transactions: whatever one takes back it had
    found with a lease that had run out, and the task is under way; it may be another than was found
    only if somebody else has changed the row since. A sweep that ends has taken back all that it
    had found, or all before a row that was not under way any more. -/
theorem sweeps_take_back_running_tasks {now : Nat → UInt64} {s : Store} {c : Scene Store (List (Step Store))}
    {crew : List (Program Store (Except StoreError (List UInt64)))}
    (hrun : (sweeping now s).Run OutsideSweeps (BeginsSweep now) ⟨s, []⟩ c crew) :
    Throughout (Grounded now) c.memory ∧ ∀ i r, crew[i]? = some (.done r) → Ended (now i) i r c.memory :=
  ⟨(hrun.sound (keeping now s)).1.steps, fun _ r hend => hrun.ended (keeping now s) hend r rfl⟩

/-! ## Runs -/

/-- A claimed task whose lease runs out at 60. -/
def leased (id : UInt64) : Task :=
  { Task.submitted "ws" .plan 0 .manual with
    id
    status := .running
    stage := some .planning
    lease := some { holder := "a", lockedAt := 0, expiresAt := 60 } }

def threeLeased : Store := ((({} : Store).setTask (leased 1)).setTask (leased 2)).setTask (leased 3)

def at60 : Nat → UInt64 := fun _ => 60

abbrev RunsTo : Scene Store (List (Step Store)) → List (Program Store (Except StoreError (List UInt64))) → Prop :=
  (sweeping at60 threeLeased).Run OutsideSweeps (BeginsSweep at60) ⟨threeLeased, []⟩

theorem sweeps_take_back_running_tasks_alone :
    ∃ c, RunsTo c [.done (.ok [1, 2, 3])] ∧ Ended 60 0 (.ok [1, 2, 3]) c.memory := by
  have hstart : RunsTo ⟨threeLeased, []⟩ [] := .start
  have hbegun := hstart.begins (.sweep 0)
  have hended := hbegun.carry (i := 0) (p := (reclaimExpired 60).run) rfl 10
  exact ⟨_, hended, (sweeps_take_back_running_tasks hended).2 0 (.ok [1, 2, 3]) rfl⟩

/-- The first task is settled, as when its hand-over has succeeded. -/
def settled : Store := threeLeased.setTask ((leased 1).settle "a")

/-- The second task has succeeded as well. -/
def succeeded : Store := settled.setTask { leased 2 with status := .success, completedAt := some 60, lease := none }

/-- A sweep has looked. -/
def looked : Program Store (Except StoreError (List UInt64)) × Scene Store (List (Step Store)) :=
  (sweeping at60 threeLeased).carry 0 1 (reclaimExpired 60).run ⟨threeLeased, []⟩

/-- The two other transactions came before the sweep went on. -/
def overtaken : Scene Store (List (Step Store)) :=
  ⟨succeeded, looked.2.memory ++ [⟨none, threeLeased, settled⟩] ++ [⟨none, settled, succeeded⟩]⟩

def lateSweep : Program Store (Except StoreError (List UInt64)) × Scene Store (List (Step Store)) :=
  (sweeping at60 threeLeased).carry 0 10 looked.1 overtaken

/-- A sweep that goes on after one task was settled and another has succeeded puts the settled
    task, which runs without a lease, back to pending, and fails at the other, so that the third
    goes on with a lease that has run out. -/
theorem late_sweep_takes_back_a_settled_task :
    threeLeased.updateTask 1 (fun t => .ok (t.settle "a")) = .ok ((leased 1).settle "a", settled) ∧
      settled.updateTask 2 (fun t => t.conclude .success 60) =
        .ok ({ leased 2 with status := .success, completedAt := some 60, lease := none }, succeeded) ∧
      RunsTo overtaken [looked.1] ∧ overtaken.state.Holds { leased 1 with lease := none } ∧
      ∃ c error, RunsTo c [.done (.error error)] ∧
        c.state.Holds { leased 1 with status := .pending, stage := none, lease := none } ∧
        c.state.Holds (leased 3) ∧ (leased 3).hasExpiredLease 60 = true := by
  have hstart : RunsTo ⟨threeLeased, []⟩ [] := .start
  have hbegun := hstart.begins (.sweep 0)
  have hlooked := hbegun.carry (i := 0) (p := (reclaimExpired 60).run) rfl 1
  have hover : RunsTo overtaken [looked.1] := (hlooked.outside (.transaction settled)).outside (.transaction succeeded)
  have hlate : RunsTo lateSweep.2 [lateSweep.1] := hover.carry (i := 0) (p := looked.1) rfl 10
  exact ⟨rfl, rfl, hover, rfl, _, _, hlate, rfl, rfl, rfl⟩

end TaskFleet.LateSweeps
