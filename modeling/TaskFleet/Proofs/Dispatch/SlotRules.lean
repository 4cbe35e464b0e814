/-
  TaskFleet.Proofs.Dispatch.SlotRules — what an attempt may count on while it works on a task.

  Between two of its steps the task's row may go on, other slots change hands, and somebody
  else may even free the slot that the attempt has.
  - `Quiet`: a step that starts nothing, takes no lock and leaves every task on its slot.
  - `Hand`: an attempt with the slot that it took and has not given back.
  - `HasTaken.excused`: giving that slot back has an excuse, whatever happened in between.
  - `Leads`: the rules for the parts of an attempt.
-/

import TaskFleet.Proofs.Dispatch.Reads
import TaskFleet.Proofs.Dispatch.Tenure

namespace TaskFleet.Tenure

open Fallible Dispatch Discipline

variable {A : Roles} {cfg : Settings} {i j : Nat} {c d : Moment} {h h' : History} {t t' : Task} {w w' : World}
  {x : Spot} {task : UInt64} {p : Option Nat} {α β ε : Type}

/-! ## Harmless steps -/

/-- What a world must be for a step to make sense. -/
structure Sane (w : World) : Prop where
  keyed : w.store.Keyed
  waiting : ∀ t, w.store.Holds t → t.status = .applyPending → t.kind.isExclusive = true
  order : w.capacity.Order

theorem Inv.sane (hi : Inv A c) : Sane c.state := ⟨hi.keyed, hi.waiting, hi.order⟩

/-- A step that starts nothing, leaves the locks alone and every task on its slot. -/
structure Harmless (w w' : World) : Prop where
  proper : ∀ A p h, Proper A p h w w'
  locks : w'.locks = w.locks
  keeps : ∀ x task, w.capacity.taskAt x = some task → w'.capacity.taskAt x = some task

def Quiet (w w' : World) : Prop := Sane w → Harmless w w'

/-- The parts of a world that matter here are the same. -/
structure SameHere (w w' : World) : Prop where
  rows : w'.store.tasks = w.store.tasks
  slots : w.capacity.Order → Capacity.SameTasks w.capacity w'.capacity
  locks : w'.locks = w.locks

/-- A new row for a task, under which nothing starts. -/
theorem proper_setTask (hs : Sane w) (ht : w.store.Holds t) (hgoes : t.Continues t')
    (hwaiting : t'.status = .applyPending → t'.kind.isExclusive = true)
    (hstarts : t'.status = .running → t'.kind.isExclusive = true → t.status = .running ∨
      ∃ i, p = some i ∧ w.locks.holds t'.workspace i = true) :
    Proper A p h w { w with store := w.store.setTask t' } where
  keyed := hs.keyed.setTask t'
  waiting := by
    intro u hu hst
    rcases Store.holds_setTask.1 hu with rfl | ⟨hu, -⟩
    · exact hwaiting hst
    · exact hs.waiting u hu hst
  rows := by
    intro u hu
    by_cases hid : u.id = t'.id
    · have hut : u = t := Store.holds_inj hu ht (hid.trans hgoes.id)
      exact ⟨t', Store.holds_setTask.2 (.inl rfl), hut ▸ hgoes⟩
    · exact ⟨u, Store.holds_setTask.2 (.inr ⟨hu, hid⟩), .refl u⟩
  order := hs.order
  starts := by
    intro u hu hrun hex hno
    rcases Store.holds_setTask.1 hu with rfl | ⟨hu, -⟩
    · rcases hstarts hrun hex with hrun | hlock
      · exact absurd ⟨t, ht, hgoes.id.symm, hrun⟩ hno
      · exact hlock
    · exact absurd ⟨u, hu, rfl, hrun⟩ hno
  locks := fun _ _ _ hlock => hlock
  frees := fun _ _ hfrees => absurd hfrees.1 hfrees.2

theorem harmless_setTask (hs : Sane w) (ht : w.store.Holds t) (hgoes : t.Continues t')
    (hstatus : t'.status = t.status) : Harmless w { w with store := w.store.setTask t' } where
  proper := fun _ _ _ => proper_setTask hs ht hgoes
    (fun hst => hgoes.kind ▸ hs.waiting t ht (hstatus ▸ hst)) (fun hrun _ => .inl (hstatus ▸ hrun))
  locks := rfl
  keeps := fun _ _ htask => htask

/-- Only the pods change, and the tasks that leave their slots have an excuse. -/
theorem proper_capacity (hs : Sane w) {capacity : Capacity} (ho : capacity.Order)
    (hfrees : ∀ x task, w.capacity.taskAt x = some task → capacity.taskAt x ≠ some task →
      Excuse A h ⟨p, w, { w with capacity }⟩ x task) :
    Proper A p h w { w with capacity } where
  keyed := hs.keyed
  waiting := hs.waiting
  rows := fun t ht => ⟨t, ht, .refl t⟩
  order := ho
  starts := fun t ht hrun _ hno => absurd ⟨t, ht, rfl, hrun⟩ hno
  locks := fun _ _ _ hlock => hlock
  frees := fun x task hf => hfrees x task hf.1 hf.2

theorem quiet_capacity {capacity : Capacity} (hc : w.capacity.Order → capacity.Order ∧
      ∀ x task, w.capacity.taskAt x = some task → capacity.taskAt x = some task) :
    Quiet w { w with capacity } := by
  intro hs
  obtain ⟨ho, hkeeps⟩ := hc hs.order
  refine ⟨fun A p h => ?_, rfl, hkeeps⟩
  exact proper_capacity hs ho fun x task hbefore hafter => absurd (hkeeps x task hbefore) hafter

theorem quiet_of_same (hsame : SameHere w w') : Quiet w w' := by
  intro hs
  have hheld : ∀ t, w'.store.Holds t ↔ w.store.Holds t := fun t => Store.Holds.congr hsame.rows
  have hslots := hsame.slots hs.order
  have hkeeps : ∀ x task, w.capacity.taskAt x = some task → w'.capacity.taskAt x = some task :=
    fun x task htask => (hslots.tasks x).trans htask
  refine ⟨fun A p h => ⟨hs.keyed.congr hsame.rows, fun t ht => hs.waiting t ((hheld t).1 ht), fun t ht => ?_,
    hslots.order, fun t ht hrun _ hno => ?_, fun _ _ _ hlock => hsame.locks ▸ hlock, fun x task hf => ?_⟩,
    hsame.locks, hkeeps⟩
  · exact ⟨t, (hheld t).2 ht, .refl t⟩
  · exact absurd ⟨t, (hheld t).1 ht, rfl, hrun⟩ hno
  · exact absurd (hkeeps x task hf.1) hf.2

theorem quiet_refl (w : World) : Quiet w w := quiet_of_same ⟨rfl, .refl, rfl⟩

theorem quiet_bound {capacity : Capacity} {y : Spot}
    (hb : w.capacity.Order → Capacity.Bound w.capacity capacity y task) : Quiet w { w with capacity } := by
  refine quiet_capacity fun ho => ⟨(hb ho).order, fun x task' htask => ?_⟩
  by_cases hx : x = y
  · rw [hx, (hb ho).free] at htask
    cases htask
  · rw [(hb ho).others x hx]; exact htask

theorem quiet_sameTasks {capacity : Capacity} (hc : w.capacity.Order → Capacity.SameTasks w.capacity capacity) :
    Quiet w { w with capacity } := quiet_of_same ⟨rfl, hc, rfl⟩

/-! ## Quiet programs -/

theorem steps_read (f : World → α) : (Program.get f).Steps Quiet := Program.steps_get quiet_refl f

theorem steps_same {f : World → World} (hf : ∀ w, SameHere w (f w)) : (Program.modify f).Steps Quiet :=
  Program.steps_modify fun w => quiet_of_same (hf w)

theorem steps_schedule (workspace : String) (delay : Duration) : (Program.schedule workspace delay).Steps Quiet :=
  Program.steps_schedule quiet_refl fun _ _ => quiet_of_same ⟨rfl, .refl, rfl⟩

theorem steps_transact {f : Store → Except StoreError (α × Store)}
    (hf : ∀ w a s', Sane w → f w.store = .ok (a, s') → Harmless w { w with store := s' }) :
    (Program.transact f).Steps Quiet := by
  refine Program.steps_apply fun w => ?_
  cases hr : f w.store with
  | error e => exact quiet_refl w
  | ok r => exact fun hs => hf w r.1 r.2 hs hr

theorem steps_onCapacity {f : Capacity → UInt64 → Except CapacityError (α × Capacity)}
    (hf : ∀ w a c', f w.capacity w.now = .ok (a, c') → Quiet w { w with capacity := c' }) :
    (Program.onCapacity f).Steps Quiet := by
  refine Program.steps_apply fun w => ?_
  cases hr : f w.capacity w.now with
  | error e => exact quiet_refl w
  | ok r => exact hf w r.1 r.2 hr

theorem steps_tryUpdate {id : UInt64} {change : Task → Except StoreError Task}
    (hchange : ∀ t t', change t = .ok t' → t.Continues t' ∧ t'.status = t.status) :
    (tryUpdate id change).Steps Quiet := by
  refine .bind (steps_transact fun w t' s' hs hr => ?_) fun _ => trivial
  obtain ⟨t, ht, -, hch, hset⟩ := hs.keyed.of_updateTask hr
  obtain ⟨hgoes, hstatus⟩ := hchange t t' hch
  rw [hset hgoes.id]
  exact harmless_setTask hs ht hgoes hstatus

theorem steps_settle (id : UInt64) : (settle cfg id).Steps Quiet :=
  steps_tryUpdate fun t t' h => by cases h; exact ⟨⟨rfl, rfl, rfl, fun ht => ht⟩, rfl⟩

theorem steps_sendTask (process : Nat) (agent : String) (m : AgentMessage) :
    (Agent.sendTask process agent m).run.Steps Quiet :=
  Agent.steps_sendTask (fun _ _ => quiet_of_same ⟨rfl, .refl, rfl⟩) process agent m

theorem steps_markRunning (p : Placement) : (Program.editCapacity (·.markRunning p.pod p.slot ·)).Steps Quiet := by
  refine steps_onCapacity fun w a c' hr => ?_
  obtain ⟨c'', hc'', heq⟩ := map_eq_ok_iff.1 hr
  cases heq
  exact quiet_sameTasks fun ho => Capacity.markRunning_ok (y := p.spot) ho hc''

/-! ## What stays true -/

theorem prefix_of_rely (hr : (tenure A).Rely i c d) : c.memory <+: d.memory := by
  obtain ⟨l, hl, -⟩ := hr
  rw [hl]
  exact List.prefix_append _ _

theorem rows_of_rely (hr : (tenure A).Rely i c d) (ht : c.state.store.Holds t) :
    ∃ t', d.state.store.Holds t' ∧ t.Continues t' := by
  obtain ⟨l, -, hchain, hfair⟩ := hr
  have hrow : ∃ t', c.state.store.Holds t' ∧ t.Continues t' := ⟨t, ht, .refl t⟩
  refine hchain.preserves (P := fun w => ∃ t', w.store.Holds t' ∧ t.Continues t') (fun e he hbefore => ?_) hrow
  obtain ⟨t', ht', hgoes⟩ := hbefore
  obtain ⟨t'', ht'', hgoes'⟩ := (hfair e he).rows t' ht'
  exact ⟨t'', ht'', hgoes.trans hgoes'⟩

theorem lock_of_rely {workspace : String} (hr : (tenure A).Rely i c d) (hl : c.state.locks.holds workspace i = true) :
    d.state.locks.holds workspace i = true := by
  obtain ⟨l, -, hchain, hfair⟩ := hr
  exact hchain.preserves (P := fun w => w.locks.holds workspace i = true) (fun e he => (hfair e he).locks _) hl

/-- A step of a process that leaves the locks alone and every task on its slot. -/
structure OwnStep (A : Roles) (i : Nat) (c : Moment) (w' : World) : Prop where
  proper : Proper A (some i) c.memory c.state w'
  locks : w'.locks = c.state.locks
  keeps : ∀ x task, c.state.capacity.taskAt x = some task → w'.capacity.taskAt x = some task

theorem Quiet.own (hq : Quiet c.state w') (hi : Inv A c) : OwnStep A i c w' :=
  ⟨(hq hi.sane).proper _ _ _, (hq hi.sane).locks, (hq hi.sane).keeps⟩

/-- A fact about a run that neither others nor such a step of one's own can change. -/
structure Steady (A : Roles) (i : Nat) (F : Moment → Prop) : Prop where
  rely : ∀ c d, F c → (tenure A).Rely i c d → F d
  own : ∀ c w', Inv A c → F c → OwnStep A i c w' → F ⟨w', c.memory ++ [⟨some i, c.state, w'⟩]⟩

theorem Steady.and {F G : Moment → Prop} (hF : Steady A i F) (hG : Steady A i G) :
    Steady A i fun c => F c ∧ G c where
  rely := fun c d hc hr => ⟨hF.rely c d hc.1 hr, hG.rely c d hc.2 hr⟩
  own := fun c w' hi hc hstep => ⟨hF.own c w' hi hc.1 hstep, hG.own c w' hi hc.2 hstep⟩

theorem Steady.all {ι : Type} {F : ι → Moment → Prop} (h : ∀ a, Steady A i (F a)) :
    Steady A i fun c => ∀ a, F a c where
  rely := fun c d hc hr a => (h a).rely c d (hc a) hr
  own := fun c w' hi hc hstep a => (h a).own c w' hi (hc a) hstep

theorem Steady.imp {P : Prop} {F : Moment → Prop} (hF : Steady A i F) : Steady A i fun c => P → F c where
  rely := fun c d hc hr hp => hF.rely c d (hc hp) hr
  own := fun c w' hi hc hstep hp => hF.own c w' hi (hc hp) hstep

theorem steady_true (A : Roles) (i : Nat) : Steady A i fun _ => True :=
  ⟨fun _ _ _ _ => trivial, fun _ _ _ _ _ => trivial⟩

/-! ## An attempt and its slot -/

/-- The process saw the task not running while it had the lock, and has had the lock since. -/
def OnTime (i : Nat) (t : Task) (h : History) : Prop :=
  ∃ h₁ e h₂, h = h₁ ++ e :: h₂ ∧ ¬Running e.before t.id ∧ ∀ e' ∈ e :: h₂, e'.before.locks.holds t.workspace i = true

/-- What an attempt that works on a task can rely on. -/
structure AtWork (A : Roles) (i : Nat) (t : Task) (c : Moment) : Prop where
  row : ∃ t', c.state.store.Holds t' ∧ t.Continues t'
  lock : t.kind.isExclusive = true → c.state.locks.holds t.workspace i = true
  waiting : t.status = .applyPending → t.kind.isExclusive = true
  onTime : A.applies i ∨ (t.kind.isExclusive = true → OnTime i t c.memory)

/-- There was such a step, and the process has not taken the task off the slot since. -/
def Since (P : Step World → Prop) (i : Nat) (x : Spot) (task : UInt64) (h : History) : Prop :=
  ∃ h₁ e h₂, h = h₁ ++ e :: h₂ ∧ P e ∧ ∀ e' ∈ h₂, e'.process = some i → ¬e'.Frees x task

/-- The process has taken the slot for the task and has not given it back. -/
def HasTaken (i : Nat) (x : Spot) (task : UInt64) : History → Prop := Since (·.Takes i x task) i x task

/-- The process has seen the task on the slot and has not taken it off. -/
def Saw (i : Nat) (x : Spot) (task : UInt64) : History → Prop :=
  Since (fun e => e.process = some i ∧ e.after.capacity.taskAt x = some task) i x task

/-- The process has started the task while it had the slot, and has not given it back. -/
def Launched (i : Nat) (x : Spot) (task : UInt64) (h : History) : Prop :=
  ∃ h₁ e h₂, h = h₁ ++ e :: h₂ ∧ e.process = some i ∧ e.Starts task ∧ HasTaken i x task h₁ ∧
    ∀ e' ∈ e :: h₂, e'.process = some i → ¬e'.Frees x task

/-- A fact about the past that lasts as long as the process does not free the slot. -/
def Lasting (i : Nat) (x : Spot) (task : UInt64) (P : History → Prop) : Prop :=
  ∀ h l, P h → (∀ e ∈ l, e.process = some i → ¬e.Frees x task) → P (h ++ l)

/-- An attempt with the slot in its hands, if it has one. -/
def Hand (A : Roles) (i : Nat) (t : Task) (place : Option Placement) (c : Moment) : Prop :=
  AtWork A i t c ∧ ∀ p, place = some p → HasTaken i p.spot t.id c.memory

theorem lasting_since (P : Step World → Prop) (i : Nat) (x : Spot) (task : UInt64) : Lasting i x task (Since P i x task) := by
  rintro h l ⟨h₁, e, h₂, rfl, he, hown⟩ hl
  refine ⟨h₁, e, h₂ ++ l, by simp, he, fun e' he' => ?_⟩
  rcases List.mem_append.1 he' with he' | he'
  · exact hown e' he'
  · exact hl e' he'

theorem lasting_launched (i : Nat) (x : Spot) (task : UInt64) : Lasting i x task (Launched i x task) := by
  rintro h l ⟨h₁, e, h₂, rfl, hprocess, hstarts, hhas, hown⟩ hl
  refine ⟨h₁, e, h₂ ++ l, by simp, hprocess, hstarts, hhas, fun e' he' => ?_⟩
  rcases List.mem_append.1 (List.cons_append ▸ he' : e' ∈ (e :: h₂) ++ l) with he' | he'
  · exact hown e' he'
  · exact hl e' he'

theorem Lasting.steady {P : History → Prop} (hP : Lasting i x task P) : Steady A i fun c => P c.memory where
  rely := by
    rintro c d hc ⟨l, hl, -, hfair⟩
    rw [hl]
    refine hP _ l hc fun e he hown hfrees => ?_
    have hidle : e.after = e.before := (hfair e he).own hown
    exact hfrees.2 (hidle ▸ hfrees.1)
  own := by
    intro c w' _ hc hstep
    refine hP _ _ hc fun e he _ hfrees => ?_
    rw [List.mem_singleton.1 he] at hfrees
    exact hfrees.2 (hstep.keeps _ _ hfrees.1)

theorem OnTime.append {l : History} (ho : OnTime i t h) (hl : ∀ e ∈ l, e.before.locks.holds t.workspace i = true) :
    OnTime i t (h ++ l) := by
  obtain ⟨h₁, e, h₂, rfl, hidle, hheld⟩ := ho
  refine ⟨h₁, e, h₂ ++ l, by simp, hidle, fun e' he' => ?_⟩
  rcases List.mem_append.1 (List.cons_append ▸ he' : e' ∈ (e :: h₂) ++ l) with he' | he'
  · exact hheld e' he'
  · exact hl e' he'

/-- A process that is on time did not get the lock when the task was running already. -/
theorem OnTime.not_late (ho : OnTime i t c.memory) (hi : Inv A c)
    (hrow : ∃ t', c.state.store.Holds t' ∧ t.Continues t') : ¬CameLate c.memory i t.id := by
  rintro ⟨k₁, a, k₂, hm, ⟨u, hu, hid, hfree, -⟩, hruns⟩
  obtain ⟨h₁, e, h₂, hcut, hidle, hheld⟩ := ho
  have hws : u.workspace = t.workspace := by
    obtain ⟨t', ht', hgoes⟩ := hrow
    obtain ⟨u', hu', hgoes'⟩ := hi.past a (by rw [hm]; simp) u (.inr hu)
    have hsame : u' = t' := Store.holds_inj hu' ht' (hgoes'.id.trans (hid.trans hgoes.id.symm))
    rw [← hgoes'.workspace, hsame, hgoes.workspace]
  have hno : a ∉ e :: h₂ := by
    intro ha
    have hlock := hheld a ha
    rw [hws] at hfree
    rw [hfree] at hlock
    cases hlock
  rcases cut_cases (hcut.symm.trans hm) with ⟨-, rfl, -⟩ | ⟨m, rfl, rfl⟩ | ⟨m, rfl, rfl⟩
  · exact hno List.mem_cons_self
  · exact hno (by simp)
  · -- the lock was got before, and from then on the task was running
    obtain ⟨first, hchain⟩ := hi.chain
    rw [hm] at hchain
    have hbetween := hchain.split.2.split.1
    refine hidle (hbetween.preserves (P := fun w => Running w t.id) (fun e' he' _ => ?_) (hruns a List.mem_cons_self))
    exact hruns e' (by simp [he'])

theorem AtWork.rely (hw : AtWork A i t c) (hr : (tenure A).Rely i c d) : AtWork A i t d where
  row := by
    obtain ⟨t', ht', hgoes⟩ := hw.row
    obtain ⟨t'', ht'', hgoes'⟩ := rows_of_rely hr ht'
    exact ⟨t'', ht'', hgoes.trans hgoes'⟩
  lock := fun hex => lock_of_rely hr (hw.lock hex)
  waiting := hw.waiting
  onTime := by
    rcases hw.onTime with hbold | hon
    · exact .inl hbold
    · right
      intro hex
      obtain ⟨l, hl, hchain, hfair⟩ := hr
      rw [hl]
      exact (hon hex).append (hchain.before (P := fun w => w.locks.holds t.workspace i = true)
        (fun e he => (hfair e he).locks t.workspace) (hw.lock hex))

theorem AtWork.step (hw : AtWork A i t c) (hp : Proper A (some i) c.memory c.state w')
    (hlocks : w'.locks = c.state.locks) : AtWork A i t ⟨w', c.memory ++ [⟨some i, c.state, w'⟩]⟩ where
  row := by
    obtain ⟨t', ht', hgoes⟩ := hw.row
    obtain ⟨t'', ht'', hgoes'⟩ := hp.rows t' ht'
    exact ⟨t'', ht'', hgoes.trans hgoes'⟩
  lock := fun hex => hlocks ▸ hw.lock hex
  waiting := hw.waiting
  onTime := by
    rcases hw.onTime with hbold | hon
    · exact .inl hbold
    · right
      intro hex
      refine (hon hex).append fun e he => ?_
      rw [List.mem_singleton.1 he]
      exact hw.lock hex

theorem steady_atWork (A : Roles) (i : Nat) (t : Task) : Steady A i (AtWork A i t) where
  rely := fun _ _ hc hr => hc.rely hr
  own := fun _ _ _ hc hstep => hc.step hstep.proper hstep.locks

theorem steady_hand (A : Roles) (i : Nat) (t : Task) (place : Option Placement) :
    Steady A i (Hand A i t place) :=
  (steady_atWork A i t).and (.all fun p => .imp (lasting_since _ i p.spot t.id).steady)

/-- What was on the slot after a step is still there, unless somebody else took it off. -/
theorem Inv.bound_or_freed (hi : Inv A c) {h₁ h₂ : History} {e : Step World} (hm : c.memory = h₁ ++ e :: h₂)
    (hbound : e.after.capacity.taskAt x = some task) (hown : ∀ e' ∈ h₂, e'.process = some i → ¬e'.Frees x task) :
    c.state.capacity.taskAt x = some task ∨ ∃ e' ∈ h₂, e'.process ≠ some i ∧ e'.Frees x task := by
  refine Classical.or_iff_not_imp_left.2 fun hnow => ?_
  obtain ⟨first, hchain⟩ := hi.chain
  rw [hm] at hchain
  obtain ⟨l₁, e', l₂, rfl, hbefore, hafter, -⟩ :=
    hchain.split.2.lost (P := fun w => w.capacity.taskAt x = some task) hbound hnow
  have hfrees : e'.Frees x task := ⟨hbefore, hafter⟩
  exact ⟨e', by simp, fun hp => hown e' (by simp) hp hfrees, hfrees⟩

/-- What a process has taken is still with the task, unless somebody else freed it. -/
theorem HasTaken.bound_or_robbed (hh : HasTaken i x task c.memory) (hi : Inv A c) :
    c.state.capacity.taskAt x = some task ∨ Robbed c.memory i x := by
  obtain ⟨h₁, e, h₂, hm, htakes, hown⟩ := hh
  exact (hi.bound_or_freed hm htakes.bound hown).imp_right fun hfreed => ⟨h₁, e, h₂, task, hm, htakes, hfreed⟩

/-- Where a process saw one task, it finds another one only if the first was taken off. -/
theorem Saw.outdated {other : UInt64} (hs : Saw i x task c.memory) (hi : Inv A c) (hne : task ≠ other)
    (hother : c.state.capacity.taskAt x = some other) : Outdated c.memory i x task := by
  obtain ⟨h₁, e, h₂, hm, ⟨hp, hbound⟩, hown⟩ := hs
  rcases hi.bound_or_freed hm hbound hown with hnow | hfreed
  · exact absurd (Option.some.inj (hnow.symm.trans hother)) hne
  · exact ⟨h₁, e, h₂, hm, hp, hbound, hfreed⟩

/-- An attempt that gives its slot back has an excuse, whoever is on the slot by then. -/
theorem HasTaken.excused {t : Task} (hh : HasTaken i x t.id c.memory) (hi : Inv A c) (hw : AtWork A i t c)
    (hbefore : c.state.capacity.taskAt x = some task) :
    Excuse A c.memory ⟨some i, c.state, w'⟩ x task := by
  rcases hh.bound_or_robbed hi with hbound | hrobbed
  case inr => exact .mishap (.robbed i rfl hrobbed)
  have htask : task = t.id := Option.some.inj (hbefore.symm.trans hbound)
  subst htask
  by_cases hrun : Running c.state t.id
  case neg => exact .idle hrun
  obtain ⟨t₁, ht₁, hid, hrun₁⟩ := hrun
  obtain ⟨t', ht', hgoes⟩ := hw.row
  have hsame : t₁ = t' := Store.holds_inj ht₁ ht' (hid.trans hgoes.id.symm)
  subst hsame
  cases hex : t.kind.isExclusive with
  | true =>
    -- whoever has the lock has started the task itself, or came too late
    have hlock : c.state.locks.holds t₁.workspace i = true := hgoes.workspace ▸ hw.lock hex
    have hstarted := hi.started t₁ i ht₁ hrun₁ (hgoes.kind ▸ hex) hlock
    rw [hid] at hstarted
    rcases hstarted with hown | hlate
    · exact .own i rfl hown
    · rcases hw.onTime with hbold | hon
      · exact .mishap (.late i rfl hbold hlate)
      · exact absurd hlate ((hon hex).not_late hi hw.row)
  | false =>
    obtain ⟨h₁, e, h₂, heq, htakes, hown⟩ := hh
    by_cases hfreed : ∃ e' ∈ h₂, e'.Frees x t.id
    · obtain ⟨e', he', hfrees⟩ := hfreed
      have hrobbed : Robbed c.memory i x :=
        ⟨h₁, e, h₂, t.id, heq, htakes, e', he', fun hp => hown e' he' hp hfrees, hfrees⟩
      exact .mishap (.robbed i rfl hrobbed)
    · have hbinds : e.Binds x t.id := by
        rcases htakes.how with hbinds | ⟨u, hu, huid, huex, -⟩
        · exact hbinds
        · obtain ⟨u', hu', hgoes'⟩ := hi.past e (by rw [heq]; simp) u (.inr hu)
          have husame : u' = t₁ := Store.holds_inj hu' ht₁ (hgoes'.id.trans (huid.trans hid.symm))
          subst husame
          rw [← hgoes.kind, hgoes'.kind, huex] at hex
          cases hex
      exact .spare ⟨h₁, e, h₂, heq, htakes.own, by rw [htakes.own]; simp, hbinds,
        fun e' he' hfrees => hfreed ⟨e', he', hfrees⟩, t₁, ht₁, hid, hgoes.kind ▸ hex⟩

/-! ## Rules -/

variable {Q : α → Moment → Prop} {F : Moment → Prop}

theorem leads_quiet {p : Program World α} (hp : p.Steps Quiet) (hF : Steady A i F) (hc : F c) :
    (tenure A).Leads i p (fun _ d => F d) c :=
  Ensures.mono (Ensures.of_steps hp hF.rely (fun d act hi hd hq =>
    ⟨keeps_of_proper hi ((hq hi.sane).proper _ _ _), hF.own d (act d.state) hi hd (Quiet.own hq hi)⟩) hc)
    fun _ _ _ hd _ _ => hd

/-- Nothing that was remembered is forgotten. -/
theorem leads_grows {p : Program World α} (hp : (tenure A).Leads i p Q c) :
    (tenure A).Leads i p (fun a d => Q a d ∧ c.memory <+: d.memory) c := by
  have hgrows : ∀ (p : Program World α) (c d : Moment), c.memory <+: d.memory → (tenure A).Leads i p Q d →
      (tenure A).Leads i p (fun a d => Q a d ∧ c.memory <+: d.memory) d := by
    intro p c d hcd hp
    induction p generalizing d with
    | done a => exact fun e hr hi b hb => ⟨hp e hr hi b hb, hcd.trans (prefix_of_rely hr)⟩
    | crash m => intro e hr hi b hb; cases hb
    | step act next ih =>
      intro e hr hi
      obtain ⟨hkeeps, hrest⟩ := hp e hr hi
      exact ⟨hkeeps, ih _ _ (hcd.trans ((prefix_of_rely hr).trans (List.prefix_append _ _))) hrest⟩
    | await ready next ih =>
      intro e hr hi hready
      exact ih _ (hcd.trans (prefix_of_rely hr)) (hp e hr hi hready)
  exact hgrows p c c (List.prefix_refl _) hp

/-- The scene after a step of the process. -/
def next (i : Nat) (d : Moment) (w' : World) : Moment :=
  ⟨w', d.memory ++ [⟨some i, d.state, w'⟩]⟩

theorem leads_step {f : World → α × World} (h : ∀ d, (tenure A).Rely i c d → Inv A d →
      Proper A (some i) d.memory d.state (f d.state).2 ∧
      ∀ e, (tenure A).Rely i (next i d (f d.state).2) e → Q (f d.state).1 e) : (tenure A).Leads i (Program.apply f) Q c := by
  refine ensures_apply fun d hr hi => ⟨keeps_of_proper hi (h d hr hi).1, fun e hde _ a ha => ?_⟩
  cases ha
  exact (h d hr hi).2 e hde

theorem ownStep_refl (hi : Inv A c) : OwnStep A i c c.state := (quiet_refl c.state).own hi

/-- A transaction, which changes nothing where it fails. -/
theorem leads_transact {f : Store → Except StoreError (α × Store)} {Q : Except StoreError α → Moment → Prop}
    (hF : Steady A i F) (hc : F c)
    (hok : ∀ d a store, Inv A d → F d → f d.state.store = .ok (a, store) → OwnStep A i d { d.state with store } ∧
      ∀ e, F e → (tenure A).Rely i (next i d { d.state with store }) e → Q (.ok a) e)
    (herror : ∀ err e, F e → Q (.error err) e) : (tenure A).Leads i (Program.transact f) Q c := by
  refine leads_step fun d hr hi => ?_
  have hd := hF.rely c d hc hr
  cases hres : f d.state.store with
  | ok r =>
    obtain ⟨hown, hrest⟩ := hok d r.1 r.2 hi hd hres
    exact ⟨hown.proper, fun e hde => hrest e (hF.rely _ e (hF.own d _ hi hd hown) hde) hde⟩
  | error err =>
    refine ⟨hi.proper_refl (some i), fun e hde => herror err e ?_⟩
    exact hF.rely _ e (hF.own d d.state hi hd (ownStep_refl hi)) hde

/-- An operation on the pods, which changes nothing where it fails. -/
theorem leads_onCapacity {f : Capacity → UInt64 → Except CapacityError (α × Capacity)}
    {Q : Except CapacityError α → Moment → Prop} (hF : Steady A i F) (hc : F c)
    (hok : ∀ d a capacity, Inv A d → F d → f d.state.capacity d.state.now = .ok (a, capacity) →
      Proper A (some i) d.memory d.state { d.state with capacity } ∧
      ∀ e, (tenure A).Rely i (next i d { d.state with capacity }) e → Q (.ok a) e)
    (herror : ∀ err e, F e → Q (.error err) e) : (tenure A).Leads i (Program.onCapacity f) Q c := by
  refine leads_step fun d hr hi => ?_
  have hd := hF.rely c d hc hr
  cases hres : f d.state.capacity d.state.now with
  | ok r => exact hok d r.1 r.2 hi hd hres
  | error err =>
    refine ⟨hi.proper_refl (some i), fun e hde => herror err e ?_⟩
    exact hF.rely _ e (hF.own d d.state hi hd (ownStep_refl hi)) hde

end TaskFleet.Tenure
