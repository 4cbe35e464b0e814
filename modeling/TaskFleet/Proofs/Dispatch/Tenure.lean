/-
  TaskFleet.Proofs.Dispatch.Tenure — how tasks come to slots and how they lose them.

  The history of a run has every step with the worlds around it, so each step that takes a
  task off its slot can be asked for its excuse.
  - `Excuse`: the task does not run, or the slot is given back by the attempt that started the
    task itself, or by one that has it to spare because the task needs no lock.
  - `Mishap`: a running task loses its slot with its pod, because its reservation ran out, or
    to a confirmed apply that came too late to start it, to an attempt that was robbed of the
    slot before, or to the completion of a task that was on the slot when it looked.
  - `Inv.step`: a step that is `Proper` keeps the invariant, and is fair to everybody else.
-/

import TaskFleet.Proofs.Capacity.Slots
import TaskFleet.Proofs.Store.Transactions
import TaskFleet.Proofs.Traces

namespace TaskFleet

/-- A later row of the same task; a task that is over stays over. -/
structure Task.Continues (t t' : Task) : Prop where
  id : t'.id = t.id
  workspace : t'.workspace = t.workspace
  kind : t'.kind = t.kind
  ended : t.status.isTerminal = true → t'.status.isTerminal = true

theorem Task.Continues.refl (t : Task) : t.Continues t := ⟨rfl, rfl, rfl, fun h => h⟩

theorem Task.Continues.trans {t t' t'' : Task} (h : t.Continues t') (h' : t'.Continues t'') : t.Continues t'' :=
  ⟨h'.id.trans h.id, h'.workspace.trans h.workspace, h'.kind.trans h.kind, fun ht => h'.ended (h.ended ht)⟩

/-- Whether the store has the task running. -/
def Running (w : World) (task : UInt64) : Prop := ∃ t, w.store.Holds t ∧ t.id = task ∧ t.status = .running

namespace Step

variable (e : Step World)

def Starts (task : UInt64) : Prop := ¬Running e.before task ∧ Running e.after task

/-- The step puts a task on a slot. -/
def Binds (x : Spot) (task : UInt64) : Prop :=
  e.before.capacity.taskAt x ≠ some task ∧ e.after.capacity.taskAt x = some task

/-- The step takes a task off its slot. -/
def Frees (x : Spot) (task : UInt64) : Prop :=
  e.before.capacity.taskAt x = some task ∧ e.after.capacity.taskAt x ≠ some task

/-- The process comes to have a slot for a task: it puts the task on the slot, or finds it
    there while it has the lock that an exclusive task needs. -/
structure Takes (process : Nat) (x : Spot) (task : UInt64) : Prop where
  own : e.process = some process
  bound : e.after.capacity.taskAt x = some task
  how : e.Binds x task ∨ ∃ t, e.after.store.Holds t ∧ t.id = task ∧ t.kind.isExclusive = true ∧
    e.after.locks.holds t.workspace process = true

end Step

namespace Tenure

abbrev History := List (Step World)

/-- A world with the steps that led to it. -/
abbrev Moment := Scene World History

/-- The process was the last to start the task. -/
def StartedBy (h : History) (process : Nat) (task : UInt64) : Prop :=
  ∃ h₁ e h₂, h = h₁ ++ e :: h₂ ∧ e.process = some process ∧ e.Starts task ∧ ∀ e' ∈ h₂, ¬e'.Starts task

/-- The process got the lock of the task's workspace when the task was already running, and
    the task has run since. -/
def CameLate (h : History) (process : Nat) (task : UInt64) : Prop :=
  ∃ h₁ e h₂, h = h₁ ++ e :: h₂ ∧ (∃ t, e.after.store.Holds t ∧ t.id = task ∧
    e.before.locks.holds t.workspace process = false ∧ e.after.locks.holds t.workspace process = true) ∧
    ∀ e' ∈ e :: h₂, Running e'.after task

/-- Somebody else freed a slot that the process had taken. -/
def Robbed (h : History) (process : Nat) (x : Spot) : Prop :=
  ∃ h₁ e h₂ task, h = h₁ ++ e :: h₂ ∧ e.Takes process x task ∧ ∃ e' ∈ h₂, e'.process ≠ some process ∧ e'.Frees x task

/-- The step gives back a slot that its process bound itself for a task that needs no lock. -/
def Spare (h : History) (e : Step World) (x : Spot) (task : UInt64) : Prop :=
  ∃ h₁ e' h₂, h = h₁ ++ e' :: h₂ ∧ e'.process = e.process ∧ e'.process ≠ none ∧ e'.Binds x task ∧
    (∀ e'' ∈ h₂, ¬e''.Frees x task) ∧ ∃ t, e.before.store.Holds t ∧ t.id = task ∧ t.kind.isExclusive = false

/-- The process found the task on the slot, and somebody else took it off since. -/
def Outdated (h : History) (process : Nat) (x : Spot) (task : UInt64) : Prop :=
  ∃ h₁ e h₂, h = h₁ ++ e :: h₂ ∧ e.process = some process ∧ e.after.capacity.taskAt x = some task ∧
    ∃ e' ∈ h₂, e'.process ≠ some process ∧ e'.Frees x task

/-- What the processes of a run are for, as far as it matters here. -/
structure Roles where
  /-- The process may start a confirmed apply. -/
  applies : Nat → Prop
  /-- The process looks after this task, whose work may be over. -/
  completes : Nat → UInt64 → Prop

/-- What takes a task off its slot although it runs, given the history before the step. -/
inductive Mishap (A : Roles) (h : History) (e : Step World) (x : Spot) (task : UInt64) : Prop
  | dropped : e.after.capacity.pods.get? x.pod = none → Mishap A h e x task
  | ranOut (cfg : CapacitySettings) (pool : String) (s : Slot) :
      e.after.capacity = e.before.capacity.expireReservations cfg pool e.before.now →
      e.before.capacity.slotAt x = some s → s.status = .reserved →
      cfg.reservationTtlSecs.toNat < e.before.now.toNat - s.updatedAt.toNat → Mishap A h e x task
  | late (i : Nat) : e.process = some i → A.applies i → CameLate h i task → Mishap A h e x task
  | robbed (i : Nat) : e.process = some i → Robbed h i x → Mishap A h e x task
  | misled (i : Nat) (other : UInt64) : e.process = some i → A.completes i other → other ≠ task → Outdated h i x other →
      Mishap A h e x task

/-- Why a step takes a task off its slot. -/
inductive Excuse (A : Roles) (h : History) (e : Step World) (x : Spot) (task : UInt64) : Prop
  | idle : ¬Running e.before task → Excuse A h e x task
  | own (i : Nat) : e.process = some i → StartedBy h i task → Excuse A h e x task
  | spare : Spare h e x task → Excuse A h e x task
  | mishap : Mishap A h e x task → Excuse A h e x task

variable {A : Roles} {h h' : History} {i j : Nat} {task : UInt64} {x : Spot} {e : Step World} {w w' : World}
  {p : Option Nat} {c : Moment}

theorem StartedBy.snoc (hs : StartedBy h i task) (he : ¬e.Starts task) : StartedBy (h ++ [e]) i task := by
  obtain ⟨h₁, a, h₂, rfl, ha, hstarts, hlast⟩ := hs
  refine ⟨h₁, a, h₂ ++ [e], by simp, ha, hstarts, fun e' he' => ?_⟩
  rcases List.mem_append.1 he' with he' | he'
  · exact hlast e' he'
  · rw [List.mem_singleton.1 he']; exact he

theorem CameLate.snoc (hl : CameLate h i task) (he : Running e.after task) : CameLate (h ++ [e]) i task := by
  obtain ⟨h₁, a, h₂, rfl, hlock, hrun⟩ := hl
  refine ⟨h₁, a, h₂ ++ [e], by simp, hlock, fun e' he' => ?_⟩
  rcases List.mem_append.1 (List.cons_append ▸ he' : e' ∈ (a :: h₂) ++ [e]) with he' | he'
  · exact hrun e' he'
  · rw [List.mem_singleton.1 he']; exact he

theorem eq_of_holds {l : Locks} {workspace : String} (hi : l.holds workspace i = true)
    (hj : l.holds workspace j = true) : i = j := by
  unfold Locks.holds at hi hj
  rw [beq_iff_eq] at hi hj
  exact Option.some.inj (hi.symm.trans hj)

/-! ## The discipline -/

structure Inv (A : Roles) (c : Moment) : Prop where
  chain : ∃ first, Chain first c.memory c.state
  keyed : c.state.store.Keyed
  /-- Only exclusive tasks wait for their apply. -/
  waiting : ∀ t, c.state.store.Holds t → t.status = .applyPending → t.kind.isExclusive = true
  order : c.state.capacity.Order
  /-- Who has the lock has started what runs, or found it running. -/
  started : ∀ t i, c.state.store.Holds t → t.status = .running → t.kind.isExclusive = true →
    c.state.locks.holds t.workspace i = true → StartedBy c.memory i t.id ∨ CameLate c.memory i t.id
  /-- No task of the past is gone. -/
  past : ∀ e ∈ c.memory, ∀ t, e.before.store.Holds t ∨ e.after.store.Holds t →
    ∃ t', c.state.store.Holds t' ∧ t.Continues t'
  excused : ∀ h e h' x task, c.memory = h ++ e :: h' → e.Frees x task → Excuse A h e x task

/-- What a step owes to a process: it is not a change of its own, takes no lock away from it
    and loses no row. -/
structure Fair (i : Nat) (e : Step World) : Prop where
  own : e.process = some i → e.after = e.before
  locks : ∀ workspace, e.before.locks.holds workspace i = true → e.after.locks.holds workspace i = true
  rows : ∀ t, e.before.store.Holds t → ∃ t', e.after.store.Holds t' ∧ t.Continues t'

/-- A step with which everybody can live, after this history. -/
structure Proper (A : Roles) (p : Option Nat) (h : History) (w w' : World) : Prop where
  keyed : w'.store.Keyed
  waiting : ∀ t, w'.store.Holds t → t.status = .applyPending → t.kind.isExclusive = true
  rows : ∀ t, w.store.Holds t → ∃ t', w'.store.Holds t' ∧ t.Continues t'
  order : w'.capacity.Order
  /-- An exclusive task is started by the process that has its workspace's lock. -/
  starts : ∀ t, w'.store.Holds t → t.status = .running → t.kind.isExclusive = true → ¬Running w t.id →
    ∃ i, p = some i ∧ w'.locks.holds t.workspace i = true
  locks : ∀ workspace j, p ≠ some j → w.locks.holds workspace j = true → w'.locks.holds workspace j = true
  frees : ∀ x task, Step.Frees ⟨p, w, w'⟩ x task → Excuse A h ⟨p, w, w'⟩ x task

theorem Inv.step (hi : Inv A c) (hp : Proper A p c.memory c.state w') :
    Inv A ⟨w', c.memory ++ [⟨p, c.state, w'⟩]⟩ where
  chain := by
    obtain ⟨first, hchain⟩ := hi.chain
    exact ⟨first, hchain.append ⟨rfl, rfl⟩⟩
  keyed := hp.keyed
  waiting := hp.waiting
  order := hp.order
  started := by
    intro t i ht hrun hex hlock
    by_cases hbefore : Running c.state t.id
    · -- the task goes on to run; its lock is where it was, or has just been got
      obtain ⟨t₀, ht₀, hid, hrun₀⟩ := hbefore
      obtain ⟨t', ht', hgoes⟩ := hp.rows t₀ ht₀
      have hsame : t' = t := Store.holds_inj ht' ht (hgoes.id.trans hid)
      subst hsame
      by_cases hlock₀ : c.state.locks.holds t'.workspace i = true
      · rw [hgoes.workspace] at hlock₀
        have hold := hi.started t₀ i ht₀ hrun₀ (hgoes.kind ▸ hex) hlock₀
        rw [hid] at hold
        rcases hold with hold | hold
        · exact .inl (hold.snoc fun hstarts => hstarts.1 ⟨t₀, ht₀, hid, hrun₀⟩)
        · exact .inr (hold.snoc ⟨t', ht, hgoes.id.trans hid, hrun⟩)
      · refine .inr ⟨c.memory, _, [], rfl, ⟨t', ht, rfl, Bool.eq_false_iff.2 hlock₀, hlock⟩, fun e' he' => ?_⟩
        rw [List.mem_singleton.1 he']
        exact ⟨t', ht, rfl, hrun⟩
    · obtain ⟨j, rfl, hj⟩ := hp.starts t ht hrun hex hbefore
      have hij : i = j := eq_of_holds hlock hj
      subst hij
      exact .inl ⟨c.memory, _, [], rfl, rfl, ⟨hbefore, t, ht, rfl, hrun⟩, fun e' he' => by cases he'⟩
  past := by
    intro e he t ht
    rcases List.mem_append.1 he with he | he
    · obtain ⟨t', ht', hgoes⟩ := hi.past e he t ht
      obtain ⟨t'', ht'', hgoes'⟩ := hp.rows t' ht'
      exact ⟨t'', ht'', hgoes.trans hgoes'⟩
    · rw [List.mem_singleton.1 he] at ht
      rcases ht with ht | ht
      · exact hp.rows t ht
      · exact ⟨t, ht, .refl t⟩
  excused := by
    intro h e h' x task hsplit hfrees
    rcases cut_snoc hsplit with ⟨rfl, rfl⟩ | ⟨h'', hcut⟩
    · exact hp.frees x task hfrees
    · exact hi.excused h e h'' x task hcut hfrees

theorem Proper.fair (hp : Proper A p h w w') (hj : p ≠ some j) : Fair j ⟨p, w, w'⟩ where
  own := fun he => absurd he hj
  locks := fun workspace hlock => hp.locks workspace j hj hlock
  rows := hp.rows

theorem Inv.proper_refl (hi : Inv A c) (p : Option Nat) : Proper A p c.memory c.state c.state where
  keyed := hi.keyed
  waiting := hi.waiting
  rows := fun t ht => ⟨t, ht, .refl t⟩
  order := hi.order
  starts := fun t ht hrun _ hno => absurd ⟨t, ht, rfl, hrun⟩ hno
  locks := fun _ _ _ hlock => hlock
  frees := fun _ _ hfrees => absurd hfrees.1 hfrees.2

theorem fair_idle (i j : Nat) (w : World) : Fair j ⟨some i, w, w⟩ :=
  ⟨fun _ => rfl, fun _ hlock => hlock, fun t ht => ⟨t, ht, .refl t⟩⟩

def tenure (A : Roles) : Discipline World History :=
  .traced (Inv A) Fair (fun i _ hi => hi.step (hi.proper_refl (some i))) fair_idle

theorem keeps_of_proper {act : World → World} (hi : Inv A c) (hp : Proper A (some i) c.memory c.state (act c.state)) :
    (tenure A).Keeps i c ((tenure A).after i act c) := by
  refine ⟨hi.step hp, fun j hj => ⟨_, rfl, ⟨rfl, rfl⟩, fun e he => ?_⟩⟩
  rw [List.mem_singleton.1 he]
  exact hp.fair fun hsame => hj (Option.some.inj hsame).symm

end Tenure

end TaskFleet
