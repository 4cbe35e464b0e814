/-
  TaskFleet.Proofs.Store.Transactions — what a transaction reads and what it leaves.

  A store is `Keyed` if every task is a record under the key of its own ID; then it is known
  by the tasks it holds (`Holds`), each ID at most once (`holds_inj`).
  - `updateTask_ok_iff` / `confirmApply_ok_iff` / `claimTask_cases`: all that a transaction
    which succeeds did, its checks included.
  - `holds_setTask`, `holds_rewriteAll`: the tasks held after a row was written, or many.
  - `Keyed.terminal_of_unblocked`: a claim that finds nothing in its way has seen every
    earlier task, although it stops at the first row that is not earlier.
-/

import TaskFleet.Proofs.Store.TaskKey
import TaskFleet.Store.Claim

namespace TaskFleet.Store

variable {s s' : Store} {t t' u : Task} {id : UInt64}

/-! ## The tasks a store holds -/

/-- The task is in the store, under its own key. -/
def Holds (s : Store) (t : Task) : Prop := s.tasks.get? t.key = some (.record t)

theorem get?_of_task? (h : s.task? id = .ok (some t)) : s.tasks.get? (taskKey id) = some (.record t) := by
  unfold task? Table.record? at h
  cases hrow : s.tasks.get? (taskKey id) with
  | none => rw [hrow] at h; cases h
  | some row =>
    rw [hrow] at h
    cases row with
    | unreadable text => cases h
    | record u => cases h; rfl

/-- The row of a task's ID, whatever is in it. -/
def taskRow (s : Store) (id : UInt64) : Option (Row Task) := s.tasks.get? (taskKey id)

theorem task?_eq_some_iff : s.task? id = .ok (some t) ↔ s.taskRow id = some (.record t) := by
  unfold task? Table.record? taskRow
  cases s.tasks.get? (taskKey id) with
  | none => simp
  | some r => cases r <;> simp [Row.read, Except.map]

/-- Every row of the task table is a record under its own key. -/
def Keyed (s : Store) : Prop := ∀ k row, s.tasks.get? k = some row → ∃ t : Task, row = .record t ∧ k = t.key

/-- The store with a task written under its own key. -/
def setTask (s : Store) (t : Task) : Store := { s with tasks := s.tasks.insert t.key (.record t) }

/-- A row written under its task's ID is a task written under its own key. -/
theorem insert_eq_setTask (h : t.id = id) : { s with tasks := s.tasks.insert (taskKey id) (.record t) } = s.setTask t := by
  unfold setTask Task.key
  rw [h]

theorem keyed_empty : Keyed {} := by
  intro k row h
  cases h

theorem holds_inj (ht : s.Holds t) (hu : s.Holds u) (h : t.id = u.id) : t = u := by
  unfold Holds Task.key at ht hu
  rw [h, hu] at ht
  cases ht
  rfl

theorem holds_setTask : (s.setTask t).Holds u ↔ u = t ∨ (s.Holds u ∧ u.id ≠ t.id) := by
  unfold Holds setTask Task.key
  by_cases e : t.id = u.id
  · rw [e, Table.get?_insert_self]
    constructor
    · intro h; cases h; exact .inl rfl
    · rintro (rfl | ⟨_, hne⟩)
      · rfl
      · exact absurd rfl hne
  · have hk : taskKey t.id ≠ taskKey u.id := fun h => e (taskKey_inj.1 h)
    rw [Table.get?_insert_of_ne _ _ hk]
    constructor
    · intro h; exact .inr ⟨h, Ne.symm e⟩
    · rintro (rfl | ⟨h, _⟩)
      · exact absurd rfl e
      · exact h

theorem Keyed.setTask (hs : s.Keyed) (t : Task) : (s.setTask t).Keyed := by
  intro k row h
  unfold Store.setTask at h
  rw [Table.get?_insert] at h
  split at h
  · next e => cases h; exact ⟨t, rfl, e.symm⟩
  · exact hs k row h

theorem Keyed.congr (hs : s.Keyed) (h : s'.tasks = s.tasks) : s'.Keyed := fun k row hr => hs k row (h ▸ hr)

theorem Holds.congr (h : s'.tasks = s.tasks) : s'.Holds t ↔ s.Holds t := by unfold Holds; rw [h]

/-- Looking a task up finds the one held under that ID. -/
theorem Keyed.task?_iff (hs : s.Keyed) : s.task? id = .ok (some t) ↔ s.Holds t ∧ t.id = id := by
  unfold task? Table.record? Holds Task.key
  cases hrow : s.tasks.get? (taskKey id) with
  | none =>
    constructor
    · intro h; cases h
    · rintro ⟨h, rfl⟩; rw [hrow] at h; cases h
  | some row =>
    obtain ⟨u, rfl, hk⟩ := hs _ _ hrow
    have hid : id = u.id := taskKey_inj.1 hk
    constructor
    · intro h; cases h; exact ⟨hid ▸ hrow, hid.symm⟩
    · rintro ⟨h, rfl⟩; rw [hrow] at h; cases h; rfl

theorem Keyed.task?_ok (hs : s.Keyed) (id : UInt64) : ∃ found, s.task? id = .ok found := by
  unfold task? Table.record?
  cases hrow : s.tasks.get? (taskKey id) with
  | none => exact ⟨none, rfl⟩
  | some row =>
    obtain ⟨t, rfl, -⟩ := hs _ _ hrow
    exact ⟨some t, rfl⟩

/-- Rewrites the rows of these tasks. -/
def rewriteAll (f : Task → Task) (s : Store) (ts : List Task) : Store := ts.foldl (fun s t => s.setTask (f t)) s

theorem Keyed.rewriteAll (hs : s.Keyed) (f : Task → Task) (ts : List Task) : (s.rewriteAll f ts).Keyed := by
  induction ts generalizing s with
  | nil => exact hs
  | cons t ts ih => exact ih (hs.setTask (f t))

/-- While the row of one task is written, the others are as they were. -/
theorem held_after_setTask {ts : List Task} {P : Task → Prop} (hdistinct : ((t :: ts).map (·.id)).Nodup)
    (hrows : ∀ u ∈ ts, s.Holds u ∧ P u) (hid : t'.id = t.id) : ∀ u ∈ ts, (s.setTask t').Holds u ∧ P u := by
  intro u hu
  rw [List.map_cons, List.nodup_cons] at hdistinct
  refine ⟨holds_setTask.2 (.inr ⟨(hrows u hu).1, fun he => hdistinct.1 ?_⟩), (hrows u hu).2⟩
  rw [← hid, ← he]
  exact List.mem_map_of_mem hu

theorem holds_rewriteAll {f : Task → Task} {ts : List Task} (hid : ∀ t, (f t).id = t.id) (hts : (ts.map (·.id)).Nodup) :
    (s.rewriteAll f ts).Holds u ↔ (∃ t ∈ ts, u = f t) ∨ (s.Holds u ∧ ∀ t ∈ ts, u.id ≠ t.id) := by
  induction ts generalizing s with
  | nil => simp [rewriteAll]
  | cons t ts ih =>
    rw [List.map_cons, List.nodup_cons] at hts
    have hfold : s.rewriteAll f (t :: ts) = (s.setTask (f t)).rewriteAll f ts := rfl
    rw [hfold, ih hts.2, holds_setTask, hid]
    constructor
    · rintro (⟨v, hv, rfl⟩ | ⟨rfl | ⟨hu, hne⟩, hall⟩)
      · exact .inl ⟨v, List.mem_cons_of_mem _ hv, rfl⟩
      · exact .inl ⟨t, List.mem_cons_self, rfl⟩
      · exact .inr ⟨hu, List.forall_mem_cons.2 ⟨hne, hall⟩⟩
    · rintro (⟨v, hv, rfl⟩ | ⟨hu, hall⟩)
      · rcases List.mem_cons.1 hv with rfl | hv
        · refine .inr ⟨.inl rfl, fun v hv he => hts.1 ?_⟩
          rw [hid] at he
          exact he ▸ List.mem_map_of_mem hv
        · exact .inl ⟨v, hv, rfl⟩
      · obtain ⟨hne, hall⟩ := List.forall_mem_cons.1 hall
        exact .inr ⟨.inr ⟨hu, hne⟩, hall⟩

/-- If all tasks of one kind are rewritten, the others stay. -/
theorem holds_rewriteAll_where {f : Task → Task} {keep : Task → Bool} {ts : List Task} (hid : ∀ t, (f t).id = t.id)
    (hdistinct : (ts.map (·.id)).Nodup) (hmem : ∀ t, t ∈ ts ↔ s.Holds t ∧ keep t = true) :
    (s.rewriteAll f ts).Holds t ↔ ∃ u, s.Holds u ∧ t = if keep u then f u else u := by
  rw [holds_rewriteAll hid hdistinct]
  constructor
  · rintro (⟨u, hu, rfl⟩ | ⟨ht, hne⟩)
    · obtain ⟨hheld, hkeep⟩ := (hmem u).1 hu
      exact ⟨u, hheld, (if_pos hkeep).symm⟩
    · have hkeep : ¬keep t = true := fun hkeep => hne t ((hmem t).2 ⟨ht, hkeep⟩) rfl
      exact ⟨t, ht, (if_neg hkeep).symm⟩
  · rintro ⟨u, hu, rfl⟩
    by_cases hkeep : keep u = true
    · exact .inl ⟨u, (hmem u).2 ⟨hu, hkeep⟩, if_pos hkeep⟩
    · rw [if_neg hkeep]
      refine .inr ⟨hu, fun v hv he => hkeep ?_⟩
      obtain ⟨hheld, hkept⟩ := (hmem v).1 hv
      exact holds_inj hu hheld he ▸ hkept

/-! ## Transactions on one task -/

theorem bind_eq_ok {ε α β : Type} {x : Except ε α} {f : α → Except ε β} {b : β} (h : (x >>= f) = .ok b) :
    ∃ a, x = .ok a ∧ f a = .ok b := by
  cases x with
  | error e => cases h
  | ok a => exact ⟨a, rfl, h⟩

theorem updateTask_ok_iff {change : Task → Except StoreError Task} :
    s.updateTask id change = .ok (t', s') ↔
      ∃ t, s.task? id = .ok (some t) ∧ change t = .ok t' ∧
        s' = { s with tasks := s.tasks.insert (taskKey id) (.record t') } := by
  unfold updateTask
  cases hrow : s.task? id with
  | error e => simp [bind, Except.bind]
  | ok found =>
    cases found with
    | none => simp [bind, Except.bind, throw, throwThe, MonadExceptOf.throw]
    | some t =>
      cases hc : change t with
      | error e => simp [bind, Except.bind, hc]
      | ok t₁ =>
        simp only [bind, Except.bind, pure, Except.pure, hc, Except.ok.injEq, Prod.mk.injEq, Option.some.injEq]
        constructor
        · rintro ⟨rfl, rfl⟩; exact ⟨t, rfl, hc, rfl⟩
        · rintro ⟨_, rfl, h, rfl⟩; rw [hc] at h; cases h; exact ⟨rfl, rfl⟩

/-- A change that keeps the ID of a task rewrites its row. -/
theorem Keyed.updateTask_eq (hs : s.Keyed) (ht : s.Holds t) {change : Task → Except StoreError Task}
    (hc : change t = .ok t') (hid : t'.id = t.id) : s.updateTask t.id change = .ok (t', s.setTask t') :=
  updateTask_ok_iff.2 ⟨t, hs.task?_iff.2 ⟨ht, rfl⟩, hc, (insert_eq_setTask hid).symm⟩

theorem confirmApply_ok_iff {user : String} {now : UInt64} :
    s.confirmApply id user now = .ok (t', s') ↔
      ∃ t, s.task? id = .ok (some t) ∧ t.status = .applyPending ∧
        t' = { t with confirmedBy := some user, confirmedAt := some now } ∧
        s' = { s with tasks := s.tasks.insert (taskKey id) (.record t') } := by
  unfold confirmApply
  rw [updateTask_ok_iff]
  constructor
  · rintro ⟨t, ht, hc, rfl⟩
    split at hc
    · next hst => cases hc; exact ⟨t, ht, hst, rfl, rfl⟩
    · cases hc
  · rintro ⟨t, ht, hst, rfl, rfl⟩
    exact ⟨t, ht, by simp [hst], rfl⟩

/-- A task that is created is written under its new ID, in a store that counts one more. -/
theorem createTask_cases (h : s.createTask t = some (t', s')) :
    s.lastTaskId < s.lastTaskId + 1 ∧ t' = { t with id := s.lastTaskId + 1 } ∧
      s' = { s with lastTaskId := s.lastTaskId + 1 }.setTask t' := by
  unfold createTask at h
  obtain ⟨id, hid, hadd⟩ := Option.map_eq_some_iff.1 h
  obtain ⟨-, rfl⟩ := sum?_eq_some_iff.1 hid
  cases hadd
  refine ⟨?_, rfl, rfl⟩
  rw [UInt64.lt_iff_toNat_lt, toNat_of_sum? hid]
  exact Nat.lt_succ_self _

/-- A change of a row of a keyed store, as a change of a task that it holds. -/
theorem Keyed.of_updateTask (hs : s.Keyed) {change : Task → Except StoreError Task}
    (h : s.updateTask id change = .ok (t', s')) :
    ∃ t, s.Holds t ∧ t.id = id ∧ change t = .ok t' ∧ (t'.id = t.id → s' = s.setTask t') := by
  obtain ⟨t, ht, hc, rfl⟩ := updateTask_ok_iff.1 h
  obtain ⟨hheld, rfl⟩ := hs.task?_iff.1 ht
  exact ⟨t, hheld, rfl, hc, fun hid => insert_eq_setTask hid⟩

theorem Keyed.of_confirmApply (hs : s.Keyed) {user : String} {now : UInt64}
    (h : s.confirmApply id user now = .ok (t', s')) :
    ∃ t, s.Holds t ∧ t.id = id ∧ t.status = .applyPending ∧
      t' = { t with confirmedBy := some user, confirmedAt := some now } ∧ s' = s.setTask t' := by
  obtain ⟨t, ht, hst, rfl, rfl⟩ := confirmApply_ok_iff.1 h
  obtain ⟨hheld, rfl⟩ := hs.task?_iff.1 ht
  exact ⟨t, hheld, rfl, hst, rfl, rfl⟩

theorem move_ok_iff {next : TaskStatus} :
    t.move next = .ok t' ↔ t.status.canMove next = true ∧ t' = { t with status := next } := by
  rw [← Task.moveTo_eq_ok_iff]
  unfold Task.move
  cases t.moveTo next with
  | error e =>
    constructor
    · intro h; cases h
    · intro h; cases h
  | ok u =>
    constructor
    · intro h; cases h; rfl
    · intro h; cases h; rfl

theorem map_move_ok_iff {next : TaskStatus} {f : Task → Task} :
    (t.move next).map f = .ok t' ↔ t.status.canMove next = true ∧ t' = f { t with status := next } := by
  cases hm : t.move next with
  | error e =>
    constructor
    · intro h; cases h
    · rintro ⟨hc, rfl⟩
      have := move_ok_iff.2 ⟨hc, rfl⟩
      rw [hm] at this; cases this
  | ok u =>
    obtain ⟨hc, rfl⟩ := move_ok_iff.1 hm
    simp [Except.map, hc, eq_comm]

theorem conclude_ok_iff {status : TaskStatus} {now : UInt64} :
    t.conclude status now = .ok t' ↔
      t.status.canMove status = true ∧ t' = { t with status, completedAt := some now, lease := none } := by
  rw [← map_move_ok_iff (f := fun t => { t with completedAt := some now, lease := none })]
  unfold Task.conclude Task.finish Task.move
  cases t.moveTo status <;> rfl

theorem giveBack_ok_iff :
    t.giveBack = .ok t' ↔
      (t.stage = some .applying ∧ t.status.canMove .applyPending = true ∧
        t' = { t with status := .applyPending, stage := some .applyPending, lease := none, agent := none, startedAt := none }) ∨
      (t.stage ≠ some .applying ∧ t.status.canMove .pending = true ∧
        t' = { t with status := .pending, stage := none, lease := none, agent := none, startedAt := none }) := by
  unfold Task.giveBack
  by_cases hst : t.stage = some .applying
  · simp only [hst, if_true, true_and, ne_eq, not_true_eq_false, false_and, or_false]
    rw [← map_move_ok_iff (f := fun t =>
      { t with stage := some .applyPending, lease := none, agent := none, startedAt := none })]
    cases t.move .applyPending <;> rfl
  · simp only [hst, if_false, false_and, false_or, ne_eq, not_false_eq_true, true_and]
    rw [← map_move_ok_iff (f := fun t => { t with stage := none, lease := none, agent := none, startedAt := none })]
    cases t.move .pending <;> rfl

/-- There is a lease if its end is a number of 64 bits. -/
theorem exists_lease?_iff {r : ClaimRequest} :
    (∃ lease, r.lease? = some lease) ↔ r.now.toNat + r.leaseSecs.toNat < UInt64.size := by
  unfold ClaimRequest.lease?
  by_cases hfits : r.now.toNat + r.leaseSecs.toNat < UInt64.size
  · rw [sum?_of_lt hfits]
    exact ⟨fun _ => hfits, fun _ => ⟨_, rfl⟩⟩
  · rw [sum?_of_le (Nat.not_lt.1 hfits)]
    exact ⟨nofun, fun h => absurd h hfits⟩

theorem holder_of_lease? {r : ClaimRequest} {lease : Lease} (h : r.lease? = some lease) : lease.holder = r.holder := by
  obtain ⟨_, -, rfl⟩ := Option.map_eq_some_iff.1 h
  rfl

/-- The row of a task that a claim takes. -/
def taken (t : Task) (r : ClaimRequest) (edit : Task → Task) : Task :=
  edit { t with status := .running, lease := r.lease? }

/-- The checks a claim makes on the row it found, all passed. -/
structure Unhindered (s : Store) (t : Task) (r : ClaimRequest) : Prop where
  expected : t.status = r.expected
  unleased : t.leasedToOther? r.holder r.now = none
  unlocked : ∃ w, s.workspace? t.workspace = .ok (some w) ∧ w.isLocked = false
  unblocked : t.kind = .planAndApply → r.expected = .pending →
    earlierExclusive t.workspace t.id s.tasks.rows = .ok none
  movable : t.status.canMove .running = true

/-- A claim that passes the checks and whose lease ends in time. -/
structure Claimable (s : Store) (t : Task) (r : ClaimRequest) : Prop extends Unhindered s t r where
  ends : r.lease?.isSome = true

/-- With nothing in the way, what is left of a claim is the move and the lease. -/
theorem taken_of_move {edit : Task → Task} {r : ClaimRequest} {c : Claim}
    (h : (do
      let t ← t.move .running
      let some lease := r.lease? | return (.tooLong, s)
      let t := edit { t with lease := some lease }
      return (Claim.claimed t, { s with tasks := s.tasks.insert (taskKey id) (.record t) })) = Except.ok (c, s')) :
    ((∀ t, c ≠ .claimed t) ∧ s' = s) ∨
      t.status.canMove .running = true ∧ r.lease?.isSome = true ∧ c = .claimed (taken t r edit) ∧
        s' = { s with tasks := s.tasks.insert (taskKey id) (.record (taken t r edit)) } := by
  obtain ⟨u, hmove, h⟩ := bind_eq_ok h
  obtain ⟨hcan, rfl⟩ := move_ok_iff.1 hmove
  cases hl : r.lease? with
  | none =>
    rw [hl] at h
    cases h
    exact .inl ⟨fun _ => by simp, rfl⟩
  | some lease =>
    rw [hl] at h
    cases h
    exact .inr ⟨hcan, rfl, by rw [taken, hl], by rw [taken, hl]⟩

/-- A claim that is answered either was refused and changed nothing, or found the row with the
    expected status in a workspace that is not on hold, and wrote the claimed row. -/
theorem claimTask_cases {r : ClaimRequest} {edit : Task → Task} {c : Claim} (h : s.claimTask id r edit = .ok (c, s')) :
    ((∀ t, c ≠ .claimed t) ∧ s' = s) ∨
      ∃ t, s.task? id = .ok (some t) ∧ (∃ w, s.workspace? t.workspace = .ok (some w) ∧ w.isLocked = false) ∧
        (t.id = id → s.Claimable t r) ∧ c = .claimed (taken t r edit) ∧
        s' = { s with tasks := s.tasks.insert (taskKey id) (.record (taken t r edit)) } := by
  unfold claimTask at h
  obtain ⟨found, hrow, h⟩ := bind_eq_ok h
  cases found with
  | none => cases h
  | some t =>
  simp only at h
  split at h
  · cases h; exact .inl ⟨fun _ => by simp, rfl⟩
  next hexp =>
  split at h
  · cases h; exact .inl ⟨fun _ => by simp, rfl⟩
  next hlease =>
  obtain ⟨found, hw, h⟩ := bind_eq_ok h
  cases found with
  | none => cases h
  | some w =>
  simp only at h
  split at h
  · cases h; exact .inl ⟨fun _ => by simp, rfl⟩
  next hlocked =>
  have hunlocked : ∃ w, s.workspace? t.workspace = .ok (some w) ∧ w.isLocked = false := ⟨w, hw, by simpa using hlocked⟩
  have hunleased : t.leasedToOther? r.holder r.now = none := by
    cases hl : t.leasedToOther? r.holder r.now with
    | none => rfl
    | some holder => exact absurd hl (hlease holder)
  have hexpected : t.status = r.expected := by simpa using hexp
  split at h
  · obtain ⟨found, hearlier, h⟩ := bind_eq_ok h
    cases found with
    | some other => cases h; exact .inl ⟨fun _ => by simp, rfl⟩
    | none =>
    refine (taken_of_move h).imp (fun hno => hno) fun ⟨hmove, hends, hc, hs'⟩ => ⟨t, hrow, hunlocked, fun hid => ?_, hc, hs'⟩
    exact ⟨⟨hexpected, hunleased, hunlocked, fun _ _ => hid ▸ hearlier, hmove⟩, hends⟩
  · next hfree =>
    refine (taken_of_move h).imp (fun hno => hno) fun ⟨hmove, hends, hc, hs'⟩ => ⟨t, hrow, hunlocked, fun _ => ?_, hc, hs'⟩
    exact ⟨⟨hexpected, hunleased, hunlocked, fun hk he => absurd ⟨hk, he⟩ hfree, hmove⟩, hends⟩

theorem Keyed.claimTask_cases (hs : s.Keyed) {r : ClaimRequest} {edit : Task → Task} {c : Claim}
    (h : s.claimTask id r edit = .ok (c, s')) :
    ((∀ t, c ≠ .claimed t) ∧ s' = s) ∨
      ∃ t, s.Holds t ∧ t.id = id ∧ s.Claimable t r ∧ c = .claimed (taken t r edit) ∧
        s' = { s with tasks := s.tasks.insert (taskKey id) (.record (taken t r edit)) } := by
  rcases Store.claimTask_cases h with hno | ⟨t, ht, -, hclaimable, hc, rfl⟩
  · exact .inl hno
  · obtain ⟨hheld, hid⟩ := hs.task?_iff.1 ht
    exact .inr ⟨t, hheld, hid, hclaimable hid, hc, rfl⟩

/-! ## What a claim sees -/

theorem keyed_rows (hs : s.Keyed) {k : String} {row : Row Task} (h : (k, row) ∈ s.tasks.rows) :
    ∃ t : Task, row = .record t ∧ k = t.key := hs k row (Table.mem_rows_iff.1 h)

theorem earlierExclusive_rows {workspace : String} {rows : List (String × Row Task)}
    (hasc : rows.Pairwise (·.1 < ·.1)) (hrec : ∀ p ∈ rows, ∃ t : Task, p.2 = .record t ∧ p.1 = t.key)
    (h : earlierExclusive workspace id rows = .ok none) {k : String} (hu : (k, Row.record u) ∈ rows) :
    id ≤ u.id ∨ u.workspace ≠ workspace ∨ u.isActiveExclusive = false := by
  induction rows with
  | nil => cases hu
  | cons p rest ih =>
    obtain ⟨k', row⟩ := p
    obtain ⟨hlt, hrest⟩ := List.pairwise_cons.1 hasc
    obtain ⟨t, rfl, rfl⟩ := hrec _ List.mem_cons_self
    simp only [earlierExclusive, Row.read, bind, Except.bind, pure, Except.pure] at h
    split at h
    · -- the scan stops here: every row from here on is at least as late
      next hstop =>
      left
      rcases List.mem_cons.1 hu with hu | hu
      · have hut : u = t := Row.record.inj (Prod.mk.inj hu).2
        exact hut ▸ hstop
      · obtain ⟨v, hv, hk⟩ := hrec _ (List.mem_cons_of_mem _ hu)
        have huv : u = v := Row.record.inj hv
        rw [← huv] at hk
        have hlt' : t.key < k := hlt _ hu
        have hku : k = u.key := hk
        rw [hku, Task.key_lt_key] at hlt'
        exact UInt64.le_trans hstop (UInt64.le_of_lt hlt')
    · split at h
      · cases h
      · next hskip =>
        rcases List.mem_cons.1 hu with hu | hu
        · have hut : u = t := Row.record.inj (Prod.mk.inj hu).2
          subst hut
          right
          simp only [Bool.and_eq_true, beq_iff_eq, not_and, Bool.not_eq_true] at hskip
          by_cases hw : u.workspace = workspace
          · exact .inr (hskip hw)
          · exact .inl hw
        · exact ih hrest (fun q hq => hrec q (List.mem_cons_of_mem _ hq)) h hu

/-- If no earlier exclusive task is in the way of a claim, then every earlier exclusive task of
    the workspace is over. -/
theorem Keyed.terminal_of_unblocked (hs : s.Keyed) {workspace : String}
    (h : earlierExclusive workspace id s.tasks.rows = .ok none) (hu : s.Holds u) (hk : u.kind = .planAndApply)
    (hw : u.workspace = workspace) (hlt : u.id < id) : u.status.isTerminal = true := by
  have hmem : (u.key, Row.record u) ∈ s.tasks.rows := Table.mem_rows_iff.2 hu
  rcases earlierExclusive_rows s.tasks.ascending (fun p hp => keyed_rows hs hp) h hmem with hle | hne | hact
  · exact absurd hlt (UInt64.not_lt.2 hle)
  · exact absurd hw hne
  · simpa [Task.isActiveExclusive, hk, TaskStatus.isActive] using hact

end TaskFleet.Store
