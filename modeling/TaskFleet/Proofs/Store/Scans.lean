/-
  TaskFleet.Proofs.Store.Scans — stores that differ in the tasks of one workspace only.

  A transaction for one workspace scans the rows of all of them. It neither answers differently nor
  writes differently if the tasks of another workspace are changed, as long as they keep their IDs.
  - `Table.forall₂_rows`, `Table.ext_get?`: from the look-ups to the rows.
  - `Alongside`: such stores; they are related in the same way to each other (`refl`, `symm`,
    `trans`), and equal if they are so for two workspaces (`Alongside.eq`).
  - `Alongside.nextTask_eq`, `Alongside.tasksWhere_eq`: what is read is the same.
  - `Sharing.updateTask`, `Sharing.claimTask`: what is written is the same.
-/

import Mathlib.Data.List.Forall2
import Mathlib.Data.Option.Basic
import TaskFleet.Proofs.Store.Queries

namespace TaskFleet

namespace Table

variable {α β : Type} {R : α → β → Prop}

theorem findRow_cons_self (k : String) (v : α) (rows : List (String × α)) : findRow k ((k, v) :: rows) = some v := by
  unfold findRow
  rw [if_pos rfl]

theorem findRow_cons_of_ne {k k' : String} (h : k' ≠ k) (v : α) (rows : List (String × α)) :
    findRow k ((k', v) :: rows) = findRow k rows := by
  conv_lhs => unfold findRow
  rw [if_neg h]

/-- A key below all keys is not found. -/
theorem findRow_of_lt {k k' : String} {v : α} {rows : List (String × α)} (hlt : k < k')
    (h : ((k', v) :: rows).Pairwise (·.1 < ·.1)) : findRow k ((k', v) :: rows) = none := by
  refine findRow_eq_none_of_lt fun p hp => ?_
  rcases List.mem_cons.1 hp with rfl | hp
  · exact hlt
  · exact String.lt_trans hlt ((List.pairwise_cons.1 h).1 p hp)

/-- The lower one of two different first keys would be found on one side only. -/
theorem first_key_eq {k k' : String} {v : α} {v' : β} {l : List (String × α)} {m : List (String × β)}
    (hl : ((k, v) :: l).Pairwise (·.1 < ·.1)) (hm : ((k', v') :: m).Pairwise (·.1 < ·.1))
    (h : ∀ x, Option.Rel R (findRow x ((k, v) :: l)) (findRow x ((k', v') :: m))) : k = k' := by
  by_contra hne
  by_cases hlt : k < k'
  · have hk := h k
    rw [findRow_cons_self, findRow_of_lt hlt hm] at hk
    cases hk
  · have hk := h k'
    rw [findRow_cons_self, findRow_of_lt (lt_of_not_lt_of_ne hlt hne) hl] at hk
    cases hk

theorem forall₂_of_findRow {l : List (String × α)} {m : List (String × β)} (hl : l.Pairwise (·.1 < ·.1))
    (hm : m.Pairwise (·.1 < ·.1)) (h : ∀ k, Option.Rel R (findRow k l) (findRow k m)) :
    List.Forall₂ (fun p q => p.1 = q.1 ∧ R p.2 q.2) l m := by
  induction l generalizing m with
  | nil =>
    cases m with
    | nil => exact .nil
    | cons q m =>
      have hk := h q.1
      rw [findRow_cons_self] at hk
      cases hk
  | cons p l ih =>
    obtain ⟨k, v⟩ := p
    have hk := h k
    rw [findRow_cons_self] at hk
    cases m with
    | nil => cases hk
    | cons q m =>
      obtain ⟨k', v'⟩ := q
      obtain rfl : k = k' := first_key_eq hl hm h
      rw [findRow_cons_self] at hk
      obtain ⟨hfirst, hl⟩ := List.pairwise_cons.1 hl
      obtain ⟨hfirst', hm⟩ := List.pairwise_cons.1 hm
      refine .cons ⟨rfl, by cases hk; assumption⟩ (ih hl hm fun x => ?_)
      by_cases hx : k = x
      · rw [← hx, findRow_eq_none_of_lt hfirst, findRow_eq_none_of_lt hfirst']
        exact .none
      · have hrest := h x
        rwa [findRow_cons_of_ne hx, findRow_cons_of_ne hx] at hrest

/-- Tables whose look-ups are related have related rows, in order. -/
theorem forall₂_rows {a : Table α} {b : Table β} (h : ∀ k, Option.Rel R (a.get? k) (b.get? k)) :
    List.Forall₂ (fun p q => p.1 = q.1 ∧ R p.2 q.2) a.rows b.rows := forall₂_of_findRow a.ascending b.ascending h

/-- Tables in which the same is found are equal. -/
theorem ext_get? {a b : Table α} (h : ∀ k, a.get? k = b.get? k) : a = b := by
  have hrows := forall₂_rows (R := fun x y => x = y) (a := a) (b := b) fun k => by
    rw [h k]
    cases b.get? k with
    | none => exact .none
    | some v => exact .some rfl
  have heq : a.rows = b.rows := List.forall₂_eq_eq_eq ▸ hrows.imp fun _ _ hpq => Prod.ext hpq.1 hpq.2
  obtain ⟨rows, _⟩ := a
  obtain ⟨rows', _⟩ := b
  cases heq
  rfl

end Table

namespace Store

variable {other name workspace : String} {s t u : Store} {a b c : Row Task} {rows rows' : List (String × Row Task)}

/-- Rows that are the same, or both are tasks of the workspace, with the same ID. -/
inductive SameBut (other : String) : Row Task → Row Task → Prop
  | same (row : Row Task) : SameBut other row row
  | both {x y : Task} : x.workspace = other → y.workspace = other → x.id = y.id → SameBut other (.record x) (.record y)

theorem SameBut.symm (h : SameBut other a b) : SameBut other b a := by
  cases h with
  | same => exact .same a
  | both hx hy hid => exact .both hy hx hid.symm

theorem SameBut.trans (h : SameBut other a b) (h' : SameBut other b c) : SameBut other a c := by
  cases h with
  | same => exact h'
  | both hx hy hid =>
    cases h' with
    | same => exact .both hx hy hid
    | both _ hz hid' => exact .both hx hz (hid.trans hid')

/-- Rows that differ at most in the tasks of either of two workspaces do not differ. -/
theorem SameBut.eq (h : SameBut other a b) (h' : SameBut name a b) (hne : other ≠ name) : a = b := by
  cases h with
  | same => rfl
  | both hx _ _ =>
    cases h' with
    | same => rfl
    | both hx' _ _ => exact absurd (hx.symm.trans hx') hne

theorem SameBut.of_record {x : Task} (h : SameBut other (.record x) b) (hx : x.workspace ≠ other) : b = .record x := by
  cases h with
  | same => rfl
  | both hx' _ _ => exact absurd hx' hx

/-- Stores that differ at most in the tasks of one workspace, and not in their IDs. -/
structure Alongside (other : String) (s t : Store) : Prop where
  workspaces : t.workspaces = s.workspaces
  pools : t.pools = s.pools
  counter : t.lastTaskId = s.lastTaskId
  rows : ∀ key, Option.Rel (SameBut other) (s.tasks.get? key) (t.tasks.get? key)

namespace Alongside

theorem refl (other : String) (s : Store) : Alongside other s s where
  workspaces := rfl
  pools := rfl
  counter := rfl
  rows := fun key => by
    cases s.tasks.get? key with
    | none => exact .none
    | some row => exact .some (.same row)

theorem symm (h : Alongside other s t) : Alongside other t s where
  workspaces := h.workspaces.symm
  pools := h.pools.symm
  counter := h.counter.symm
  rows := fun key => by
    have hrow := h.rows key
    generalize s.tasks.get? key = x at hrow ⊢
    generalize t.tasks.get? key = y at hrow ⊢
    cases hrow with
    | none => exact .none
    | some hxy => exact .some hxy.symm

theorem trans (h : Alongside other s t) (h' : Alongside other t u) : Alongside other s u where
  workspaces := h'.workspaces.trans h.workspaces
  pools := h'.pools.trans h.pools
  counter := h'.counter.trans h.counter
  rows := fun key => by
    have hrow := h.rows key
    have hrow' := h'.rows key
    generalize s.tasks.get? key = x at hrow
    generalize t.tasks.get? key = y at hrow hrow'
    generalize u.tasks.get? key = z at hrow'
    cases hrow with
    | none => cases hrow'; exact .none
    | some hxy => cases hrow' with | some hyz => exact .some (hxy.trans hyz)

/-- Stores that differ at most in the tasks of either of two workspaces do not differ. -/
theorem eq (h : Alongside other s t) (h' : Alongside name s t) (hne : other ≠ name) : s = t := by
  have htasks : s.tasks = t.tasks := Table.ext_get? fun key => by
    have hrow := h.rows key
    have hrow' := h'.rows key
    generalize s.tasks.get? key = x at hrow hrow'
    generalize t.tasks.get? key = y at hrow hrow'
    cases hrow with
    | none => rfl
    | some hxy => cases hrow' with | some hxy' => rw [hxy.eq hxy' hne]
  obtain ⟨_, _, _, _⟩ := s
  obtain ⟨_, _, _, _⟩ := t
  cases htasks
  cases h.workspaces
  cases h.pools
  cases h.counter
  rfl

/-- A task of another workspace is found in both. -/
theorem get?_eq (h : Alongside other s t) {key : String} {x : Task} (hx : s.tasks.get? key = some (.record x))
    (hws : x.workspace ≠ other) : t.tasks.get? key = some (.record x) := by
  have hrow := h.rows key
  rw [hx] at hrow
  generalize t.tasks.get? key = z at hrow ⊢
  cases hrow with
  | some hxz => rw [hxz.of_record hws]

end Alongside

/-! ## What is read -/

/-- Rows under the same keys that differ at most in the tasks of one workspace. -/
abbrev RowsAlong (other : String) : List (String × Row Task) → List (String × Row Task) → Prop :=
  List.Forall₂ fun p q => p.1 = q.1 ∧ SameBut other p.2 q.2

theorem Alongside.rowsAlong (h : Alongside other s t) : RowsAlong other s.tasks.rows t.tasks.rows := Table.forall₂_rows h.rows

theorem firstRecord_congr {keep : Task → Bool} (hkeep : ∀ x, x.workspace = other → keep x = false)
    (h : RowsAlong other rows rows') : firstRecord keep rows = firstRecord keep rows' := by
  induction h with
  | nil => rfl
  | @cons p q _ _ hpq _ ih =>
    obtain ⟨k, a⟩ := p
    obtain ⟨k', b⟩ := q
    obtain ⟨-, hrow⟩ := hpq
    cases hrow with
    | same => unfold firstRecord; rw [ih]
    | both hx hy _ =>
      simp only [firstRecord, Row.read, bind, Except.bind, hkeep _ hx, hkeep _ hy]
      exact ih

/-- What a listing keeps of the tasks. -/
def kept (keep : Task → Bool) (rows : List (String × Row Task)) : Except StoreError (List Task) :=
  (rows.mapM fun p : String × Row Task => p.2.read).map (·.filter keep)

theorem kept_cons (keep : Task → Bool) (key : String) (x : Task) (rows : List (String × Row Task)) :
    kept keep ((key, .record x) :: rows) = (kept keep rows).map fun ts => if keep x then x :: ts else ts := by
  unfold kept
  rw [List.mapM_cons]
  cases rows.mapM fun p : String × Row Task => p.2.read with
  | error e => rfl
  | ok ts => exact congrArg Except.ok List.filter_cons

theorem kept_congr {keep : Task → Bool} (hkeep : ∀ x, x.workspace = other → keep x = false)
    (h : RowsAlong other rows rows') : kept keep rows = kept keep rows' := by
  induction h with
  | nil => rfl
  | @cons p q _ _ hpq _ ih =>
    obtain ⟨k, a⟩ := p
    obtain ⟨k', b⟩ := q
    obtain ⟨hk, hrow⟩ := hpq
    cases hrow with
    | same =>
      cases a with
      | unreadable text => rw [show k = k' from hk]; unfold kept; rw [List.mapM_cons, List.mapM_cons]; rfl
      | record x => rw [kept_cons, kept_cons, ih]
    | both hx hy _ => rw [kept_cons, kept_cons, ih, hkeep _ hx, hkeep _ hy]; rfl

/-- An earlier exclusive task of the workspace. -/
theorem earlierExclusive_congr (hws : workspace ≠ other) (id : UInt64) (h : RowsAlong other rows rows') :
    earlierExclusive workspace id rows = earlierExclusive workspace id rows' := by
  induction h with
  | nil => rfl
  | @cons p q _ _ hpq _ ih =>
    obtain ⟨k, a⟩ := p
    obtain ⟨k', b⟩ := q
    obtain ⟨-, hrow⟩ := hpq
    cases hrow with
    | same => unfold earlierExclusive; rw [ih]
    | @both x y hx hy hid =>
      have hnone : ∀ z : Task, z.workspace = other → (z.workspace == workspace) = false := fun z hz => by
        rw [hz]; exact beq_false_of_ne hws.symm
      simp only [earlierExclusive, Row.read, bind, Except.bind, hnone x hx, hnone y hy, hid, ih, Bool.false_and]

namespace Alongside

variable (h : Alongside other s t)

include h

theorem workspace?_eq (id : String) : t.workspace? id = s.workspace? id := by
  unfold workspace?
  rw [h.workspaces]

theorem oldestPending_eq (hws : workspace ≠ other) (kind : TaskKind) :
    s.oldestPending workspace kind = t.oldestPending workspace kind :=
  firstRecord_congr (fun x hx => by rw [hx, beq_false_of_ne hws.symm]; rfl) h.rowsAlong

theorem tasksWhere_eq {keep : Task → Bool} (hkeep : ∀ x, x.workspace = other → keep x = false) :
    s.tasksWhere keep = t.tasksWhere keep := kept_congr hkeep h.rowsAlong

theorem hasBlocking_eq (hws : workspace ≠ other) (id : UInt64) : s.hasBlocking workspace id = t.hasBlocking workspace id := by
  unfold hasBlocking
  rw [h.tasksWhere_eq fun x hx => by rw [hx, beq_false_of_ne hws.symm]; rfl]

/-- The choice for one workspace does not depend on the tasks of another. -/
theorem nextTask_eq (hws : workspace ≠ other) : s.nextTask workspace = t.nextTask workspace := by
  unfold nextTask
  rw [h.workspace?_eq]
  simp only [h.oldestPending_eq hws, h.hasBlocking_eq hws]

end Alongside

/-! ## What is written -/

/-- Transactions fail alike, or succeed with the same value in stores that are related. -/
inductive SameResult {α : Type} (P : Store → Store → Prop) :
    Except StoreError (α × Store) → Except StoreError (α × Store) → Prop
  | failed (e : StoreError) : SameResult P (.error e) (.error e)
  | done (a : α) {s t : Store} : P s t → SameResult P (.ok (a, s)) (.ok (a, t))

/-- Such stores, with the same row under a key. -/
structure Sharing (other key : String) (s t : Store) : Prop where
  along : Alongside other s t
  row : t.tasks.get? key = s.tasks.get? key

namespace Sharing

variable {id : UInt64} (h : Sharing other (taskKey id) s t)

include h

theorem insert (row : Row Task) :
    Sharing other (taskKey id) { s with tasks := s.tasks.insert (taskKey id) row }
      { t with tasks := t.tasks.insert (taskKey id) row } where
  along := ⟨h.along.workspaces, h.along.pools, h.along.counter, fun key => by
    rw [Table.get?_insert, Table.get?_insert]
    split
    · exact .some (.same row)
    · exact h.along.rows key⟩
  row := by rw [Table.get?_insert_self, Table.get?_insert_self]

theorem task?_eq : t.task? id = s.task? id := by
  unfold task? Table.record?
  rw [h.row]

theorem updateTask (change : Task → Except StoreError Task) :
    SameResult (Sharing other (taskKey id)) (s.updateTask id change) (t.updateTask id change) := by
  unfold Store.updateTask
  rw [h.task?_eq]
  cases s.task? id with
  | error e => exact .failed e
  | ok found =>
    cases found with
    | none => exact .failed _
    | some x =>
      cases hx : change x with
      | error e => simp only [bind, Except.bind, hx]; exact .failed e
      | ok y => simp only [bind, Except.bind, hx]; exact .done y (h.insert _)

/-- With nothing in its way, a claim writes the row, if the lease can be had. -/
theorem takes (moved : Except StoreError Task) (r : ClaimRequest) (edit : Task → Task) :
    SameResult (Sharing other (taskKey id))
      (do
        let x ← moved
        let some lease := r.lease? | return (Claim.tooLong, s)
        let x := edit { x with lease := some lease }
        return (Claim.claimed x, { s with tasks := s.tasks.insert (taskKey id) (.record x) }))
      (do
        let x ← moved
        let some lease := r.lease? | return (Claim.tooLong, t)
        let x := edit { x with lease := some lease }
        return (Claim.claimed x, { t with tasks := t.tasks.insert (taskKey id) (.record x) })) := by
  cases moved with
  | error e => exact .failed e
  | ok x =>
    cases r.lease? with
    | none => exact .done _ h
    | some lease => exact .done _ (h.insert _)

/-- A claim of a task of one workspace does not depend on the tasks of another. -/
theorem claimTask {x : Task} (hx : s.task? id = .ok (some x)) (hws : x.workspace ≠ other) (r : ClaimRequest)
    (edit : Task → Task) :
    SameResult (Sharing other (taskKey id)) (s.claimTask id r edit) (t.claimTask id r edit) := by
  have hsame : ∀ c : Claim, SameResult (Sharing other (taskKey id)) (.ok (c, s)) (.ok (c, t)) := fun c => .done c h
  unfold Store.claimTask
  rw [h.task?_eq, hx]
  simp only [bind, Except.bind, pure, Except.pure, h.along.workspace?_eq, earlierExclusive_congr hws id h.along.rowsAlong]
  split
  · exact hsame _
  split
  · exact hsame _
  cases s.workspace? x.workspace with
  | error e => exact .failed e
  | ok found =>
  cases found with
  | none => exact .failed _
  | some w =>
  simp only
  split
  · exact hsame _
  split
  · cases earlierExclusive x.workspace id t.tasks.rows with
    | error e => exact .failed e
    | ok found =>
    cases found with
    | some other => exact hsame _
    | none => exact h.takes _ r edit
  · exact h.takes _ r edit

end Sharing

end Store

end TaskFleet
