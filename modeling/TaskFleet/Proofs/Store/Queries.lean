/-
  TaskFleet.Proofs.Store.Queries — whatever a query answers is in the store.

  - `mem_listTasks`: the listing has exactly the tasks that the store holds.
  - `holds_of_firstRecord` / `nextTask_holds`: a scan that stops at a task stops at one that
    the store holds; the next task of a workspace is one of its pending tasks.
  - `Keyed.tasksWhere_ok`: a keyed store can be listed; a listing comes by ascending ID (`Lists`).
  - `applyPending_pos_iff`: what a pool's workload says of tasks that wait for their apply.
-/

import Mathlib.Data.List.Induction
import TaskFleet.Proofs.Store.Transactions
import TaskFleet.Store.Query

namespace TaskFleet.Store

variable {s : Store} {t : Task}

theorem mem_of_mapM_read {α : Type} {rows : List (String × Row α)} {values : List α} {a : α}
    (h : rows.mapM (fun p => p.2.read) = .ok values) : a ∈ values ↔ ∃ k, (k, Row.record a) ∈ rows := by
  induction rows generalizing values with
  | nil => cases h; simp
  | cons p rest ih =>
    obtain ⟨k, row⟩ := p
    rw [List.mapM_cons] at h
    cases row with
    | unreadable text => cases h
    | record v =>
      cases hrest : rest.mapM (fun p => p.2.read) with
      | error e => rw [hrest] at h; cases h
      | ok vs =>
        rw [hrest] at h
        cases h
        rw [List.mem_cons, ih hrest]
        constructor
        · rintro (rfl | ⟨k', hk'⟩)
          · exact ⟨k, List.mem_cons_self⟩
          · exact ⟨k', List.mem_cons_of_mem _ hk'⟩
        · rintro ⟨k', hk'⟩
          rcases List.mem_cons.1 hk' with he | hk'
          · exact .inl (Row.record.inj (Prod.mk.inj he).2)
          · exact .inr ⟨k', hk'⟩

theorem mem_listTasks (hs : s.Keyed) {ts : List Task} (h : s.listTasks = .ok ts) : t ∈ ts ↔ s.Holds t := by
  rw [mem_of_mapM_read h]
  constructor
  · rintro ⟨k, hk⟩
    obtain ⟨u, hu, rfl⟩ := keyed_rows hs hk
    cases hu
    exact Table.mem_rows_iff.1 hk
  · intro ht
    exact ⟨t.key, Table.mem_rows_iff.2 ht⟩

theorem mem_tasksWhere (hs : s.Keyed) {keep : Task → Bool} {ts : List Task} (h : s.tasksWhere keep = .ok ts) :
    t ∈ ts ↔ s.Holds t ∧ keep t = true := by
  unfold tasksWhere at h
  cases hl : s.listTasks with
  | error e => rw [hl] at h; cases h
  | ok all =>
    rw [hl] at h
    cases h
    rw [List.mem_filter, mem_listTasks hs hl]

/-- A keyed store can be read from end to end. -/
theorem Keyed.listTasks_ok (hs : s.Keyed) :
    ∃ ts, s.listTasks = .ok ts ∧ s.tasks.rows = ts.map fun t => (t.key, Row.record t) := by
  have hrows : ∀ rows : List (String × Row Task), (∀ p ∈ rows, p ∈ s.tasks.rows) →
      ∃ ts, rows.mapM (fun p => p.2.read) = .ok ts ∧ rows = ts.map fun t => (t.key, Row.record t) := by
    intro rows hsub
    induction rows with
    | nil => exact ⟨[], rfl, rfl⟩
    | cons p rest ih =>
      obtain ⟨k, row⟩ := p
      obtain ⟨t, rfl, rfl⟩ := keyed_rows hs (hsub _ List.mem_cons_self)
      obtain ⟨ts, hts, hrest⟩ := ih fun q hq => hsub q (List.mem_cons_of_mem _ hq)
      refine ⟨t :: ts, ?_, by rw [List.map_cons, ← hrest]⟩
      rw [List.mapM_cons, hts]
      rfl
  exact hrows _ fun _ hp => hp

theorem mapM_read_of_unreadable {α : Type} {rows : List (String × Row α)} {k text : String}
    (h : (k, Row.unreadable text) ∈ rows) : rows.mapM (fun p => p.2.read) = .error .unreadable := by
  induction rows with
  | nil => cases h
  | cons p rest ih =>
    obtain ⟨k', row⟩ := p
    rw [List.mapM_cons]
    cases row with
    | unreadable text' => rfl
    | record a =>
      have hrest : (k, Row.unreadable text) ∈ rest := by simpa using h
      rw [ih hrest]
      rfl

theorem mapM_read_ok {α : Type} {rows : List (String × Row α)} (h : ∀ k text, (k, Row.unreadable text) ∉ rows) :
    ∃ values, rows.mapM (fun p => p.2.read) = .ok values := by
  induction rows with
  | nil => exact ⟨[], rfl⟩
  | cons q rest ih =>
    obtain ⟨k, row⟩ := q
    obtain ⟨values, hvalues⟩ := ih fun k' text hin => h k' text (List.mem_cons_of_mem _ hin)
    cases row with
    | record a => exact ⟨a :: values, by rw [List.mapM_cons, hvalues]; rfl⟩
    | unreadable text => exact absurd List.mem_cons_self (h k text)

/-- One row that is no record, and no task can be listed. -/
theorem listTasks_of_unreadable {k text : String} (h : s.tasks.get? k = some (.unreadable text)) :
    s.listTasks = .error .unreadable := mapM_read_of_unreadable (Table.mem_rows_iff.2 h)

/-- The rows of a keyed store are its tasks, by ascending ID. -/
theorem Keyed.tasks_ascending (hs : s.Keyed) :
    ∃ ts : List Task, s.listTasks = .ok ts ∧ s.tasks.rows = ts.map (fun t => (t.key, Row.record t)) ∧
      ts.Pairwise (·.id < ·.id) ∧ ∀ t, t ∈ ts ↔ s.Holds t := by
  obtain ⟨ts, hts, hrows⟩ := hs.listTasks_ok
  have hasc : ts.Pairwise fun t u => t.key < u.key := by
    have hasc := s.tasks.ascending
    rwa [hrows, List.pairwise_map] at hasc
  exact ⟨ts, hts, hrows, hasc.imp Task.key_lt_key.1, fun t => mem_listTasks hs hts⟩

/-- The list has the tasks with a property, by ascending ID. -/
structure Lists (s : Store) (P : Task → Prop) (ts : List Task) : Prop where
  ascending : ts.Pairwise (·.id < ·.id)
  mem : ∀ t, t ∈ ts ↔ s.Holds t ∧ P t

theorem Lists.filter {P : Task → Prop} {ts : List Task} (h : s.Lists P ts) (keep : Task → Bool) :
    s.Lists (fun t => P t ∧ keep t = true) (ts.filter keep) :=
  ⟨h.ascending.sublist List.filter_sublist, fun t => by rw [List.mem_filter, h.mem, and_assoc]⟩

theorem Lists.congr {P Q : Task → Prop} {ts : List Task} (h : s.Lists P ts) (hPQ : ∀ t, s.Holds t → (P t ↔ Q t)) :
    s.Lists Q ts :=
  ⟨h.ascending, fun t => by rw [h.mem]; exact and_congr_right (hPQ t)⟩

theorem Lists.eq_nil {P : Task → Prop} {ts : List Task} (h : s.Lists P ts) (hnone : ∀ t, s.Holds t → ¬P t) : ts = [] := by
  refine List.eq_nil_iff_forall_not_mem.2 fun t ht => ?_
  obtain ⟨hheld, hPt⟩ := (h.mem t).1 ht
  exact hnone t hheld hPt

theorem Lists.nodup {P : Task → Prop} {ts : List Task} (h : s.Lists P ts) : (ts.map (·.id)).Nodup := by
  rw [List.Nodup, List.pairwise_map]
  apply h.ascending.imp
  intro t u hlt he
  rw [he] at hlt
  exact UInt64.lt_irrefl _ hlt

/-- A keyed store can be listed. -/
theorem Keyed.tasksWhere_ok (hs : s.Keyed) (keep : Task → Bool) :
    ∃ ts, s.tasksWhere keep = .ok ts ∧ s.Lists (keep · = true) ts := by
  obtain ⟨all, hall, -, hasc, -⟩ := hs.tasks_ascending
  have hkept : s.tasksWhere keep = .ok (all.filter keep) := by
    unfold tasksWhere
    rw [hall]
    rfl
  exact ⟨all.filter keep, hkept, hasc.sublist List.filter_sublist, fun t => mem_tasksWhere hs hkept⟩

/-! ## Each workspace once -/

theorem firstOccurrences_snoc (names : List String) (name : String) :
    firstOccurrences (names ++ [name]) =
      if (firstOccurrences names).contains name then firstOccurrences names else firstOccurrences names ++ [name] := by
  unfold firstOccurrences
  rw [List.foldl_append]
  rfl

theorem mem_firstOccurrences {names : List String} {name : String} : name ∈ firstOccurrences names ↔ name ∈ names := by
  induction names using List.reverseRecOn with
  | nil => rfl
  | append_singleton names last ih =>
    rw [firstOccurrences_snoc]
    split
    · next hin =>
      have hin : last ∈ firstOccurrences names := by simpa using hin
      rw [List.mem_append, List.mem_singleton, ih]
      constructor
      · exact .inl
      · rintro (h | rfl)
        · exact h
        · exact ih.1 hin
    · rw [List.mem_append, List.mem_append, ih]

theorem nodup_firstOccurrences (names : List String) : (firstOccurrences names).Nodup := by
  induction names using List.reverseRecOn with
  | nil => exact .nil
  | append_singleton names last ih =>
    rw [firstOccurrences_snoc]
    split
    · exact ih
    · next hnew =>
      have hnew : last ∉ firstOccurrences names := by simpa using hnew
      exact List.nodup_append.2 ⟨ih, by simp, fun a ha b hb => by
        rw [List.mem_singleton.1 hb]; rintro rfl; exact hnew ha⟩

/-- Of two names in the list, the first one occurs before the other one does. -/
theorem pairwise_firstOccurrences (names : List String) :
    (firstOccurrences names).Pairwise fun a b => ∃ before after, names = before ++ after ∧ a ∈ before ∧ b ∉ before := by
  have hlonger : ∀ {a b : String} {names : List String} (last : String),
      (∃ before after, names = before ++ after ∧ a ∈ before ∧ b ∉ before) →
      ∃ before after, names ++ [last] = before ++ after ∧ a ∈ before ∧ b ∉ before := by
    rintro a b _ last ⟨before, after, rfl, ha, hb⟩
    exact ⟨before, after ++ [last], List.append_assoc _ _ _, ha, hb⟩
  induction names using List.reverseRecOn with
  | nil => exact .nil
  | append_singleton names last ih =>
    rw [firstOccurrences_snoc]
    split
    · exact ih.imp (hlonger last)
    · next hnew =>
      rw [List.contains_iff_mem, mem_firstOccurrences] at hnew
      refine List.pairwise_append.2 ⟨ih.imp (hlonger last), List.pairwise_singleton _ _, fun a ha b hb => ?_⟩
      rw [List.mem_singleton.1 hb]
      exact ⟨names, [last], rfl, mem_firstOccurrences.1 ha, hnew⟩

theorem firstOccurrences_of_nodup {names : List String} (h : names.Nodup) : firstOccurrences names = names := by
  induction names using List.reverseRecOn with
  | nil => rfl
  | append_singleton names last ih =>
    obtain ⟨hnames, -, hnew⟩ := List.nodup_append.1 h
    have hlast : ¬names.contains last = true := by
      rw [List.contains_iff_mem]
      exact fun hin => hnew last hin last (by simp) rfl
    rw [firstOccurrences_snoc, ih hnames, if_neg hlast]

/-- Repetitions at the front may be left out first. -/
theorem firstOccurrences_append (names more : List String) :
    firstOccurrences (firstOccurrences names ++ more) = firstOccurrences (names ++ more) := by
  induction more using List.reverseRecOn with
  | nil => rw [List.append_nil, List.append_nil, firstOccurrences_of_nodup (nodup_firstOccurrences names)]
  | append_singleton more last ih =>
    rw [← List.append_assoc, ← List.append_assoc, firstOccurrences_snoc, firstOccurrences_snoc, ih]

theorem firstOccurrences_eq_eraseDups (names : List String) : firstOccurrences names = names.eraseDups := by
  induction names using List.reverseRecOn with
  | nil => rfl
  | append_singleton names last ih =>
    rw [firstOccurrences_snoc, List.eraseDups_append, ih]
    by_cases hin : last ∈ names
    · simp [List.removeAll, hin]
    · simp [List.removeAll, hin, List.eraseDups_cons]

theorem Keyed.workspacesWithPending_ok (hs : s.Keyed) :
    ∃ names, s.workspacesWithPending = .ok names ∧ names.Nodup ∧
      ∀ name, name ∈ names ↔ ∃ t, s.Holds t ∧ t.status = .pending ∧ t.workspace = name := by
  obtain ⟨ts, hts, hlist⟩ := hs.tasksWhere_ok (·.status == .pending)
  refine ⟨firstOccurrences (ts.map (·.workspace)), ?_, nodup_firstOccurrences _, fun name => ?_⟩
  · unfold workspacesWithPending; rw [hts]; rfl
  · simp only [mem_firstOccurrences, List.mem_map, hlist.mem, beq_iff_eq, and_assoc]

theorem holds_of_firstRecord (hs : s.Keyed) {keep : Task → Bool} {rows : List (String × Row Task)}
    (hsub : ∀ p ∈ rows, p ∈ s.tasks.rows) (h : firstRecord keep rows = .ok (some t)) : s.Holds t ∧ keep t = true := by
  induction rows with
  | nil => cases h
  | cons p rest ih =>
    obtain ⟨k, row⟩ := p
    obtain ⟨u, rfl, rfl⟩ := keyed_rows hs (hsub _ List.mem_cons_self)
    simp only [firstRecord, Row.read, bind, Except.bind, pure, Except.pure] at h
    split at h
    · next hkeep =>
      cases h
      exact ⟨Table.mem_rows_iff.1 (hsub _ List.mem_cons_self), hkeep⟩
    · exact ih (fun q hq => hsub q (List.mem_cons_of_mem _ hq)) h

theorem keep_of_firstRecord {keep : Task → Bool} {rows : List (String × Row Task)}
    (h : firstRecord keep rows = .ok (some t)) : keep t = true := by
  induction rows with
  | nil => cases h
  | cons p rest ih =>
    obtain ⟨k, row⟩ := p
    cases row with
    | unreadable text => cases h
    | record u =>
      simp only [firstRecord, Row.read, bind, Except.bind, pure, Except.pure] at h
      split at h
      · next hkeep => cases h; exact hkeep
      · exact ih h

theorem mem_of_firstRecord {keep : Task → Bool} {rows : List (String × Row Task)}
    (h : firstRecord keep rows = .ok (some t)) : ∃ k, (k, Row.record t) ∈ rows := by
  induction rows with
  | nil => cases h
  | cons p rest ih =>
    obtain ⟨k, row⟩ := p
    cases row with
    | unreadable text => cases h
    | record u =>
      simp only [firstRecord, Row.read, bind, Except.bind, pure, Except.pure] at h
      split at h
      · cases h; exact ⟨k, List.mem_cons_self⟩
      · obtain ⟨k', hk'⟩ := ih h
        exact ⟨k', List.mem_cons_of_mem _ hk'⟩

theorem oldestPending_holds (hs : s.Keyed) {workspace : String} {kind : TaskKind}
    (h : s.oldestPending workspace kind = .ok (some t)) :
    s.Holds t ∧ t.workspace = workspace ∧ t.status = .pending := by
  obtain ⟨ht, hkeep⟩ := holds_of_firstRecord hs (fun p hp => hp) h
  simp only [Bool.and_eq_true, beq_iff_eq] at hkeep
  exact ⟨ht, hkeep.1.1, hkeep.2⟩

/-- What is left of the choice when no exclusive task is to start. -/
theorem oldestPending_of_rest {workspace : String} {k : Option Task → Except StoreError (Option Task)}
    (h : (s.oldestPending workspace .plan >>= k) = .ok (some t)) (hnone : k none = s.oldestPending workspace .driftCheck)
    (hsome : ∀ u, k (some u) = .ok (some u)) : ∃ kind, s.oldestPending workspace kind = .ok (some t) := by
  obtain ⟨found, hplan, h⟩ := bind_eq_ok h
  cases found with
  | none => exact ⟨.driftCheck, hnone ▸ h⟩
  | some u =>
    cases (hsome u).symm.trans h
    exact ⟨.plan, hplan⟩

/-- The next task of a workspace is its oldest pending one of some kind. -/
theorem oldestPending_of_nextTask {workspace : String} (h : s.nextTask workspace = .ok (some t)) :
    ∃ kind, s.oldestPending workspace kind = .ok (some t) := by
  unfold nextTask at h
  obtain ⟨found, -, h⟩ := bind_eq_ok h
  cases found with
  | none => cases h
  | some w =>
  simp only at h
  split at h
  · cases h
  obtain ⟨found, hexclusive, h⟩ := bind_eq_ok h
  cases found with
  | none => exact oldestPending_of_rest h rfl fun _ => rfl
  | some u =>
  obtain ⟨blocked, -, h⟩ := bind_eq_ok h
  cases blocked with
  | true => exact oldestPending_of_rest h rfl fun _ => rfl
  | false => cases h; exact ⟨.planAndApply, hexclusive⟩

theorem nextTask_holds (hs : s.Keyed) {workspace : String} (h : s.nextTask workspace = .ok (some t)) :
    s.Holds t ∧ t.workspace = workspace ∧ t.status = .pending := by
  obtain ⟨kind, hkind⟩ := oldestPending_of_nextTask h
  exact oldestPending_holds hs hkind

/-- It belongs to the workspace, whatever else is in the store. -/
theorem workspace_of_nextTask {workspace : String} (h : s.nextTask workspace = .ok (some t)) : t.workspace = workspace := by
  obtain ⟨kind, hkind⟩ := oldestPending_of_nextTask h
  have hkeep := keep_of_firstRecord hkind
  simp only [Bool.and_eq_true, beq_iff_eq] at hkeep
  exact hkeep.1.1

/-! ## What tasks ask of a pool -/

/-- Some task of a workspace on the pool waits for its apply. -/
def AwaitsApply (s : Store) (pool : String) : Prop :=
  ∃ k t k' ws, s.tasks.get? k = some (.record t) ∧ t.status = .applyPending ∧ s.workspaces.get? k' = some (.record ws) ∧
    ws.id = t.workspace ∧ ws.mode = .kubernetes ∧ ws.pool = some pool

theorem applyPending_count (work : PoolWorkload) (busy : List String) (t : Task) :
    (work.count busy t).applyPending = work.applyPending + if t.status = .applyPending then 1 else 0 := by
  unfold PoolWorkload.count
  cases t.status <;> rfl

theorem applyPending_countAll (work : PoolWorkload) (busy : List String) (ts : List Task) :
    (work.countAll busy ts).applyPending = work.applyPending + ts.countP (·.status = .applyPending) := by
  induction ts generalizing work busy with
  | nil => rfl
  | cons t ts ih =>
    rw [PoolWorkload.countAll, ih, applyPending_count, List.countP_cons]
    simp only [decide_eq_true_eq]
    omega

theorem mem_poolMembers {pool id : String} {members : List String} (h : s.poolMembers pool = .ok members) :
    id ∈ members ↔ ∃ k ws, s.workspaces.get? k = some (.record ws) ∧ ws.id = id ∧ ws.mode = .kubernetes ∧
      ws.pool = some pool := by
  unfold poolMembers at h
  cases hl : s.listWorkspaces with
  | error e => rw [hl] at h; cases h
  | ok all =>
    rw [hl] at h
    cases h
    have hread : ∀ ws, ws ∈ all ↔ ∃ k, s.workspaces.get? k = some (.record ws) := fun ws =>
      (mem_of_mapM_read hl).trans (exists_congr fun _ => Table.mem_rows_iff)
    simp only [List.mem_map, List.mem_filter, Bool.and_eq_true, beq_iff_eq, hread]
    constructor
    · rintro ⟨ws, ⟨⟨k, hk⟩, hmode, hpool⟩, hid⟩
      exact ⟨k, ws, hk, hid, hmode, hpool⟩
    · rintro ⟨k, ws, hk, hid, hmode, hpool⟩
      exact ⟨ws, ⟨⟨k, hk⟩, hmode, hpool⟩, hid⟩

/-- A pool's workload counts a task that waits for its apply exactly if there is one. -/
theorem applyPending_pos_iff {pool : String} {work : PoolWorkload} (hw : s.poolWorkload pool = .ok work) :
    0 < work.applyPending ↔ s.AwaitsApply pool := by
  unfold poolWorkload at hw
  obtain ⟨members, hmembers, hw⟩ := bind_eq_ok hw
  have hmember : ∀ t : Task, t.workspace ∈ members ↔ _ := fun t => mem_poolMembers hmembers
  split at hw
  · next hempty =>
    cases hw
    refine iff_of_false (Nat.lt_irrefl 0) fun ⟨k, t, k', ws, _, _, hws⟩ => ?_
    have hin : t.workspace ∈ members := (hmember t).2 ⟨k', ws, hws⟩
    rw [List.isEmpty_iff.1 hempty] at hin
    cases hin
  obtain ⟨tasks, htasks, hw⟩ := bind_eq_ok hw
  cases hw
  unfold tasksWhere at htasks
  cases hts : s.listTasks with
  | error e => rw [hts] at htasks; cases htasks
  | ok all =>
    rw [hts] at htasks
    cases htasks
    rw [applyPending_countAll, Nat.zero_add, List.countP_pos_iff]
    constructor
    · rintro ⟨t, ht, hstatus⟩
      obtain ⟨ht, hin⟩ := List.mem_filter.1 ht
      obtain ⟨k, hk⟩ := (mem_of_mapM_read hts).1 ht
      obtain ⟨k', ws, hws⟩ := (hmember t).1 (List.contains_iff_mem.1 hin)
      exact ⟨k, t, k', ws, Table.mem_rows_iff.1 hk, by simpa using hstatus, hws⟩
    · rintro ⟨k, t, k', ws, ht, hstatus, hws⟩
      have hin : t.workspace ∈ members := (hmember t).2 ⟨k', ws, hws⟩
      refine ⟨t, List.mem_filter.2 ⟨(mem_of_mapM_read hts).2 ⟨k, Table.mem_rows_iff.2 ht⟩, ?_⟩, by simpa using hstatus⟩
      exact List.contains_iff_mem.2 hin

end TaskFleet.Store
