/-
  TaskFleet.Proofs.Store.StoredRows — a record is kept until its own ID is written again.

  Rows are stored as texts, and so is the whole store between two runs of the program.
  - `Store.ofText?_toText`: a store opens again from its own text, row by row.
  - `Write`, `Writes`: everything that writes a row, and runs of it with the store opened anew
    in between; each write has its place.
  - `Write.keeps`, `Writes.keeps`: what one write, and a run, leaves alone at other places.
  - `rows_survive_storage`: a look-up finds the record last put under its ID, for tasks,
    workspaces and pools, and their rows can be read by older and newer programs.
-/

import TaskFleet.Proofs.Record.RowTexts
import TaskFleet.Proofs.Store.Transactions

namespace TaskFleet

open Datum Json

/-! ## The whole store as one text -/

namespace Table

variable {α : Type}

theorem insertRow_of_last {k : String} {v : α} {rows : List (String × α)} (h : ∀ p ∈ rows, p.1 < k) :
    insertRow k v rows = rows ++ [(k, v)] := by
  induction rows with
  | nil => rfl
  | cons p rows ih =>
    obtain ⟨k', v'⟩ := p
    have hlt : k' < k := h (k', v') List.mem_cons_self
    have hne : k ≠ k' := fun e => String.lt_irrefl k (e ▸ hlt)
    rw [insertRow, if_neg fun h' => String.lt_irrefl k (String.lt_trans h' hlt), if_neg hne,
      ih fun p hp => h p (List.mem_cons_of_mem _ hp)]
    rfl

/-- Rows that come in order are put behind those already there. -/
theorem rows_foldl_insert {rows : List (String × α)} : ∀ {t : Table α}, (t.rows ++ rows).Pairwise (·.1 < ·.1) →
    (rows.foldl (fun t p => t.insert p.1 p.2) t).rows = t.rows ++ rows := by
  induction rows with
  | nil => intro t _; simp
  | cons p rows ih =>
    intro t h
    have hlast : (t.insert p.1 p.2).rows = t.rows ++ [p] :=
      insertRow_of_last fun q hq => (List.pairwise_append.1 h).2.2 q hq p List.mem_cons_self
    rw [List.foldl_cons, ih (by rw [hlast, List.append_assoc]; exact h), hlast, List.append_assoc]
    rfl

theorem ext_rows {t t' : Table α} (h : t.rows = t'.rows) : t = t' := by
  cases t
  cases t'
  cases h
  rfl

end Table

/-- The row as it is read from its own text. -/
def Row.reread {α : Type} (f : RowFormat α) (row : Row α) : Row α := .ofText f.read (row.toText f.write)

/-- A table with every row read from its own text. -/
def Table.reread {α : Type} (f : RowFormat α) (t : Table (Row α)) : Table (Row α) :=
  t.mapValues fun _ row => row.reread f

/-- What a store is when it is opened again. -/
def Store.reread (s : Store) : Store where
  tasks := s.tasks.reread Task.format
  workspaces := s.workspaces.reread Workspace.format
  pools := s.pools.reread AgentPool.format
  lastTaskId := s.lastTaskId

/-- A table as the keys and texts of its rows. -/
def Table.texts {α : Type} (f : RowFormat α) (t : Table (Row α)) : List (String × String) :=
  t.rows.map fun p => (p.1, p.2.toText f.write)

theorem Table.foldl_texts {α : Type} (f : RowFormat α) (t : Table (Row α)) :
    (t.texts f).foldl (fun u p => u.insert p.1 (.ofText f.read p.2)) .empty = t.reread f := by
  refine ext_rows ?_
  have hrows : (t.reread f).rows = (t.texts f).map fun p => (p.1, .ofText f.read p.2) := by
    rw [texts, List.map_map]
    rfl
  have hfold : ((t.reread f).rows.foldl (fun (u : Table (Row α)) p => u.insert p.1 p.2) .empty).rows = (t.reread f).rows :=
    rows_foldl_insert (t := .empty) (t.reread f).ascending
  rw [hrows, List.foldl_map] at hfold
  rw [hrows]
  exact hfold

/-- A key and a text, as they stand in the text of a store. -/
def Store.rowDatum (p : String × String) : Datum := .list [.ofText p.1, .ofText p.2]

namespace Store

variable {s s' : Store}

theorem tableDatum_eq {α : Type} (f : RowFormat α) (t : Table (Row α)) :
    tableDatum f.write t = .list ((t.texts f).map rowDatum) := by
  rw [Table.texts, List.map_map]
  rfl

theorem fits_rowText : Fits rowDatum rowText fun _ => False where
  reads {style p d} h := by
    have hread : listOf string style d = some [p.1, p.2] := fits_string.listOf.reads h
    rw [rowText, hread]
    rfl
  rejects h := h.elim

/-- Writing the texts of a table into one that is empty opens the table again. -/
theorem foldl_texts {α : Type} (f : RowFormat α) (write : Store → String → String → Store)
    (set : Table (Row α) → Store)
    (hwrite : ∀ t key text, write (set t) key text = set (t.insert key (.ofText f.read text))) (t : Table (Row α)) :
    (t.texts f).foldl (fun s p => write s p.1 p.2) (set .empty) = set (t.reread f) := by
  have hfold : ∀ (rows : List (String × String)) (t : Table (Row α)), rows.foldl (fun s p => write s p.1 p.2) (set t) =
      set (rows.foldl (fun t p => t.insert p.1 (.ofText f.read p.2)) t) := by
    intro rows
    induction rows with
    | nil => intro t; rfl
    | cons p rows ih => intro t; rw [List.foldl_cons, hwrite, ih, List.foldl_cons]
  rw [hfold, Table.foldl_texts]

theorem ofDatum?_toDatum (s : Store) : ofDatum? style s.toDatum = some s.reread := by
  have hrow := fits_rowText.listOf
  obtain ⟨fs, hf, he⟩ := (Extended.same s.toDatum).fields? (show _ = fieldNames.map some from rfl) (by decide) style []
  rw [without_nil] at hf
  rw [ofDatum?, hf]
  simp only [Option.bind_eq_bind, Option.bind_some]
  rw [he.required "tasks" hrow (congrArg some (tableDatum_eq Task.format s.tasks)) List.not_mem_nil,
    he.required "workspaces" hrow (congrArg some (tableDatum_eq Workspace.format s.workspaces)) List.not_mem_nil,
    he.required "pools" hrow (congrArg some (tableDatum_eq AgentPool.format s.pools)) List.not_mem_nil,
    he.required "last_task_id" fits_word rfl List.not_mem_nil]
  have htasks := foldl_texts Task.format writeTaskText (fun t => { tasks := t, lastTaskId := s.lastTaskId })
    (fun _ _ _ => rfl) s.tasks
  have hworkspaces := foldl_texts Workspace.format writeWorkspaceText
    (fun t => { tasks := s.tasks.reread Task.format, workspaces := t, lastTaskId := s.lastTaskId }) (fun _ _ _ => rfl)
    s.workspaces
  have hpools := foldl_texts AgentPool.format writePoolText (fun t =>
    ⟨s.tasks.reread Task.format, s.workspaces.reread Workspace.format, t, s.lastTaskId⟩) (fun _ _ _ => rfl) s.pools
  -- the three tables are filled one after the other, each over what the ones before it left
  simp only [Option.bind_some]
  rw [htasks, hworkspaces]
  exact congrArg some hpools

theorem plain (s : Store) : Plain s.toDatum := by
  have htable : ∀ {α : Type} (f : RowFormat α) (t : Table (Row α)), Plain (tableDatum f.write t) := by
    intro α f t
    rw [tableDatum_eq]
    refine .listMap (fun p => .list ?_) _
    simp only [List.forall_mem_cons]
    exact ⟨.text _, .text _, nofun⟩
  refine .ofFields ?_
  simp only [List.forall_mem_cons]
  exact ⟨.ofWord _, htable Task.format _, htable Workspace.format _, htable AgentPool.format _, nofun⟩

/-- A store opens again from its own text, row by row. -/
theorem ofText?_toText (s : Store) : ofText? s.toText = .ok s.reread := by
  rw [ofText?, toText, decode?_compress s.plain, ofDatum?_toDatum]

end Store

/-! ## Runs of writes -/

/-- Where a row is. -/
inductive Place where
  | task (key : String)
  | workspace (id : String)
  | pool (id : String)
  deriving DecidableEq

namespace Store

/-- Everything that writes a row or removes one, and its place. -/
inductive Write (s : Store) : Place → Store → Prop
  | putTask (t : Task) : Write s (.task t.key) (s.putTask t)
  | createTask {t' : Task} {s' : Store} (t : Task) : s.createTask t = some (t', s') → Write s (.task (taskKey t'.id)) s'
  | updateTask {t' : Task} {s' : Store} (id : UInt64) (change : Task → Except StoreError Task) :
      s.updateTask id change = .ok (t', s') → Write s (.task (taskKey id)) s'
  | claimTask {answer : Claim} {s' : Store} (id : UInt64) (r : ClaimRequest) (edit : Task → Task) :
      s.claimTask id r edit = .ok (answer, s') → Write s (.task (taskKey id)) s'
  | taskText (key text : String) : Write s (.task key) (s.writeTaskText key text)
  | putWorkspace (w : Workspace) : Write s (.workspace w.id) (s.putWorkspace w)
  | deleteWorkspace (id : String) : Write s (.workspace id) (s.deleteWorkspace id).2
  | workspaceText (id text : String) : Write s (.workspace id) (s.writeWorkspaceText id text)
  | putPool (p : AgentPool) : Write s (.pool p.id) (s.putPool p)
  | deletePool (id : String) : Write s (.pool id) (s.deletePool id).2
  | poolText (id text : String) : Write s (.pool id) (s.writePoolText id text)

/-- Writes at these places, the last one first; in between the store may be closed and opened. -/
inductive Writes (s : Store) : List Place → Store → Prop
  | start : Writes s [] s
  | write {places : List Place} {p : Place} {s₁ s₂ : Store} : Writes s places s₁ → Write s₁ p s₂ →
      Writes s (p :: places) s₂
  | reopen {places : List Place} {s₁ s₂ : Store} : Writes s places s₁ → ofText? s₁.toText = .ok s₂ → Writes s places s₂

variable {s s' : Store} {p q : Place} {places : List Place}

/-- A record at this place is still there. -/
def Keeps (s s' : Store) : Place → Prop
  | .task key => ∀ t, s.tasks.get? key = some (.record t) → s'.tasks.get? key = some (.record t)
  | .workspace id => ∀ w, s.workspaces.get? id = some (.record w) → s'.workspaces.get? id = some (.record w)
  | .pool id => ∀ x, s.pools.get? id = some (.record x) → s'.pools.get? id = some (.record x)

theorem Keeps.refl (s : Store) (p : Place) : Keeps s s p := by cases p <;> exact fun _ h => h

theorem Keeps.trans {s₁ s₂ s₃ : Store} (h : Keeps s₁ s₂ p) (h' : Keeps s₂ s₃ p) : Keeps s₁ s₃ p := by
  cases p <;> exact fun _ hr => h' _ (h _ hr)

/-- Every table finds at the place what it found there. -/
theorem keeps_of_same (htasks : ∀ k, p = .task k → s'.tasks.get? k = s.tasks.get? k)
    (hworkspaces : ∀ k, p = .workspace k → s'.workspaces.get? k = s.workspaces.get? k)
    (hpools : ∀ k, p = .pool k → s'.pools.get? k = s.pools.get? k) : Keeps s s' p := by
  cases p with
  | task k => exact fun t h => (htasks k rfl).trans h
  | workspace k => exact fun w h => (hworkspaces k rfl).trans h
  | pool k => exact fun x h => (hpools k rfl).trans h

theorem keeps_insertTask {key : String} (row : Row Task) (last : UInt64) (hp : p ≠ .task key) :
    Keeps s { s with tasks := s.tasks.insert key row, lastTaskId := last } p :=
  keeps_of_same (fun _ e => Table.get?_insert_of_ne _ _ fun hk => hp (hk ▸ e)) (fun _ _ => rfl) fun _ _ => rfl

theorem keeps_insertWorkspace {key : String} (row : Row Workspace) (hp : p ≠ .workspace key) :
    Keeps s { s with workspaces := s.workspaces.insert key row } p :=
  keeps_of_same (fun _ _ => rfl) (fun _ e => Table.get?_insert_of_ne _ _ fun hk => hp (hk ▸ e)) fun _ _ => rfl

theorem keeps_insertPool {key : String} (row : Row AgentPool) (hp : p ≠ .pool key) :
    Keeps s { s with pools := s.pools.insert key row } p :=
  keeps_of_same (fun _ _ => rfl) (fun _ _ => rfl) fun _ e => Table.get?_insert_of_ne _ _ fun hk => hp (hk ▸ e)

/-- A write leaves the records at every other place alone. -/
theorem Write.keeps (h : Write s q s') (hp : p ≠ q) : Keeps s s' p := by
  cases h with
  | putTask t => exact keeps_insertTask _ s.lastTaskId hp
  | createTask t h =>
    obtain ⟨-, -, rfl⟩ := createTask_cases h
    exact keeps_insertTask _ _ hp
  | updateTask id change h =>
    obtain ⟨t, -, -, rfl⟩ := updateTask_ok_iff.1 h
    exact keeps_insertTask _ s.lastTaskId hp
  | claimTask id r edit h =>
    rcases claimTask_cases h with ⟨-, rfl⟩ | ⟨t, -, -, -, -, rfl⟩
    · exact .refl _ p
    · exact keeps_insertTask _ s.lastTaskId hp
  | taskText key text => exact keeps_insertTask _ s.lastTaskId hp
  | putWorkspace w => exact keeps_insertWorkspace _ hp
  | deleteWorkspace id =>
    refine keeps_of_same (fun _ _ => rfl) (fun k e => ?_) fun _ _ => rfl
    exact (Table.get?_erase _ _ _).trans (if_neg fun hk : id = k => hp (hk ▸ e))
  | workspaceText id text => exact keeps_insertWorkspace _ hp
  | putPool x => exact keeps_insertPool _ hp
  | deletePool id =>
    refine keeps_of_same (fun _ _ => rfl) (fun _ _ => rfl) fun k e => ?_
    exact (Table.get?_erase _ _ _).trans (if_neg fun hk : id = k => hp (hk ▸ e))
  | poolText id text => exact keeps_insertPool _ hp

theorem get?_reread {α : Type} {f : RowFormat α} (hf : f.Faithful) {t : Table (Row α)} {k : String} {a : α}
    (h : t.get? k = some (.record a)) : (t.reread f).get? k = some (.record a) := by
  rw [Table.reread, Table.get?_mapValues, h, Option.map_some, Row.reread, hf.written]

/-- Closing the store and opening it again keeps every record. -/
theorem keeps_reread (s : Store) (p : Place) : Keeps s s.reread p := by
  cases p with
  | task k => exact fun _ h => get?_reread Task.faithful h
  | workspace k => exact fun _ h => get?_reread Workspace.faithful h
  | pool k => exact fun _ h => get?_reread AgentPool.faithful h

theorem Writes.keeps (h : Writes s places s') (hp : p ∉ places) : Keeps s s' p := by
  induction h with
  | start => exact .refl s p
  | write _ hw ih =>
    -- the last write comes first in the list of places
    obtain ⟨hne, hplaces⟩ := List.ne_and_not_mem_of_not_mem_cons hp
    exact (ih hplaces).trans (hw.keeps hne)
  | reopen _ hopen ih =>
    rw [ofText?_toText] at hopen
    cases hopen
    exact (ih hp).trans (keeps_reread _ p)

/-- What is found under an ID is the record last put there. -/
structure KeepsPuts (s : Store) : Prop where
  task : ∀ {t places s'}, Writes (s.putTask t) places s' → .task (taskKey t.id) ∉ places → s'.task? t.id = .ok (some t)
  created : ∀ {t t' s₁ places s'}, s.createTask t = some (t', s₁) → Writes s₁ places s' → .task (taskKey t'.id) ∉ places →
    s'.task? t'.id = .ok (some t')
  updated : ∀ {id change t' s₁ places s'}, s.updateTask id change = .ok (t', s₁) → Writes s₁ places s' →
    .task (taskKey id) ∉ places → s'.task? id = .ok (some t')
  workspace : ∀ {w places s'}, Writes (s.putWorkspace w) places s' → .workspace w.id ∉ places →
    s'.workspace? w.id = .ok (some w)
  pool : ∀ {x places s'}, Writes (s.putPool x) places s' → .pool x.id ∉ places → s'.pool? x.id = .ok (some x)

theorem record?_of_get? {α : Type} {t : Table (Row α)} {k : String} {a : α} (h : t.get? k = some (.record a)) :
    t.record? k = .ok (some a) := by
  rw [Table.record?, h]
  rfl

theorem keepsPuts (s : Store) : s.KeepsPuts where
  task h hp := record?_of_get? (h.keeps hp _ (Table.get?_insert_self _ _ _))
  created hc h hp := by
    obtain ⟨-, -, rfl⟩ := createTask_cases hc
    exact record?_of_get? (h.keeps hp _ (Table.get?_insert_self _ _ _))
  updated hu h hp := by
    obtain ⟨t, -, -, rfl⟩ := updateTask_ok_iff.1 hu
    exact record?_of_get? (h.keeps hp _ (Table.get?_insert_self _ _ _))
  workspace h hp := record?_of_get? (h.keeps hp _ (Table.get?_insert_self _ _ _))
  pool h hp := record?_of_get? (h.keeps hp _ (Table.get?_insert_self _ _ _))

end Store

/-- Rows of each kind survive their encoding, rows that were written with fewer fields or more
    are read as what they say, and faulty rows are refused; so a look-up finds the record last put
    under its ID, whatever was written under other IDs in between, and a store always opens again. -/
theorem rows_survive_storage :
    Task.format.Faithful ∧ Workspace.format.Faithful ∧ AgentPool.format.Faithful ∧
      ∀ s : Store, s.KeepsPuts ∧ ∃ s', Store.ofText? s.toText = .ok s' :=
  ⟨Task.faithful, Workspace.faithful, AgentPool.faithful, fun s => ⟨s.keepsPuts, s.reread, s.ofText?_toText⟩⟩

/-- A task that waits for an operator while it is leased until the end of time. -/
def leasedApply : Task :=
  { id := 18446744073709551615, workspace := "ws-1", kind := .planAndApply, status := .applyPending, createdAt := 5,
    stage := some .applyPending, lease := some ⟨"a", 0, 18446744073709551615⟩ }

/-- The fields that a program without stages and without retries left out. -/
def laterFields : List String :=
  ["stage", "agent_id", "retry_count", "apply_confirmed_by", "apply_confirmed_at", "origin", "error_message",
    "started_at", "completed_at"]

/-- Its row with a key that nobody knows. -/
def ownedRow : Datum :=
  match leasedApply.toDatum with
  | .record fs => .record ((some "owner", .null) :: fs)
  | d => d

/-- A row of a kind that there is not. -/
def unknownKind : Datum := .ofFields [("kind", .ofText "apply")]

theorem plain_ownedRow : Plain ownedRow := by
  have h := leasedApply.plain
  cases h with
  | record hkeys h => exact .record (List.forall_mem_cons.2 ⟨rfl, hkeys⟩) (List.forall_mem_cons.2 ⟨.null, h⟩)

theorem rows_survive_storage_leased_apply :
    compress (ownedRow.without laterFields) =
        "\x7b\"owner\":null,\"id\":18446744073709551615,\"workspace_id\":\"ws-1\",\"kind\":\"plan_and_apply\"," ++
        "\"status\":\"apply_pending\",\"created_at\":5,\"lease\":\x7b\"holder\":\"a\",\"locked_at\":0," ++
        "\"expires_at\":18446744073709551615\x7d\x7d" ∧
      decode? Task.ofDatum? (compress (ownedRow.without laterFields)) = some { leasedApply with stage := none } ∧
      decode? Task.ofDatum? (compress unknownKind) = none ∧
      ∃ s', Store.ofText? ((({} : Store).putTask leasedApply).putTask { leasedApply with id := 1 }).toText = .ok s' ∧
        s'.task? leasedApply.id = .ok (some leasedApply) := by
  obtain ⟨htask, -, -, hstore⟩ := rows_survive_storage
  refine ⟨by decide +kernel, ?_, ?_, ?_⟩
  · have hextended : Extended leasedApply.toDatum ownedRow := .record (.added "owner" .null (by decide) (.refl _ _))
    have hlater : Datum.Optional Task.rules laterFields := by
      simp [Datum.Optional, Task.rules, laterFields]
    exact htask.shortened hextended hlater (parse?_compress plain_ownedRow.without)
  · have hkind : NotCase TaskKind (.ofText "apply") := by
      intro k
      cases k <;> simp [Datum.ofCase, Datum.ofText, Named.name, TaskKind.name]
    have hplain : Plain unknownKind := .ofFields (List.forall_mem_cons.2 ⟨.text _, List.forall_mem_nil _⟩)
    refine htask.faulty (.value (r := ⟨"kind", true, NotCase TaskKind⟩) ?_ List.mem_cons_self hkind)
      (parse?_compress hplain)
    simp [Task.format, Task.rules]
  · obtain ⟨hputs, -⟩ := hstore {}
    obtain ⟨s', hs'⟩ := (hstore ((({} : Store).putTask leasedApply).putTask { leasedApply with id := 1 })).2
    exact ⟨s', hs', hputs.task (.reopen (.write .start (.putTask _)) hs') (by decide)⟩

end TaskFleet
