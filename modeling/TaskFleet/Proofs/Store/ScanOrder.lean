/-
  TaskFleet.Proofs.Store.ScanOrder — every scan meets each task once, by ascending ID.

  The table keeps its rows in the order of their keys, byte by byte, and a key is its task's ID in
  twenty digits. So a scan comes by ascending ID as long as every row stands under the key of its
  own ID, and it does unless somebody changes an ID while changing a task.
  - `Built`, `Built.keyed`: the stores that come about without that.
  - `Scan`: one run of a claim's search for an earlier exclusive task, with the tasks it reads
    before it stops; `exists_scan`: what the search answers is what such a run comes back with.
  - `Scan.seen_eq`: although the run stops early, it has read all tasks below the claimed one, or
    all up to the one that it found.
  - `tasks_are_scanned_in_order`: keys, listings, searches and claims together.
-/

import TaskFleet.Proofs.Store.Selection
import TaskFleet.Proofs.Text.ByteOrder

namespace TaskFleet.Store

variable {s s' : Store} {t : Task} {ts seen : List Task} {workspace : String} {id : UInt64} {found : Option UInt64}
  {rows : List (String × Row Task)}

/-! ## Stores whose tasks keep their IDs -/

/-- A store after any history in which no change of a task touches its ID. -/
inductive Built : Store → Prop
  | empty : Built {}
  | create {s s' : Store} {t' : Task} (t : Task) : Built s → s.createTask t = some (t', s') → Built s'
  | put {s : Store} (t : Task) : Built s → Built (s.putTask t)
  | update {s s' : Store} {id : UInt64} {change : Task → Except StoreError Task} {t' : Task} : Built s →
      (∀ t t', change t = .ok t' → t'.id = t.id) → s.updateTask id change = .ok (t', s') → Built s'
  | claim {s s' : Store} {id : UInt64} {r : ClaimRequest} {edit : Task → Task} {answer : Claim} : Built s →
      (∀ t, (edit t).id = t.id) → s.claimTask id r edit = .ok (answer, s') → Built s'
  /-- Workspaces and pools may change in any way. -/
  | aside {s s' : Store} : Built s → s'.tasks = s.tasks → Built s'

/-- What each step of such a history keeps: every row stands under the key of its own ID. -/
theorem Built.keyed (h : s.Built) : s.Keyed := by
  induction h with
  | empty => exact keyed_empty
  | create t _ hcreate ih =>
    obtain ⟨-, -, rfl⟩ := createTask_cases hcreate
    exact (ih.congr rfl).setTask _
  | put t _ ih => exact ih.setTask t
  | update _ hid hupdate ih =>
    obtain ⟨t, -, -, hchange, hs'⟩ := ih.of_updateTask hupdate
    rw [hs' (hid _ _ hchange)]
    exact ih.setTask _
  | @claim s s' id r edit answer _ hid hclaim ih =>
    rcases ih.claimTask_cases hclaim with ⟨-, rfl⟩ | ⟨t, -, rfl, -, -, rfl⟩
    · exact ih
    · have hsame : (taken t r edit).id = t.id := hid _
      rw [insert_eq_setTask hsame]
      exact ih.setTask _
  | aside _ htasks ih => exact ih.congr htasks

/-! ## What a claim reads -/

/-- One run of the search for an exclusive task of the workspace below an ID: the tasks it reads
    below that ID, and the ID it comes back with. -/
inductive Scan (workspace : String) (id : UInt64) : List (String × Row Task) → List Task → Option UInt64 → Prop
  | finished : Scan workspace id [] [] none
  /-- The first task that is not below the ID ends the run. -/
  | stopped {k : String} {t : Task} {rest : List (String × Row Task)} : id ≤ t.id →
      Scan workspace id ((k, .record t) :: rest) [] none
  | blocked {k : String} {t : Task} {rest : List (String × Row Task)} : t.id < id → ActiveExclusive workspace t →
      Scan workspace id ((k, .record t) :: rest) [t] (some t.id)
  | passed {k : String} {t : Task} {rest : List (String × Row Task)} {seen : List Task} {found : Option UInt64} :
      t.id < id → ¬ActiveExclusive workspace t → Scan workspace id rest seen found →
      Scan workspace id ((k, .record t) :: rest) (t :: seen) found

/-- The search is one of these runs. -/
theorem exists_scan (h : earlierExclusive workspace id rows = .ok found) : ∃ seen, Scan workspace id rows seen found := by
  induction rows with
  | nil =>
    cases h
    exact ⟨[], .finished⟩
  | cons p rest ih =>
    obtain ⟨k, row⟩ := p
    cases row with
    | unreadable text => cases h
    | record t =>
      simp only [earlierExclusive, Row.read, bind, Except.bind, pure, Except.pure] at h
      split at h
      · next hle =>
        cases h
        exact ⟨[], .stopped hle⟩
      · next hlt =>
        have hlt : t.id < id := UInt64.not_le.1 hlt
        split at h
        · next hactive =>
          cases h
          exact ⟨[t], .blocked hlt (by simpa [ActiveExclusive] using hactive)⟩
        · next hactive =>
          obtain ⟨seen, hseen⟩ := ih h
          exact ⟨t :: seen, .passed hlt (by simpa [ActiveExclusive] using hactive) hseen⟩

/-- What a run finds is the last thing it reads. -/
theorem Scan.mem_of_found {other : UInt64} (h : Scan workspace id rows seen found) (hfound : found = some other) :
    ∃ k t, (k, Row.record t) ∈ rows ∧ t.id = other := by
  induction h with
  | finished => cases hfound
  | stopped => cases hfound
  | blocked =>
    cases hfound
    exact ⟨_, _, List.mem_cons_self, rfl⟩
  | passed _ _ _ ih =>
    obtain ⟨k, t, hmem, hid⟩ := ih hfound
    exact ⟨k, t, List.mem_cons_of_mem _ hmem, hid⟩

/-- Whether a run with this answer reads a task. -/
def reads (id : UInt64) : Option UInt64 → Task → Bool
  | none, t => t.id < id
  | some other, t => t.id ≤ other

/-- Where the tasks come by ascending ID, a run that stops early has not missed any. -/
theorem Scan.seen_eq {key : Task → String} (hasc : ts.Pairwise (·.id < ·.id))
    (h : Scan workspace id (ts.map fun t => (key t, Row.record t)) seen found) : seen = ts.filter (reads id found) := by
  induction ts generalizing seen with
  | nil =>
    cases h
    rfl
  | cons t ts ih =>
    obtain ⟨hlater, hrest⟩ := List.pairwise_cons.1 hasc
    cases h with
    | stopped hle =>
      refine (List.filter_eq_nil_iff.2 fun u hu hread => ?_).symm
      have hlt : u.id < id := of_decide_eq_true hread
      rcases List.mem_cons.1 hu with rfl | hu
      · exact UInt64.not_le.2 hlt hle
      · exact UInt64.not_le.2 hlt (UInt64.le_of_lt (UInt64.lt_of_le_of_lt hle (hlater u hu)))
    | blocked hlt hactive =>
      have hnone : ts.filter (reads id (some t.id)) = [] := List.filter_eq_nil_iff.2 fun u hu hread =>
        UInt64.not_le.2 (hlater u hu) (of_decide_eq_true hread)
      have hread : reads id (some t.id) t = true := decide_eq_true (UInt64.le_refl _)
      rw [List.filter_cons_of_pos hread, hnone]
    | passed hlt hactive hseen =>
      have hread : reads id found t = true := by
        cases hfound : found with
        | none => exact decide_eq_true hlt
        | some other =>
          -- what the run finds later has a higher ID than the task it passes here
          obtain ⟨_, u, hmem, rfl⟩ := hseen.mem_of_found hfound
          obtain ⟨u', hu', heq⟩ := List.mem_map.1 hmem
          cases heq
          exact decide_eq_true (UInt64.le_of_lt (hlater u hu'))
      rw [List.filter_cons_of_pos hread, ← ih hrest hseen]

/-! ## All scans of a store -/

/-- Every scan of the store meets each task once, by ascending ID. -/
structure InOrder (s : Store) : Prop where
  keyed : s.Keyed
  listed : ∃ ts, s.listTasks = .ok ts ∧ s.Lists (fun _ => True) ts
  /-- A scan that keeps some of the tasks. -/
  kept : ∀ keep, ∃ ts, s.tasksWhere keep = .ok ts ∧ s.Lists (keep · = true) ts
  /-- A scan that stops at a task has stopped at the first one. -/
  searched : ∀ keep, ∃ found, firstRecord keep s.tasks.rows = .ok found ∧ s.Finds (keep · = true) found
  /-- A claim that stops at the first task not below the claimed one has read every earlier task, and one that stops
      at an exclusive task has read all tasks up to that one, which is the first in its way. -/
  claimed : ∀ workspace id, ∃ found seen, earlierExclusive workspace id s.tasks.rows = .ok (found.map Task.id) ∧
    Scan workspace id s.tasks.rows seen (found.map Task.id) ∧
    s.Finds (fun t => ActiveExclusive workspace t ∧ t.id < id) found ∧
    match found with
    | none => s.Lists (·.id < id) seen
    | some other => s.Lists (·.id ≤ other.id) seen

theorem Keyed.inOrder (hs : s.Keyed) : s.InOrder := by
  obtain ⟨all, hall, hrows, hasc, hmem⟩ := hs.tasks_ascending
  have hlists : s.Lists (fun _ => True) all := ⟨hasc, fun t => by rw [hmem, and_true]⟩
  refine ⟨hs, ⟨all, hall, hlists⟩, hs.tasksWhere_ok, fun keep => ?_, fun workspace id => ?_⟩
  · rw [hrows, firstRecord_tasks]
    exact ⟨_, rfl, finds_find? hasc hmem fun _ => Iff.rfl⟩
  · obtain ⟨found, hfound, hfinds⟩ := hs.earlierExclusive_ok workspace id
    obtain ⟨seen, hseen⟩ := exists_scan hfound
    have hread : s.Lists (fun t => True ∧ reads id (found.map Task.id) t = true) seen := by
      rw [hrows] at hseen
      rw [hseen.seen_eq hasc]
      exact hlists.filter _
    refine ⟨found, seen, hfound, hseen, hfinds, ?_⟩
    cases found with
    | none => exact hread.congr fun t _ => by simp [reads]
    | some other => exact hread.congr fun t _ => by simp [reads]

/-- The keys of two tasks are ordered byte by byte as their IDs are, and different IDs have different keys; so after
    any history in which no change of a task touches its ID, every scan meets each task once, by ascending ID, and
    the search of a claim, which stops at the first task not below the claimed one, has read every earlier one. -/
theorem tasks_are_scanned_in_order :
    (∀ a b : UInt64, (Text.bytes (taskKey a) < Text.bytes (taskKey b) ↔ a < b) ∧ (taskKey a = taskKey b ↔ a = b)) ∧
      ∀ s : Store, s.Built → s.InOrder :=
  ⟨fun _ _ => ⟨Text.lt_iff_bytes.symm.trans taskKey_lt_taskKey, taskKey_inj⟩, fun _ h => h.keyed.inOrder⟩

/-- The highest ID there is, put first, and two tasks that are earlier. -/
def lastIdFirst : Store :=
  ({} : Store)
    |>.putTask { id := 18446744073709551615, workspace := "ws-1", kind := .planAndApply, status := .pending, createdAt := 0 }
    |>.putTask { id := 10, workspace := "ws-1", kind := .planAndApply, status := .pending, createdAt := 0 }
    |>.putTask { id := 9, workspace := "ws-1", kind := .plan, status := .running, createdAt := 0 }

theorem tasks_are_scanned_in_order_last_id_first :
    Text.bytes (taskKey 9) < Text.bytes (taskKey 10) ∧ lastIdFirst.Built ∧ lastIdFirst.InOrder ∧
      (lastIdFirst.listTasks.toOption.map fun ts => ts.map (·.id)) = some [9, 10, 18446744073709551615] := by
  obtain ⟨hkeys, hscans⟩ := tasks_are_scanned_in_order
  have hbuilt : lastIdFirst.Built := .put _ (.put _ (.put _ .empty))
  exact ⟨(hkeys 9 10).1.2 (by decide), hbuilt, hscans _ hbuilt, by rfl⟩

end TaskFleet.Store
