/-
  TaskFleet.Proofs.Store.PoolWorkload — what the numbers of a pool's workload stand for.

  One pass over the tasks counts everything, with the workspaces at hand in which it has met an
  active task. As it goes by ascending ID, these are the ones in which an earlier task is active.
  - `PoolWorkload.countAll_eq_ofTasks`: the pass comes to what one query for each number would.
  - `Summarizes`: what the numbers say of the rows; `summarizes_ofTasks`: those of the queries do.
  - `poolWorkload_of_readable`, `poolWorkload_of_damaged`: the workload of a pool, whichever rows can
    be read.
  - `Summarizes.unblocked_pos`: where work waits while none is under way, some of it could start.
-/

import Mathlib.Data.Set.Card
import TaskFleet.Proofs.Store.Selection

namespace TaskFleet

namespace PoolWorkload

variable {ts : List Task} {t : Task}

/-! ## One query for each number -/

/-- The tasks that are active while no earlier one of their workspace is. -/
def heads (ts : List Task) : List Task :=
  ts.filter fun t => t.status.isActive && ts.all fun u => !(u.status.isActive && u.workspace == t.workspace && u.id < t.id)

/-- The workload of these tasks, each number by a query of its own. -/
def ofTasks (ts : List Task) : PoolWorkload where
  running := ts.countP (·.status = .running)
  applyPending := ts.countP (·.status = .applyPending)
  pending := ts.countP (·.status = .pending)
  unblockedPending := (heads ts).countP (·.status = .pending)
  unblockedPendingApply := (heads ts).countP fun t => t.status = .pending ∧ t.kind = .planAndApply
  applyPendingTasks := (ts.filter (·.status = .applyPending)).map (·.id)
  pendingWorkspaces := firstOccurrences ((ts.filter (·.status = .pending)).map (·.workspace))

/-- Whether one of the tasks is active in the workspace. -/
def isBusy (ts : List Task) (workspace : String) : Bool := ts.any fun u => u.status.isActive && u.workspace == workspace

theorem mem_heads : t ∈ heads ts ↔ t ∈ ts ∧ t.status.isActive = true ∧
    ∀ u ∈ ts, u.workspace = t.workspace → u.status.isActive = true → t.id ≤ u.id := by
  simp only [heads, List.mem_filter, Bool.and_eq_true, List.all_eq_true, Bool.not_eq_true', Bool.and_eq_false_iff,
    beq_eq_false_iff_ne, decide_eq_false_iff_not, UInt64.not_lt]
  grind

/-- A task behind all others is a head exactly if none of them is active in its workspace. -/
theorem heads_concat (hlast : ∀ u ∈ ts, u.id < t.id) :
    heads (ts ++ [t]) = heads ts ++ if t.status.isActive && !isBusy ts t.workspace then [t] else [] := by
  unfold heads
  rw [List.filter_append]
  congr 1
  · refine List.filter_congr fun u hu => ?_
    have hbehind : ¬t.id < u.id := UInt64.not_lt.2 (UInt64.le_of_lt (hlast u hu))
    simp [hbehind]
  · have hahead : (ts ++ [t]).all (fun u => !(u.status.isActive && u.workspace == t.workspace && u.id < t.id)) =
        !isBusy ts t.workspace := by
      rw [Bool.eq_iff_iff]
      simp only [isBusy, List.all_eq_true, Bool.not_eq_true', List.any_eq_false]
      grind
    rw [List.filter_singleton, hahead, Bool.cond_eq_ite]

/-- The workspaces that the pass met an active task of, the last one first. -/
def busyIn (ts : List Task) : List String := ((ts.filter (·.status.isActive)).map (·.workspace)).reverse

theorem contains_busyIn (ts : List Task) (workspace : String) : (busyIn ts).contains workspace = isBusy ts workspace := by
  rw [Bool.eq_iff_iff, List.contains_iff_mem]
  simp [busyIn, isBusy, and_assoc]

/-- The pass goes on with what it met so far. -/
theorem countAll_concat (work : PoolWorkload) (busy : List String) (ts : List Task) (t : Task) :
    work.countAll busy (ts ++ [t]) = (work.countAll busy ts).count (busyIn ts ++ busy) t := by
  induction ts generalizing work busy with
  | nil => rfl
  | cons u ts ih =>
    rw [List.cons_append, countAll, ih, countAll]
    cases hactive : u.status.isActive <;> simp [busyIn, hactive]

/-- By ascending ID, the pass comes to the same as the queries. -/
theorem countAll_eq_ofTasks (hasc : ts.Pairwise (·.id < ·.id)) : countAll {} [] ts = ofTasks ts := by
  induction ts using List.reverseRecOn with
  | nil => rfl
  | append_singleton ts t ih =>
    obtain ⟨hbefore, -, hlast⟩ := List.pairwise_append.1 hasc
    have hheads := heads_concat fun u hu => hlast u hu t (List.mem_singleton_self t)
    rw [countAll_concat, ih hbefore, List.append_nil]
    unfold count
    rw [contains_busyIn]
    cases hst : t.status with
    | pending =>
      cases hbusy : isBusy ts t.workspace <;> cases hkind : t.kind <;>
        simp [ofTasks, hheads, hst, hbusy, hkind, TaskStatus.isActive, TaskStatus.isTerminal, Store.firstOccurrences_snoc]
    | _ => simp [ofTasks, hheads, hst, TaskStatus.isActive, TaskStatus.isTerminal]

end PoolWorkload

namespace Store

variable {s : Store} {pool workspace : String} {work : PoolWorkload} {t : Task} {ts : List Task} {P : Task → Prop}
  {p : Task → Bool}

/-! ## What the numbers are -/

/-- The workspace's tasks run on the pool. -/
def OnPool (s : Store) (pool workspace : String) : Prop :=
  ∃ k ws, s.workspaces.get? k = some (.record ws) ∧ ws.id = workspace ∧ ws.mode = .kubernetes ∧ ws.pool = some pool

/-- The tasks of the pool's workspaces that have a property. -/
def routed (s : Store) (pool : String) (P : Task → Prop) : Set Task :=
  {t | s.Holds t ∧ s.OnPool pool t.workspace ∧ P t}

/-- The task has the lowest ID of those that are active in the workspace. -/
def LeadsWorkspace (s : Store) (workspace : String) : Task → Prop :=
  s.First fun u => u.workspace = workspace ∧ u.status.isActive = true

/-- The workspaces on the pool in which the task with the lowest ID of the active ones has a property. -/
def led (s : Store) (pool : String) (P : Task → Prop) : Set String :=
  {name | s.OnPool pool name ∧ ∃ t, s.LeadsWorkspace name t ∧ P t}

/-- The first pending task of one workspace has a lower ID than that of the other. -/
def WaitsLonger (s : Store) (workspace other : String) : Prop :=
  ∃ t u, s.First (fun v => v.workspace = workspace ∧ v.status = .pending) t ∧
    s.First (fun v => v.workspace = other ∧ v.status = .pending) u ∧ t.id < u.id

/-- What a pool's workload says of the rows. -/
structure Summarizes (s : Store) (pool : String) (work : PoolWorkload) : Prop where
  running : (s.routed pool (·.status = .running)).encard = work.running
  applyPending : (s.routed pool (·.status = .applyPending)).encard = work.applyPending
  pending : (s.routed pool (·.status = .pending)).encard = work.pending
  unblocked : (s.led pool (·.status = .pending)).encard = work.unblockedPending
  unblockedApply : (s.led pool fun t => t.status = .pending ∧ t.kind = .planAndApply).encard = work.unblockedPendingApply
  applies : ∀ id, id ∈ work.applyPendingTasks ↔ ∃ t ∈ s.routed pool (·.status = .applyPending), t.id = id
  appliesAscending : work.applyPendingTasks.Pairwise (· < ·)
  waiting : ∀ name, name ∈ work.pendingWorkspaces ↔ ∃ t ∈ s.routed pool (·.status = .pending), t.workspace = name
  waitingOnce : work.pendingWorkspaces.Nodup
  waitingOrder : work.pendingWorkspaces.Pairwise s.WaitsLonger

/-! ## The queries answer that -/

theorem encard_eq_length {α : Type} {l : List α} {S : Set α} (hnodup : l.Nodup) (hmem : ∀ x, x ∈ l ↔ x ∈ S) :
    S.encard = l.length := by
  classical
  have hS : S = (l.toFinset : Set α) := by
    ext x
    simp [hmem]
  rw [hS, Set.encard_coe_eq_coe_finsetCard, List.toFinset_card_of_nodup hnodup]

theorem mem_filter_routed (h : s.Lists (s.OnPool pool ·.workspace) ts) (hp : ∀ t, p t = true ↔ P t) (t : Task) :
    t ∈ ts.filter p ↔ t ∈ s.routed pool P := by
  rw [(h.filter p).mem, hp]
  rfl

theorem encard_routed (h : s.Lists (s.OnPool pool ·.workspace) ts) (hp : ∀ t, p t = true ↔ P t) :
    (s.routed pool P).encard = ts.countP p := by
  rw [List.countP_eq_length_filter]
  exact encard_eq_length (h.filter p).nodup.of_map (mem_filter_routed h hp)

theorem mem_heads_iff (h : s.Lists (s.OnPool pool ·.workspace) ts) :
    t ∈ PoolWorkload.heads ts ↔ s.OnPool pool t.workspace ∧ s.LeadsWorkspace t.workspace t := by
  rw [PoolWorkload.mem_heads, h.mem]
  constructor
  · rintro ⟨⟨hheld, hpool⟩, hactive, hleast⟩
    refine ⟨hpool, hheld, ⟨rfl, hactive⟩, fun u hu hws => hleast u ?_ hws.1 hws.2⟩
    exact (h.mem u).2 ⟨hu, hws.1 ▸ hpool⟩
  · rintro ⟨hpool, hheld, ⟨-, hactive⟩, hleast⟩
    exact ⟨⟨hheld, hpool⟩, hactive, fun u hu hws hact => hleast u ((h.mem u).1 hu).1 ⟨hws, hact⟩⟩

theorem encard_led (h : s.Lists (s.OnPool pool ·.workspace) ts) (hp : ∀ t, p t = true ↔ P t) :
    (s.led pool P).encard = (PoolWorkload.heads ts).countP p := by
  have hnodup : (((PoolWorkload.heads ts).filter p).map (·.workspace)).Nodup := by
    refine List.Nodup.map_on (fun t ht u hu hws => ?_) ((h.nodup.of_map.filter _).filter _)
    have hlead := ((mem_heads_iff h).1 (List.mem_of_mem_filter ht)).2
    rw [hws] at hlead
    exact hlead.eq ((mem_heads_iff h).1 (List.mem_of_mem_filter hu)).2
  rw [List.countP_eq_length_filter, ← List.length_map (·.workspace)]
  refine encard_eq_length hnodup fun name => ?_
  simp only [List.mem_map, List.mem_filter, mem_heads_iff h, hp]
  constructor
  · rintro ⟨t, ⟨⟨hpool, hlead⟩, hPt⟩, rfl⟩
    exact ⟨hpool, t, hlead, hPt⟩
  · rintro ⟨hpool, t, hlead, hPt⟩
    obtain rfl := hlead.fits.1
    exact ⟨t, ⟨⟨hpool, hlead⟩, hPt⟩, rfl⟩

theorem waitsLonger_of_lists (h : s.Lists (fun t => s.OnPool pool t.workspace ∧ t.status = .pending) ts) :
    (firstOccurrences (ts.map (·.workspace))).Pairwise s.WaitsLonger := by
  refine (pairwise_firstOccurrences _).imp_of_mem fun {a b} _ hb => ?_
  rintro ⟨before, after, hsplit, ha, hnot⟩
  obtain ⟨ts₁, ts₂, rfl, rfl, rfl⟩ := List.map_eq_append_iff.1 hsplit
  obtain ⟨v, hv, rfl⟩ := List.mem_map.1 ha
  obtain ⟨z, hz, rfl⟩ := List.mem_map.1 (mem_firstOccurrences.1 hb)
  obtain ⟨hheld, -, hpending⟩ := (h.mem v).1 (List.mem_append_left _ hv)
  obtain ⟨hheld', hpool', hpending'⟩ := (h.mem z).1 hz
  obtain ⟨t, ht⟩ := exists_first (P := fun x => x.workspace = v.workspace ∧ x.status = .pending) hheld ⟨rfl, hpending⟩
  obtain ⟨u, hu⟩ := exists_first (P := fun x => x.workspace = z.workspace ∧ x.status = .pending) hheld' ⟨rfl, hpending'⟩
  refine ⟨t, u, ht, hu, UInt64.lt_of_le_of_lt (ht.least v hheld ⟨rfl, hpending⟩) ?_⟩
  -- the other workspace has no task before the split
  have hu₂ : u ∈ ts₂ := by
    refine (List.mem_append.1 ((h.mem u).2 ⟨hu.held, hu.fits.1 ▸ hpool', hu.fits.2⟩)).resolve_left fun hu₁ => ?_
    exact hnot (hu.fits.1 ▸ List.mem_map_of_mem hu₁)
  exact (List.pairwise_append.1 h.ascending).2.2 v hv u hu₂

theorem summarizes_ofTasks (h : s.Lists (s.OnPool pool ·.workspace) ts) : s.Summarizes pool (.ofTasks ts) where
  running := encard_routed h fun t => decide_eq_true_iff
  applyPending := encard_routed h fun t => decide_eq_true_iff
  pending := encard_routed h fun t => decide_eq_true_iff
  unblocked := encard_led h fun t => decide_eq_true_iff
  unblockedApply := encard_led h fun t => decide_eq_true_iff
  applies id := by
    simp only [PoolWorkload.ofTasks, List.mem_map, mem_filter_routed h fun t => decide_eq_true_iff]
  appliesAscending := List.pairwise_map.2 (h.filter _).ascending
  waiting name := by
    simp only [PoolWorkload.ofTasks, mem_firstOccurrences, List.mem_map, mem_filter_routed h fun t => decide_eq_true_iff]
  waitingOnce := nodup_firstOccurrences _
  waitingOrder := waitsLonger_of_lists ((h.filter _).congr fun t _ => by rw [decide_eq_true_iff])

/-! ## Reading it -/

/-- A row that has to be read for the pool is no record. -/
def Damaged (s : Store) (pool : String) : Prop :=
  (∃ k text, s.workspaces.get? k = some (.unreadable text)) ∨
    (∃ name, s.OnPool pool name) ∧ ∃ k text, s.tasks.get? k = some (.unreadable text)

theorem poolMembers_of_unreadable {k text : String} (h : s.workspaces.get? k = some (.unreadable text)) :
    s.poolMembers pool = .error .unreadable := by
  unfold poolMembers
  rw [show s.listWorkspaces = .error .unreadable from mapM_read_of_unreadable (Table.mem_rows_iff.2 h)]
  rfl

theorem poolMembers_ok (h : ∀ k text, s.workspaces.get? k ≠ some (.unreadable text)) :
    ∃ members, s.poolMembers pool = .ok members ∧ ∀ name, name ∈ members ↔ s.OnPool pool name := by
  obtain ⟨all, hall⟩ := mapM_read_ok fun k text hin => h k text (Table.mem_rows_iff.1 hin)
  have hmembers : s.poolMembers pool = .ok _ := congrArg (Except.map _) hall
  exact ⟨_, hmembers, fun name => mem_poolMembers hmembers⟩

theorem poolWorkload_of_damaged (h : s.Damaged pool) : s.poolWorkload pool = .error .unreadable := by
  unfold poolWorkload
  by_cases hws : ∃ k text, s.workspaces.get? k = some (.unreadable text)
  · obtain ⟨k, text, hrow⟩ := hws
    rw [poolMembers_of_unreadable hrow]
    rfl
  · obtain ⟨⟨name, hpool⟩, k, text, hrow⟩ := h.resolve_left hws
    obtain ⟨members, hmembers, hmem⟩ := poolMembers_ok fun k text hrow => hws ⟨k, text, hrow⟩
    have hsome : members.isEmpty = false := by
      rw [List.isEmpty_eq_false_iff_exists_mem]
      exact ⟨name, (hmem name).2 hpool⟩
    unfold tasksWhere
    rw [hmembers, listTasks_of_unreadable hrow]
    simp only [bind, Except.bind, hsome]
    rfl

theorem poolWorkload_of_readable (hfiled : ∀ k t, s.tasks.get? k = some (.record t) → k = t.key) (h : ¬s.Damaged pool) :
    ∃ work, s.poolWorkload pool = .ok work ∧ s.Summarizes pool work := by
  obtain ⟨members, hmembers, hmem⟩ := poolMembers_ok fun k text hrow => h (.inl ⟨k, text, hrow⟩)
  cases members with
  | nil =>
    -- nobody is asked for the tasks, readable or not
    have hnone : s.Lists (s.OnPool pool ·.workspace) [] :=
      ⟨.nil, fun t => ⟨nofun, fun ⟨_, hpool⟩ => absurd ((hmem _).2 hpool) List.not_mem_nil⟩⟩
    exact ⟨{}, by unfold poolWorkload; rw [hmembers]; rfl, summarizes_ofTasks hnone⟩
  | cons name rest =>
    have hkeyed : s.Keyed := by
      intro k row hrow
      cases row with
      | record t => exact ⟨t, rfl, hfiled k t hrow⟩
      | unreadable text => exact absurd (.inr ⟨⟨name, (hmem name).1 List.mem_cons_self⟩, k, text, hrow⟩) h
    obtain ⟨ts, hts, hlist⟩ := hkeyed.tasksWhere_ok fun t => (name :: rest).contains t.workspace
    refine ⟨.ofTasks ts, ?_, summarizes_ofTasks (hlist.congr fun t _ => ?_)⟩
    · unfold poolWorkload
      rw [hmembers, ← PoolWorkload.countAll_eq_ofTasks hlist.ascending]
      simp only [bind, Except.bind, hts]
      rfl
    · rw [List.contains_iff_mem, hmem]

/-! ## Work that waits while none is under way -/

/-- The first active task of a workspace with a pending one is pending too if nothing runs and
    nothing waits for its apply. -/
theorem Summarizes.unblocked_pos (h : s.Summarizes pool work) (hpending : 0 < work.pending) (hrunning : work.running = 0)
    (happly : work.applyPending = 0) : 0 < work.unblockedPending := by
  obtain ⟨hrun, hwait, hpend, hlead, -⟩ := h
  rw [hrunning, Nat.cast_zero, Set.encard_eq_zero] at hrun
  rw [happly, Nat.cast_zero, Set.encard_eq_zero] at hwait
  have hsome : (s.routed pool (·.status = .pending)).Nonempty := by
    rw [← Set.encard_ne_zero, hpend]
    exact Nat.cast_ne_zero.2 (Nat.ne_of_gt hpending)
  obtain ⟨t, ht, hpool, hst⟩ := hsome
  obtain ⟨u, hu⟩ : ∃ u, s.LeadsWorkspace t.workspace u := exists_first ht ⟨rfl, by rw [hst]; rfl⟩
  have hpool' : s.OnPool pool u.workspace := by rwa [hu.fits.1]
  have hpending' : u.status = .pending := by
    have hactive := hu.fits.2
    cases hst' : u.status with
    | pending => rfl
    | running => exact absurd ⟨hu.held, hpool', hst'⟩ (Set.eq_empty_iff_forall_notMem.1 hrun u)
    | applyPending => exact absurd ⟨hu.held, hpool', hst'⟩ (Set.eq_empty_iff_forall_notMem.1 hwait u)
    | _ => rw [hst'] at hactive; cases hactive
  have hsome : (s.led pool (·.status = .pending)).encard ≠ 0 := Set.encard_ne_zero.2 ⟨_, hpool, u, hu, hpending'⟩
  rw [hlead] at hsome
  exact Nat.pos_of_ne_zero (Nat.cast_ne_zero.1 hsome)

end Store

end TaskFleet
