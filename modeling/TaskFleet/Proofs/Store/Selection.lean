/-
  TaskFleet.Proofs.Store.Selection — whose turn it is in a workspace, and that the claim agrees.

  The choice of the next task looks for the oldest pending task of each kind and, in a scan of
  its own, for earlier exclusive tasks in the way; the claim looks for those in yet another
  scan, which stops at the claimed task. All of them are searches through the tasks by
  ascending ID.
  - `Keyed.oldestPending_ok`, `Keyed.hasBlocking_ok`, `Keyed.earlierExclusive_ok`: each scan of
    a keyed store is answered, with the first task of a kind.
  - `claimTask_of_pending`: the answer to a claim of a pending task of a workspace not on hold.
  - `Keyed.nextTask_ok`: the choice is answered; who is chosen, and what is left if nobody is.
  - `next_task_can_be_claimed`: the chosen task can be claimed, and if none is chosen, no
    pending task can.
-/

import TaskFleet.Proofs.Store.Queries

namespace TaskFleet.Store

variable {s : Store} {t : Task} {ts : List Task} {workspace : String} {kind : TaskKind} {id : UInt64}

/-! ## Searches -/

/-- The task with the lowest ID of those with a property. -/
structure First (s : Store) (P : Task → Prop) (t : Task) : Prop where
  held : s.Holds t
  fits : P t
  least : ∀ u, s.Holds u → P u → t.id ≤ u.id

/-- Where there is a task with a property, there is a first one. -/
theorem exists_first {P : Task → Prop} (ht : s.Holds t) (hPt : P t) : ∃ u, s.First P u := by
  induction hn : t.id.toNat using Nat.strongRecOn generalizing t with
  | ind n ih =>
    by_cases hless : ∃ u, s.Holds u ∧ P u ∧ u.id < t.id
    · obtain ⟨u, hu, hPu, hlt⟩ := hless
      exact ih _ (hn ▸ UInt64.lt_iff_toNat_lt.1 hlt) hu hPu rfl
    · exact ⟨t, ht, hPt, fun u hu hPu => UInt64.not_lt.1 fun hlt => hless ⟨u, hu, hPu, hlt⟩⟩

/-- The search for the first task with a property came to this. -/
def Finds (s : Store) (P : Task → Prop) : Option Task → Prop
  | some t => s.First P t
  | none => ∀ t, s.Holds t → ¬P t

theorem finds_find? (hasc : ts.Pairwise (·.id < ·.id)) (hmem : ∀ t, t ∈ ts ↔ s.Holds t) {p : Task → Bool} {P : Task → Prop}
    (hP : ∀ t, p t = true ↔ P t) : s.Finds P (ts.find? p) := by
  cases hfound : ts.find? p with
  | none =>
    intro t ht hPt
    exact List.find?_eq_none.1 hfound t ((hmem t).2 ht) ((hP t).2 hPt)
  | some t =>
    obtain ⟨hp, before, after, rfl, hbefore⟩ := List.find?_eq_some_iff_append.1 hfound
    obtain ⟨-, hafter, -⟩ := List.pairwise_append.1 hasc
    refine ⟨(hmem t).1 (by simp), (hP t).1 hp, fun u hu hPu => ?_⟩
    rcases List.mem_append.1 ((hmem u).2 hu) with hin | hin
    · have hno := hbefore u hin
      rw [(hP u).2 hPu] at hno
      cases hno
    · rcases List.mem_cons.1 hin with rfl | hin
      · exact UInt64.le_refl _
      · exact UInt64.le_of_lt ((List.pairwise_cons.1 hafter).1 u hin)

/-- An exclusive task of the workspace that is not over. -/
def ActiveExclusive (workspace : String) (t : Task) : Prop := t.workspace = workspace ∧ t.isActiveExclusive = true

/-- A task of the workspace that waits to be started. -/
def Waiting (workspace : String) (kind : TaskKind) (t : Task) : Prop :=
  t.workspace = workspace ∧ t.kind = kind ∧ t.status = .pending

theorem Waiting.activeExclusive (h : Waiting workspace .planAndApply t) : ActiveExclusive workspace t :=
  ⟨h.1, by simp [Task.isActiveExclusive, h.2.1, h.2.2, TaskStatus.isActive, TaskStatus.isTerminal]⟩

theorem ActiveExclusive.waiting (h : ActiveExclusive workspace t) (hst : t.status = .pending) :
    Waiting workspace .planAndApply t := by
  have hkind := h.2
  simp only [Task.isActiveExclusive, Bool.and_eq_true, beq_iff_eq] at hkind
  exact ⟨h.1, hkind.1, hst⟩

theorem firstRecord_tasks (keep : Task → Bool) (ts : List Task) :
    firstRecord keep (ts.map fun t => (t.key, Row.record t)) = .ok (ts.find? keep) := by
  induction ts with
  | nil => rfl
  | cons t ts ih =>
    simp only [List.map_cons, firstRecord, Row.read, bind, Except.bind, pure, Except.pure, List.find?_cons]
    cases keep t
    · exact ih
    · rfl

/-- The scan of a claim, which stops early, finds what a search through all tasks finds. -/
theorem earlierExclusive_tasks (hasc : ts.Pairwise (·.id < ·.id)) :
    earlierExclusive workspace id (ts.map fun t => (t.key, Row.record t)) =
      .ok ((ts.find? fun t => t.workspace == workspace && t.isActiveExclusive && decide (t.id < id)).map (·.id)) := by
  induction ts with
  | nil => rfl
  | cons t ts ih =>
    obtain ⟨hlater, hrest⟩ := List.pairwise_cons.1 hasc
    simp only [List.map_cons, earlierExclusive, Row.read, bind, Except.bind, pure, Except.pure]
    split
    · -- the scan stops here: no later task is below the ID either
      next hstop =>
      have hnone : (t :: ts).find? (fun t => t.workspace == workspace && t.isActiveExclusive && decide (t.id < id)) = none := by
        refine List.find?_eq_none.2 fun u hu => ?_
        have hle : id ≤ u.id := by
          rcases List.mem_cons.1 hu with rfl | hu
          · exact hstop
          · exact UInt64.le_of_lt (UInt64.lt_of_le_of_lt hstop (hlater u hu))
        simp [UInt64.not_lt.2 hle]
      rw [hnone]
      rfl
    · next hgo =>
      have hlt : t.id < id := UInt64.not_le.1 hgo
      simp only [List.find?_cons, hlt, decide_true, Bool.and_true]
      cases t.workspace == workspace && t.isActiveExclusive
      · exact ih hrest
      · rfl

/-! ## The scans of a keyed store -/

theorem Keyed.oldestPending_ok (hs : s.Keyed) (workspace : String) (kind : TaskKind) :
    ∃ found, s.oldestPending workspace kind = .ok found ∧ s.Finds (Waiting workspace kind) found := by
  obtain ⟨ts, -, hrows, hasc, hmem⟩ := hs.tasks_ascending
  unfold oldestPending
  rw [hrows, firstRecord_tasks]
  exact ⟨_, rfl, finds_find? hasc hmem fun t => by simp [Waiting, and_assoc]⟩

theorem Keyed.hasBlocking_ok (hs : s.Keyed) (workspace : String) (before : UInt64) :
    ∃ blocked, s.hasBlocking workspace before = .ok blocked ∧
      (blocked = true ↔ ∃ t, s.Holds t ∧ ActiveExclusive workspace t ∧ t.id < before) := by
  obtain ⟨ts, hts, hlist⟩ := hs.tasksWhere_ok fun t => t.workspace == workspace && t.id < before && t.isActiveExclusive
  refine ⟨!ts.isEmpty, by unfold hasBlocking; rw [hts]; rfl, ?_⟩
  have hkept : ∀ t, t ∈ ts ↔ s.Holds t ∧ ActiveExclusive workspace t ∧ t.id < before := by
    intro t
    rw [hlist.mem]
    simp only [Bool.and_eq_true, beq_iff_eq, decide_eq_true_eq, ActiveExclusive]
    tauto
  rw [Bool.not_eq_true', List.isEmpty_eq_false_iff_exists_mem]
  exact exists_congr hkept

theorem Keyed.earlierExclusive_ok (hs : s.Keyed) (workspace : String) (id : UInt64) :
    ∃ found : Option Task, earlierExclusive workspace id s.tasks.rows = .ok (found.map (·.id)) ∧
      s.Finds (fun t => ActiveExclusive workspace t ∧ t.id < id) found := by
  obtain ⟨ts, -, hrows, hasc, hmem⟩ := hs.tasks_ascending
  rw [hrows, earlierExclusive_tasks hasc]
  exact ⟨_, rfl, finds_find? hasc hmem fun t => by simp [ActiveExclusive]⟩

/-! ## Claims of pending tasks -/

/-- Another holder's lease on the task is still good. -/
def HeldByOther (t : Task) (holder : String) (now : UInt64) (l : Lease) : Prop :=
  t.lease = some l ∧ now < l.expiresAt ∧ l.holder ≠ holder

theorem leasedToOther?_eq_some_iff {holder other : String} {now : UInt64} :
    t.leasedToOther? holder now = some other ↔ ∃ l, HeldByOther t holder now l ∧ l.holder = other := by
  unfold Task.leasedToOther? HeldByOther
  cases t.lease with
  | none => simp
  | some l =>
    simp only [Option.some.injEq]
    constructor
    · intro h
      split at h
      · next hl => exact ⟨l, ⟨rfl, hl.1, hl.2⟩, Option.some.inj h⟩
      · cases h
    · rintro ⟨_, ⟨rfl, hlive, hne⟩, rfl⟩
      exact if_pos ⟨hlive, hne⟩

variable {ws : Workspace} {r : ClaimRequest} {edit : Task → Task}

/-- A claim of the task is answered like this, unless another holder's lease on it is still good. -/
def ClaimEnds (s : Store) (t : Task) (r : ClaimRequest) (edit : Task → Task) (answer : Claim × Store) : Prop :=
  (∃ l, HeldByOther t r.holder r.now l ∧ s.claimTask t.id r edit = .ok (.leased l.holder, s)) ∨
    ((∀ l, ¬HeldByOther t r.holder r.now l) ∧ s.claimTask t.id r edit = .ok answer)

/-- The task is the claimant's. -/
def claimedBy (s : Store) (t : Task) (r : ClaimRequest) (edit : Task → Task) : Claim × Store :=
  (.claimed (taken t r edit), { s with tasks := s.tasks.insert (taskKey t.id) (.record (taken t r edit)) })

/-- A pending task of a workspace that is not on hold: only an exclusive one can have another task
    in its way. -/
theorem claimEnds_of_pending (hs : s.Keyed) (ht : s.Holds t) (hst : t.status = .pending) (hr : r.expected = .pending)
    (hends : r.now.toNat + r.leaseSecs.toNat < UInt64.size) (hws : s.workspace? t.workspace = .ok (some ws))
    (hfree : ws.isLocked = false) {found : Option UInt64}
    (hfound : (if t.kind = .planAndApply then earlierExclusive t.workspace t.id s.tasks.rows else .ok none) = .ok found) :
    s.ClaimEnds t r edit (match found with | some other => (Claim.blocked other, s) | none => s.claimedBy t r edit) := by
  have hmove : t.move .running = .ok { t with status := .running } := move_ok_iff.2 ⟨by rw [hst]; rfl, rfl⟩
  obtain ⟨lease, hlease⟩ := exists_lease?_iff.2 hends
  have htaken : s.claimedBy t r edit = (.claimed (edit { t with status := .running, lease := some lease }),
      { s with tasks := s.tasks.insert (taskKey t.id) (.record (edit { t with status := .running, lease := some lease })) }) := by
    unfold claimedBy taken
    rw [hlease]
  unfold ClaimEnds claimTask
  rw [hs.task?_iff.2 ⟨ht, rfl⟩]
  simp only [bind, Except.bind, pure, Except.pure, hst, hr, ne_eq, not_true_eq_false, if_false, hws, hfree,
    Bool.false_eq_true, and_true]
  cases hother : t.leasedToOther? r.holder r.now with
  | some other =>
    obtain ⟨l, hl, rfl⟩ := leasedToOther?_eq_some_iff.1 hother
    exact .inl ⟨l, hl, rfl⟩
  | none =>
    refine .inr ⟨fun l hl => ?_, ?_⟩
    · have hsome := leasedToOther?_eq_some_iff.2 ⟨l, hl, rfl⟩
      rw [hother] at hsome
      cases hsome
    · by_cases hkind : t.kind = .planAndApply
      · rw [if_pos hkind] at hfound
        simp only [hkind, if_true, hfound]
        cases found with
        | some other => rfl
        | none => simp only [hmove, hlease, htaken]
      · rw [if_neg hkind] at hfound
        cases hfound
        simp only [hkind, if_false, hmove, hlease, htaken]

/-! ## The next task -/

/-- Whose turn it is: the first exclusive task that is not over, if it is pending; else the
    oldest pending plan, else the oldest pending drift check. -/
inductive IsNext (s : Store) (workspace : String) (t : Task) : Prop
  | exclusive : s.First (ActiveExclusive workspace) t → t.status = .pending → IsNext s workspace t
  | plan : (∀ u, s.First (ActiveExclusive workspace) u → u.status ≠ .pending) →
      s.First (Waiting workspace .plan) t → IsNext s workspace t
  | driftCheck : (∀ u, s.First (ActiveExclusive workspace) u → u.status ≠ .pending) →
      (∀ u, s.Holds u → ¬Waiting workspace .plan u) → s.First (Waiting workspace .driftCheck) t → IsNext s workspace t

/-- The first exclusive task is not pending, and nothing but exclusive tasks is. -/
structure NoneNext (s : Store) (workspace : String) : Prop where
  exclusive : ∀ u, s.First (ActiveExclusive workspace) u → u.status ≠ .pending
  plan : ∀ u, s.Holds u → ¬Waiting workspace .plan u
  driftCheck : ∀ u, s.Holds u → ¬Waiting workspace .driftCheck u

theorem First.eq {P : Task → Prop} {u : Task} (ht : s.First P t) (hu : s.First P u) : t = u :=
  holds_inj ht.held hu.held (UInt64.le_antisymm (ht.least u hu.held hu.fits) (hu.least t ht.held ht.fits))

/-- The oldest pending exclusive task is the first one of all unless an earlier one is in its way. -/
theorem first_exclusive_iff (h : s.First (Waiting workspace .planAndApply) t) :
    s.First (ActiveExclusive workspace) t ↔ ¬∃ u, s.Holds u ∧ ActiveExclusive workspace u ∧ u.id < t.id := by
  constructor
  · rintro hfirst ⟨u, hu, hactive, hlt⟩
    exact absurd hlt (UInt64.not_lt.2 (hfirst.least u hu hactive))
  · intro hno
    exact ⟨h.held, h.fits.activeExclusive, fun u hu hactive => UInt64.not_lt.1 fun hlt => hno ⟨u, hu, hactive, hlt⟩⟩

/-- A pending exclusive task that is not the first one has an earlier one in its way. -/
theorem not_pending_of_blocked (h : s.First (Waiting workspace .planAndApply) t)
    (hblocked : ∃ u, s.Holds u ∧ ActiveExclusive workspace u ∧ u.id < t.id) :
    ∀ u, s.First (ActiveExclusive workspace) u → u.status ≠ .pending := by
  intro u hu hst
  obtain ⟨v, hv, hactive, hlt⟩ := hblocked
  have hle : t.id ≤ u.id := h.least u hu.held (hu.fits.waiting hst)
  exact absurd (UInt64.lt_of_lt_of_le hlt hle) (UInt64.not_lt.2 (hu.least v hv hactive))

/-- The choice is answered; a task is chosen if and only if it is somebody's turn. -/
theorem Keyed.nextTask_ok (hs : s.Keyed) (hws : s.workspace? workspace = .ok (some ws)) (hfree : ws.isLocked = false) :
    ∃ found, s.nextTask workspace = .ok found ∧
      match found with
      | some t => s.IsNext workspace t
      | none => s.NoneNext workspace := by
  obtain ⟨exclusive, hexclusive, hfindsE⟩ := hs.oldestPending_ok workspace .planAndApply
  obtain ⟨plan, hplan, hfindsP⟩ := hs.oldestPending_ok workspace .plan
  obtain ⟨drift, hdrift, hfindsD⟩ := hs.oldestPending_ok workspace .driftCheck
  -- what is chosen among plans and drift checks when no exclusive task is to start
  have hrest : (∀ u, s.First (ActiveExclusive workspace) u → u.status ≠ .pending) →
      match plan.or drift with
      | some t => s.IsNext workspace t
      | none => s.NoneNext workspace := by
    intro hno
    cases plan with
    | some t => exact .plan hno hfindsP
    | none =>
      cases drift with
      | some t => exact .driftCheck hno hfindsP hfindsD
      | none => exact ⟨hno, hfindsP, hfindsD⟩
  unfold nextTask
  simp only [hws, bind, Except.bind, pure, Except.pure, hfree, Bool.false_eq_true, if_false, hexclusive]
  cases exclusive with
  | none =>
    refine ⟨plan.or drift, ?_, hrest fun u hu hst => hfindsE u hu.held (hu.fits.waiting hst)⟩
    simp only [hplan]
    cases plan with
    | some t => rfl
    | none => exact hdrift
  | some t =>
    obtain ⟨blocked, hblocking, hblocked⟩ := hs.hasBlocking_ok workspace t.id
    simp only [hblocking]
    cases blocked with
    | false =>
      refine ⟨some t, rfl, .exclusive ((first_exclusive_iff hfindsE).2 fun h => ?_) hfindsE.fits.2.2⟩
      exact Bool.false_ne_true (hblocked.2 h)
    | true =>
      refine ⟨plan.or drift, ?_, hrest (not_pending_of_blocked hfindsE (hblocked.1 rfl))⟩
      simp only [hplan]
      cases plan with
      | some t => rfl
      | none => exact hdrift

/-! ## Its claim -/

/-- Nothing is in the way of the one whose turn it is. -/
theorem IsNext.unblocked (hs : s.Keyed) (h : s.IsNext workspace t) :
    s.Holds t ∧ t.workspace = workspace ∧ t.status = .pending ∧
      (if t.kind = .planAndApply then earlierExclusive t.workspace t.id s.tasks.rows else .ok none) = .ok none := by
  cases h with
  | exclusive hfirst hst =>
    refine ⟨hfirst.held, hfirst.fits.1, hst, ?_⟩
    obtain ⟨found, hfound, hfinds⟩ := hs.earlierExclusive_ok t.workspace t.id
    rw [if_pos (hfirst.fits.waiting hst).2.1, hfound]
    cases found with
    | none => rfl
    | some u =>
      have hle : t.id ≤ u.id := hfirst.least u hfinds.held (hfirst.fits.1 ▸ hfinds.fits.1)
      exact absurd hfinds.fits.2 (UInt64.not_lt.2 hle)
  | plan _ hfirst =>
    obtain ⟨hws, hkind, hst⟩ := hfirst.fits
    exact ⟨hfirst.held, hws, hst, by simp [hkind]⟩
  | driftCheck _ _ hfirst =>
    obtain ⟨hws, hkind, hst⟩ := hfirst.fits
    exact ⟨hfirst.held, hws, hst, by simp [hkind]⟩

/-- If it is nobody's turn, the first exclusive task is in the way of all that is pending. -/
theorem NoneNext.blocked (hs : s.Keyed) (h : s.NoneNext workspace) (ht : s.Holds t) (hws : t.workspace = workspace)
    (hst : t.status = .pending) :
    t.kind = .planAndApply ∧ ∃ first, s.First (ActiveExclusive workspace) first ∧ first.id < t.id ∧
      earlierExclusive t.workspace t.id s.tasks.rows = .ok (some first.id) := by
  have hkind : t.kind = .planAndApply := by
    cases hkind : t.kind with
    | plan => exact absurd ⟨hws, hkind, hst⟩ (h.plan t ht)
    | planAndApply => rfl
    | driftCheck => exact absurd ⟨hws, hkind, hst⟩ (h.driftCheck t ht)
  refine ⟨hkind, ?_⟩
  subst hws
  have hactive : ActiveExclusive t.workspace t := Waiting.activeExclusive ⟨rfl, hkind, hst⟩
  obtain ⟨found, hfound, hfinds⟩ := hs.earlierExclusive_ok t.workspace t.id
  cases found with
  | none =>
    have hfirst : s.First (ActiveExclusive t.workspace) t :=
      ⟨ht, hactive, fun u hu hactive => UInt64.not_lt.1 fun hlt => hfinds u hu ⟨hactive, hlt⟩⟩
    exact absurd hst (h.exclusive t hfirst)
  | some u =>
    have hlt : u.id < t.id := hfinds.fits.2
    refine ⟨u, ⟨hfinds.held, hfinds.fits.1, fun v hv hactive => ?_⟩, hlt, hfound⟩
    by_cases hv' : v.id < t.id
    · exact hfinds.least v hv ⟨hactive, hv'⟩
    · exact UInt64.le_of_lt (UInt64.lt_of_lt_of_le hlt (UInt64.not_lt.1 hv'))

theorem nextTask_of_on_hold (h : ∀ ws, s.workspace? workspace = .ok (some ws) → ws.isLocked = true)
    {found : Option Workspace} (hws : s.workspace? workspace = .ok found) : s.nextTask workspace = .ok none := by
  unfold nextTask
  rw [hws]
  cases found with
  | none => rfl
  | some ws => simp [bind, Except.bind, pure, Except.pure, h ws hws]

/-- The choice of the next task and the claim agree, for leases whose end 64 bits can tell. If a task is chosen, it is its turn, and it
    can be claimed unless it is leased to somebody else. If none is chosen although the workspace is
    not on hold, only exclusive tasks are pending, and each claim of one is refused for the first
    exclusive task that is not over, or because the task is leased to somebody else. -/
theorem next_task_can_be_claimed (hs : s.Keyed)
    (hrecords : ∀ k row, s.workspaces.get? k = some row → ∃ ws, row = .record ws) (workspace : String) (r : ClaimRequest)
    (hr : r.expected = .pending) (hends : r.now.toNat + r.leaseSecs.toNat < UInt64.size) (edit : Task → Task) :
    ∃ found, s.nextTask workspace = .ok found ∧
      match found with
      | some t => s.IsNext workspace t ∧ s.ClaimEnds t r edit (s.claimedBy t r edit)
      | none => ∀ ws, s.workspace? workspace = .ok (some ws) → ws.isLocked = false →
          ∀ t, s.Holds t → t.workspace = workspace → t.status = .pending →
            t.kind = .planAndApply ∧ ∃ first, s.First (ActiveExclusive workspace) first ∧ first.id < t.id ∧
              s.ClaimEnds t r edit (.blocked first.id, s) := by
  obtain ⟨found, hfound⟩ : ∃ found, s.workspace? workspace = .ok found := by
    unfold workspace? Table.record?
    cases hrow : s.workspaces.get? workspace with
    | none => exact ⟨none, rfl⟩
    | some row =>
      obtain ⟨ws, rfl⟩ := hrecords _ _ hrow
      exact ⟨some ws, rfl⟩
  by_cases hopen : ∃ ws, s.workspace? workspace = .ok (some ws) ∧ ws.isLocked = false
  · obtain ⟨ws, hws, hfree⟩ := hopen
    obtain ⟨next, hnext, hturn⟩ := hs.nextTask_ok hws hfree
    refine ⟨next, hnext, ?_⟩
    cases next with
    | some t =>
      obtain ⟨ht, rfl, hst, hway⟩ := hturn.unblocked hs
      exact ⟨hturn, claimEnds_of_pending hs ht hst hr hends hws hfree hway⟩
    | none =>
      intro _ _ _ t ht htws hst
      obtain ⟨hkind, first, hfirst, hlt, hway⟩ := hturn.blocked hs ht htws hst
      subst htws
      exact ⟨hkind, first, hfirst, hlt, claimEnds_of_pending hs ht hst hr hends hws hfree ((if_pos hkind).trans hway)⟩
  · have hnone : s.nextTask workspace = .ok none := by
      refine nextTask_of_on_hold (fun ws hws => ?_) hfound
      simpa using fun hfree => hopen ⟨ws, hws, hfree⟩
    exact ⟨none, hnone, fun ws hws hfree => absurd ⟨ws, hws, hfree⟩ hopen⟩

/-- In one workspace an exclusive task runs, so that the plan behind it is next and not the other
    exclusive task; in the other one, nothing but an exclusive task is pending. -/
def twoWorkspaces : Store :=
  (({} : Store).putWorkspace { id := "mixed", mode := .agent }).putWorkspace { id := "exclusive", mode := .agent }
    |>.setTask { id := 1, workspace := "mixed", kind := .planAndApply, status := .running, createdAt := 0 }
    |>.setTask { id := 2, workspace := "mixed", kind := .planAndApply, status := .pending, createdAt := 0 }
    |>.setTask { id := 3, workspace := "mixed", kind := .driftCheck, status := .pending, createdAt := 0 }
    |>.setTask plan
    |>.setTask { id := 5, workspace := "exclusive", kind := .planAndApply, status := .applyPending, createdAt := 0 }
    |>.setTask waiting
where
  plan : Task :=
    { id := 4, workspace := "mixed", kind := .plan, status := .pending, createdAt := 0, lease := some ⟨"b", 0, 5⟩ }
  waiting : Task := { id := 6, workspace := "exclusive", kind := .planAndApply, status := .pending, createdAt := 0 }

theorem keyed_twoWorkspaces : twoWorkspaces.Keyed := by
  unfold twoWorkspaces
  iterate 6 apply Keyed.setTask
  exact keyed_empty.congr rfl

theorem records_twoWorkspaces (k : String) (row : Row Workspace) (h : twoWorkspaces.workspaces.get? k = some row) :
    ∃ ws, row = .record ws := by
  have hrows : twoWorkspaces.workspaces.rows =
      [("exclusive", .record { id := "exclusive", mode := .agent }), ("mixed", .record { id := "mixed", mode := .agent })] := rfl
  have hin := Table.mem_rows_iff.2 h
  rw [hrows] at hin
  simp only [List.mem_cons, List.not_mem_nil, Prod.mk.injEq, or_false] at hin
  obtain ⟨-, rfl⟩ | ⟨-, rfl⟩ := hin <;> exact ⟨_, rfl⟩

theorem next_task_can_be_claimed_two_workspaces :
    twoWorkspaces.nextTask "mixed" = .ok (some twoWorkspaces.plan) ∧
    twoWorkspaces.ClaimEnds twoWorkspaces.plan ⟨.pending, "a", 60, 10⟩ (fun t => t)
      (twoWorkspaces.claimedBy twoWorkspaces.plan ⟨.pending, "a", 60, 10⟩ fun t => t) ∧
    twoWorkspaces.nextTask "exclusive" = .ok none ∧
    ∃ first, twoWorkspaces.First (ActiveExclusive "exclusive") first ∧ first.id < twoWorkspaces.waiting.id ∧
      twoWorkspaces.ClaimEnds twoWorkspaces.waiting ⟨.pending, "a", 60, 10⟩ (fun t => t) (.blocked first.id, twoWorkspaces) := by
  have hplan : twoWorkspaces.nextTask "mixed" = .ok (some twoWorkspaces.plan) := rfl
  have hnone : twoWorkspaces.nextTask "exclusive" = .ok none := rfl
  obtain ⟨_, hnext, hclaim⟩ :=
    next_task_can_be_claimed keyed_twoWorkspaces records_twoWorkspaces "mixed" ⟨.pending, "a", 60, 10⟩ rfl (by decide)
      fun t => t
  rw [hplan] at hnext
  obtain rfl := Except.ok.inj hnext
  obtain ⟨_, hnext, hrefused⟩ :=
    next_task_can_be_claimed keyed_twoWorkspaces records_twoWorkspaces "exclusive" ⟨.pending, "a", 60, 10⟩ rfl (by decide)
      fun t => t
  rw [hnone] at hnext
  obtain rfl := Except.ok.inj hnext
  obtain ⟨-, hblocked⟩ := hrefused { id := "exclusive", mode := .agent } rfl rfl twoWorkspaces.waiting rfl rfl rfl
  exact ⟨hplan, hclaim.2, hnone, hblocked⟩

end TaskFleet.Store
