/-
  TaskFleet.Proofs.Dispatch.HeadOfLine — what a waiting plan has to wait for.

  An attempt commits itself to one task before it knows whether an agent takes it: the first
  confirmed apply of the workspace, else the task whose turn it is. A plan is never refused for an
  exclusive task, but an exclusive task at the head of the line that no agent takes is tried, and
  the attempt ends there.
  - `Commits`: the task that an attempt is about.
  - `Served`: nothing is in the way of the workspace, and sends succeed.
  - `answer`, `run_dispatchTask_of_agent`: such an attempt once it has its task.
  - `plans_wait_for_the_head_only`: while a plan waits for which there is an agent, the task at the
    head is started, or it is exclusive and no agent takes it, or the lock that it needs is taken.
  - `untakeable_head_holds_a_plan_up`: the second case, with an agent that is free for plans.
-/

import TaskFleet.Proofs.Dispatch.SoloAttempts
import TaskFleet.Proofs.Store.Selection

namespace TaskFleet

/-! ## Sends that succeed -/

namespace Agent

/-- Whatever is sent to the agent reaches it. -/
def Sends (process : Nat) (agent : String) (w : World) : Prop :=
  ∀ m, ∃ w', (sendTask process agent m).run.run w = (.finished (.ok ()), w')

theorem Sends.run {process : Nat} {agent : String} {w v : World} (h : Sends process agent w) (hr : v.registry = w.registry)
    (hf : v.sendFault = w.sendFault) (m : AgentMessage) :
    ∃ registry, (sendTask process agent m).run.run v = (.finished (.ok ()), { v with registry }) := by
  obtain ⟨w', hw⟩ := h m
  obtain ⟨e, registry, hv, hw'⟩ := run_sendTask_congr hr hf process agent m
  rw [hw] at hw'
  cases hw'
  exact ⟨registry, hv⟩

end Agent

/-! ## Claims that succeed -/

namespace Store

variable {s : Store} {t : Task} {workspace : String}

/-- A claim that passes all checks takes the task, unless its lease would end too late. -/
theorem claimTask_of_unhindered {r : ClaimRequest} {edit : Task → Task} (hs : s.Keyed) (ht : s.Holds t)
    (h : s.Unhindered t r) :
    s.claimTask t.id r edit = .ok (if r.lease?.isSome then s.claimedBy t r edit else (.tooLong, s)) := by
  obtain ⟨ws, hws, hfree⟩ := h.unlocked
  have hmove : t.move .running = .ok { t with status := .running } := move_ok_iff.2 ⟨h.movable, rfl⟩
  unfold claimTask claimedBy taken
  rw [hs.task?_iff.2 ⟨ht, rfl⟩]
  simp only [bind, Except.bind, pure, Except.pure, h.expected, ne_eq, not_true_eq_false, if_false, h.unleased, hws, hfree,
    Bool.false_eq_true]
  split
  · next hkind =>
    simp only [h.unblocked hkind.1 hkind.2, hmove]
    cases r.lease? <;> rfl
  · simp only [hmove]
    cases r.lease? <;> rfl

/-! ## The task at the head -/

/-- An apply of the workspace that is due. -/
def Due (workspace : String) (t : Task) : Prop := t.workspace = workspace ∧ t.status = .applyPending ∧ t.isApplyConfirmed = true

/-- The task that an attempt on the workspace is about. -/
inductive Commits (s : Store) (workspace : String) (t : Task) : Prop
  | due : s.First (Due workspace) t → Commits s workspace t
  | next : (∀ u, s.Holds u → ¬Due workspace u) → s.IsNext workspace t → Commits s workspace t

/-- The search for an apply that is due. -/
theorem Keyed.due_ok (hs : s.Keyed) (workspace : String) :
    ∃ found, (s.tasksWhere (·.workspace == workspace)).map
        (·.find? fun t => t.status == .applyPending && t.isApplyConfirmed) = .ok found ∧ s.Finds (Due workspace) found := by
  obtain ⟨ts, hts, -, hasc, hmem⟩ := hs.tasks_ascending
  refine ⟨ts.find? fun t => decide (t.workspace == workspace ∧ (t.status == .applyPending && t.isApplyConfirmed)), ?_,
    finds_find? hasc hmem fun t => by simp [Due]⟩
  unfold tasksWhere
  rw [hts]
  exact congrArg Except.ok List.find?_filter

theorem Commits.held (hs : s.Keyed) (h : s.Commits workspace t) :
    s.Holds t ∧ t.workspace = workspace ∧ (t.status = .applyPending ∧ t.isApplyConfirmed = true ∨ t.status = .pending) := by
  cases h with
  | due hfirst => exact ⟨hfirst.held, hfirst.fits.1, .inl hfirst.fits.2⟩
  | next _ hnext =>
    obtain ⟨hheld, hws, hst, -⟩ := hnext.unblocked hs
    exact ⟨hheld, hws, .inr hst⟩

end Store

namespace Dispatch

open Fallible Store

variable {cfg : Settings} {process : Nat} {workspace pool agent : String} {w : World} {t : Task}

/-! ## Attempts that nothing is in the way of -/

/-- The workspace runs on agents of a pool and is not on hold, nobody else has a lease on one of its
    tasks, and sends to the pool's agents succeed. -/
structure Served (cfg : Settings) (process : Nat) (workspace pool : String) (w : World) : Prop where
  keyed : w.store.Keyed
  row : ∃ ws, w.store.workspace? workspace = .ok (some ws) ∧ ws.mode = .agent ∧ ws.pool = some pool ∧ ws.isLocked = false
  unleased : ∀ t l, w.store.Holds t → t.workspace = workspace → ¬HeldByOther t cfg.holder w.now l
  listed : w.agentsFault = none
  sends : ∀ kind, ∀ agent ∈ w.registry.candidates pool kind, Agent.Sends process agent w

theorem Served.locked (h : Served cfg process workspace pool w) (locks : Locks) :
    Served cfg process workspace pool { w with locks } where
  keyed := h.keyed
  row := h.row
  unleased := h.unleased
  listed := h.listed
  sends kind agent ha m := by
    obtain ⟨registry, hrun⟩ := (h.sends kind agent ha).run (v := { w with locks }) rfl rfl m
    exact ⟨_, hrun⟩

/-- Nothing is in the way of a claim of the task at the head. -/
theorem Served.unhindered (h : Served cfg process workspace pool w) (ht : w.store.Commits workspace t) :
    w.store.Unhindered t (claimRequest cfg t w.now) := by
  obtain ⟨ws, hws, -, -, hfree⟩ := h.row
  obtain ⟨hheld, htws, hst⟩ := ht.held h.keyed
  refine ⟨rfl, ?_, ⟨ws, htws ▸ hws, hfree⟩, fun hkind hpending => ?_, ?_⟩
  · cases hother : t.leasedToOther? (claimRequest cfg t w.now).holder (claimRequest cfg t w.now).now with
    | none => rfl
    | some other =>
      obtain ⟨l, hl, -⟩ := leasedToOther?_eq_some_iff.1 hother
      exact absurd hl (h.unleased t l hheld htws)
  · have hpending : t.status = .pending := hpending
    cases ht with
    | due hfirst => rw [hfirst.fits.2.1] at hpending; cases hpending
    | next _ hnext =>
      obtain ⟨-, -, -, hway⟩ := hnext.unblocked h.keyed
      rwa [if_pos hkind] at hway
  · rcases hst with ⟨hst, -⟩ | hst <;> rw [hst] <;> rfl

/-- A lease that begins now ends at a time that there is. -/
def LeaseFits (cfg : Settings) (w : World) : Prop := w.now.toNat + cfg.dispatch.claimLease.secs.toNat < UInt64.size

instance : Decidable (LeaseFits cfg w) := inferInstanceAs (Decidable (_ < _))

theorem isSome_lease?_iff : (claimRequest cfg t w.now).lease?.isSome = true ↔ LeaseFits cfg w :=
  Option.isSome_iff_exists.trans exists_lease?_iff

/-- The task at the head can be claimed. -/
theorem Served.claims (h : Served cfg process workspace pool w) (ht : w.store.Commits workspace t) (hfits : LeaseFits cfg w)
    (agent : String) : Claims cfg t agent w := by
  have hclaim : w.store.claimTask t.id (claimRequest cfg t w.now) (Task.start t.stageOnStart (some agent) w.now) = .ok _ :=
    claimTask_of_unhindered h.keyed (ht.held h.keyed).1 (h.unhindered ht)
  rw [if_pos (isSome_lease?_iff.2 hfits)] at hclaim
  exact ⟨_, _, hclaim⟩

/-- A claim whose lease would end too late crashes and writes nothing. -/
theorem Served.run_claim_tooLong (h : Served cfg process workspace pool w) (ht : w.store.Commits workspace t)
    (hlong : ¬LeaseFits cfg w) (agent : Option String) : (claim cfg t agent).run w = (.crashed sumTooLarge, w) := by
  have hclaim : w.store.claimTask t.id (claimRequest cfg t w.now) (Task.start t.stageOnStart agent w.now) = .ok _ :=
    claimTask_of_unhindered h.keyed (ht.held h.keyed).1 (h.unhindered ht)
  rw [if_neg fun hends => hlong (isSome_lease?_iff.1 hends)] at hclaim
  unfold claim
  rw [Program.run_get_bind]
  exact Program.run_bind_crashed _ (Program.run_claimTask_tooLong hclaim)

theorem run_handOver_of_agent (hclaims : Claims cfg t agent w) (hsends : Agent.Sends process agent w) :
    ∃ w', (handOver cfg process t ⟨agent, none⟩).run w = (.finished (.started t.id (some agent)), w') ∧ w'.clock = w.clock := by
  obtain ⟨claimed, store, hclaim⟩ := run_claim hclaims
  obtain ⟨registry, hsend⟩ := hsends.run (v := { w with store }) rfl rfl ⟨t.id, t.workspace, actionFor t⟩
  obtain ⟨store', hsettle⟩ := run_tryUpdate t.id (fun t => .ok (t.settle cfg.holder)) { w with store, registry }
  refine ⟨{ w with store := store', registry }, ?_, rfl⟩
  unfold handOver handOverBy
  rw [Program.run_bind_finished _ hclaim]
  simp only
  rw [Program.run_bind_finished _ hsend]
  exact Program.run_bind_finished _ hsettle

/-- How the start of a task ends that nothing is in the way of: the first agent that takes it has it, if
    there can be a lease; or no agent takes it and it is to be tried again. -/
def answer (cfg : Settings) (pool : String) (t : Task) (w : World) : Program.Ending DispatchOutcome :=
  match (w.registry.candidates pool t.kind).head? with
  | some agent => if LeaseFits cfg w then .finished (.started t.id (some agent)) else .crashed sumTooLarge
  | none => retried t.id (cfg.dispatch.backoff.delay t.retryCount) .noEligibleAgent w

theorem run_candidates (h : w.agentsFault = none) (pool : String) (kind : TaskKind) :
    (Agent.candidates pool kind).run w = (.finished (w.registry.candidates pool kind), w) :=
  Program.run_bind_finished _ (Agent.run_connected h)

theorem run_findTarget_of_agent (h : w.agentsFault = none) (connected : List String) :
    (findTarget t pool false none connected).run w =
      (.finished ((w.registry.candidates pool t.kind).head?.map fun agent => ⟨agent, none⟩), w) := by
  unfold findTarget
  exact Program.run_bind_finished _ (run_candidates h pool t.kind)

theorem run_pushToPool_of_agent (h : Served cfg process workspace pool w) (ht : w.store.Commits workspace t)
    (hconnected : w.registry.agents ≠ []) :
    ∃ w', (pushToPool cfg process t pool false none).run w = (answer cfg pool t w, w') ∧ w'.clock = w.clock := by
  have hempty : w.registry.agents.isEmpty = false := by simpa using hconnected
  have hpush : (pushToPool cfg process t pool false none).run w =
      ((w.registry.candidates pool t.kind).head?.elim (retryWithBackoff cfg t .noEligibleAgent) fun agent =>
        handOver cfg process t ⟨agent, none⟩).run w := by
    unfold pushToPool pushToPoolBy
    rw [Program.run_bind_finished _ (Agent.run_connected h.listed), hempty]
    simp only [Bool.false_eq_true, if_false]
    rw [Program.run_bind_finished _ (run_findTarget_of_agent h.listed _)]
    cases (w.registry.candidates pool t.kind).head? <;> rfl
  unfold answer
  cases hhead : (w.registry.candidates pool t.kind).head? with
  | none =>
    obtain ⟨store, w', hretry, queue, queueNotified, rfl⟩ := run_retryWithBackoff cfg t .noEligibleAgent w
    rw [hhead] at hpush
    exact ⟨_, hpush.trans hretry, rfl⟩
  | some agent =>
    have hmem : agent ∈ w.registry.candidates pool t.kind := List.mem_of_head? hhead
    rw [hhead] at hpush
    simp only
    split
    · next hfits =>
      obtain ⟨w', hover, hclock⟩ := run_handOver_of_agent (h.claims ht hfits agent) (h.sends t.kind agent hmem)
      exact ⟨w', hpush.trans hover, hclock⟩
    · next hlong => exact ⟨w, hpush.trans (Program.run_bind_crashed _ (h.run_claim_tooLong ht hlong _)), rfl⟩

theorem run_dispatchTask_of_agent (h : Served cfg process workspace pool w) (ht : w.store.Commits workspace t)
    (hconnected : w.registry.agents ≠ []) :
    ∃ w', (dispatchTask cfg process t).run.run w = (asAttempt (answer cfg pool t w), w') ∧ w'.clock = w.clock := by
  obtain ⟨ws, hws, hmode, hpool, -⟩ := h.row
  obtain ⟨-, rfl, hst⟩ := ht.held h.keyed
  obtain ⟨w', hpush, hclock⟩ := run_pushToPool_of_agent h ht hconnected
  refine ⟨w', ?_, hclock⟩
  have hagent : (pushToAgent cfg process t ws).run w = (answer cfg pool t w, w') := by
    unfold pushToAgent pushToAgentBy
    simp only [hpool, hmode]
    exact hpush
  have hconfirmed : ¬(t.status = .applyPending ∧ (!t.isApplyConfirmed) = true) := by
    rcases hst with ⟨-, hc⟩ | hst
    · simp [hc]
    · simp [hst]
  unfold dispatchTask dispatchTaskBy
  rw [if_neg hconfirmed]
  refine (run_look_bind _ hws).trans ?_
  simp only [hmode]
  exact run_always_eq hagent

/-! ## The head of the line -/

theorem Served.onHold (h : Served cfg process workspace pool w) :
    (w.store.workspace? workspace).map (fun ws => ws.any (·.isLocked)) = .ok false := by
  obtain ⟨ws, hws, -, -, hfree⟩ := h.row
  rw [hws]
  exact congrArg Except.ok hfree

/-- While a plan waits, somebody's turn it is. -/
theorem next_of_waiting_plan {s : Store} (hs : s.Keyed) {ws : Workspace} (hws : s.workspace? workspace = .ok (some ws))
    (hfree : ws.isLocked = false) (hplan : ∃ u, s.Holds u ∧ Waiting workspace .plan u) :
    ∃ t, s.nextTask workspace = .ok (some t) ∧ s.IsNext workspace t := by
  obtain ⟨u, hu, hwaits⟩ := hplan
  obtain ⟨found, hfound, hturn⟩ := hs.nextTask_ok hws hfree
  cases found with
  | none => exact absurd hwaits (hturn.plan u hu)
  | some t => exact ⟨t, hfound, hturn⟩

/-- While a plan waits, there is a task at the head of the line, and an attempt is about that one. -/
theorem Served.head (h : Served cfg process workspace pool w) (hplan : ∃ u, w.store.Holds u ∧ Waiting workspace .plan u) :
    ∃ t, w.store.Commits workspace t ∧ Picks w.store workspace t := by
  obtain ⟨ws, hws, -, -, hunlocked⟩ := h.row
  obtain ⟨found, hdue, hfinds⟩ := h.keyed.due_ok workspace
  cases found with
  | some t => exact ⟨t, .due hfinds, .resumed t hdue (h.keyed.task?_iff.2 ⟨hfinds.held, rfl⟩) hfinds.fits.2.1⟩
  | none =>
    obtain ⟨t, hnext, hturn⟩ := next_of_waiting_plan h.keyed hws hunlocked hplan
    exact ⟨t, .next hfinds hturn, .next hdue hnext⟩

theorem answer_ne_stuck (cfg : Settings) (pool : String) (t : Task) (w : World) : asAttempt (answer cfg pool t w) ≠ .stuck := by
  unfold answer
  split
  · split <;> exact nofun
  · exact asAttempt_retried_ne_stuck

theorem run_tryDispatch_of_agent (h : Served cfg process workspace pool w) (ht : w.store.Commits workspace t)
    (hpick : Picks w.store workspace t) (hconnected : w.registry.agents ≠ [])
    (hlock : NeedsLock t → (w.locks.request workspace process).holds workspace process = true) :
    ∃ v' w', (tryDispatch cfg process workspace).run.run w =
      ((caught cfg workspace (asAttempt (answer cfg pool t w), v')).1, w') ∧ v'.clock = w.clock := by
  have hstart : ∀ v, OnlyLocks w v →
      ∃ v', (dispatchTask cfg process t).run.run v = (asAttempt (answer cfg pool t w), v') ∧ v'.clock = w.clock := by
    rintro v ⟨locks, rfl⟩
    exact run_dispatchTask_of_agent (h.locked locks) ht hconnected
  obtain ⟨v', w', hrun, hclock, -⟩ := run_tryDispatch_of_picks hpick h.onHold hlock (answer_ne_stuck cfg pool t w) hstart
  exact ⟨v', w', hrun, hclock⟩

/-- An agent takes plans and drift checks alike. -/
theorem candidates_driftCheck (r : Registry) (pool : String) : r.candidates pool .driftCheck = r.candidates pool .plan := rfl

/-- While a plan waits for which an agent is free, the attempt starts the task at the head of the
    line, which is the plan's own workspace's. Only an exclusive task that no agent takes is put off
    instead, and with it the plan behind it; and a task that needs the lock which another attempt on
    the workspace has waits for it first. An attempt that needs a lease or a retry beyond 64 bits
    crashes. -/
theorem plans_wait_for_the_head_only (h : Served cfg process workspace pool w)
    (hplan : ∃ u, w.store.Holds u ∧ Waiting workspace .plan u) (hagent : w.registry.candidates pool .plan ≠ []) :
    ∃ t w', w.store.Commits workspace t ∧ t.workspace = workspace ∧
      ((∃ agent, (w.registry.candidates pool t.kind).head? = some agent ∧
          (tryDispatch cfg process workspace).run.run w =
            (if LeaseFits cfg w then .finished (.ok (.started t.id (some agent))) else tooLate cfg workspace w, w')) ∨
        (t.kind = .planAndApply ∧ w.registry.candidates pool .planAndApply = [] ∧
          (tryDispatch cfg process workspace).run.run w =
            (putOff cfg workspace t.id (cfg.dispatch.backoff.delay t.retryCount) .noEligibleAgent w, w')) ∨
        (NeedsLock t ∧ (∃ other, (w.locks.line workspace).head? = some other ∧ other ≠ process) ∧
          (tryDispatch cfg process workspace).run.run w = (.stuck, w'))) := by
  have hconnected : w.registry.agents ≠ [] := by
    obtain ⟨agent, rest, hlist⟩ := List.exists_cons_of_ne_nil hagent
    obtain ⟨row, hrow, -⟩ := List.mem_map.1 (hlist ▸ List.mem_cons_self : agent ∈ w.registry.candidates pool .plan)
    exact List.ne_nil_of_mem (List.mem_map_of_mem (List.mem_filter.1 hrow).1)
  obtain ⟨t, ht, hpick⟩ := h.head hplan
  have hws := (ht.held h.keyed).2.1
  by_cases hlock : NeedsLock t → (w.locks.request workspace process).holds workspace process = true
  · obtain ⟨v', w', hrun, hclock⟩ := run_tryDispatch_of_agent h ht hpick hconnected hlock
    refine ⟨t, w', ht, hws, ?_⟩
    unfold answer at hrun
    cases hhead : (w.registry.candidates pool t.kind).head? with
    | some agent =>
      rw [hhead] at hrun
      refine .inl ⟨agent, rfl, hrun.trans ?_⟩
      by_cases hfits : LeaseFits cfg w
      · simp only [if_pos hfits]
        rfl
      · simp only [if_neg hfits]
        exact Prod.ext (caught_tooLate hclock) rfl
    | none =>
      rw [hhead] at hrun
      rw [caught_retried hclock] at hrun
      have hnone := List.head?_eq_none_iff.1 hhead
      right; left
      cases hkind : t.kind with
      | planAndApply => exact ⟨rfl, hkind ▸ hnone, hrun⟩
      | plan => rw [hkind] at hnone; exact absurd hnone hagent
      | driftCheck => rw [hkind, candidates_driftCheck] at hnone; exact absurd hnone hagent
  · obtain ⟨hneeds, hheld⟩ := Classical.not_imp.1 hlock
    have hother : ∃ other, (w.locks.line workspace).head? = some other ∧ other ≠ process := by
      simpa [holds_request_iff] using hheld
    exact ⟨t, _, ht, hws, .inr (.inr ⟨hneeds, hother, run_tryDispatch_waits hpick h.onHold hneeds hheld⟩)⟩

/-! ## An exclusive task before a plan -/

/-- An exclusive task and a plan wait in one workspace. The only agent of the pool is free for plans,
    and carries out another apply or not. -/
def exclusiveBeforePlan (applying : Bool) : World where
  store := (({} : Store).putWorkspace { id := "ws", mode := .agent, pool := some "pool" })
    |>.setTask { id := 1, workspace := "ws", kind := .planAndApply, status := .pending, createdAt := 0 }
    |>.setTask plan
  registry :=
    { connections := .insert .empty "agent" conn
      mailboxes := [{}]
      inboxes := .insert .empty "agent" 0 }
  clock := 0
where
  plan : Task := { id := 2, workspace := "ws", kind := .plan, status := .pending, createdAt := 0 }
  conn : Connection := { pool := some "pool", pod := none, status := { applyRunning := applying }, mailbox := 0 }

theorem served_exclusiveBeforePlan (applying : Bool) :
    Served { holder := "a" } 0 "ws" "pool" (exclusiveBeforePlan applying) where
  keyed := by
    unfold exclusiveBeforePlan
    iterate 2 apply Keyed.setTask
    exact keyed_empty.congr rfl
  row := ⟨{ id := "ws", mode := .agent, pool := some "pool" }, rfl, rfl, rfl, rfl⟩
  unleased t l ht _ hl := by
    have hlease : t.lease = none := by
      rcases holds_setTask.1 ht with rfl | ⟨ht, -⟩
      · rfl
      · rcases holds_setTask.1 ht with rfl | ⟨ht, -⟩
        · rfl
        · cases ht
    cases hlease.symm.trans hl.1
  listed := rfl
  sends kind agent ha m := by
    have hname : agent = "agent" := by
      obtain ⟨row, hrow, rfl⟩ := List.mem_map.1 ha
      obtain rfl := List.mem_singleton.1 (List.mem_filter.1 hrow).1
      rfl
    subst hname
    have hreaches : (exclusiveBeforePlan applying).registry.Reaches "agent" (exclusiveBeforePlan.conn applying) :=
      ⟨rfl, rfl, Nat.zero_lt_succ 15⟩
    obtain ⟨registry, hrun, -⟩ := Agent.run_sendTask 0 m rfl hreaches
    exact ⟨_, hrun⟩

theorem plans_wait_for_the_head_only_free_agent :
    ∃ t w', (exclusiveBeforePlan false).store.Commits "ws" t ∧ t.workspace = "ws" ∧
      (tryDispatch { holder := "a" } 0 "ws").run.run (exclusiveBeforePlan false) =
        (.finished (.ok (.started t.id (some "agent"))), w') := by
  obtain ⟨t, w', ht, hws, ⟨agent, hhead, hrun⟩ | ⟨-, hnone, -⟩ | ⟨-, ⟨other, hother, -⟩, -⟩⟩ :=
    plans_wait_for_the_head_only (served_exclusiveBeforePlan false) ⟨exclusiveBeforePlan.plan, rfl, rfl, rfl, rfl⟩ (by decide)
  · have hname : (exclusiveBeforePlan false).registry.candidates "pool" t.kind = ["agent"] := by cases t.kind <;> rfl
    rw [hname] at hhead
    cases hhead
    exact ⟨t, w', ht, hws, hrun⟩
  · cases hnone
  · cases hother

/-- The agent is free for the plan, and the attempt ends with the exclusive task put off. -/
theorem untakeable_head_holds_a_plan_up :
    Served { holder := "a" } 0 "ws" "pool" (exclusiveBeforePlan true) ∧ (exclusiveBeforePlan true).locks.line "ws" = [] ∧
    (exclusiveBeforePlan true).store.Holds exclusiveBeforePlan.plan ∧ Waiting "ws" .plan exclusiveBeforePlan.plan ∧
    (exclusiveBeforePlan true).registry.candidates "pool" .plan = ["agent"] ∧
    ∃ delay w', (tryDispatch { holder := "a" } 0 "ws").run.run (exclusiveBeforePlan true) =
      (.finished (.ok (.retry 1 delay .noEligibleAgent)), w') ∧ w'.store.Holds exclusiveBeforePlan.plan :=
  ⟨served_exclusiveBeforePlan true, rfl, rfl, ⟨rfl, rfl, rfl⟩, rfl, _, _, rfl, rfl⟩

end Dispatch

end TaskFleet
