/-
  TaskFleet.Proofs.Recovery.DeadClaims — a claim whose dispatcher is gone is undone by a sweep.

  A dispatcher that dies between its claim and what settles it leaves a running row with a lease.
  Nothing on that row says in which status it was before; the sweep infers that from the stage that
  the claim wrote.
  - `Task.unclaimed`: a row as it is to be once its claim is undone; `givenBack_taken`: taking a claim
    back comes to that, for both phases.
  - `hasExpiredLease_taken`: when the lease of a claim is over.
  - `Cleaned`: all that a sweep of the leases does to a store; `cleaned_reclaimExpired`.
  - `sweeps_undo_dead_claims`: claims and sweeps together. A claim whose lease would end at no time
    there is takes no row (`run_claimTask_tooLong`), so there is nothing to undo.
-/

import TaskFleet.Proofs.Dispatch.Reads
import TaskFleet.Proofs.Recovery.Sweep
import TaskFleet.Proofs.Store.RowChanges

namespace TaskFleet

/-! ## The row of a claim -/

namespace Task

variable {r : Task} {request : ClaimRequest} {now : UInt64}

/-- The row of a task that waited, after a claim on it was undone. -/
def unclaimed (r : Task) : Task :=
  { r with
    stage := if r.status = .applyPending then some .applyPending else none
    lease := none
    agent := none
    startedAt := none }

/-- The stage that a claim writes tells the status that it was made in. -/
theorem givenBack_taken (agent : Option String) (hwaits : r.status = .pending ∨ r.status = .applyPending) :
    (Store.taken r request (start r.stageOnStart agent now)).givenBack = r.unclaimed := by
  unfold Store.taken start stageOnStart givenBack unclaimed
  rcases hwaits with h | h <;> simp [h]

/-- A claim that took the task is good for so many seconds. -/
theorem hasExpiredLease_taken {edit : Task → Task} (hstatus : ∀ u, (edit u).status = u.status)
    (hlease : ∀ u, (edit u).lease = u.lease) (hends : request.lease?.isSome = true) :
    (Store.taken r request edit).hasExpiredLease now = true ↔ request.now.toNat + request.leaseSecs.toNat ≤ now.toNat := by
  obtain ⟨lease, hsome⟩ := Option.isSome_iff_exists.1 hends
  obtain ⟨expiresAt, hsum, rfl⟩ := Option.map_eq_some_iff.1 hsome
  rw [hasExpiredLease_iff, ← toNat_of_sum? hsum, ← UInt64.le_iff_toNat_le]
  unfold Store.taken
  rw [hstatus, hlease, hsome]
  simp

end Task

/-! ## What a sweep of the leases does -/

namespace Store

variable {s s' : Store} {now : UInt64} {ids : List UInt64} {t : Task}

/-- The store before and after every running task whose lease was over by then was taken back,
    and the IDs of these tasks. -/
structure Cleaned (now : UInt64) (s : Store) (ids : List UInt64) (s' : Store) : Prop where
  ascending : ids.Pairwise (· < ·)
  expired : ∀ id, id ∈ ids ↔
    ∃ t, s.Holds t ∧ t.id = id ∧ t.status = .running ∧ ∃ l, t.lease = some l ∧ l.expiresAt ≤ now
  kept : ∀ t, s.Holds t → t.id ∉ ids → s'.Holds t
  given : ∀ t, s.Holds t → t.id ∈ ids → s'.Holds t.givenBack
  moves : ∀ t', s'.Holds t' →
    ∃ t, s.Holds t ∧ t.id = t'.id ∧ (t'.status = t.status ∨ t.status.canMove t'.status = true)
  rest : s' = { s with tasks := s'.tasks }
  again : (StoreProgram.reclaimExpired now).run.run s' = (.finished (.ok []), s')

theorem tasks_giveBackAll (s : Store) (ts : List Task) : s.giveBackAll ts = { s with tasks := (s.giveBackAll ts).tasks } := by
  unfold giveBackAll
  induction ts generalizing s with
  | nil => rfl
  | cons t ts ih => exact (ih (s.setTask t.givenBack)).trans rfl

/-- With no lease over, there is nothing to do. -/
theorem reclaimExpired_idle (hs : s.Keyed) (hnone : ∀ t, s.Holds t → t.hasExpiredLease now = false) :
    (StoreProgram.reclaimExpired now).run.run s = (.finished (.ok []), s) := by
  obtain ⟨ts, hlist, hrun⟩ := StoreProgram.run_reclaimExpired hs now
  obtain rfl := hlist.eq_nil fun t ht hexp => by rw [hnone t ht] at hexp; cases hexp
  exact hrun

theorem cleaned_reclaimExpired (hs : s.Keyed) (now : UInt64) :
    ∃ ids s', (StoreProgram.reclaimExpired now).run.run s = (.finished (.ok ids), s') ∧ Cleaned now s ids s' := by
  obtain ⟨ts, hlist, hrun⟩ := StoreProgram.run_reclaimExpired hs now
  have hrows : ∀ t', (s.giveBackAll ts).Holds t' ↔ ∃ t, s.Holds t ∧ t' = t.swept now :=
    fun _ => holds_rewriteAll_where Task.givenBack_id hlist.nodup hlist.mem
  have hids : ∀ t, s.Holds t → (t.id ∈ ts.map (·.id) ↔ t.hasExpiredLease now = true) := by
    intro t ht
    rw [List.mem_map]
    constructor
    · rintro ⟨u, hu, hid⟩
      obtain ⟨hheld, hexp⟩ := (hlist.mem u).1 hu
      exact holds_inj hheld ht hid ▸ hexp
    · exact fun hexp => ⟨t, (hlist.mem t).2 ⟨ht, hexp⟩, rfl⟩
  refine ⟨ts.map (·.id), s.giveBackAll ts, hrun, ?_, fun id => ?_, fun t ht hout => ?_, fun t ht hin => ?_, fun t' ht' => ?_,
    tasks_giveBackAll s ts, ?_⟩
  · rw [List.pairwise_map]
    exact hlist.ascending
  · rw [List.mem_map]
    refine exists_congr fun t => ?_
    rw [hlist.mem t, Task.hasExpiredLease_iff]
    exact ⟨fun h => ⟨h.1.1, h.2, h.1.2⟩, fun h => ⟨⟨h.1, h.2.2⟩, h.2.1⟩⟩
  · rw [hids t ht] at hout
    exact (hrows t).2 ⟨t, ht, (if_neg hout).symm⟩
  · rw [hids t ht] at hin
    exact (hrows _).2 ⟨t, ht, (if_pos hin).symm⟩
  · obtain ⟨t, ht, rfl⟩ := (hrows t').1 ht'
    unfold Task.swept
    split
    · next hexp =>
      obtain ⟨hst, -⟩ := Task.hasExpiredLease_iff.1 hexp
      have htame := Task.tame_giveBack (Task.giveBack_eq hst)
      exact ⟨t, ht, htame.id.symm, htame.move⟩
    · exact ⟨t, ht, rfl, .inl rfl⟩
  · refine reclaimExpired_idle (hs.giveBackAll ts) fun t' ht' => ?_
    obtain ⟨t, -, rfl⟩ := (hrows t').1 ht'
    exact Task.hasExpiredLease_swept

end Store

/-! ## Claims of dispatchers -/

namespace Dispatch

variable {cfg : Settings} {seen r claimed : Task} {agent : Option String} {w w' : World}

/-- A dispatcher that saw the task takes the row that the store has of it, and writes the claimed
    one. -/
structure Took (cfg : Settings) (seen : Task) (agent : Option String) (w : World) (r claimed : Task) (w' : World) : Prop where
  found : w.store.Holds r
  own : r.id = seen.id
  run : (claim cfg seen agent).run w = (.finished (.ok (some claimed)), w')

/-- The row waited, and it is claimed now, at the stage of what the claim is for and for a lease that
    ends at some time. -/
theorem Took.row (h : Took cfg seen agent w r claimed w') :
    (r.status = .pending ∨ r.status = .applyPending) ∧ (claimRequest cfg seen w.now).lease?.isSome = true ∧
      claimed = Store.taken r (claimRequest cfg seen w.now) (Task.start r.stageOnStart agent w.now) := by
  obtain ⟨store, hclaim, -⟩ := claimTask_of_run_claim h.run
  have hfound : w.store.task? seen.id = .ok (some r) := by
    rw [Store.task?_eq_some_iff, ← h.own]
    exact h.found
  rcases Store.claimTask_cases hclaim with ⟨hno, -⟩ | ⟨t, ht, -, hclaimable, hc, -⟩
  · exact absurd rfl (hno claimed)
  rw [hfound] at ht
  cases ht
  have hc := Claim.claimed.inj hc
  have hclaimable := hclaimable h.own
  have hstage : seen.stageOnStart = r.stageOnStart := by
    unfold Task.stageOnStart
    rw [hclaimable.expected]
    rfl
  refine ⟨?_, hclaimable.ends, by rw [hc, hstage]⟩
  have hmove := hclaimable.movable
  cases hst : r.status <;> simp [hst, TaskStatus.canMove] at hmove ⊢

end Dispatch

namespace Recovery

open Dispatch

variable {s : Store}

/-- A sweep of the leases, in any store whose tasks are under their own keys: it takes back exactly
    the running tasks whose lease is over. So it leaves a claim alone as long as the lease is good,
    and after that it puts back the row that the dispatcher claimed. Only if some row is no record,
    the sweep says so, and has changed nothing. -/
theorem sweeps_undo_dead_claims (hown : ∀ k t, s.tasks.get? k = some (.record t) → k = t.key) (now : UInt64) :
    (∃ ids s', (StoreProgram.reclaimExpired now).run.run s = (.finished (.ok ids), s') ∧ s.Cleaned now ids s' ∧
      ∀ cfg seen agent w r claimed w', Took cfg seen agent w r claimed w' → s.Holds claimed →
        (now.toNat < w.now.toNat + cfg.dispatch.claimLease.secs.toNat → r.id ∉ ids ∧ s'.Holds claimed) ∧
        (w.now.toNat + cfg.dispatch.claimLease.secs.toNat ≤ now.toNat → r.id ∈ ids ∧ s'.Holds r.unclaimed)) ∨
    ((∃ k text, s.tasks.get? k = some (.unreadable text)) ∧
      (StoreProgram.reclaimExpired now).run.run s = (.finished (.error .unreadable), s)) := by
  by_cases hbad : ∃ k text, s.tasks.get? k = some (.unreadable text)
  · refine .inr ⟨hbad, ?_⟩
    obtain ⟨k, text, hrow⟩ := hbad
    have hread : s.tasksWhere (·.hasExpiredLease now) = .error .unreadable := by
      unfold Store.tasksWhere
      rw [Store.listTasks_of_unreadable hrow]
      rfl
    exact StoreProgram.run_read_bind_error _ hread
  have hs : s.Keyed := by
    intro k row hrow
    cases row with
    | record t => exact ⟨t, rfl, hown k t hrow⟩
    | unreadable text => exact absurd ⟨k, text, hrow⟩ hbad
  obtain ⟨ids, s', hrun, hcleaned⟩ := Store.cleaned_reclaimExpired hs now
  refine .inl ⟨ids, s', hrun, hcleaned, fun cfg seen agent w r claimed w' htook hheld => ?_⟩
  obtain ⟨hwaits, hends, hclaimed⟩ := htook.row
  have hid : claimed.id = r.id := by rw [hclaimed]; rfl
  have hover : claimed.hasExpiredLease now = true ↔ w.now.toNat + cfg.dispatch.claimLease.secs.toNat ≤ now.toNat := by
    rw [hclaimed]
    exact Task.hasExpiredLease_taken (fun _ => rfl) (fun _ => rfl) hends
  have hin : r.id ∈ ids ↔ claimed.hasExpiredLease now = true := by
    rw [hcleaned.expired, Task.hasExpiredLease_iff]
    constructor
    · intro ⟨t, ht, htid, hexp⟩
      exact Store.holds_inj ht hheld (htid.trans hid.symm) ▸ hexp
    · intro hexp
      exact ⟨claimed, hheld, hid, hexp⟩
  constructor
  · intro hearly
    have hout : r.id ∉ ids := by rw [hin, hover]; omega
    exact ⟨hout, hcleaned.kept claimed hheld (hid ▸ hout)⟩
  · intro hlate
    have hback := hcleaned.given claimed hheld (by rw [hid, hin, hover]; exact hlate)
    rw [hclaimed, Task.givenBack_taken agent hwaits] at hback
    exact ⟨by rw [hin, hover]; exact hlate, hback⟩

/-! ## A plan that is claimed -/

/-- A plan that waits, at a time of day; its first attempt failed, and an earlier run left its start. -/
def waitingPlan : World where
  store := (({} : Store).putWorkspace { id := "ws", mode := .agent, pool := some "pool" }).setTask plan
  clock := 1760000000000
where
  plan : Task :=
    { id := 1, workspace := "ws", kind := .plan, status := .pending, retryCount := 1, createdAt := 0, startedAt := some 5 }

/-- The plan as the dispatcher "a" claims it, for the usual minute. -/
def claimedPlan : Task :=
  Store.taken waitingPlan.plan (claimRequest { holder := "a" } waitingPlan.plan 1760000000)
    (Task.start .planning (some "agent") 1760000000)

theorem took_waitingPlan :
    ∃ w', Took { holder := "a" } waitingPlan.plan (some "agent") waitingPlan waitingPlan.plan claimedPlan w' :=
  ⟨_, rfl, rfl, rfl⟩

theorem keyed_claimedPlan : (waitingPlan.store.setTask claimedPlan).Keyed := by
  unfold waitingPlan
  exact ((Store.keyed_empty.congr rfl).setTask _).setTask _

/-- The dispatcher dies. The plan is left alone in the lease's last second, and waits again in the
    next. -/
theorem sweeps_undo_dead_claims_one_plan :
    (∃ ids s', (StoreProgram.reclaimExpired 1760000059).run.run (waitingPlan.store.setTask claimedPlan) =
      (.finished (.ok ids), s') ∧ s'.Holds claimedPlan) ∧
    ∃ ids s', (StoreProgram.reclaimExpired 1760000060).run.run (waitingPlan.store.setTask claimedPlan) =
      (.finished (.ok ids), s') ∧ s'.Holds waitingPlan.plan.unclaimed := by
  obtain ⟨w', htook⟩ := took_waitingPlan
  have hown : ∀ k t, (waitingPlan.store.setTask claimedPlan).tasks.get? k = some (.record t) → k = t.key := by
    intro k t hrow
    obtain ⟨u, hu, hk⟩ := keyed_claimedPlan k _ hrow
    cases hu
    exact hk
  have hreadable : ¬∃ k text, (waitingPlan.store.setTask claimedPlan).tasks.get? k = some (.unreadable text) := by
    intro ⟨k, text, hrow⟩
    obtain ⟨u, hu, -⟩ := keyed_claimedPlan k _ hrow
    cases hu
  have hheld : (waitingPlan.store.setTask claimedPlan).Holds claimedPlan := Store.holds_setTask.2 (.inl rfl)
  constructor
  · obtain ⟨ids, s', hrun, -, hclaims⟩ := (sweeps_undo_dead_claims hown 1760000059).resolve_right fun h => hreadable h.1
    exact ⟨ids, s', hrun, ((hclaims _ _ _ _ _ _ _ htook hheld).1 (by decide)).2⟩
  · obtain ⟨ids, s', hrun, -, hclaims⟩ := (sweeps_undo_dead_claims hown 1760000060).resolve_right fun h => hreadable h.1
    exact ⟨ids, s', hrun, ((hclaims _ _ _ _ _ _ _ htook hheld).2 (by decide)).2⟩

end Recovery

end TaskFleet
