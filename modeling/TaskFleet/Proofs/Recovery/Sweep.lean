/-
  TaskFleet.Proofs.Recovery.Sweep — what a sweep takes back and whom it queues.

  A sweep gives back every task whose lease ran out and queues each workspace in which a task
  is pending or an apply was taken back. An apply that was confirmed and then turned away is
  neither, so its workspace stays out of the queue until something else brings it in.
  - `run_reclaimEach`, `run_addWaiting`: the two loops over the store.
  - `deadline?_triggerAll`: what is queued for now, and what stays as it was.
  - `sweep_queues_waiting_work`: a sweep of a keyed store always succeeds; the rows, the queue
    and the number after it.
  - `sweep_forgets_confirmed_apply`: the apply that nobody queues.
-/

import TaskFleet.Proofs.Runs
import TaskFleet.Proofs.Store.Queries
import TaskFleet.Dispatch.Attempt
import TaskFleet.Recovery

namespace TaskFleet

/-! ## Tasks given back -/

namespace Task

variable {t : Task} {now : UInt64}

/-- A running task after its claim was taken back. -/
def givenBack (t : Task) : Task :=
  if t.stage = some .applying then
    { t with status := .applyPending, stage := some .applyPending, lease := none, agent := none, startedAt := none }
  else { t with status := .pending, stage := none, lease := none, agent := none, startedAt := none }

theorem giveBack_eq (h : t.status = .running) : t.giveBack = .ok t.givenBack := by
  refine Store.giveBack_ok_iff.2 ?_
  unfold givenBack
  by_cases hst : t.stage = some .applying
  · exact .inl ⟨hst, by rw [h]; rfl, if_pos hst⟩
  · exact .inr ⟨hst, by rw [h]; rfl, if_neg hst⟩

@[simp] theorem givenBack_id (t : Task) : t.givenBack.id = t.id := by unfold givenBack; split <;> rfl

@[simp] theorem givenBack_lease (t : Task) : t.givenBack.lease = none := by unfold givenBack; split <;> rfl

theorem hasExpiredLease_iff :
    t.hasExpiredLease now = true ↔ t.status = .running ∧ ∃ l, t.lease = some l ∧ l.expiresAt ≤ now := by
  unfold hasExpiredLease
  cases t.lease <;> simp

/-- A task after a sweep. -/
def swept (now : UInt64) (t : Task) : Task := if t.hasExpiredLease now then t.givenBack else t

theorem hasExpiredLease_swept : (t.swept now).hasExpiredLease now = false := by
  unfold swept
  split
  · unfold hasExpiredLease
    rw [givenBack_lease]
    simp
  · next h => simpa using h

end Task

namespace Store

variable {s : Store} {t u : Task} {ts : List Task}

/-- The store after these running tasks were given back. -/
def giveBackAll (s : Store) (ts : List Task) : Store := ts.foldl (fun s t => s.setTask t.givenBack) s

theorem Keyed.giveBackAll (hs : s.Keyed) (ts : List Task) : (s.giveBackAll ts).Keyed := hs.rewriteAll Task.givenBack ts

theorem holds_giveBackAll (hts : (ts.map (·.id)).Nodup) :
    (s.giveBackAll ts).Holds u ↔ (∃ t ∈ ts, u = t.givenBack) ∨ (s.Holds u ∧ ∀ t ∈ ts, u.id ≠ t.id) :=
  holds_rewriteAll Task.givenBack_id hts

theorem reclaim_eq (hs : s.Keyed) (ht : s.Holds t) (hr : t.status = .running) :
    s.reclaim t.id = .ok (t.givenBack, s.setTask t.givenBack) :=
  hs.updateTask_eq ht (Task.giveBack_eq hr) (Task.givenBack_id t)

end Store

namespace StoreProgram

variable {s : Store}

theorem run_reclaimEach (hs : s.Keyed) {ts : List Task} (hts : (ts.map (·.id)).Nodup)
    (hrows : ∀ t ∈ ts, s.Holds t ∧ t.status = .running) :
    (reclaimEach ts).run.run s = (.finished (.ok (ts.map (·.id))), s.giveBackAll ts) := by
  induction ts generalizing s with
  | nil => rfl
  | cons t ts ih =>
    obtain ⟨⟨ht, hr⟩, hrest⟩ := List.forall_mem_cons.1 hrows
    have hlater : ∀ u ∈ ts, (s.setTask t.givenBack).Holds u ∧ u.status = .running :=
      Store.held_after_setTask hts hrest (Task.givenBack_id t)
    unfold reclaimEach
    rw [run_transaction_bind _ (Store.reclaim_eq hs ht hr),
      run_bind_finished _ (ih (hs.setTask _) (List.nodup_cons.1 hts).2 hlater)]
    rfl

theorem run_reclaimExpired (hs : s.Keyed) (now : UInt64) :
    ∃ ts, s.Lists (·.hasExpiredLease now = true) ts ∧
      (reclaimExpired now).run.run s = (.finished (.ok (ts.map (·.id))), s.giveBackAll ts) := by
  obtain ⟨ts, hts, hlist⟩ := hs.tasksWhere_ok (·.hasExpiredLease now)
  refine ⟨ts, hlist, (run_read_bind _ hts).trans (run_reclaimEach hs hlist.nodup fun t ht => ?_)⟩
  obtain ⟨hheld, hexp⟩ := (hlist.mem t).1 ht
  exact ⟨hheld, (Task.hasExpiredLease_iff.1 hexp).1⟩

/-- The workspaces with that of a task added, if there is one and it waits for its apply. -/
def withWaiting (names : List String) (found : Option Task) : List String :=
  match found.filter (·.status == .applyPending) with
  | some t => if names.contains t.workspace then names else names ++ [t.workspace]
  | none => names

theorem mem_withWaiting {names : List String} {found : Option Task} {name : String} :
    name ∈ withWaiting names found ↔
      name ∈ names ∨ ∃ t, found = some t ∧ t.status = .applyPending ∧ t.workspace = name := by
  cases found with
  | none => simp [withWaiting]
  | some t =>
    by_cases hst : t.status = .applyPending
    · by_cases hin : t.workspace ∈ names
      · simp only [withWaiting, Option.filter, hst, beq_self_eq_true, if_true, List.contains_iff_mem, hin]
        refine ⟨.inl, ?_⟩
        rintro (h | ⟨_, he, -, rfl⟩)
        · exact h
        · cases he; exact hin
      · simp [withWaiting, Option.filter, hst, hin, eq_comm]
    · simp [withWaiting, Option.filter, hst]

theorem nodup_withWaiting {names : List String} (h : names.Nodup) (found : Option Task) : (withWaiting names found).Nodup := by
  unfold withWaiting
  split
  · next t _ =>
    split
    · exact h
    · next hnew =>
      refine List.nodup_append.2 ⟨h, by simp, fun a ha b hb => ?_⟩
      rw [List.mem_singleton.1 hb]
      rintro rfl
      exact hnew (List.contains_iff_mem.2 ha)
  · exact h

theorem run_addWaiting (hs : s.Keyed) (names : List String) (ids : List UInt64) :
    ∃ names', (addWaiting names ids).run.run s = (.finished (.ok names'), s) ∧ (names.Nodup → names'.Nodup) ∧
      ∀ name, name ∈ names' ↔ name ∈ names ∨
        ∃ t, s.Holds t ∧ t.id ∈ ids ∧ t.status = .applyPending ∧ t.workspace = name := by
  induction ids generalizing names with
  | nil => exact ⟨names, rfl, id, fun name => by simp⟩
  | cons id ids ih =>
    obtain ⟨found, hfound⟩ := hs.task?_ok id
    obtain ⟨names', hrun, hnodup, hmem⟩ := ih (withWaiting names found)
    refine ⟨names', ?_, fun h => hnodup (nodup_withWaiting h found), fun name => ?_⟩
    · show (read (·.task? id) >>= fun found => addWaiting (withWaiting names found) ids).run.run s = _
      rw [run_read_bind _ hfound, hrun]
    rw [hmem, mem_withWaiting, or_assoc]
    have hrow : ∀ t, found = some t ↔ s.Holds t ∧ t.id = id := by
      intro t
      rw [← hs.task?_iff, hfound, Except.ok.injEq]
    refine or_congr_right ?_
    constructor
    · rintro (⟨t, ht, hst, hw⟩ | ⟨t, ht, hid, hst, hw⟩)
      · obtain ⟨hheld, rfl⟩ := (hrow t).1 ht
        exact ⟨t, hheld, List.mem_cons_self, hst, hw⟩
      · exact ⟨t, ht, List.mem_cons_of_mem _ hid, hst, hw⟩
    · rintro ⟨t, ht, hid, hst, hw⟩
      rcases List.mem_cons.1 hid with he | hid
      · exact .inl ⟨t, (hrow t).2 ⟨ht, he⟩, hst, hw⟩
      · exact .inr ⟨t, ht, hid, hst, hw⟩

end StoreProgram

/-! ## Workspaces queued -/

namespace World

variable {w : World} {names : List String} {name : String}

/-- A workspace is due at once when it is queued for now. -/
theorem due_trigger (w : World) (name : String) : ∃ d, (w.trigger name).queue.deadline? name = some d ∧ d ≤ w.clock := by
  show ∃ d, (w.queue.schedule name w.clock).2.deadline? name = some d ∧ _
  rw [RetryQueue.deadline?_schedule, if_pos rfl]
  refine ⟨_, rfl, ?_⟩
  cases w.queue.deadline? name with
  | none => exact UInt64.le_refl _
  | some current =>
    simp only
    split
    · exact UInt64.le_refl _
    · next hnlt => exact UInt64.not_lt.1 hnlt

theorem deadline?_trigger_of_ne {workspace : String} (h : workspace ≠ name) :
    (w.trigger workspace).queue.deadline? name = w.queue.deadline? name := by
  show (w.queue.schedule workspace _).2.deadline? name = _
  rw [RetryQueue.deadline?_schedule, if_neg h]

/-- Only the queue and its driver notice that workspaces are queued. -/
theorem triggerAll_eq (w : World) (names : List String) :
    ∃ queue notified, w.triggerAll names = { w with queue, queueNotified := notified } := by
  induction names generalizing w with
  | nil => exact ⟨_, _, rfl⟩
  | cons name names ih =>
    obtain ⟨queue, notified, h⟩ := ih (w.trigger name)
    exact ⟨queue, notified, h⟩

/-- What is due stays due while workspaces are queued for now. -/
theorem due_triggerAll (h : ∃ d, w.queue.deadline? name = some d ∧ d ≤ w.clock) (names : List String) :
    ∃ d, (w.triggerAll names).queue.deadline? name = some d ∧ d ≤ w.clock := by
  induction names generalizing w with
  | nil => exact h
  | cons workspace names ih =>
    refine ih (w := w.trigger workspace) ?_
    by_cases he : workspace = name
    · exact he ▸ due_trigger w workspace
    · rw [deadline?_trigger_of_ne he]
      exact h

theorem due_of_mem_triggerAll (h : name ∈ names) :
    ∃ d, (w.triggerAll names).queue.deadline? name = some d ∧ d ≤ w.clock := by
  induction names generalizing w with
  | nil => cases h
  | cons workspace names ih =>
    rcases List.mem_cons.1 h with rfl | h
    · exact due_triggerAll (w := w.trigger name) (due_trigger w name) names
    · exact ih (w := w.trigger workspace) h

theorem deadline?_triggerAll (h : name ∉ names) : (w.triggerAll names).queue.deadline? name = w.queue.deadline? name := by
  induction names generalizing w with
  | nil => rfl
  | cons workspace names ih =>
    rw [List.mem_cons, not_or] at h
    rw [← deadline?_trigger_of_ne (w := w) (Ne.symm h.1)]
    exact ih (w := w.trigger workspace) h.2

end World

namespace Recovery

open Fallible

variable {w : World} {now : UInt64} {α β : Type}

theorem run_trigger (w : World) (names : List String) : (trigger names).run w = (.finished (), w.triggerAll names) := by
  induction names generalizing w with
  | nil => rfl
  | cons name names ih => exact ih (w.trigger name)

theorem run_onStore_bind {p : StoreProgram α} {a : α} {s : Store} (k : α → Fallible StoreError β)
    (h : p.run.run w.store = (.finished (.ok a), s)) :
    (onStore p >>= k).run.run w = (k a).run.run { w with store := s } := by
  rw [onStore, run_ofResult_bind, Program.run_bind, Program.run_onStore, h]

theorem run_onStore_bind_error {p : StoreProgram α} {e : StoreError} {s : Store} (k : α → Fallible StoreError β)
    (h : p.run.run w.store = (.finished (.error e), s)) :
    (onStore p >>= k).run.run w = (.finished (.error e), { w with store := s }) := by
  rw [onStore, run_ofResult_bind, Program.run_bind, Program.run_onStore, h]
  rfl

/-- The workspace has a pending task, or an apply that was taken back because its lease had
    run out by then. -/
def HasWork (before after : Store) (now : UInt64) (name : String) : Prop :=
  ∃ t, after.Holds t ∧ t.workspace = name ∧
    (t.status = .pending ∨ t.status = .applyPending ∧ ∃ u, before.Holds u ∧ u.id = t.id ∧ u.hasExpiredLease now = true)

/-- All that a sweep does. -/
theorem run_sweep (hs : w.store.Keyed) (now : UInt64) :
    ∃ ts names, (ts.map (·.id)).Nodup ∧ (∀ t, t ∈ ts ↔ w.store.Holds t ∧ t.hasExpiredLease now = true) ∧
      names.Nodup ∧ (∀ name, name ∈ names ↔ HasWork w.store (w.store.giveBackAll ts) now name) ∧
      (sweep now).run.run w =
        (.finished (.ok names.length), { w with store := w.store.giveBackAll ts }.triggerAll names) := by
  obtain ⟨ts, hlist, hreclaim⟩ := StoreProgram.run_reclaimExpired hs now
  have hmem := hlist.mem
  have hs' := hs.giveBackAll ts
  obtain ⟨pending, hpending, hnodup, hpend⟩ := hs'.workspacesWithPending_ok
  obtain ⟨names, hnames, hkeep, hadd⟩ := StoreProgram.run_addWaiting hs' pending (ts.map (·.id))
  refine ⟨ts, names, hlist.nodup, hmem, hkeep hnodup, fun name => ?_, ?_⟩
  · rw [hadd, hpend]
    constructor
    · rintro (⟨t, ht, hst, hw⟩ | ⟨t, ht, hid, hst, hw⟩)
      · exact ⟨t, ht, hw, .inl hst⟩
      · obtain ⟨u, hu, he⟩ := List.mem_map.1 hid
        obtain ⟨hheld, hexp⟩ := (hmem u).1 hu
        exact ⟨t, ht, hw, .inr ⟨hst, u, hheld, he, hexp⟩⟩
    · rintro ⟨t, ht, hw, hst | ⟨hst, u, hu, he, hexp⟩⟩
      · exact .inl ⟨t, ht, hst, hw⟩
      · exact .inr ⟨t, ht, he ▸ List.mem_map_of_mem ((hmem u).2 ⟨hu, hexp⟩), hst, hw⟩
  · have hlist : (StoreProgram.read (·.workspacesWithPending)).run.run (w.store.giveBackAll ts) =
        (.finished (.ok pending), w.store.giveBackAll ts) := by rw [← hpending]; rfl
    unfold sweep
    rw [run_onStore_bind _ hreclaim, run_onStore_bind _ hlist, run_onStore_bind _ hnames, run_always_bind,
      Program.run_bind, run_trigger]
    rfl

/-- A sweep of a keyed store succeeds and leaves no task running on a lease that ran out. Every
    workspace with work is due afterwards, every other deadline is as it was, and the answer is
    the number of workspaces with work. -/
theorem sweep_queues_waiting_work (hs : w.store.Keyed) (now : UInt64) :
    ∃ n w', (sweep now).run.run w = (.finished (.ok n), w') ∧
      (∀ t', w'.store.Holds t' ↔ ∃ t, w.store.Holds t ∧ t' = t.swept now) ∧
      (∀ t l, w'.store.Holds t → t.status = .running → t.lease = some l → now < l.expiresAt) ∧
      (∀ name, HasWork w.store w'.store now name → ∃ d, w'.queue.deadline? name = some d ∧ d ≤ w'.clock) ∧
      (∀ name, ¬HasWork w.store w'.store now name → w'.queue.deadline? name = w.queue.deadline? name) ∧
      (∃ names : List String, names.Nodup ∧ (∀ name, name ∈ names ↔ HasWork w.store w'.store now name) ∧
        n = names.length) ∧
      w' = { w with store := w'.store, queue := w'.queue, queueNotified := w'.queueNotified } := by
  obtain ⟨ts, names, hdistinct, hmem, hnodup, hwork, hrun⟩ := run_sweep hs now
  obtain ⟨queue, notified, hw'⟩ := World.triggerAll_eq { w with store := w.store.giveBackAll ts } names
  have hstore : ({ w with store := w.store.giveBackAll ts }.triggerAll names).store = w.store.giveBackAll ts := by rw [hw']
  have hclock : ({ w with store := w.store.giveBackAll ts }.triggerAll names).clock = w.clock := by rw [hw']
  have hrows : ∀ t', (w.store.giveBackAll ts).Holds t' ↔ ∃ t, w.store.Holds t ∧ t' = t.swept now :=
    fun _ => Store.holds_rewriteAll_where Task.givenBack_id hdistinct hmem
  refine ⟨names.length, _, hrun, ?_⟩
  rw [hstore, hclock]
  refine ⟨hrows, fun t' l ht' hst hl => ?_, fun name h => ?_, fun name h => ?_, ⟨names, hnodup, hwork, rfl⟩, ?_⟩
  · obtain ⟨t, -, rfl⟩ := (hrows t').1 ht'
    refine UInt64.not_le.1 fun hle => ?_
    have hexp := Task.hasExpiredLease_iff.2 ⟨hst, l, hl, hle⟩
    rw [Task.hasExpiredLease_swept] at hexp
    cases hexp
  · exact World.due_of_mem_triggerAll (w := { w with store := w.store.giveBackAll ts }) ((hwork name).2 h)
  · exact World.deadline?_triggerAll (w := { w with store := w.store.giveBackAll ts }) fun hin => h ((hwork name).1 hin)
  · rw [hw']

/-! ## A confirmed apply that waits -/

/-- A task whose apply is confirmed, in a workspace that is on hold or not. -/
def parkedApply (isLocked : Bool) : Store :=
  (({} : Store).putWorkspace { id := "ws", mode := .onHost, isLocked }).setTask
    { Task.submitted "ws" .planAndApply 0 .manual with
      id := 1, status := .applyPending, stage := some .applyPending, confirmedBy := some "alice", confirmedAt := some 1 }

/-- Beside it, a pending task and an apply whose claim ran out. -/
def parkedAmongOthers : Store :=
  ((parkedApply false).setTask { Task.submitted "lab" .plan 0 .manual with id := 2 }).setTask
    { Task.submitted "shop" .planAndApply 0 .manual with
      id := 3, status := .running, stage := some .applying, lease := some ⟨"a", 0, 60⟩ }

theorem keyed_parkedAmongOthers : parkedAmongOthers.Keyed :=
  (((Store.keyed_empty.congr rfl).setTask _).setTask _).setTask _

/-- The sweep takes back the apply and queues its workspace and that of the pending task. -/
theorem sweep_queues_waiting_work_two_workspaces :
    parkedAmongOthers.Keyed ∧
      ∃ w', (sweep 60).run.run { clock := 60000, store := parkedAmongOthers } = (.finished (.ok 2), w') ∧
        (∀ t l, w'.store.Holds t → t.status = .running → t.lease = some l → 60 < l.expiresAt) ∧
        (∀ name, HasWork parkedAmongOthers w'.store 60 name → ∃ d, w'.queue.deadline? name = some d ∧ d ≤ w'.clock) ∧
        w'.queue.deadline? "lab" = some 60000 ∧ w'.queue.deadline? "shop" = some 60000 ∧
        w'.queue.deadline? "ws" = none := by
  obtain ⟨n, w', hrun, -, hleases, hdue, -⟩ :=
    sweep_queues_waiting_work (w := { clock := 60000, store := parkedAmongOthers }) keyed_parkedAmongOthers 60
  have hw' : (sweep 60).run.run { clock := 60000, store := parkedAmongOthers } = (.finished (.ok 2), _) := rfl
  rw [hw'] at hrun
  cases hrun
  exact ⟨keyed_parkedAmongOthers, _, hw', hleases, hdue, rfl, rfl, rfl⟩

/-- The apply is confirmed and turned away while the workspace is on hold. When the hold is
    gone, a sweep succeeds, finds nothing to do and queues nothing. -/
theorem sweep_forgets_confirmed_apply :
    let held : World := { clock := 1760000000000, store := parkedApply true }
    let free : World := { held with store := parkedApply false }
    (Dispatch.executeConfirmedApply { holder := "a" } 0 "ws" 1).run.run held = (.finished (.ok .idle), held) ∧
      (∃ t, free.store.Holds t ∧ t.workspace = "ws" ∧ t.status = .applyPending ∧ t.isApplyConfirmed = true) ∧
      (sweep 1760000000).run.run free = (.finished (.ok 0), free) ∧ free.queue.deadline? "ws" = none := by
  refine ⟨rfl, ⟨_, Store.holds_setTask.2 (.inl rfl), rfl, rfl, ?_⟩, rfl, rfl⟩
  decide

end Recovery

end TaskFleet
