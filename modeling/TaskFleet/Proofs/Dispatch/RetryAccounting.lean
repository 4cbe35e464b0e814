/-
  TaskFleet.Proofs.Dispatch.RetryAccounting — what a failed attempt costs its task, and when its
  workspace has its turn again.

  A retry for want of a pool or of any agent comes after a fixed delay and is not counted. Any other
  is counted, and its delay grows with the count. Nobody else writes to store and queue during an
  attempt; between attempts anything may happen that leaves the count of the task alone.
  - `Accounted`: what an attempt leaves of row and queue, by its answer.
  - `Failures`: attempts that fail on one task, one after the other.
  - `retries_are_accounted`: one attempt, and any number of failures.
-/

import TaskFleet.Proofs.Dispatch.Exits
import TaskFleet.Proofs.Dispatch.Frame

namespace TaskFleet

/-- Whether a retry for this reason counts as a failed attempt. -/
def RetryReason.counts : RetryReason → Bool
  | noPool | noConnectedAgents => false
  | _ => true

namespace Retries

open Dispatch Fallible Program Store

variable {cfg : Settings} {workspace : String} {process n : Nat} {w w₁ w₂ w' : World} {t u : Task} {id : UInt64} {count : UInt32}
  {reason : RetryReason} {delay : Duration} {o : DispatchOutcome} {p : Fallible DispatchError DispatchOutcome}

/-! ## Meanwhile -/

/-- Others leave store and queue alone, and the clock is not turned back. -/
structure Elapses (w w' : World) : Prop where
  store : w'.store = w.store
  queue : w'.queue = w.queue
  clock : w.clock ≤ w'.clock

instance : IsPreorder World Elapses where
  refl _ := ⟨rfl, rfl, UInt64.le_refl _⟩
  trans _ _ _ h h' := ⟨h'.store.trans h.store, h'.queue.trans h.queue, UInt64.le_trans h.clock h'.clock⟩

theorem elapses_locks (w : World) (locks : Locks) : Elapses w { w with locks } := ⟨rfl, rfl, UInt64.le_refl _⟩

/-- The queue is as it was, and the clock was not turned back. -/
structure OnTime (w w' : World) : Prop where
  queue : w'.queue = w.queue
  clock : w.clock ≤ w'.clock

instance : IsPreorder World OnTime where
  refl _ := ⟨rfl, UInt64.le_refl _⟩
  trans _ _ _ h h' := ⟨h'.queue.trans h.queue, UInt64.le_trans h.clock h'.clock⟩

theorem blind_onTime : Blind OnTime where
  store _ _ := ⟨rfl, UInt64.le_refl _⟩
  pods _ _ := ⟨rfl, UInt64.le_refl _⟩
  agents _ _ := ⟨rfl, UInt64.le_refl _⟩
  jobs _ _ := ⟨rfl, UInt64.le_refl _⟩

theorem Elapses.onTime (h : Elapses w w') : OnTime w w' := ⟨h.queue, h.clock⟩

theorem Elapses.spares (h : Elapses w w') : Spares OnTime w w' := ⟨congrArg Store.tasks h.store, h.onTime⟩

/-! ## Counts and deadlines -/

/-- So many failed attempts later, as far as 32 bits count. -/
def countFrom (count : UInt32) (k : Nat) : UInt32 := UInt32.ofNat (min (count.toNat + k) 0xFFFFFFFF)

theorem toNat_countFrom (count : UInt32) (k : Nat) : (countFrom count k).toNat = min (count.toNat + k) 0xFFFFFFFF := by
  unfold countFrom
  rw [UInt32.toNat_ofNat']
  exact Nat.mod_eq_of_lt (by omega)

@[simp] theorem countFrom_zero (count : UInt32) : countFrom count 0 = count := by
  have hlt := count.toNat_lt
  rw [← UInt32.toNat_inj, toNat_countFrom]
  omega

theorem countFrom_countFrom (count : UInt32) (j k : Nat) : countFrom (countFrom count j) k = countFrom count (j + k) := by
  rw [← UInt32.toNat_inj]
  simp only [toNat_countFrom]
  omega

theorem retryCount_countRetry (t : Task) : t.countRetry.retryCount = countFrom t.retryCount 1 := by
  have hlt := t.retryCount.toNat_lt
  unfold Task.countRetry
  simp only
  split
  · next hmost =>
    rw [← UInt32.toNat_inj, toNat_countFrom, hmost]
    decide
  · next hless =>
    have hne : t.retryCount.toNat ≠ 0xFFFFFFFF := fun h => hless (UInt32.toNat_inj.1 h)
    rw [← UInt32.toNat_inj, toNat_countFrom, UInt32.toNat_add]
    simp
    omega

/-- The delay before the next attempt on a task, after one that failed for this reason. -/
def delayAfter (cfg : Settings) (count : UInt32) : RetryReason → Duration
  | .noPool => cfg.dispatch.noPoolDelay
  | .noConnectedAgents => cfg.dispatch.noAgentsDelay
  | _ => cfg.dispatch.backoff.delay count

/-- The workspace is queued for the end of the delay, which began at some moment between the two
    states, or for an earlier deadline that it had before; no other deadline changes. -/
structure Requeued (workspace : String) (delay : Duration) (w w' : World) : Prop where
  deadline : ∃ now, w.clock ≤ now ∧ now ≤ w'.clock ∧ (now.toNat + delay.millis < UInt64.size →
    ∃ d, w'.queue.deadline? workspace = some d ∧
      d.toNat = (w.queue.deadline? workspace).elim (now.toNat + delay.millis) fun old => min old.toNat (now.toNat + delay.millis))
  others : ∀ name, name ≠ workspace → w'.queue.deadline? name = w.queue.deadline? name

theorem deadline?_scheduleAt_self (w : World) (notBefore : UInt64) :
    ∃ d, (w.scheduleAt workspace notBefore).queue.deadline? workspace = some d ∧
      d.toNat = (w.queue.deadline? workspace).elim notBefore.toNat fun old => min old.toNat notBefore.toNat := by
  have hqueue : (w.scheduleAt workspace notBefore).queue = (w.queue.schedule workspace notBefore).2 := rfl
  rw [hqueue, RetryQueue.deadline?_schedule, if_pos rfl]
  refine ⟨_, rfl, ?_⟩
  cases w.queue.deadline? workspace with
  | none => rfl
  | some old =>
    simp only [Option.elim_some]
    split
    · next hlt =>
      have hlt := UInt64.lt_iff_toNat_lt.1 hlt
      omega
    · next hle =>
      have hle := UInt64.le_iff_toNat_le.1 (UInt64.not_lt.1 hle)
      omega

theorem requeued_of_scheduleAt {notBefore : UInt64} (hbefore : OnTime w w₁) (hafter : w₁.after? delay = some notBefore)
    (hlast : Elapses (w₁.scheduleAt workspace notBefore) w') : Requeued workspace delay w w' where
  deadline := by
    refine ⟨w₁.clock, hbefore.clock, hlast.clock, fun hfits => ?_⟩
    have hsum : notBefore.toNat = w₁.clock.toNat + delay.millis := by
      have hmod : delay.millis % UInt64.size = delay.millis := Nat.mod_eq_of_lt (by omega)
      rw [w₁.after?_eq_some_iff.1 hafter, hmod]
    rw [hlast.queue, ← hbefore.queue, ← hsum]
    exact deadline?_scheduleAt_self w₁ notBefore
  others := fun name hname => by rw [hlast.queue, deadline?_scheduleAt w₁ notBefore hname, hbefore.queue]

/-! ## One attempt -/

/-- The attempts of a dispatcher on a workspace. -/
inductive AttemptBy (cfg : Settings) (workspace : String) : Fallible DispatchError DispatchOutcome → Prop
  | next (process : Nat) : AttemptBy cfg workspace (tryDispatch cfg process workspace)
  | confirmedApply (process : Nat) (task : UInt64) : AttemptBy cfg workspace (executeConfirmedApply cfg process workspace task)

/-- No row and no deadline has changed. -/
structure Untouched (w w' : World) : Prop where
  rows : ∀ key, w'.store.tasks.get? key = w.store.tasks.get? key
  queue : w'.queue = w.queue

/-- A task that is started has no failed attempts, and no lease of the dispatcher. -/
structure StartsAfresh (holder : String) (u : Task) : Prop where
  count : u.retryCount = 0
  lease : ∀ l, u.lease = some l → l.holder ≠ holder

/-- A failed attempt on a task has cost it this row. -/
structure Costs (t : Task) (reason : RetryReason) (u : Task) : Prop where
  count : reason.counts = true → u.retryCount = countFrom t.retryCount 1
  flat : reason.counts = false → u = t

/-- What an attempt leaves of the rows and of the queue, by its answer. -/
def Accounted (cfg : Settings) (workspace : String) (w w' : World) : DispatchOutcome → Prop
  | .idle => Untouched w w'
  | .skipped _ => Untouched w w'
  | .started id _ => ∃ t u, Picked workspace t w.store ∧ t.id = id ∧ u.id = id ∧ RowIs u w.store w'.store ∧
      StartsAfresh cfg.holder u ∧ w'.queue = w.queue
  | .retry id delay reason => ∃ t u, Picked workspace t w.store ∧ t.id = id ∧ u.id = id ∧ RowIs u w.store w'.store ∧
      delay = delayAfter cfg t.retryCount reason ∧ Costs t reason u ∧ Requeued workspace delay w w'

theorem Elapses.untouched (h : Elapses w w') : Untouched w w' := ⟨fun _ => by rw [h.store], h.queue⟩

theorem startsAfresh_settle (agent : Option String) (now : UInt64) :
    StartsAfresh cfg.holder ((claimedRow cfg t agent now).settle cfg.holder) := by
  refine ⟨rfl, fun l hl => ?_⟩
  have hlease : ((claimedRow cfg t agent now).settle cfg.holder).lease =
      if (claimRequest cfg t now).lease?.any (·.holder == cfg.holder) then none else (claimRequest cfg t now).lease? := rfl
  rw [hlease] at hl
  cases hasked : (claimRequest cfg t now).lease? with
  | none => rw [hasked] at hl; cases hl
  | some lease =>
    have hholder : lease.holder = cfg.holder := holder_of_lease? hasked
    rw [hasked, Option.any_some, hholder, beq_self_eq_true, if_pos rfl] at hl
    cases hl

theorem delay_of_again (h : Again cfg t reason delay u) : delay = delayAfter cfg t.retryCount reason := by cases h <;> rfl

theorem costs_of_again (h : Again cfg t reason delay u) : Costs t reason u := by
  cases h with
  | noPool => exact ⟨nofun, fun _ => rfl⟩
  | noAgents => exact ⟨nofun, fun _ => rfl⟩
  | noSlot => exact ⟨fun _ => retryCount_countRetry t, nofun⟩
  | noAgent => exact ⟨fun _ => retryCount_countRetry t, nofun⟩
  | notClaimed => exact ⟨fun _ => retryCount_countRetry t, nofun⟩
  | notSent => exact ⟨fun _ => retryCount_countRetry _, nofun⟩

/-- A call on a task that the store holds. -/
theorem accounted_of_exits (ht : Picked workspace t w.store) (hbefore : Elapses w w₁) (hafter : Elapses w₂ w')
    (h : Exits Elapses OnTime cfg t w₁ w₂ (.ok o)) : Accounted cfg workspace w w' o := by
  have hrow : ∀ {u : Task} {v : World}, SoFar OnTime u w₁ v → RowIs u w.store v.store := fun h =>
    ⟨h.row.row, fun key hkey => (h.row.rows key hkey).trans (by rw [hbefore.store])⟩
  cases h with
  | ended hover hfar =>
    have hqueue : w'.queue = w.queue := (hafter.queue.trans hfar.rest.queue).trans hbefore.queue
    have hrow := (hrow hfar).congr (congrArg Store.tasks hafter.store)
    cases hover with
    | skipped => exact ⟨hrow.get? ht.1, hqueue⟩
    | started agent now =>
      exact ⟨t, (claimedRow cfg t agent now).settle cfg.holder, ht, rfl, rfl, hrow, startsAfresh_settle agent now, hqueue⟩
  | @again u reason delay v notBefore hagain hfar htime hlast =>
    have hlast : Elapses (v.scheduleAt t.workspace notBefore) w' := trans_of Elapses hlast hafter
    have hrow : RowIs u w.store w'.store := (hrow hfar).congr (congrArg Store.tasks hlast.store)
    refine ⟨t, u, ht, rfl, hagain.id, hrow, delay_of_again hagain, costs_of_again hagain, ?_⟩
    exact ht.2 ▸ requeued_of_scheduleAt (trans_of OnTime hbefore.onTime hfar.rest) htime hlast

theorem accounted_of_choice (hf : Filed w.store) (h : Choice Elapses cfg process workspace w w' (.ok (.ok o))) :
    Accounted cfg workspace w w' o := by
  cases h with
  | nothing hidles hw =>
    cases o with
    | idle | skipped => exact hw.untouched
    | started | retry => exact hidles.elim
  | @task _ t w₁ w₂ _ hc he hw =>
    have ht := hc.picked (fun _ _ h => h.store) hf
    have hbefore : Elapses w w₁ := hc.between
    have hheld : w₁.store.Holds t := by
      rw [hbefore.store]
      exact ht.1
    rcases exits_dispatchTaskBy (fun _ _ h => h.spares) blind_onTime (Agent.onlyAgents_sendTask process) hheld he with
      ⟨e, hr, -⟩ | ⟨r', hr, hexits⟩
    · cases hr
    · cases r' with
      | error m => cases hr
      | ok o' =>
        cases hr
        exact accounted_of_exits ht hbefore hw hexits

theorem AttemptBy.accounted (hp : AttemptBy cfg workspace p) (hf : Filed w.store)
    (he : Ends Elapses n p.run w (.ok (.ok o)) w') : Accounted cfg workspace w w' o := by
  cases hp with
  | next process => exact accounted_of_choice hf (choice_tryDispatch elapses_locks he)
  | confirmedApply process task => exact accounted_of_choice hf (choice_executeConfirmedApply elapses_locks he)

/-! ## One failure after the other -/

/-- The store has the task with this count of failed attempts. -/
def CountIs (id : UInt64) (count : UInt32) (s : Store) : Prop := ∃ t, s.Holds t ∧ t.id = id ∧ t.retryCount = count

/-- Attempts that fail on a task, each with its reason and its delay. Between two attempts others may
    do anything that leaves the task its count, and every row under its own key. -/
inductive Failures (cfg : Settings) (id : UInt64) : World → List (RetryReason × Duration) → World → Prop
  | none (w : World) : Failures cfg id w [] w
  | attempt {w w₁ w' : World} {workspace : String} {p : Fallible DispatchError DispatchOutcome} {n : Nat} {delay : Duration}
      {reason : RetryReason} {rest : List (RetryReason × Duration)} : AttemptBy cfg workspace p →
      Ends Elapses n p.run w (.ok (.ok (.retry id delay reason))) w₁ → Failures cfg id w₁ rest w' →
      Failures cfg id w ((reason, delay) :: rest) w'
  | others {w w₁ w' : World} {l : List (RetryReason × Duration)} : Filed w₁.store →
      (∀ count, CountIs id count w.store → CountIs id count w₁.store) → Failures cfg id w₁ l w' → Failures cfg id w l w'

/-- The delays of the failures that count, in order. -/
def backoffs (l : List (RetryReason × Duration)) : List Duration := (l.filter (·.1.counts)).map (·.2)

/-- The delays that begin with a count, so many of them. -/
def backoffSequence (cfg : Settings) (count : UInt32) (k : Nat) : List Duration :=
  (List.range k).map fun i => cfg.dispatch.backoff.delay (countFrom count i)

theorem backoffSequence_succ (cfg : Settings) (count : UInt32) (k : Nat) :
    backoffSequence cfg count (k + 1) = cfg.dispatch.backoff.delay count :: backoffSequence cfg (countFrom count 1) k := by
  unfold backoffSequence
  rw [List.range_succ_eq_map, List.map_cons, List.map_map, countFrom_zero]
  refine congrArg (_ :: ·) (List.map_congr_left fun i _ => ?_)
  rw [countFrom_countFrom, Nat.add_comm 1 i]
  rfl

theorem filed_of_rowIs {s s' : Store} (hf : Filed s) (h : RowIs u s s') : Filed s' := by
  intro key t ht
  by_cases hkey : key = u.key
  · have hrow : s'.tasks.get? u.key = some (.record u) := h.row
    rw [hkey, hrow] at ht
    cases ht
    exact hkey
  · exact hf key t (h.rows key hkey ▸ ht)

/-- What one failure does to the count. -/
theorem countIs_of_accounted (hf : Filed w.store) (hc : CountIs id count w.store)
    (h : Accounted cfg workspace w w' (.retry id delay reason)) :
    delay = delayAfter cfg count reason ∧ Filed w'.store ∧
      CountIs id (if reason.counts then countFrom count 1 else count) w'.store := by
  obtain ⟨t, u, ht, hid, huid, hrow, hdelay, hcosts, -⟩ := h
  obtain ⟨t', ht', hid', hcount⟩ := hc
  rw [holds_inj ht' ht.1 (hid'.trans hid.symm)] at hcount
  refine ⟨by rw [hdelay, hcount], filed_of_rowIs hf hrow, u, hrow.row, huid, ?_⟩
  cases hcounts : reason.counts with
  | true => rw [hcosts.count hcounts, hcount]; rfl
  | false => rw [hcosts.flat hcounts, hcount]; rfl

theorem delayAfter_of_counts (h : reason.counts = true) : delayAfter cfg count reason = cfg.dispatch.backoff.delay count := by
  cases reason with
  | noPool | noConnectedAgents => cases h
  | _ => rfl

theorem delayAfter_of_flat (h : reason.counts = false) (count' : UInt32) :
    delayAfter cfg count reason = delayAfter cfg count' reason := by
  cases reason with
  | noPool | noConnectedAgents => rfl
  | _ => cases h

/-- The delays of the failures that count follow the sequence, as if there were no others. -/
theorem Failures.counted {l : List (RetryReason × Duration)} (h : Failures cfg id w l w') (hf : Filed w.store)
    (hc : CountIs id count w.store) :
    backoffs l = backoffSequence cfg count (backoffs l).length ∧ CountIs id (countFrom count (backoffs l).length) w'.store := by
  induction h generalizing count with
  | none w => exact ⟨rfl, by simpa [backoffs] using hc⟩
  | others hf₁ hkeeps _ ih => exact ih hf₁ (hkeeps count hc)
  | @attempt w w₁ w' workspace p n delay reason rest hp he _ ih =>
    obtain ⟨hdelay, hf₁, hcount⟩ := countIs_of_accounted hf hc (hp.accounted hf he)
    obtain ⟨hseq, hend⟩ := ih hf₁ hcount
    cases hcounts : reason.counts with
    | true =>
      have hback : backoffs ((reason, delay) :: rest) = delay :: backoffs rest := by simp [backoffs, hcounts]
      rw [hcounts, if_pos rfl] at hseq hend
      rw [hback, List.length_cons, backoffSequence_succ, ← hseq, hdelay, delayAfter_of_counts hcounts]
      rw [countFrom_countFrom, Nat.add_comm] at hend
      exact ⟨rfl, hend⟩
    | false =>
      have hback : backoffs ((reason, delay) :: rest) = backoffs rest := by simp [backoffs, hcounts]
      rw [hcounts, if_neg Bool.false_ne_true] at hseq hend
      rw [hback]
      exact ⟨hseq, hend⟩

/-- The other failures have the delays of their reasons. -/
theorem Failures.flat {l : List (RetryReason × Duration)} (h : Failures cfg id w l w') (hf : Filed w.store)
    (hc : CountIs id count w.store) : ∀ f ∈ l, f.1.counts = false → f.2 = delayAfter cfg count f.1 := by
  induction h generalizing count with
  | none w => exact fun _ hmem => absurd hmem List.not_mem_nil
  | others hf₁ hkeeps _ ih => exact ih hf₁ (hkeeps count hc)
  | @attempt w w₁ w' workspace p n delay reason rest hp he _ ih =>
    obtain ⟨hdelay, hf₁, hcount⟩ := countIs_of_accounted hf hc (hp.accounted hf he)
    intro f hmem hno
    rcases List.mem_cons.1 hmem with rfl | hmem
    · exact hdelay
    · exact (ih hf₁ hcount f hmem hno).trans (delayAfter_of_flat hno count)

/-- An attempt that answers has accounted for what it did, and so the delays of one failure after the
    other follow the backoff from the task's count on, as if there were no flat retries among them. -/
theorem retries_are_accounted (cfg : Settings) (w : World) (hf : Filed w.store) :
    (∀ workspace p n o w', AttemptBy cfg workspace p → Ends Elapses n p.run w (.ok (.ok o)) w' → Accounted cfg workspace w w' o) ∧
    ∀ id count l w', CountIs id count w.store → Failures cfg id w l w' →
      backoffs l = backoffSequence cfg count (backoffs l).length ∧ CountIs id (countFrom count (backoffs l).length) w'.store ∧
        ∀ f ∈ l, f.1.counts = false → f.2 = delayAfter cfg count f.1 := by
  refine ⟨fun workspace p n o w' hp he => hp.accounted hf he, fun id count l w' hc h => ?_⟩
  obtain ⟨hseq, hend⟩ := h.counted hf hc
  exact ⟨hseq, hend, h.flat hf hc⟩

/-- No message reaches an agent. -/
def wireCut : World := { oneFreeSlot with sendFault := some "wire cut" }

/-- What an attempt leaves. -/
def attempted (w : World) : World := ((tryDispatch { holder := "a" } 0 "ws").run.run w).2

theorem ends_attempted (h : ((tryDispatch { holder := "a" } 0 "ws").run.run w).1 = .finished (.ok o)) :
    ∃ n, Ends Elapses n (tryDispatch { holder := "a" } 0 "ws").run w (.ok (.ok o)) (attempted w) := Ends.of_run (Prod.ext h rfl)

/-- Two sends fail, and in between no agent is connected. -/
theorem retries_are_accounted_wire_cut :
    ∃ w', Failures { holder := "a" } 1 wireCut
        [(.sendFailed, .ofSecs 5), (.noConnectedAgents, .ofSecs 15), (.sendFailed, .ofSecs 10)] w' ∧
      Accounted { holder := "a" } "ws" wireCut (attempted wireCut) (.retry 1 (.ofSecs 5) .sendFailed) ∧
      backoffSequence { holder := "a" } 0 2 = [.ofSecs 5, .ofSecs 10] ∧ CountIs 1 2 w'.store := by
  have hcount : CountIs 1 0 wireCut.store :=
    ⟨{ Task.submitted "ws" .plan 0 .manual with id := 1 }, Table.get?_insert_self _ _ _, rfl, rfl⟩
  obtain ⟨n₁, h₁⟩ := ends_attempted (w := wireCut) (o := .retry 1 (.ofSecs 5) .sendFailed) rfl
  obtain ⟨w₁, hw₁⟩ : ∃ w₁, w₁ = { attempted wireCut with registry := {} } := ⟨_, rfl⟩
  obtain ⟨n₂, h₂⟩ := ends_attempted (w := w₁) (o := .retry 1 (.ofSecs 15) .noConnectedAgents) (hw₁ ▸ rfl)
  obtain ⟨w₂, hw₂⟩ : ∃ w₂, w₂ = { attempted w₁ with registry := wireCut.registry } := ⟨_, rfl⟩
  obtain ⟨n₃, h₃⟩ := ends_attempted (w := w₂) (o := .retry 1 (.ofSecs 10) .sendFailed) (hw₂ ▸ hw₁ ▸ rfl)
  obtain ⟨haccounted, hfailures⟩ := retries_are_accounted { holder := "a" } wireCut filed_oneFreeSlot
  have ha₁ := haccounted "ws" _ n₁ _ _ (.next 0) h₁
  obtain ⟨-, hf₁, hc₁⟩ := countIs_of_accounted (w := wireCut) filed_oneFreeSlot hcount ha₁
  replace hf₁ : Filed w₁.store := hw₁ ▸ hf₁
  replace hc₁ : CountIs 1 1 w₁.store := hw₁ ▸ hc₁
  obtain ⟨-, hf₂, -⟩ := countIs_of_accounted hf₁ hc₁ ((AttemptBy.next 0).accounted hf₁ h₂)
  replace hf₂ : Filed w₂.store := hw₂ ▸ hf₂
  have hrun : Failures { holder := "a" } 1 wireCut _ (attempted w₂) :=
    .attempt (.next 0) h₁ (.others hf₁ (fun _ h => hw₁ ▸ h) (.attempt (.next 0) h₂ (.others hf₂ (fun _ h => hw₂ ▸ h)
      (.attempt (.next 0) h₃ (.none _)))))
  exact ⟨attempted w₂, hrun, ha₁, rfl, (hfailures 1 0 _ _ hcount hrun).2.1⟩

end Retries

end TaskFleet
