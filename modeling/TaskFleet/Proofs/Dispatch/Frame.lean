/-
  TaskFleet.Proofs.Dispatch.Frame — all that an attempt leaves alone.

  An attempt starts one task of its workspace, or none. Up to its end, the work that it asked for
  not begun, every other row, every other deadline and every slot that is bound to another task is
  as before, and of the task's own row what the task is, who confirmed it and how it ended.
  - `Retained`, `RowWrite`: the row of the task, and all other rows.
  - `Discreet`: what an attempt does to the locks, the clock and the agents, on every step of it.
  - `frame_of_call`, `Choice.frame`, `Attempt.frame`: the frame of a call on one task, of an
    attempt that makes such a call or none, and of all attempts.
-/

import TaskFleet.Proofs.Dispatch.AttemptSteps
import TaskFleet.Proofs.Dispatch.PairedAttempts
import TaskFleet.Proofs.Store.Scans

namespace TaskFleet

/-! ## The row of the task -/

/-- What an attempt leaves of a row: what the task is, who confirmed it, and how it ended. -/
structure Task.Retained (t t' : Task) : Prop where
  id : t'.id = t.id
  workspace : t'.workspace = t.workspace
  kind : t'.kind = t.kind
  origin : t'.origin = t.origin
  createdAt : t'.createdAt = t.createdAt
  confirmedBy : t'.confirmedBy = t.confirmedBy
  confirmedAt : t'.confirmedAt = t.confirmedAt
  errorMessage : t'.errorMessage = t.errorMessage
  completedAt : t'.completedAt = t.completedAt

theorem Task.Retained.refl (t : Task) : t.Retained t := ⟨rfl, rfl, rfl, rfl, rfl, rfl, rfl, rfl, rfl⟩

theorem Task.Retained.trans {t t' t'' : Task} (h : t.Retained t') (h' : t'.Retained t'') : t.Retained t'' where
  id := h'.id.trans h.id
  workspace := h'.workspace.trans h.workspace
  kind := h'.kind.trans h.kind
  origin := h'.origin.trans h.origin
  createdAt := h'.createdAt.trans h.createdAt
  confirmedBy := h'.confirmedBy.trans h.confirmedBy
  confirmedAt := h'.confirmedAt.trans h.confirmedAt
  errorMessage := h'.errorMessage.trans h.errorMessage
  completedAt := h'.completedAt.trans h.completedAt

namespace Store

variable {s s' s'' : Store} {t t' : Task} {id : UInt64} {key : String}

/-- Nothing but the row under a key is written, and that row goes on to be of the same task. -/
structure RowWrite (key : String) (s s' : Store) : Prop where
  workspaces : s'.workspaces = s.workspaces
  pools : s'.pools = s.pools
  counter : s'.lastTaskId = s.lastTaskId
  rows : ∀ other, other ≠ key → s'.tasks.get? other = s.tasks.get? other
  own : ∀ t, s.tasks.get? key = some (.record t) → ∃ t', s'.tasks.get? key = some (.record t') ∧ t.Retained t'

theorem RowWrite.refl (key : String) (s : Store) : RowWrite key s s :=
  ⟨rfl, rfl, rfl, fun _ _ => rfl, fun t ht => ⟨t, ht, .refl t⟩⟩

theorem RowWrite.trans (h : RowWrite key s s') (h' : RowWrite key s' s'') : RowWrite key s s'' where
  workspaces := h'.workspaces.trans h.workspaces
  pools := h'.pools.trans h.pools
  counter := h'.counter.trans h.counter
  rows := fun other ho => (h'.rows other ho).trans (h.rows other ho)
  own := fun t ht => by
    obtain ⟨t', ht', hr⟩ := h.own t ht
    obtain ⟨t'', ht'', hr'⟩ := h'.own t' ht'
    exact ⟨t'', ht'', hr.trans hr'⟩

theorem rowWrite_insert (ht : s.task? id = .ok (some t)) (hr : t.Retained t') :
    RowWrite (taskKey id) s { s with tasks := s.tasks.insert (taskKey id) (.record t') } where
  workspaces := rfl
  pools := rfl
  counter := rfl
  rows := fun other ho => Table.get?_insert_of_ne _ _ ho.symm
  own := fun u hu => by
    rw [get?_of_task? ht] at hu
    cases hu
    exact ⟨t', Table.get?_insert_self _ _ _, hr⟩

theorem rowWrite_updateTask {change : Task → Except StoreError Task} (hchange : ∀ t t', change t = .ok t' → t.Retained t')
    (h : s.updateTask id change = .ok (t', s')) : RowWrite (taskKey id) s s' := by
  obtain ⟨t, ht, hc, rfl⟩ := updateTask_ok_iff.1 h
  exact rowWrite_insert ht (hchange _ _ hc)

theorem rowWrite_claimTask {r : ClaimRequest} {edit : Task → Task} {c : Claim} (hedit : ∀ t : Task, t.Retained (edit t))
    (h : s.claimTask id r edit = .ok (c, s')) : RowWrite (taskKey id) s s' := by
  rcases claimTask_cases h with ⟨-, rfl⟩ | ⟨t, ht, -, -, -, rfl⟩
  · exact .refl _ _
  · have hrun : t.Retained { t with status := .running, lease := r.lease? } := ⟨rfl, rfl, rfl, rfl, rfl, rfl, rfl, rfl, rfl⟩
    exact rowWrite_insert ht (hrun.trans (hedit _))

end Store

namespace Dispatch

open Fallible Program Store

variable {cfg : Settings} {process n : Nat} {workspace : String} {w w₁ w₂ w' : World} {t : Task}

/-! ## Steps -/

/-- What the start of a task writes: the task's row, and when its workspace is due. -/
structure OwnWrites (t : Task) (w w' : World) : Prop where
  store : RowWrite t.key w.store w'.store
  queue : ∀ name, name ≠ t.workspace → w'.queue.deadline? name = w.queue.deadline? name

/-- Others do not notice: their locks and the clock are as before, and no agent is other than it was,
    unless it is gone. -/
structure Discreet (workspace : String) (w w' : World) : Prop where
  clock : w'.clock = w.clock
  sendFault : w'.sendFault = w.sendFault
  agentsFault : w'.agentsFault = w.agentsFault
  lines : ∀ name, name ≠ workspace → w'.locks.line name = w.locks.line name
  agents : ∀ agent, w'.registry.connections.get? agent = w.registry.connections.get? agent ∨
    w'.registry.connections.get? agent = none

instance : IsPreorder World (OwnWrites t) where
  refl _ := ⟨.refl _ _, fun _ _ => rfl⟩
  trans _ _ _ h h' := ⟨h.store.trans h'.store, fun name hn => (h'.queue name hn).trans (h.queue name hn)⟩

theorem Discreet.trans (h : Discreet workspace w w₁) (h' : Discreet workspace w₁ w') : Discreet workspace w w' where
  clock := h'.clock.trans h.clock
  sendFault := h'.sendFault.trans h.sendFault
  agentsFault := h'.agentsFault.trans h.agentsFault
  lines := fun name hn => (h'.lines name hn).trans (h.lines name hn)
  agents := fun agent => by
    rcases h'.agents agent with hsame | hgone
    · rw [hsame]; exact h.agents agent
    · exact .inr hgone

instance : IsPreorder World (Discreet workspace) where
  refl _ := ⟨rfl, rfl, rfl, fun _ _ => rfl, fun _ => .inl rfl⟩
  trans _ _ _ h h' := h.trans h'

theorem deadline?_scheduleAt (w : World) (notBefore : UInt64) {name : String} (hn : name ≠ workspace) :
    (w.scheduleAt workspace notBefore).queue.deadline? name = w.queue.deadline? name := by
  show (w.queue.schedule workspace _).2.deadline? name = _
  rw [RetryQueue.deadline?_schedule, if_neg hn.symm]

/-- Both kinds of changes at once, so that the steps of an attempt are gone through once. -/
def Touches (t : Task) (workspace : String) (w w' : World) : Prop := OwnWrites t w w' ∧ Discreet workspace w w'

theorem touches_of_same (hstore : w'.store = w.store) (hqueue : w'.queue = w.queue) (hd : Discreet workspace w w') :
    Touches t workspace w w' := ⟨⟨hstore ▸ .refl _ _, fun _ _ => by rw [hqueue]⟩, hd⟩

theorem touches_transact {α : Type} {f : Store → Except StoreError (α × Store)}
    (hf : ∀ s a s', f s = .ok (a, s') → RowWrite t.key s s') : (transact f).Steps (Touches t workspace) := by
  refine Program.steps_apply fun w => ?_
  cases hr : f w.store with
  | ok r => exact ⟨⟨hf _ r.1 r.2 hr, fun _ _ => rfl⟩, ⟨rfl, rfl, rfl, fun _ _ => rfl, fun _ => .inl rfl⟩⟩
  | error e => exact touches_of_same rfl rfl (refl w)

theorem touches_tryUpdate {change : Task → Except StoreError Task} (hchange : ∀ u u', change u = .ok u' → u.Retained u') :
    (tryUpdate t.id change).Steps (Touches t workspace) :=
  .bind (touches_transact fun _ _ _ h => rowWrite_updateTask hchange h) fun _ => trivial

theorem covers_touches (process : Nat) (t : Task) (workspace : String) : Covers (Touches t workspace) cfg process t where
  pods := fun w _ => touches_of_same rfl rfl ⟨rfl, rfl, rfl, fun _ _ => rfl, fun _ => .inl rfl⟩
  claim := fun agent => by
    refine .bind (Program.steps_get (fun w => touches_of_same rfl rfl (refl w)) _) fun now => ?_
    refine .bind (steps_claimTask (touches_transact fun s a s' h => rowWrite_claimTask (fun u => ?_) h)) fun _ => trivial
    exact ⟨rfl, rfl, rfl, rfl, rfl, rfl, rfl, rfl, rfl⟩
  settle := touches_tryUpdate fun u u' h => by cases h; exact ⟨rfl, rfl, rfl, rfl, rfl, rfl, rfl, rfl, rfl⟩
  rollBack := touches_tryUpdate fun u u' h => by
    unfold Task.rollBack at h
    split at h
    · cases h; exact .refl u
    · obtain ⟨-, rfl⟩ := map_move_ok_iff.1 h
      exact ⟨rfl, rfl, rfl, rfl, rfl, rfl, rfl, rfl, rfl⟩
  countRetry := touches_tryUpdate fun u u' h => by cases h; exact ⟨rfl, rfl, rfl, rfl, rfl, rfl, rfl, rfl, rfl⟩
  schedule := fun w notBefore =>
    ⟨⟨.refl _ _, fun _ hn => deadline?_scheduleAt w notBefore hn⟩, rfl, rfl, rfl, fun _ _ => rfl, fun _ => .inl rfl⟩
  spawn := fun w _ => touches_of_same rfl rfl ⟨rfl, rfl, rfl, fun _ _ => rfl, fun _ => .inl rfl⟩
  send := by
    refine Agent.steps_sendTask_of (fun w => touches_of_same rfl rfl (refl w)) (fun w i f => ?_) (fun w agent => ?_) process
    · exact touches_of_same rfl rfl ⟨rfl, rfl, rfl, fun _ _ => rfl, fun _ => .inl rfl⟩
    · refine touches_of_same rfl rfl ⟨rfl, rfl, rfl, fun _ _ => rfl, fun other => ?_⟩
      show (w.registry.connections.erase agent).get? other = _ ∨ (w.registry.connections.erase agent).get? other = none
      rw [Table.get?_erase]
      split
      · exact .inr rfl
      · exact .inl rfl

theorem ownWrites_dispatchTask (process : Nat) (t : Task) : (dispatchTask cfg process t).run.Steps (OwnWrites t) :=
  (covers_touches process t "").dispatchTask.mono fun _ _ h => h.1

theorem coversLock_discreet (process : Nat) (workspace : String) : CoversLock (Discreet workspace) process workspace where
  refl := fun w => refl w
  request := fun w => by
    refine ⟨rfl, rfl, rfl, fun name hn => ?_, fun _ => .inl rfl⟩
    unfold Locks.line Locks.request
    rw [Table.get?_insert_of_ne _ _ hn.symm]
  release := fun w => by
    refine ⟨rfl, rfl, rfl, fun name hn => ?_, fun _ => .inl rfl⟩
    unfold Locks.line Locks.release
    rw [Table.get?_modify, if_neg hn.symm]
  schedule := fun _ _ => ⟨rfl, rfl, rfl, fun _ _ => rfl, fun _ => .inl rfl⟩

theorem Attempt.discreet {p : Fallible DispatchError DispatchOutcome} (hp : Attempt workspace p) :
    p.run.Steps (Discreet workspace) := by
  have hstart : ∀ cfg process t, (dispatchTask cfg process t).run.Steps (Discreet workspace) := fun _ process t =>
    (covers_touches process t workspace).dispatchTask.mono fun _ _ h => h.2
  cases hp with
  | next cfg process => exact (coversLock_discreet process workspace).tryDispatch (hstart cfg process)
  | confirmedApply cfg process task =>
    exact (coversLock_discreet process workspace).executeConfirmedApply (hstart cfg process) task

/-! ## What a call leaves -/

/-- Others leave the store, the pods and the queue alone. -/
structure Aloof (w w' : World) : Prop where
  store : w'.store = w.store
  pods : w'.capacity = w.capacity
  queue : w'.queue = w.queue

instance : IsPreorder World Aloof where
  refl _ := ⟨rfl, rfl, rfl⟩
  trans _ _ _ h h' := ⟨h'.store.trans h.store, h'.pods.trans h.pods, h'.queue.trans h.queue⟩

theorem bystanders_aloof : Bystanders Aloof := ⟨fun _ _ h => h.pods, fun _ _ => ⟨rfl, rfl, rfl⟩⟩

/-- The task is all that differs: its own row in part, and slots that were idle or its own. -/
structure OnlyTask (t : Task) (w w' : World) : Prop where
  rows : ∀ key, key ≠ t.key → w'.store.tasks.get? key = w.store.tasks.get? key
  own : ∃ t', w'.store.tasks.get? t.key = some (.record t') ∧ t.Retained t'
  slots : ∀ x s, w.capacity.slotAt x = some s → s.isIdle = false → s.task ≠ some t.id → w'.capacity.slotAt x = some s

/-- What an attempt on a workspace leaves alone. -/
structure Frame (workspace : String) (w w' : World) : Prop where
  workspaces : w'.store.workspaces = w.store.workspaces
  pools : w'.store.pools = w.store.pools
  counter : w'.store.lastTaskId = w.store.lastTaskId
  queue : ∀ name, name ≠ workspace → w'.queue.deadline? name = w.queue.deadline? name
  task : (w'.store.tasks = w.store.tasks ∧ w'.capacity = w.capacity) ∨
    ∃ t, w.store.Holds t ∧ t.workspace = workspace ∧ OnlyTask t w w'

theorem Aloof.frame (h : Aloof w w') (workspace : String) : Frame workspace w w' where
  workspaces := by rw [h.store]
  pools := by rw [h.store]
  counter := by rw [h.store]
  queue := fun _ _ => by rw [h.queue]
  task := .inl ⟨by rw [h.store], h.pods⟩

/-- Nothing that counts is done afterwards, but for the workspace's own place in the queue. -/
theorem Frame.after (h : Frame workspace w w₁) (hstore : w'.store = w₁.store) (hpods : w'.capacity = w₁.capacity)
    (hqueue : ∀ name, name ≠ workspace → w'.queue.deadline? name = w₁.queue.deadline? name) : Frame workspace w w' where
  workspaces := by rw [hstore]; exact h.workspaces
  pools := by rw [hstore]; exact h.pools
  counter := by rw [hstore]; exact h.counter
  queue := fun name hn => (hqueue name hn).trans (h.queue name hn)
  task := by
    rcases h.task with ⟨hrows, hcapacity⟩ | ⟨t, ht, hws, honly⟩
    · exact .inl ⟨by rw [hstore]; exact hrows, hpods.trans hcapacity⟩
    · refine .inr ⟨t, ht, hws, ?_, ?_, ?_⟩
      · rw [hstore]; exact honly.rows
      · rw [hstore]; exact honly.own
      · rw [hpods]; exact honly.slots

theorem Frame.after_aloof (h : Frame workspace w w₁) (ha : Aloof w₁ w') : Frame workspace w w' :=
  h.after ha.store ha.pods fun _ _ => by rw [ha.queue]

/-- The chosen task is in the store, and belongs to the workspace. -/
theorem Chosen.picked {R : World → World → Prop} (hR : ∀ w w', R w w' → w'.store = w.store) (hf : Filed w.store)
    (h : Chosen R workspace w t w₁) : Picked workspace t w.store := by
  cases h with
  | next w₂ hw₂ hnext _ => exact picked_of_nextTask hf (hR _ _ hw₂ ▸ hnext)
  | resumed w₂ w₃ seens seen hw₂ hlist hmem hw₃ hfound _ _ =>
    have hseen := picked_of_listed hf (hR _ _ hw₂ ▸ hlist) hmem
    have hsame := hseen.task?
    rw [← hR _ _ hw₂, ← hR _ _ hw₃, hfound] at hsame
    cases hsame
    exact hseen
  | confirmed w₂ task hw₂ hfound hrefusal _ =>
    rw [hR _ _ hw₂] at hfound
    exact ⟨hf.holds (Table.mem_rows_iff.2 (get?_of_task? hfound)), workspace_of_refusal hrefusal⟩

/-- The frame of a call on the task that was chosen. -/
theorem frame_of_call {r : Except String (Except DispatchError DispatchOutcome)} (hf : Filed w.store) (hn : w.capacity.Named)
    (hc : Chosen Aloof workspace w t w₁) (he : Ends Aloof n (dispatchTask cfg process t).run w₁ r w₂) :
    Frame workspace w w₂ := by
  obtain ⟨ht, hws⟩ := hc.picked (fun _ _ h => h.store) hf
  have hwrites : OwnWrites t w₁ w₂ :=
    (ownWrites_dispatchTask process t).ends he fun v v' hv => ⟨hv.store ▸ .refl _ _, fun _ _ => by rw [hv.queue]⟩
  have hbefore : Aloof w w₁ := hc.between
  obtain ⟨hrow, hqueue⟩ := hwrites
  rw [hbefore.store] at hrow
  obtain ⟨t', ht', hretained⟩ := hrow.own t ht
  refine ⟨hrow.workspaces, hrow.pools, hrow.counter, fun name hname => ?_, .inr ⟨t, ht, hws, hrow.rows, ⟨t', ht', hretained⟩, ?_⟩⟩
  · rw [hqueue name (hws ▸ hname), hbefore.queue]
  · intro x s hs hbusy hother
    rcases left_chosen bystanders_aloof hn hc he with ⟨_, -, hsame⟩ | ⟨_, _, _, -, -, -, hleft⟩
    · rw [hsame]; exact hs
    · obtain ⟨place, hheld⟩ := hleft.hand
      exact hheld.spared.others x s hs hbusy hother

theorem Choice.frame {r : Except String (Except DispatchError DispatchOutcome)} (hf : Filed w.store) (hn : w.capacity.Named)
    (h : Choice Aloof cfg process workspace w w' r) : Frame workspace w w' := by
  cases h with
  | nothing _ hw => exact hw.frame workspace
  | task hc he hw => exact (frame_of_call hf hn hc he).after_aloof hw
  | @crashed _ _ _ _ w₃ _ notBefore hc he hw _ hw' =>
    have hcall := (frame_of_call hf hn hc he).after_aloof hw
    refine Frame.after_aloof ?_ hw'
    exact hcall.after rfl rfl fun _ hname => deadline?_scheduleAt w₃ notBefore hname
  | lost hc he hw _ hw' => exact ((frame_of_call hf hn hc he).after_aloof hw).after_aloof hw'

/-- The frame of an attempt, among others that leave store, pods and queue alone. -/
theorem Attempt.frame {p : Fallible DispatchError DispatchOutcome} (hp : Attempt workspace p) (hf : Filed w.store)
    (hn : w.capacity.Named) {r : Except String (Except DispatchError DispatchOutcome)} (he : Ends Aloof n p.run w r w') :
    Frame workspace w w' := by
  obtain ⟨cfg, process, hchoice⟩ := hp.choice bystanders_aloof he
  exact hchoice.frame hf hn

/-! ## A frame as a relation of stores -/

theorem Frame.along (h : Frame workspace w w') : Alongside workspace w.store w'.store where
  workspaces := h.workspaces
  pools := h.pools
  counter := h.counter
  rows := fun key => by
    rcases h.task with ⟨hrows, -⟩ | ⟨t, ht, hws, honly⟩
    · rw [hrows]; exact (Alongside.refl workspace w.store).rows key
    · by_cases hkey : key = t.key
      · obtain ⟨t', ht', hretained⟩ := honly.own
        rw [hkey, ht, ht']
        exact .some (.both hws (hretained.workspace.trans hws) hretained.id.symm)
      · rw [honly.rows key hkey]; exact (Alongside.refl workspace w.store).rows key

theorem Frame.filed (h : Frame workspace w w') (hf : Filed w.store) : Filed w'.store := by
  intro key u hu
  rcases h.task with ⟨hrows, -⟩ | ⟨t, ht, -, honly⟩
  · rw [hrows] at hu
    exact hf key u hu
  · by_cases hkey : key = t.key
    · obtain ⟨t', ht', hretained⟩ := honly.own
      rw [hkey, ht'] at hu
      cases hu
      rw [hkey]
      unfold Task.key
      rw [hretained.id]
    · rw [honly.rows key hkey] at hu
      exact hf key u hu

end Dispatch

end TaskFleet
