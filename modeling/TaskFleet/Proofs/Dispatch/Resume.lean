/-
  TaskFleet.Proofs.Dispatch.Resume — a confirmed apply goes where its slot is kept.

  These are runs of attempts with nobody else at work, from states in which nothing stands in
  the way: the apply is confirmed, the workspace neither held nor locked, the claim succeeds and
  the agent's mailbox has room.
  - `Ready`: all that an attempt needs.
  - `Resumed`: the slot is running, and the agent is told to apply the task, and nobody else is.
  - `run_dispatchTask`: such an attempt once it has the task; `run_executeConfirmedApply` and
    `run_tryDispatch`: all of it, asked for or not.
-/

import TaskFleet.Proofs.Capacity.Spared
import TaskFleet.Proofs.Dispatch.Reads
import TaskFleet.Proofs.Store.TaskKey

namespace TaskFleet

/-! ## Sending -/

namespace Mailbox

variable {b : Mailbox}

/-- A sender that comes when there is room for it and all before it need not wait. -/
theorem hasTurn_of_room (process : Nat) (hroom : b.messages.length + b.senders.length < capacity) :
    ({ b with senders := b.senders ++ [process] } : Mailbox).hasTurn process = true := by
  have hplace : (b.senders ++ [process]).idxOf process < (b.senders ++ [process]).length :=
    List.idxOf_lt_length_of_mem (List.mem_append_right _ List.mem_cons_self)
  rw [List.length_append, List.length_singleton] at hplace
  unfold hasTurn
  simp only [Bool.or_eq_true, decide_eq_true_eq]
  right
  omega

theorem deliver_of_open (hopen : b.closed = false) (process : Nat) (m : AgentMessage) :
    b.deliver process m = (true, { b with senders := b.senders.erase process, messages := b.messages ++ [m] }) := by
  unfold deliver
  simp [hopen]

end Mailbox

namespace Registry

variable {r : Registry} {b : Nat} {agent : String} {m : AgentMessage}

theorem lt_of_open (h : (r.mailbox b).closed = false) : b < r.mailboxes.length := by
  unfold mailbox at h
  cases hb : r.mailboxes[b]? with
  | none => rw [hb] at h; cases h
  | some box => exact (List.getElem?_eq_some_iff.1 hb).1

theorem mailbox_modifyMailbox (hb : b < r.mailboxes.length) (f : Mailbox → Mailbox) (b' : Nat) :
    (r.modifyMailbox b f).mailbox b' = if b' = b then f (r.mailbox b') else r.mailbox b' := by
  unfold mailbox modifyMailbox
  simp only [List.getElem?_modify]
  split
  · next h => subst h; simp [List.getElem?_eq_getElem hb]
  · next h => simp [Ne.symm h]

/-- The agent is connected, and its mailbox has room for one more message. -/
structure Reaches (r : Registry) (agent : String) (conn : Connection) : Prop where
  connected : r.connections.get? agent = some conn
  reads : (r.mailbox conn.mailbox).closed = false
  room : (r.mailbox conn.mailbox).messages.length + (r.mailbox conn.mailbox).senders.length < Mailbox.capacity

/-- The message is the last one in the mailbox of the agent, and nobody got another. -/
structure Delivers (r r' : Registry) (agent : String) (conn : Connection) (m : AgentMessage) : Prop where
  connected : r'.connections.get? agent = some conn
  messages : ∀ b, (r'.mailbox b).messages = if b = conn.mailbox then (r.mailbox b).messages ++ [m] else (r.mailbox b).messages

end Registry

namespace Agent

open Fallible

theorem run_send {w : World} {agent : String} {conn : Connection} (process : Nat) (m : AgentMessage)
    (hr : w.registry.Reaches agent conn) :
    ∃ registry, (send process agent m).run.run w = (.finished (.ok ()), { w with registry }) ∧
      w.registry.Delivers registry agent conn m := by
  have hlt := Registry.lt_of_open hr.reads
  -- the mailbox with the sender in line: its turn has come
  obtain ⟨waiting, hwaiting⟩ : ∃ r, r = w.registry.modifyMailbox conn.mailbox fun b => { b with senders := b.senders ++ [process] } :=
    ⟨_, rfl⟩
  have hbox : waiting.mailbox conn.mailbox =
      { w.registry.mailbox conn.mailbox with senders := (w.registry.mailbox conn.mailbox).senders ++ [process] } := by
    rw [hwaiting, Registry.mailbox_modifyMailbox hlt, if_pos rfl]
  have hturn : (waiting.mailbox conn.mailbox).hasTurn process = true := hbox ▸ Mailbox.hasTurn_of_room process hr.room
  have hdeliver := Mailbox.deliver_of_open (b := waiting.mailbox conn.mailbox) (hbox ▸ hr.reads) process m
  refine ⟨waiting.modifyMailbox conn.mailbox fun _ => ((waiting.mailbox conn.mailbox).deliver process m).2, ?_, ?_⟩
  · unfold send
    simp only [run_always_bind, Program.run_get_bind, hr.connected, Program.run_modify_bind]
    rw [← hwaiting]
    refine (Program.run_bind_finished _ (Program.run_waitFor ?_)).trans ?_
    · exact hturn
    · simp only [Program.run_apply_bind, hdeliver]
      rfl
  · have hlen : conn.mailbox < waiting.mailboxes.length := by
      rw [hwaiting]
      unfold Registry.modifyMailbox
      rwa [List.length_modify]
    refine ⟨by rw [hwaiting]; exact hr.connected, fun b => ?_⟩
    rw [Registry.mailbox_modifyMailbox hlen, hdeliver, hbox]
    split
    · next h => subst h; rfl
    · next h => rw [hwaiting, Registry.mailbox_modifyMailbox hlt, if_neg h]

theorem run_sendTask {w : World} {agent : String} {conn : Connection} (process : Nat) (m : AgentMessage)
    (hfault : w.sendFault = none) (hr : w.registry.Reaches agent conn) :
    ∃ registry, (sendTask process agent m).run.run w = (.finished (.ok ()), { w with registry }) ∧
      w.registry.Delivers registry agent conn m := by
  obtain ⟨registry, hrun, hdelivers⟩ := run_send process m hr
  refine ⟨registry, ?_, hdelivers⟩
  rw [← hrun]
  unfold sendTask
  rw [run_always_bind, Program.run_get_bind, hfault]

theorem run_connected {w : World} (h : w.agentsFault = none) : connected.run w = (.finished w.registry.agents, w) := by
  unfold connected
  rw [Program.run_get_bind, h]
  rfl

end Agent

namespace Dispatch

open Fallible Capacity

variable {cfg : Settings} {process : Nat} {t : Task} {agent pool : String} {conn : Connection} {p : Placement} {w : World}
  {α : Type}

/-! ## Parts of an attempt -/

theorem run_tryUpdate (id : UInt64) (change : Task → Except StoreError Task) (w : World) :
    ∃ store, (tryUpdate id change).run w = (.finished (), { w with store }) := by
  cases hr : w.store.updateTask id change with
  | ok r => exact ⟨r.2, Program.run_bind_finished _ (Program.run_transact hr)⟩
  | error e => exact ⟨w.store, Program.run_bind_finished _ (Program.run_transact_error hr)⟩

/-- A task that is to be tried again: the answer, or the crash where that would be too late. -/
def retried (task : UInt64) (delay : Duration) (reason : RetryReason) (w : World) : Program.Ending DispatchOutcome :=
  if (w.after? delay).isSome then .finished (.retry task delay reason) else .crashed sumTooLarge

/-- The answer depends on the time of day only. -/
theorem retried_congr {v : World} {task : UInt64} {delay : Duration} {reason : RetryReason} (h : v.clock = w.clock) :
    retried task delay reason v = retried task delay reason w := by
  unfold retried World.after?
  rw [h]

theorem retried_ne_started {task id : UInt64} {delay : Duration} {reason : RetryReason} {a : Option String} :
    retried task delay reason w ≠ .finished (.started id a) := by
  unfold retried
  split <;> exact nofun

/-- Nothing changed but the queue. -/
def OnlyQueue (w w' : World) : Prop := ∃ queue queueNotified, w' = { w with queue, queueNotified }

theorem onlyQueue_scheduleAt (w : World) (workspace : String) (notBefore : UInt64) : OnlyQueue w (w.scheduleAt workspace notBefore) :=
  ⟨_, _, rfl⟩

theorem run_retryAfter (t : Task) (delay : Duration) (reason : RetryReason) (w : World) :
    ∃ w', (retryAfter t delay reason).run w = (retried t.id delay reason w, w') ∧ OnlyQueue w w' := by
  unfold retryAfter retried
  cases hafter : w.after? delay with
  | some notBefore => exact ⟨_, Program.run_bind_finished _ (Program.run_schedule hafter), onlyQueue_scheduleAt w _ notBefore⟩
  | none => exact ⟨w, Program.run_bind_crashed _ (Program.run_schedule_none hafter), w.queue, w.queueNotified, rfl⟩

theorem run_retryWithBackoff (cfg : Settings) (t : Task) (reason : RetryReason) (w : World) :
    ∃ store w', (retryWithBackoff cfg t reason).run w =
        (retried t.id (cfg.dispatch.backoff.delay t.retryCount) reason w, w') ∧ OnlyQueue { w with store } w' := by
  obtain ⟨store, hcount⟩ := run_tryUpdate t.id (fun t => .ok t.countRetry) w
  obtain ⟨w', hretry, hqueue⟩ := run_retryAfter t (cfg.dispatch.backoff.delay t.retryCount) reason { w with store }
  exact ⟨store, w', (Program.run_bind_finished _ hcount).trans hretry, hqueue⟩

/-- The claim that a dispatcher would make now, for this agent, succeeds. -/
def Claims (cfg : Settings) (t : Task) (agent : String) (w : World) : Prop :=
  ∃ claimed store, w.store.claimTask t.id (claimRequest cfg t w.now) (Task.start t.stageOnStart (some agent) w.now) =
    .ok (.claimed claimed, store)

theorem run_claim (h : Claims cfg t agent w) :
    ∃ claimed store, (claim cfg t (some agent)).run w = (.finished (.ok (some claimed)), { w with store }) := by
  obtain ⟨claimed, store, hclaim⟩ := h
  refine ⟨claimed, store, ?_⟩
  unfold claim
  rw [Program.run_get_bind, Program.run_bind_finished _ (Program.run_claimTask hclaim nofun)]
  rfl

theorem run_findSlot (hst : t.status = .applyPending) (hp : w.capacity.placementOf? t.id = some p) :
    (findSlot cfg t pool).run w = (.finished (some p), w) := by
  unfold findSlot
  rw [Program.run_get_bind, if_pos hst, hp]
  rfl

theorem run_findTarget {onPods : Bool} {connected : List String} (hagent : p.agent = some agent)
    (hconn : connected.contains agent = true) :
    (findTarget t pool onPods (some p) connected).run w = (.finished (some ⟨agent, some p⟩), w) := by
  unfold findTarget
  simp only [Option.bind_some, hagent, Option.filter_some, hconn, if_true]
  rfl

theorem run_markRunning {s : Slot} (hs : w.capacity.slotAt p.spot = some s) :
    (Program.editCapacity (·.markRunning p.pod p.slot ·)).run w =
      (.finished (.ok ()), { w with capacity := w.capacity.modifySlot p.pod p.slot (·.markRunning w.now) }) :=
  Program.run_editCapacity (setSlot_eq (x := p.spot) hs)

theorem runsOn_placement {c : Capacity} {task : UInt64} (hn : c.Named) (hp : c.placementOf? task = some p) (now : UInt64) :
    (c.modifySlot p.pod p.slot (·.markRunning now)).RunsOn task p.spot p.agent := by
  obtain ⟨s, hs, htask⟩ := Option.bind_eq_some_iff.1 (taskAt_of_placementOf? hn hp)
  exact ⟨⟨s.markRunning now, slotAt_modifySlot_self (y := p.spot) hs, htask, rfl⟩, (agent_modifySlot p.spot _ _).trans (agent_of_placementOf? hn hp)⟩

/-! ## From the claim to the agent -/

/-- The task runs on the slot, for the agent, which is told to apply it. -/
structure Resumed (t : Task) (x : Spot) (agent : String) (conn : Connection) (w w' : World) : Prop where
  runs : w'.capacity.RunsOn t.id x (some agent)
  sent : w.registry.Delivers w'.registry agent conn ⟨t.id, t.workspace, .apply⟩

/-- All that a confirmed apply needs besides its slot: its workspace has a pool and is not on
    hold, the claim succeeds, and nothing stands between the dispatcher and the agent. -/
structure Ready (cfg : Settings) (t : Task) (agent : String) (conn : Connection) (w : World) : Prop where
  waits : t.status = .applyPending
  confirmed : t.isApplyConfirmed = true
  workspace : ∃ ws pool, w.store.workspace? t.workspace = .ok (some ws) ∧ ws.mode = .kubernetes ∧ ws.pool = some pool ∧
    ws.isLocked = false
  claims : Claims cfg t agent w
  listed : w.agentsFault = none
  undisturbed : w.sendFault = none
  reaches : w.registry.Reaches agent conn

theorem run_handOver (process : Nat) (hr : Ready cfg t agent conn w) (hn : w.capacity.Named)
    (hp : w.capacity.placementOf? t.id = some p) (hagent : p.agent = some agent) :
    ∃ w', (handOver cfg process t ⟨agent, some p⟩).run w = (.finished (.started t.id (some agent)), w') ∧
      Resumed t p.spot agent conn w w' := by
  obtain ⟨claimed, store, hclaim⟩ := run_claim hr.claims
  have haction : actionFor t = .apply := if_pos hr.waits
  obtain ⟨registry, hsend, hdelivers⟩ := Agent.run_sendTask (w := { w with store }) process ⟨t.id, t.workspace, actionFor t⟩
    hr.undisturbed hr.reaches
  obtain ⟨s, hs, -⟩ := Option.bind_eq_some_iff.1 (taskAt_of_placementOf? hn hp)
  obtain ⟨c, hc⟩ : ∃ c, c = w.capacity.modifySlot p.pod p.slot (·.markRunning w.now) := ⟨_, rfl⟩
  have hmark : (Program.editCapacity (·.markRunning p.pod p.slot ·)).run { w with store, registry } =
      (.finished (.ok ()), { w with store, registry, capacity := c }) := by
    rw [hc]
    exact run_markRunning (w := { w with store, registry }) hs
  obtain ⟨store', hsettle⟩ := run_tryUpdate t.id (fun t => .ok (t.settle cfg.holder)) { w with store, registry, capacity := c }
  refine ⟨{ w with store := store', registry, capacity := c }, ?_, ?_, haction ▸ hdelivers⟩
  · unfold handOver handOverBy
    rw [Program.run_bind_finished _ hclaim]
    simp only
    rw [Program.run_bind_finished _ hsend]
    simp only
    rw [Program.run_bind_finished _ hmark]
    exact Program.run_bind_finished _ hsettle
  · rw [hc, ← hagent]
    exact runsOn_placement hn hp w.now

/-! ## Whole attempts -/

/-- The attempt starts the task, on the slot. -/
def Resumes (q : Fallible DispatchError DispatchOutcome) (t : Task) (x : Spot) (agent : String) (conn : Connection) (w : World) :
    Prop :=
  ∃ w', q.run.run w = (.finished (.ok (.started t.id (some agent))), w') ∧ Resumed t x agent conn w w'

theorem run_dispatchTask (process : Nat) (hr : Ready cfg t agent conn w) (hn : w.capacity.Named)
    (hp : w.capacity.placementOf? t.id = some p) (hagent : p.agent = some agent) :
    Resumes (dispatchTask cfg process t) t p.spot agent conn w := by
  obtain ⟨ws, pool, hws, hmode, hpool, -⟩ := hr.workspace
  obtain ⟨w', hover, hresumed⟩ := run_handOver process hr hn hp hagent
  refine ⟨w', ?_, hresumed⟩
  have hlisted : w.registry.agents.contains agent = true := by
    have hrow := Table.mem_rows_iff.2 hr.reaches.connected
    exact List.contains_iff_mem.2 (List.mem_map_of_mem hrow)
  have hpush : (pushToPool cfg process t pool true (some p)).run w = (.finished (.started t.id (some agent)), w') := by
    unfold pushToPool pushToPoolBy
    rw [Program.run_bind_finished _ (Agent.run_connected hr.listed)]
    split
    · next hempty =>
      rw [List.isEmpty_iff.1 hempty] at hlisted
      cases hlisted
    · rw [Program.run_bind_finished _ (run_findTarget hagent hlisted)]
      exact hover
  have hagents : (pushToAgentBy (Agent.sendTask process) cfg t ws).run w = (.finished (.started t.id (some agent)), w') := by
    unfold pushToAgentBy
    simp only [hpool, hmode, if_true]
    rw [Program.run_bind_finished _ (run_findSlot hr.waits hp)]
    exact hpush
  unfold dispatchTask dispatchTaskBy
  rw [if_neg (by simp [hr.confirmed])]
  refine (run_look_bind _ hws).trans ?_
  simp only [hmode]
  rw [if_neg (by decide), run_always, map_eq_pure_bind, Program.run_bind_finished _ hagents]
  rfl

/-- Whoever gets in line has the lock at once, unless somebody else is first. -/
theorem holds_request_iff {l : Locks} {workspace : String} :
    (l.request workspace process).holds workspace process = true ↔
      ∀ first, (l.line workspace).head? = some first → first = process := by
  have hline : (l.request workspace process).line workspace = l.line workspace ++ [process] := by
    unfold Locks.request Locks.line
    simp
  unfold Locks.holds
  rw [hline, beq_iff_eq]
  cases l.line workspace <;> simp

/-- A lock that is had at once. -/
theorem run_withLock_of_holds {workspace : String} {q : Program World α} {e : Program.Ending α} {w' : World}
    (hholds : (w.locks.request workspace process).holds workspace process = true) (he : e ≠ .stuck)
    (h : q.run { w with locks := w.locks.request workspace process } = (e, w')) :
    (Program.withLock process workspace q).run w = (e, { w' with locks := w'.locks.release workspace process }) := by
  have hlock : (Program.requestLock process workspace).run w =
      (.finished (), { w with locks := w.locks.request workspace process }) := by
    unfold Program.requestLock
    rw [Program.run_modify_bind]
    refine Program.run_waitFor ?_
    exact hholds
  unfold Program.withLock
  rw [Program.run_bind_finished _ hlock]
  exact Program.run_andFinally he h

/-- A lock that nobody wants. -/
theorem run_withLock {workspace : String} {q : Program World α} {a : α} {w' : World} (hfree : w.locks.line workspace = [])
    (h : q.run { w with locks := w.locks.request workspace process } = (.finished a, w')) :
    (Program.withLock process workspace q).run w =
      (.finished a, { w' with locks := w'.locks.release workspace process }) :=
  run_withLock_of_holds (holds_request_iff.2 (by simp [hfree])) nofun h

/-- A lock that somebody else has. -/
theorem run_withLock_stuck {workspace : String} (q : Program World α)
    (hheld : ¬(w.locks.request workspace process).holds workspace process = true) :
    (Program.withLock process workspace q).run w = (.stuck, { w with locks := w.locks.request workspace process }) := by
  have hlock : (Program.requestLock process workspace).run w =
      (.stuck, { w with locks := w.locks.request workspace process }) := by
    unfold Program.requestLock
    rw [Program.run_modify_bind]
    refine Program.run_waitFor_stuck ?_
    exact Bool.eq_false_iff.2 hheld
  exact Program.run_bind_stuck _ hlock

theorem Ready.locked (hr : Ready cfg t agent conn w) (locks : Locks) : Ready cfg t agent conn { w with locks } :=
  ⟨hr.waits, hr.confirmed, hr.workspace, hr.claims, hr.listed, hr.undisturbed, hr.reaches⟩

theorem Ready.onHold (hr : Ready cfg t agent conn w) :
    (w.store.workspace? t.workspace).map (fun ws => ws.any (·.isLocked)) = .ok false := by
  obtain ⟨ws, pool, hws, -, -, hlocked⟩ := hr.workspace
  rw [hws]
  exact congrArg Except.ok hlocked

/-- The apply of a confirmed task that is asked for. -/
theorem run_executeConfirmedApply (process : Nat) (hr : Ready cfg t agent conn w) (ht : w.store.task? t.id = .ok (some t))
    (hfree : w.locks.line t.workspace = []) (hn : w.capacity.Named) (hp : w.capacity.placementOf? t.id = some p)
    (hagent : p.agent = some agent) :
    Resumes (executeConfirmedApply cfg process t.workspace t.id) t p.spot agent conn w := by
  obtain ⟨w', htask, hresumed⟩ := run_dispatchTask process (hr.locked (w.locks.request t.workspace process)) hn hp hagent
  refine ⟨{ w' with locks := w'.locks.release t.workspace process }, ?_, ⟨hresumed.runs, hresumed.sent⟩⟩
  have hrefusal : refusal t.workspace t.id t = none := by simp [refusal, hr.waits, hr.confirmed]
  unfold executeConfirmedApply executeConfirmedApplyBy
  rw [confirmedTask_eq, bind_assoc, run_look_bind _ ht]
  simp only [hrefusal, pure_bind]
  refine (run_look_bind _ hr.onHold).trans ?_
  exact run_withLock hfree (run_guarded htask)

/-- The next task of a workspace, which is its first confirmed apply. -/
theorem run_tryDispatch (process : Nat) (hr : Ready cfg t agent conn w) (ht : w.store.task? t.id = .ok (some t))
    (hfirst : (w.store.tasksWhere (·.workspace == t.workspace)).map
      (·.find? fun u => u.status == .applyPending && u.isApplyConfirmed) = .ok (some t))
    (hfree : w.locks.line t.workspace = []) (hn : w.capacity.Named) (hp : w.capacity.placementOf? t.id = some p)
    (hagent : p.agent = some agent) :
    Resumes (tryDispatch cfg process t.workspace) t p.spot agent conn w := by
  obtain ⟨w', htask, hresumed⟩ := run_dispatchTask process (hr.locked (w.locks.request t.workspace process)) hn hp hagent
  refine ⟨{ w' with locks := w'.locks.release t.workspace process }, run_guarded ?_, ⟨hresumed.runs, hresumed.sent⟩⟩
  have hresume : (resumeApply cfg process t).run.run { w with locks := w.locks.request t.workspace process } =
      (.finished (.ok (.started t.id (some agent))), w') := by
    unfold resumeApply resumeApplyBy
    rw [run_look_bind _ ht]
    simp only [hr.waits, if_true]
    exact htask
  unfold dispatchNextBy
  refine (run_look_bind _ hr.onHold).trans ?_
  refine (run_look_bind _ hfirst).trans ?_
  exact run_withLock hfree hresume

end Dispatch

end TaskFleet
