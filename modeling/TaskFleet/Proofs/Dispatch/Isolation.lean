/-
  TaskFleet.Proofs.Dispatch.Isolation — attempts on different workspaces do not get in each other's way.

  An attempt on a workspace that runs on agents reads its own tasks, its own deadline and lock, the
  agents and the clock. So it does the same beside another workspace whose attempt has been or is
  still to come, unless that one's send changes how its own send ends; and in either order the two
  attempts end in the same store, slots and queue.
  - `DifferOnlyIn`: worlds that differ at most in what belongs to one workspace.
  - `SameAgents`: worlds with the same agents, as far as an attempt can tell.
  - `pairs_dispatchTask`, `AttemptBy.alike`: in such worlds an attempt on another workspace ends alike.
  - `SendsAlike`, `sendsAlike_of_reached`: sends whose endings do not depend on each other.
  - `attempts_keep_to_their_workspace`: the frame of every attempt, and two attempts in either order.
-/

import TaskFleet.Proofs.Dispatch.Frame
import TaskFleet.Proofs.Dispatch.Resume

namespace TaskFleet

/-! ## Sends, seen from outside -/

namespace Agent

open Fallible Program

variable {w v : World} {process : Nat} {agent : String} {m : AgentMessage}

/-- How a send ends depends on the agents and on the disturbance alone. -/
theorem ending_sendTask_congr (hr : w.registry = v.registry) (hf : w.sendFault = v.sendFault) (process : Nat)
    (agent : String) (m : AgentMessage) :
    ((sendTask process agent m).run.run w).1 = ((sendTask process agent m).run.run v).1 := by
  obtain ⟨e, registry, hw, hv⟩ := run_sendTask_congr hr hf process agent m
  rw [hw, hv]

/-- A send ends for want of a connection exactly if there is none. -/
theorem send_notConnected_iff :
    ((send process agent m).run.run w).1 = .finished (.error (.notConnected agent)) ↔
      w.registry.connections.get? agent = none := by
  unfold send
  rw [run_always_bind, run_get_bind]
  cases hc : w.registry.connections.get? agent with
  | none => exact ⟨fun _ => rfl, fun _ => rfl⟩
  | some c =>
    refine ⟨fun h => ?_, fun h => by cases h⟩
    simp only [run_always_bind, run_modify_bind] at h
    rw [Program.run_bind] at h
    -- whatever the mailbox does, the connection was there
    generalize (waitFor _).run _ = x at h
    obtain ⟨e, v⟩ := x
    cases e with
    | crashed m => cases h
    | stuck => cases h
    | finished u =>
      simp only [run_apply_bind] at h
      generalize ((v.registry.mailbox c.mailbox).deliver process m).1 = delivered at h
      cases delivered <;> cases h

/-- A send to an agent whose mailbox has room is delivered. -/
theorem send_ok_of_reaches {conn : Connection} (hr : w.registry.Reaches agent conn) :
    ((send process agent m).run.run w).1 = .finished (.ok ()) := by
  obtain ⟨registry, hrun, -⟩ := run_send process m hr
  rw [hrun]

end Agent

namespace Dispatch

open Fallible Program Store

variable {cfg : Settings} {process n : Nat} {workspace other : String} {s t v w : World} {u : Task} {ws : Workspace}
  {c : Capacity} {α : Type}

/-! ## Worlds that differ in one workspace -/

/-- What differs belongs to one workspace: its tasks, its deadline, its lock. -/
structure DifferOnlyIn (other : String) (s t : World) : Prop where
  store : Alongside other s.store t.store
  clock : t.clock = s.clock
  capacity : t.capacity = s.capacity
  lines : ∀ name, name ≠ other → t.locks.line name = s.locks.line name
  queue : ∀ name, name ≠ other → t.queue.deadline? name = s.queue.deadline? name

theorem DifferOnlyIn.refl (other : String) (w : World) : DifferOnlyIn other w w :=
  ⟨.refl other w.store, rfl, rfl, fun _ _ => rfl, fun _ _ => rfl⟩

theorem DifferOnlyIn.symm (h : DifferOnlyIn other s t) : DifferOnlyIn other t s :=
  ⟨h.store.symm, h.clock.symm, h.capacity.symm, fun name hn => (h.lines name hn).symm, fun name hn => (h.queue name hn).symm⟩

theorem DifferOnlyIn.trans (h : DifferOnlyIn other s t) (h' : DifferOnlyIn other t v) : DifferOnlyIn other s v where
  store := h.store.trans h'.store
  clock := h'.clock.trans h.clock
  capacity := h'.capacity.trans h.capacity
  lines := fun name hn => (h'.lines name hn).trans (h.lines name hn)
  queue := fun name hn => (h'.queue name hn).trans (h.queue name hn)

/-- Worlds that differ in either of two workspaces at most have the same deadlines. -/
theorem DifferOnlyIn.queue_eq {name : String} (h : DifferOnlyIn other s t) (h' : DifferOnlyIn name s t)
    (hne : other ≠ name) :
    s.queue = t.queue := by
  have hdeadlines : s.queue.deadlines = t.queue.deadlines := Table.ext_get? fun x => by
    by_cases hx : x = other
    · exact (h'.queue x (hx ▸ hne)).symm
    · exact (h.queue x hx).symm
  exact congrArg RetryQueue.mk hdeadlines

theorem DifferOnlyIn.scheduleAt (h : DifferOnlyIn other s t) (name : String) (notBefore : UInt64) :
    DifferOnlyIn other (s.scheduleAt name notBefore) (t.scheduleAt name notBefore) where
  store := h.store
  clock := h.clock
  capacity := h.capacity
  lines := h.lines
  queue := fun x hx => by
    show (t.queue.schedule name notBefore).2.deadline? x = (s.queue.schedule name notBefore).2.deadline? x
    rw [RetryQueue.deadline?_schedule, RetryQueue.deadline?_schedule, h.queue x hx]
    split
    · next hname => rw [h.queue name (hname ▸ hx)]
    · rfl

theorem DifferOnlyIn.request (h : DifferOnlyIn other s t) (name : String) (process : Nat) :
    DifferOnlyIn other { s with locks := s.locks.request name process }
      { t with locks := t.locks.request name process } where
  store := h.store
  clock := h.clock
  capacity := h.capacity
  queue := h.queue
  lines := fun x hx => by
    unfold Locks.request
    by_cases hname : name = x
    · subst hname
      rw [h.lines name hx]
      unfold Locks.line
      rw [Table.get?_insert_self, Table.get?_insert_self]
    · have hline : ∀ l : Locks, (⟨l.lines.insert name (l.line name ++ [process])⟩ : Locks).line x = l.line x := fun l => by
        unfold Locks.line
        rw [Table.get?_insert_of_ne _ _ hname]
      rw [hline, hline, h.lines x hx]

theorem DifferOnlyIn.release (h : DifferOnlyIn other s t) (name : String) (process : Nat) :
    DifferOnlyIn other { s with locks := s.locks.release name process }
      { t with locks := t.locks.release name process } where
  store := h.store
  clock := h.clock
  capacity := h.capacity
  queue := h.queue
  lines := fun x hx => by
    have hline : ∀ l : Locks, (l.release name process).line x = if name = x then (l.line x).erase process else l.line x := by
      intro l
      unfold Locks.line Locks.release
      rw [Table.get?_modify]
      split
      · cases l.lines.get? x <;> rfl
      · rfl
    rw [hline, hline, h.lines x hx]

/-- Worlds with the same agents, as far as an attempt on the workspace can tell. -/
structure SameAgents (process : Nat) (workspace : String) (s t : World) : Prop where
  sendFault : t.sendFault = s.sendFault
  agentsFault : t.agentsFault = s.agentsFault
  connections : t.registry.connections = s.registry.connections
  sends : ∀ agent m, m.workspace = workspace →
    ((Agent.sendTask process agent m).run.run t).1 = ((Agent.sendTask process agent m).run.run s).1

theorem SameAgents.refl (process : Nat) (workspace : String) (w : World) : SameAgents process workspace w w :=
  ⟨rfl, rfl, rfl, fun _ _ _ => rfl⟩

/-- What becomes of the store and of the locks does not matter to the agents. -/
theorem SameAgents.put (h : SameAgents process workspace s t) (store store' : Store) (locks locks' : Locks) :
    SameAgents process workspace { s with store, locks } { t with store := store', locks := locks' } where
  sendFault := h.sendFault
  agentsFault := h.agentsFault
  connections := h.connections
  sends := fun agent m hm => by
    rw [Agent.ending_sendTask_congr (w := { s with store, locks }) (v := s) rfl rfl]
    rw [Agent.ending_sendTask_congr (w := { t with store := store', locks := locks' }) (v := t) rfl rfl]
    exact h.sends agent m hm

/-- Where an attempt ends: in worlds that differ in the other workspace only, with the pods untouched. -/
def EndsIn (other : String) (c : Capacity) (s t : World) : Prop := DifferOnlyIn other s t ∧ s.capacity = c

/-- Where a task is being started: its row is the same in both worlds. -/
structure StartsIn (other : String) (c : Capacity) (u : Task) (s t : World) : Prop where
  along : EndsIn other c s t
  row : t.store.tasks.get? u.key = s.store.tasks.get? u.key

/-- The same as long as nothing was sent. -/
def Unsent (process : Nat) (other : String) (c : Capacity) (u : Task) (s t : World) : Prop :=
  StartsIn other c u s t ∧ SameAgents process u.workspace s t

theorem StartsIn.sharing (h : StartsIn other c u s t) : Sharing other (taskKey u.id) s.store t.store := ⟨h.along.1.store, h.row⟩

theorem StartsIn.put (h : StartsIn other c u s t) {store store' : Store} (hs : Sharing other (taskKey u.id) store store') :
    StartsIn other c u { s with store } { t with store := store' } :=
  ⟨⟨⟨hs.along, h.along.1.clock, h.along.1.capacity, h.along.1.lines, h.along.1.queue⟩, h.along.2⟩, hs.row⟩

/-! ## Starting a task beside another workspace -/

theorem pairs_transact {P C : World → World → Prop} {Q : Except StoreError α → World → World → Prop} {R : Store → Store → Prop}
    {f g : Store → Except StoreError (α × Store)} (h : ∀ s t, P s t → SameResult R (f s.store) (g t.store))
    (hdone : ∀ s t a store store', P s t → R store store' → Q (.ok a) { s with store } { t with store := store' })
    (hfailed : ∀ s t e, P s t → Q (.error e) s t) : Pairs P (transact f) (transact g) Q C := by
  refine pairs_apply fun s t hst => ?_
  have hresult := h s t hst
  generalize f s.store = x at hresult
  generalize g t.store = y at hresult
  cases hresult with
  | failed e => exact ⟨rfl, hfailed s t e hst⟩
  | done a hR => exact ⟨rfl, hdone s t a _ _ hst hR⟩

theorem pairs_tryUpdate (change : Task → Except StoreError Task) :
    Pairs (StartsIn other c u) (tryUpdate u.id change) (tryUpdate u.id change) (fun _ => StartsIn other c u)
      (EndsIn other c) := by
  refine Pairs.bind (M := fun _ => StartsIn other c u) ?_ fun _ => pairs_pure fun _ _ h => h
  exact pairs_transact (R := Sharing other (taskKey u.id)) (fun s t h => h.sharing.updateTask change)
    (fun _ _ _ _ _ h hs => h.put hs) fun _ _ _ h => h

theorem pairs_retryAfter (delay : Duration) (reason : RetryReason) :
    Pairs (StartsIn other c u) (retryAfter u delay reason) (retryAfter u delay reason) (fun _ => EndsIn other c)
      (EndsIn other c) := by
  refine Pairs.bind (M := fun _ => EndsIn other c) (pairs_schedule (fun s t h => h.along.1.clock.symm)
    (fun s t notBefore h => ?_) fun s t h => h.along) fun _ => pairs_pure fun _ _ h => h
  exact ⟨h.along.1.scheduleAt _ notBefore, h.along.2⟩

theorem pairs_retryWithBackoff (reason : RetryReason) :
    Pairs (StartsIn other c u) (retryWithBackoff cfg u reason) (retryWithBackoff cfg u reason) (fun _ => EndsIn other c)
      (EndsIn other c) := (pairs_tryUpdate _).bind fun _ => pairs_retryAfter _ _

/-- A claim reads the rows of all workspaces, and is the same beside another one. -/
theorem pairs_claim (hne : u.workspace ≠ other) (agent : Option String) :
    Pairs (fun s t => Unsent process other c u s t ∧ s.store.Holds u) (claim cfg u agent) (claim cfg u agent)
      (fun _ => Unsent process other c u) (EndsIn other c) := by
  unfold claim
  refine Pairs.bind (M := fun now s t => Unsent process other c u s t ∧ s.store.Holds u) (pairs_get fun s t h => ?_) fun now => ?_
  · refine ⟨?_, h⟩
    unfold World.now
    rw [h.1.1.along.1.clock]
  refine Pairs.bind (M := fun _ => Unsent process other c u) ?_ fun _ => pairs_pure fun _ _ h => h
  refine .claimTask (pairs_transact (R := Sharing other (taskKey u.id)) (fun s t h => ?_) (fun s t a _ _ h hs => ?_)
    fun _ _ _ h => h.1) fun _ _ h => h.1.along
  · exact h.1.1.sharing.claimTask (Picked.task? ⟨h.2, rfl⟩) hne _ _
  · exact ⟨h.1.1.put hs, h.1.2.put _ _ s.locks t.locks⟩

theorem pairs_send {agent : String} {m : AgentMessage} (hm : m.workspace = u.workspace) :
    Pairs (Unsent process other c u) (Agent.sendTask process agent m).run (Agent.sendTask process agent m).run
      (fun _ => StartsIn other c u) (EndsIn other c) := by
  rintro s t ⟨h, hagents⟩
  have hsame := hagents.sends agent m hm
  obtain ⟨e, registry, hs, -⟩ := Agent.run_sendTask_congr (w := s) rfl rfl process agent m
  obtain ⟨e', registry', ht, -⟩ := Agent.run_sendTask_congr (w := t) rfl rfl process agent m
  rw [hs, ht] at hsame ⊢
  cases hsame
  have hput : EndsIn other c { s with registry } { t with registry := registry' } :=
    ⟨⟨h.along.1.store, h.along.1.clock, h.along.1.capacity, h.along.1.lines, h.along.1.queue⟩, h.along.2⟩
  cases e with
  | finished r => exact .finished r ⟨hput, h.row⟩
  | crashed m => exact .crashed m hput
  | stuck => exact .stuck hput

theorem pairs_handOver (hne : u.workspace ≠ other) (agent : String) :
    Pairs (fun s t => Unsent process other c u s t ∧ s.store.Holds u) (handOver cfg process u ⟨agent, none⟩)
      (handOver cfg process u ⟨agent, none⟩) (fun _ => EndsIn other c) (EndsIn other c) := by
  refine (pairs_claim hne (some agent)).bind fun r => ?_
  match r with
  | .error _ => exact (pairs_retryWithBackoff _).pre fun _ _ h => h.1
  | .ok none => exact pairs_pure fun _ _ h => h.1.along
  | .ok (some claimed) =>
    refine (pairs_send rfl).bind fun sent => ?_
    cases sent with
    | ok _ => exact (pairs_tryUpdate _).bind fun _ => pairs_pure fun _ _ h => h.along
    | error e => exact (pairs_tryUpdate _).bind fun _ => pairs_retryWithBackoff _

section

variable {P C : World → World → Prop} (hP : ∀ s t, P s t → SameAgents process workspace s t) (hC : ∀ s t, P s t → C s t)

include hP hC

theorem pairs_connected : Pairs P Agent.connected Agent.connected (fun _ => P) C := by
  refine Pairs.bind (M := fun _ => P) (pairs_get fun s t h => ?_) fun r => ?_
  · refine ⟨?_, h⟩
    unfold Registry.agents
    rw [(hP s t h).agentsFault, (hP s t h).connections]
  · obtain ⟨fault, agents⟩ := r
    cases fault with
    | none => exact pairs_pure fun _ _ h => h
    | some m => exact pairs_crash hC

theorem pairs_candidates (pool : String) (kind : TaskKind) :
    Pairs P (Agent.candidates pool kind) (Agent.candidates pool kind) (fun _ => P) C := by
  refine (pairs_connected hP hC).bind fun _ => pairs_get fun s t h => ⟨?_, h⟩
  unfold Registry.candidates
  rw [(hP s t h).connections]

end

/-- Where the pool has no pods, an attempt takes no slot into its hand. -/
theorem pairs_pushToPool (hne : u.workspace ≠ other) (pool : String) :
    Pairs (fun s t => Unsent process other c u s t ∧ s.store.Holds u) (pushToPool cfg process u pool false none)
      (pushToPool cfg process u pool false none) (fun _ => EndsIn other c) (EndsIn other c) := by
  have hagents : ∀ s t, Unsent process other c u s t ∧ s.store.Holds u → SameAgents process u.workspace s t := fun _ _ h => h.1.2
  have hends : ∀ s t, Unsent process other c u s t ∧ s.store.Holds u → EndsIn other c s t := fun _ _ h => h.1.1.along
  refine (pairs_connected hagents hends).bind fun names => ?_
  split
  · exact (pairs_retryAfter _ _).pre fun _ _ h => h.1.1
  refine Pairs.bind (M := fun target s t => (Unsent process other c u s t ∧ s.store.Holds u) ∧
    ∀ found, target = some found → found.place = none) ?_ fun target => ?_
  · refine (pairs_candidates hagents hends pool u.kind).bind fun candidates => pairs_pure fun s t h => ⟨h, fun found hfound => ?_⟩
    obtain ⟨agent, -, rfl⟩ := Option.map_eq_some_iff.1 hfound
    rfl
  · cases target with
    | none => exact (pairs_retryWithBackoff _).pre fun _ _ h => h.1.1.1
    | some target =>
      obtain ⟨agent, place⟩ := target
      refine pairs_of fun s t h => ?_
      have hplace : place = none := h.2 _ rfl
      subst hplace
      exact (pairs_handOver hne agent).pre fun _ _ hst => by rw [hst.1, hst.2]; exact h.1

theorem pairs_pushToAgent (hne : u.workspace ≠ other) (hmode : ws.mode = .agent) :
    Pairs (fun s t => Unsent process other c u s t ∧ s.store.Holds u) (pushToAgent cfg process u ws)
      (pushToAgent cfg process u ws) (fun _ => EndsIn other c) (EndsIn other c) := by
  unfold pushToAgent pushToAgentBy
  cases ws.pool with
  | none => exact (pairs_retryAfter _ _).pre fun _ _ h => h.1.1
  | some pool =>
    have hpods : ¬ws.mode = .kubernetes := by rw [hmode]; decide
    simp only [if_neg hpods]
    exact pairs_pushToPool hne pool

/-! ## Whole attempts beside another workspace -/

/-- Worlds in which an attempt on the workspace begins. -/
structure Meets (process : Nat) (workspace other : String) (c : Capacity) (ws : Workspace) (s t : World) : Prop where
  along : EndsIn other c s t
  agents : SameAgents process workspace s t
  filed : Filed s.store
  row : s.store.workspace? workspace = .ok (some ws)

theorem pairs_dispatchTask (hne : workspace ≠ other) (hmode : ws.mode = .agent) :
    Pairs (fun s t => Meets process workspace other c ws s t ∧ Picked workspace u s.store) (dispatchTask cfg process u).run
      (dispatchTask cfg process u).run (fun _ => EndsIn other c) (EndsIn other c) := by
  unfold dispatchTask dispatchTaskBy
  split
  · exact pairs_pure fun _ _ h => h.1.along
  refine pairs_look_bind (fun s t h => ?_) (fun found => ?_) fun _ _ _ h => h.1.along
  · exact (h.1.along.1.store.workspace?_eq _).symm
  cases found with
  | none => exact pairs_pure fun _ _ h => h.1.1.along
  | some found =>
    refine pairs_of fun s t h => ?_
    obtain ⟨⟨hmeets, hu, hws⟩, hfound⟩ := h
    rw [hws, hmeets.row] at hfound
    cases hfound
    have hhost : ¬ws.mode = .onHost := by rw [hmode]; decide
    simp only [if_neg hhost]
    subst hws
    refine (pairs_always (pairs_pushToAgent hne hmode)).pre fun s' t' hst => ?_
    rw [hst.1, hst.2]
    exact ⟨⟨⟨hmeets.along, by rw [hmeets.along.1.store.get?_eq hu hne, hu]⟩, hmeets.agents⟩, hu⟩

theorem startsAlike_dispatchTask (hne : workspace ≠ other) (hmode : ws.mode = .agent) :
    StartsAlike (Meets process workspace other c ws) (EndsIn other c) workspace (dispatchTask cfg process)
      (dispatchTask cfg process) where
  ended := fun _ _ h => h.along
  started := fun _ => pairs_dispatchTask hne hmode

/-- A task of another workspace is refused, whatever its state. -/
theorem checked_congr {s t : Store} (h : Alongside other s t) (hne : workspace ≠ other) (task : UInt64) :
    checked s workspace task = checked t workspace task := by
  have hrefused : ∀ x : Task, x.workspace = other →
      refusal workspace task x = some (.workspaceMismatch task workspace other) := by
    rintro x rfl
    unfold refusal
    rw [if_pos hne.symm]
  have hrow := h.rows (taskKey task)
  unfold checked Store.task? Table.record?
  generalize s.tasks.get? (taskKey task) = a at hrow
  generalize t.tasks.get? (taskKey task) = b at hrow
  cases hrow with
  | none => rfl
  | some hab =>
    cases hab with
    | same => rfl
    | both hx hy _ =>
      simp only [Row.read, Except.map, hrefused _ hx, hrefused _ hy]

theorem agrees_meets (hne : workspace ≠ other) : Agrees (Meets process workspace other c ws) process workspace where
  filed := fun _ _ h => h.filed
  hold := fun _ _ h => (h.along.1.store.workspace?_eq _).symm
  listed := fun _ _ h => h.along.1.store.tasksWhere_eq fun x hx => by rw [hx, beq_false_of_ne hne.symm]
  next := fun _ _ h => h.along.1.store.nextTask_eq hne
  checks := fun _ _ task h => checked_congr h.along.1.store hne task
  own := fun s t u h hu => ⟨h.along.1.store.get?_eq hu.1 (hu.2 ▸ hne), hu.2⟩
  holds := fun s t h => by
    unfold Locks.holds
    rw [h.along.1.lines workspace hne]
  request := fun s t h =>
    ⟨⟨h.along.1.request workspace process, h.along.2⟩, h.agents.put _ _ _ _, h.filed, h.row⟩

theorem keptAtEnd_endsIn : KeptAtEnd (EndsIn other c) process workspace where
  release := fun _ _ h => ⟨h.1.release workspace process, h.2⟩
  clock := fun _ _ h => h.1.clock.symm
  schedule := fun _ _ notBefore h => ⟨h.1.scheduleAt workspace notBefore, h.2⟩

/-- An attempt on a workspace, made by a process. -/
inductive AttemptBy (process : Nat) (workspace : String) : Fallible DispatchError DispatchOutcome → Prop
  | next (cfg : Settings) : AttemptBy process workspace (tryDispatch cfg process workspace)
  | confirmedApply (cfg : Settings) (task : UInt64) :
      AttemptBy process workspace (executeConfirmedApply cfg process workspace task)

variable {p q : Fallible DispatchError DispatchOutcome}

theorem AttemptBy.attempt (hp : AttemptBy process workspace p) : Attempt workspace p := by
  cases hp with
  | next cfg => exact .next cfg process
  | confirmedApply cfg task => exact .confirmedApply cfg process task

/-- In worlds that differ in another workspace only, an attempt ends alike, in such worlds. -/
theorem AttemptBy.alike (hp : AttemptBy process workspace p) (hne : workspace ≠ other) (hmode : ws.mode = .agent)
    (h : Meets process workspace other c ws s t) :
    Alike (fun _ => EndsIn other c) (EndsIn other c) (p.run.run s) (p.run.run t) := by
  cases hp with
  | next cfg =>
    exact pairs_tryDispatchBy (agrees_meets hne) keptAtEnd_endsIn (startsAlike_dispatchTask hne hmode) s t h
  | confirmedApply cfg task =>
    exact pairs_executeConfirmedApplyBy (agrees_meets hne) keptAtEnd_endsIn (startsAlike_dispatchTask hne hmode) s t h

/-! ## One attempt after another -/

/-- A workspace that runs on agents. -/
def OnAgents (workspace : String) (w : World) : Prop := ∃ ws, w.store.workspace? workspace = .ok (some ws) ∧ ws.mode = .agent

/-- Every send of the process for the workspace ends in the one world as it does in the other. -/
def SendsAlike (process : Nat) (workspace : String) (w v : World) : Prop :=
  ∀ agent m, m.workspace = workspace → ((Agent.send process agent m).run.run v).1 = ((Agent.send process agent m).run.run w).1

/-- Every connected agent has room in its mailbox. -/
def AllReached (w : World) : Prop :=
  ∀ agent conn, w.registry.connections.get? agent = some conn → w.registry.Reaches agent conn

/-- As long as all mailboxes have room, the sends do not depend on each other. -/
theorem sendsAlike_of_reached (hconnections : v.registry.connections = w.registry.connections) (hw : AllReached w)
    (hv : AllReached v) : SendsAlike process workspace w v := by
  intro agent m _
  cases hc : w.registry.connections.get? agent with
  | none => rw [Agent.send_notConnected_iff.2 hc, Agent.send_notConnected_iff.2 (hconnections ▸ hc)]
  | some conn =>
    rw [Agent.send_ok_of_reaches (hw agent conn hc), Agent.send_ok_of_reaches (hv agent conn (hconnections ▸ hc))]

/-- If an attempt changes the ending of no send, it has not cut an agent off. -/
theorem Discreet.sameAgents (hd : Discreet other w v) (hsends : SendsAlike process workspace w v) :
    SameAgents process workspace w v where
  sendFault := hd.sendFault
  agentsFault := hd.agentsFault
  connections := Table.ext_get? fun agent => by
    rcases hd.agents agent with hsame | hgone
    · exact hsame
    · have hend := hsends agent ⟨0, workspace, .plan⟩ rfl
      rw [Agent.send_notConnected_iff.2 hgone] at hend
      rw [hgone, Agent.send_notConnected_iff.1 hend.symm]
  sends := fun agent m hm => by
    unfold Agent.sendTask
    rw [run_always_bind, run_get_bind, run_get_bind, hd.sendFault]
    cases w.sendFault with
    | some reason => rfl
    | none => exact hsends agent m hm

section

variable {e : Ending (Except DispatchError DispatchOutcome)}

/-- An attempt that ended does the same again where only another workspace differs. -/
theorem AttemptBy.again (hp : AttemptBy process workspace p) (hne : workspace ≠ other) (hagents : OnAgents workspace w)
    (hf : Filed w.store) (hrun : p.run.run w = (e, s)) (he : e ≠ .stuck) (hbeside : DifferOnlyIn other w v)
    (hsame : SameAgents process workspace w v) :
    ∃ t, p.run.run v = (e, t) ∧ DifferOnlyIn other s t ∧ s.capacity = w.capacity := by
  obtain ⟨ws, hrow, hmode⟩ := hagents
  have hend := hp.alike hne hmode (c := w.capacity) ⟨⟨hbeside, rfl⟩, hsame, hf, hrow⟩
  rw [hrun] at hend
  generalize p.run.run v = y at hend ⊢
  cases hend with
  | finished _ h => exact ⟨_, rfl, h.1, h.2⟩
  | crashed _ h => exact ⟨_, rfl, h.1, h.2⟩
  | stuck => exact absurd rfl he

/-- An attempt on a workspace that runs on agents changes what belongs to the workspace only. -/
theorem AttemptBy.beside (hp : AttemptBy process workspace p) (hne : workspace ≠ other) (hagents : OnAgents workspace w)
    (hf : Filed w.store) (hn : w.capacity.Named) (hrun : p.run.run w = (e, s)) (he : e ≠ .stuck) :
    Frame workspace w s ∧ Discreet workspace w s ∧ DifferOnlyIn workspace w s := by
  obtain ⟨_, _, hend⟩ : ∃ n r, Ends Aloof n p.run w r s := Ends.of_run_ended hrun he
  have hframe := hp.attempt.frame hf hn hend
  have hdiscreet : Discreet workspace w s := hp.attempt.discreet.run hrun
  obtain ⟨_, -, -, hpods⟩ := hp.again hne hagents hf hrun he (.refl other w) (.refl process workspace w)
  exact ⟨hframe, hdiscreet, hframe.along, hdiscreet.clock, hpods, hdiscreet.lines, hframe.queue⟩

end

theorem OnAgents.beside (h : OnAgents workspace w) (hb : DifferOnlyIn other w v) : OnAgents workspace v := by
  obtain ⟨ws, hws, hmode⟩ := h
  exact ⟨ws, (hb.store.workspace?_eq workspace).trans hws, hmode⟩

/-- Whatever an attempt comes to, it leaves alone all but one task of its workspace, that task's slots
    and the workspace's place in the queue; and of the task's row it leaves what the task is, who
    confirmed it and how it ended. So two attempts on different workspaces that run on agents, neither
    of which changes how the sends of the other end, may run in either order: each ends as it does
    alone, and store, slots and queue are the same in the end. -/
theorem attempts_keep_to_their_workspace (hf : Filed w.store) (hn : w.capacity.Named) :
    (∀ workspace p, Attempt workspace p → ∀ n r w', Ends Aloof n p.run w r w' → Frame workspace w w') ∧
    ∀ first second i j p q, first ≠ second → OnAgents first w → OnAgents second w → AttemptBy i first p →
      AttemptBy j second q → ∀ e e' v v', p.run.run w = (e, v) → q.run.run w = (e', v') → e ≠ .stuck → e' ≠ .stuck →
      SendsAlike i first w v' → SendsAlike j second w v →
      ∃ u u', q.run.run v = (e', u) ∧ p.run.run v' = (e, u') ∧
        u.store = u'.store ∧ u.capacity = u'.capacity ∧ u.queue = u'.queue := by
  refine ⟨fun workspace p hp n r w' he => hp.frame hf hn he, ?_⟩
  intro first second i j p q hne hfirst hsecond hp hq e e' v v' hrun hrun' he he' hsends hsends'
  obtain ⟨hframe, hdiscreet, hbeside⟩ := hp.beside hne hfirst hf hn hrun he
  obtain ⟨hframe', hdiscreet', hbeside'⟩ := hq.beside hne.symm hsecond hf hn hrun' he'
  obtain ⟨u, hu, hbu, -⟩ := hq.again hne.symm hsecond hf hrun' he' hbeside (hdiscreet.sameAgents hsends')
  obtain ⟨u', hu', hbu', -⟩ := hp.again hne hfirst hf hrun he hbeside' (hdiscreet'.sameAgents hsends)
  have hvu := (hq.beside hne.symm (hsecond.beside hbeside) (hframe.filed hf) (hbeside.capacity ▸ hn) hu he').2.2
  have hvu' := (hp.beside hne (hfirst.beside hbeside') (hframe'.filed hf) (hbeside'.capacity ▸ hn) hu' he).2.2
  -- both ends differ from the end of the one attempt in the other workspace only, and the other way round
  have hbyFirst : DifferOnlyIn first u u' := hbu.symm.trans hvu'
  have hbySecond : DifferOnlyIn second u u' := hvu.symm.trans hbu'
  exact ⟨u, u', hu, hu', hbyFirst.store.eq hbySecond.store hne, hbyFirst.capacity.symm, hbyFirst.queue_eq hbySecond hne⟩

/-- Two workspaces wait with a plan each, and there is one agent for both. -/
def twoPlans : World where
  store := (({} : Store).putWorkspace { id := "ws-1", mode := .agent, pool := some "pool" })
    |>.putWorkspace { id := "ws-2", mode := .agent, pool := some "pool" }
    |>.setTask { id := 1, workspace := "ws-1", kind := .plan, status := .pending, createdAt := 0 }
    |>.setTask { id := 2, workspace := "ws-2", kind := .plan, status := .pending, createdAt := 0 }
  registry := ({} : Registry).connect "agent" (some "pool") none
  clock := 0

theorem filed_twoPlans : Filed twoPlans.store := by
  refine filed_of_keyed ?_
  unfold twoPlans
  iterate 2 apply Keyed.setTask
  exact keyed_empty.congr rfl

theorem allReached_twoPlans (hr : w.registry.Reaches "agent" ⟨some "pool", none, {}, 0⟩)
    (hconnections : w.registry.connections = twoPlans.registry.connections) : AllReached w := by
  intro agent conn h
  rw [hconnections] at h
  obtain rfl : agent = "agent" := by
    by_contra hne
    rw [show twoPlans.registry.connections = .insert .empty "agent" _ from rfl, Table.get?_insert_of_ne _ _ (Ne.symm hne)] at h
    cases h
  cases h
  exact hr

theorem attempts_keep_to_their_workspace_two_plans :
    ∃ v v', (tryDispatch { holder := "a" } 0 "ws-1").run.run twoPlans = (.finished (.ok (.started 1 (some "agent"))), v) ∧
      (tryDispatch { holder := "a" } 1 "ws-2").run.run twoPlans = (.finished (.ok (.started 2 (some "agent"))), v') ∧
      Frame "ws-1" twoPlans v ∧
      ∃ u u', (tryDispatch { holder := "a" } 1 "ws-2").run.run v = (.finished (.ok (.started 2 (some "agent"))), u) ∧
        (tryDispatch { holder := "a" } 0 "ws-1").run.run v' = (.finished (.ok (.started 1 (some "agent"))), u') ∧
        u.store = u'.store ∧ u.capacity = u'.capacity ∧ u.queue = u'.queue := by
  have hnamed : twoPlans.capacity.Named := Capacity.order_empty.named
  have hreached₀ : AllReached twoPlans := allReached_twoPlans ⟨rfl, rfl, by decide⟩ rfl
  obtain ⟨v, hrun, hconnections, hreached⟩ :
      ∃ v, (tryDispatch { holder := "a" } 0 "ws-1").run.run twoPlans = (.finished (.ok (.started 1 (some "agent"))), v) ∧
        v.registry.connections = twoPlans.registry.connections ∧ AllReached v :=
    ⟨_, rfl, rfl, allReached_twoPlans ⟨rfl, rfl, by decide⟩ rfl⟩
  obtain ⟨v', hrun', hconnections', hreached'⟩ :
      ∃ v', (tryDispatch { holder := "a" } 1 "ws-2").run.run twoPlans = (.finished (.ok (.started 2 (some "agent"))), v') ∧
        v'.registry.connections = twoPlans.registry.connections ∧ AllReached v' :=
    ⟨_, rfl, rfl, allReached_twoPlans ⟨rfl, rfl, by decide⟩ rfl⟩
  obtain ⟨n, hend⟩ : ∃ n, Ends Aloof n (tryDispatch { holder := "a" } 0 "ws-1").run twoPlans _ v := Ends.of_run hrun
  obtain ⟨hframes, horders⟩ := attempts_keep_to_their_workspace filed_twoPlans hnamed
  refine ⟨v, v', hrun, hrun', hframes "ws-1" _ (.next { holder := "a" } 0) n _ v hend, ?_⟩
  exact horders "ws-1" "ws-2" 0 1 _ _ (by decide) ⟨_, rfl, rfl⟩ ⟨_, rfl, rfl⟩ (.next _) (.next _) _ _ v v' hrun hrun'
    (fun h => nomatch h) (fun h => nomatch h) (sendsAlike_of_reached hconnections' hreached₀ hreached') (sendsAlike_of_reached hconnections hreached₀ hreached)

end Dispatch

end TaskFleet
