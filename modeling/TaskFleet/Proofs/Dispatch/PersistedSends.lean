/-
  TaskFleet.Proofs.Dispatch.PersistedSends — a task is sent when its row is written.

  An agent asks for its task as soon as it is told of it. So at the moment of the send the row says
  that the task runs for this agent, at the stage that the message is about, under a lease of the
  sender; and the agent is one that the task may go to.
  - `SendsOnly`: a program that uses its channel in certain states only, so that it makes no
    difference to a run what the channel does in any other.
  - `Persisted`: what is known at the moment of a send.
  - `attempts_persist_before_sending`: whole attempts, with nobody else at work.
-/

import TaskFleet.Proofs.Dispatch.Exits
import TaskFleet.Proofs.Dispatch.PairedAttempts

namespace TaskFleet

/-- Two channels that do the same wherever `P` holds of the call make the same run: the program
    makes no other calls. -/
def SendsOnly {α : Type} (P : String → AgentMessage → World → Prop) (p : Channel → Program World α) (w : World) : Prop :=
  ∀ send send' : Channel, (∀ agent m v, P agent m v → (send agent m).run.run v = (send' agent m).run.run v) →
    (p send).run w = (p send').run w

namespace Dispatch

open Fallible Program Capacity

variable {cfg : Settings} {process : Nat} {workspace pool agent : String} {w w' w₀ : World} {t u : Task} {ws : Workspace}
  {target : Target}

/-! ## What is known at the moment of a send -/

/-- The row of a task of which the agent is told. -/
structure SentRow (holder agent : String) (m : AgentMessage) (t : Task) : Prop where
  workspace : t.workspace = m.workspace
  running : t.status = .running
  agent : t.agent = some agent
  lease : ∃ l, t.lease = some l ∧ l.holder = holder
  plan : m.action = .plan → t.stage = some .planning
  apply : m.action = .apply → t.stage = some .applying ∧ t.isApplyConfirmed = true

/-- The agent is the first of the connected ones that belongs to the pool and takes tasks of the kind. -/
def FirstFree (r : Registry) (pool : String) (kind : TaskKind) (agent : String) : Prop :=
  ∃ before conn after, r.connections.rows = before ++ (agent, conn) :: after ∧
    (conn.pool = some pool ∧ conn.status.accepts kind = true) ∧
    ∀ p ∈ before, ¬(p.2.pool = some pool ∧ p.2.status.accepts kind = true)

/-- The agent is connected, and one that a task of the workspace may go to: the first free one of its
    pool, or the one on whose pod the task has a slot. -/
structure Entitled (ws : Workspace) (task : UInt64) (kind : TaskKind) (agent : String) (w : World) : Prop where
  connected : ∃ conn, w.registry.connections.get? agent = some conn
  onAgents : ws.mode = .agent → ∃ pool, ws.pool = some pool ∧ FirstFree w.registry pool kind agent
  onPods : ws.mode = .kubernetes → ∃ x, w.capacity.taskAt x = some task ∧
    (w.capacity.pods.get? x.pod).map (·.agent) = some (some agent)

/-- At the moment of a send of an attempt on the workspace, its row is written and the agent is
    entitled to the task. -/
structure Persisted (cfg : Settings) (workspace : String) (agent : String) (m : AgentMessage) (w : World) : Prop where
  own : m.workspace = workspace
  row : ∃ t ws, w.store.task? m.task = .ok (some t) ∧ SentRow cfg.holder agent m t ∧
    w.store.workspace? m.workspace = .ok (some ws) ∧ ws.mode ≠ .onHost ∧ Entitled ws m.task t.kind agent w

/-! ## The claim writes the row -/

/-- The row that a claim writes says what the message says. -/
theorem sentRow_taken (hconfirmed : u.status = .applyPending → u.isApplyConfirmed = true) {now : UInt64}
    (hends : (claimRequest cfg u now).lease?.isSome = true) :
    SentRow cfg.holder agent ⟨u.id, u.workspace, actionFor u⟩
      (Store.taken u (claimRequest cfg u now) (Task.start u.stageOnStart (some agent) now)) where
  workspace := rfl
  running := rfl
  agent := rfl
  lease := by
    obtain ⟨lease, hlease⟩ := Option.isSome_iff_exists.1 hends
    exact ⟨lease, hlease, Store.holder_of_lease? hlease⟩
  plan := fun haction => by
    have hst : u.status ≠ .applyPending := fun hst => by cases haction.symm.trans (if_pos hst)
    exact congrArg some (if_neg hst)
  apply := fun haction => by
    have hst : u.status = .applyPending := by
      by_contra hst
      cases haction.symm.trans (if_neg hst)
    exact ⟨congrArg some (if_pos hst), hconfirmed hst⟩

/-- Once a task is claimed that was in the store, what is known at the moment of a send is known. -/
theorem persisted_of_claim {claimed : Task} (hu : Picked workspace u w.store)
    (hconfirmed : u.status = .applyPending → u.isApplyConfirmed = true)
    (hws : w.store.workspace? workspace = .ok (some ws)) (hmode : ws.mode ≠ .onHost) (he : Entitled ws u.id u.kind agent w)
    (h : (claim cfg u (some agent)).run w = (.finished (.ok (some claimed)), w')) :
    Persisted cfg workspace agent ⟨u.id, u.workspace, actionFor u⟩ w' := by
  obtain ⟨store, hclaim, rfl⟩ := claimTask_of_run_claim h
  rcases Store.claimTask_cases hclaim with ⟨hno, -⟩ | ⟨t, ht, -, hclaimable, -, hstore⟩
  · exact absurd rfl (hno claimed)
  rw [hu.task?] at ht
  cases ht
  refine ⟨hu.2, Store.taken u (claimRequest cfg u w.now) (Task.start u.stageOnStart (some agent) w.now), ws, ?_,
    sentRow_taken hconfirmed (hclaimable rfl).ends, ?_, hmode, he.connected, he.onAgents, he.onPods⟩
  · show Table.record? store.tasks (taskKey u.id) = _
    rw [hstore]
    unfold Table.record?
    rw [Table.get?_insert_self]
    rfl
  · show store.workspace? u.workspace = _
    rw [hstore, hu.2]
    exact hws

/-! ## The agent is entitled to the task -/

theorem firstFree_of_head? {r : Registry} {kind : TaskKind} (h : (r.candidates pool kind).head? = some agent) :
    FirstFree r pool kind agent := by
  unfold Registry.candidates at h
  rw [List.head?_map, List.head?_filter] at h
  obtain ⟨⟨name, conn⟩, hfind, rfl⟩ := Option.map_eq_some_iff.1 h
  obtain ⟨hfits, before, after, hrows, hbefore⟩ := List.find?_eq_some_iff_append.1 hfind
  refine ⟨before, conn, after, hrows, by simpa using hfits, fun p hp hfree => ?_⟩
  have hno := hbefore p hp
  simp [hfree.1, hfree.2] at hno

theorem mem_agents_of_candidates {r : Registry} {kind : TaskKind} (h : agent ∈ r.candidates pool kind) : agent ∈ r.agents := by
  obtain ⟨p, hp, rfl⟩ := List.mem_map.1 h
  exact List.mem_map_of_mem (List.mem_filter.1 hp).1

theorem connected_of_mem {r : Registry} (h : agent ∈ r.agents) : ∃ conn, r.connections.get? agent = some conn := by
  obtain ⟨⟨name, conn⟩, hp, rfl⟩ := List.mem_map.1 h
  exact ⟨conn, Table.mem_rows_iff.1 hp⟩

theorem of_run_connected {names : List String} (h : Agent.connected.run w = (.finished names, w')) :
    names = w.registry.agents ∧ w' = w ∧ w.agentsFault = none := by
  unfold Agent.connected at h
  rw [run_get_bind] at h
  cases hf : w.agentsFault with
  | some m => rw [hf] at h; cases h
  | none => rw [hf] at h; cases h; exact ⟨rfl, rfl, rfl⟩

theorem of_run_candidates {names : List String} {kind : TaskKind}
    (h : (Agent.candidates pool kind).run w = (.finished names, w')) : names = w.registry.candidates pool kind ∧ w' = w := by
  obtain ⟨_, w₁, hconn, hrest⟩ := of_run_bind h
  rw [(of_run_connected hconn).2.1] at hrest
  have hend : (Ending.finished (w.registry.candidates pool kind), w) = (Ending.finished names, w') := hrest
  cases hend
  exact ⟨rfl, rfl⟩

theorem mem_of_run_allocateOnFirst {agents : List String} {p : Placement}
    (h : (allocateOnFirst t agents).run w = (.finished (some (agent, p)), w')) : agent ∈ agents := by
  induction agents generalizing w with
  | nil => cases h
  | cons first rest ih =>
    obtain ⟨r, w₁, -, h⟩ := of_run_bind h
    cases r with
    | ok p => cases h; exact List.mem_cons_self
    | error e => exact List.mem_cons_of_mem _ (ih h)

/-- The agent that is found is connected; without pods it is the first free one. -/
theorem of_run_findTarget {onPods : Bool} {place : Option Placement}
    (h : (findTarget t pool onPods place w.registry.agents).run w = (.finished (some target), w')) :
    target.agent ∈ w.registry.agents ∧ (onPods = false → place = none → FirstFree w.registry pool t.kind target.agent) := by
  unfold findTarget at h
  split at h
  · next agent hagent =>
    cases h
    obtain ⟨hsome, hin⟩ := Option.filter_eq_some_iff.1 hagent
    refine ⟨List.contains_iff_mem.1 hin, fun _ hplace => ?_⟩
    rw [hplace] at hsome
    cases hsome
  · obtain ⟨_, w₁, hrelease, h⟩ := of_run_bind h
    obtain ⟨c, rfl⟩ := (onlyPods_release place).run hrelease
    obtain ⟨names, w₂, hcandidates, h⟩ := of_run_bind h
    obtain ⟨rfl, rfl⟩ := of_run_candidates hcandidates
    split at h
    · next hon =>
      obtain ⟨found, w₃, hfirst, h⟩ := of_run_bind h
      have h : (Ending.finished (found.map fun r => ⟨r.1, some r.2⟩), w₃) = (Ending.finished (some target), w') := h
      obtain ⟨⟨agent, p⟩, rfl, rfl⟩ := Option.map_eq_some_iff.1 (Ending.finished.inj (Prod.mk.inj h).1)
      refine ⟨mem_agents_of_candidates (mem_of_run_allocateOnFirst hfirst), fun hoff => ?_⟩
      rw [hon] at hoff
      cases hoff
    · have h : (Ending.finished ((w.registry.candidates pool t.kind).head?.map fun agent => ⟨agent, none⟩), _) =
        (Ending.finished (some target), w') := h
      obtain ⟨agent, hhead, rfl⟩ := Option.map_eq_some_iff.1 (Ending.finished.inj (Prod.mk.inj h).1)
      exact ⟨mem_agents_of_candidates (List.mem_of_head? hhead), fun _ _ => firstFree_of_head? hhead⟩

/-! ## On the way to a send -/

/-- The task and its workspace are in the store as the attempt knows them. -/
def Known (workspace : String) (u : Task) (ws : Workspace) (s : Store) : Prop :=
  Picked workspace u s ∧ s.workspace? workspace = .ok (some ws)

/-- So far the attempt has written nothing but the slot that may be in its hand. -/
def Bound (workspace : String) (u : Task) (ws : Workspace) (place : Option Placement) (w : World) : Prop :=
  Known workspace u ws w.store ∧ ∃ c, Holding u.id place c w.capacity

/-- The search for an agent ends with one that is entitled to the task. -/
theorem entitled_of_findTarget {onPods : Bool} {place : Option Placement} (hpool : ws.pool = some pool)
    (hon : onPods = true ↔ ws.mode = .kubernetes) (hplace : place.isSome = onPods) (hb : Bound workspace u ws place w)
    (h : (findTarget u pool onPods place w.registry.agents).run w = (.finished (some target), w')) :
    Known workspace u ws w'.store ∧ Entitled ws u.id u.kind target.agent w' := by
  obtain ⟨hknown, c, hheld⟩ := hb
  obtain ⟨hagent, hfirst⟩ := of_run_findTarget h
  obtain ⟨n, hend⟩ : ∃ n, Ends SamePods n (findTarget u pool onPods place w.registry.agents) w (.ok (some target)) w' :=
    Ends.of_run h
  obtain ⟨_, hr, hheld', hfits⟩ := (ends_findTarget (handles_holding c) hheld hplace hend).resolve_left
    fun ⟨_, hr, _⟩ => by cases hr
  cases hr
  have hfits := hfits target rfl
  obtain ⟨capacity, rfl⟩ := (onlyPods_findTarget pool onPods place _).run h
  refine ⟨hknown, connected_of_mem hagent, fun hmode => ⟨pool, hpool, ?_⟩, fun hmode => ?_⟩
  · have hoff : onPods = false := Bool.eq_false_iff.2 fun h => by rw [hon.1 h] at hmode; cases hmode
    rw [hoff] at hplace
    exact hfirst hoff (Option.isSome_eq_false_iff.1 hplace |> Option.isNone_iff_eq_none.1)
  · obtain ⟨p, hp⟩ := Option.isSome_iff_exists.1 (hfits.placed.trans (hon.2 hmode))
    rw [Option.bind_some, hp] at hheld'
    exact ⟨p.spot, (hheld'.spared.inHand p.spot rfl).1, (hheld'.agent p rfl).trans (congrArg some (hfits.agent p hp))⟩

/-! ## Two channels that do the same where it counts -/

section

variable {send send' : Channel}
  (hsend : ∀ agent m v, Persisted cfg workspace agent m v → (send agent m).run.run v = (send' agent m).run.run v)

include hsend

theorem pairs_handOverBy (hconfirmed : u.status = .applyPending → u.isApplyConfirmed = true) (hmode : ws.mode ≠ .onHost) :
    Pairs (Same fun w => Known workspace u ws w.store ∧ Entitled ws u.id u.kind target.agent w)
      (handOverBy send cfg u target) (handOverBy send' cfg u target) (fun _ s t => s = t) fun s t => s = t := by
  refine (pairs_same_of (J := fun r w => ∀ claimed, r = .ok (some claimed) →
    Persisted cfg workspace target.agent ⟨u.id, u.workspace, actionFor u⟩ w) ?_).bind fun r => ?_
  · rintro s r s' ⟨⟨hu, hws⟩, he⟩ hrun claimed rfl
    exact persisted_of_claim hu hconfirmed hws hmode he hrun
  match r with
  | .error _ => exact (pairs_same _).pre fun _ _ h => h.1
  | .ok none => exact (pairs_same _).pre fun _ _ h => h.1
  | .ok (some claimed) =>
    refine Pairs.bind (M := fun _ s t => s = t) ?_ fun _ => pairs_same _
    rintro s _ ⟨rfl, hp⟩
    rw [hsend _ _ _ (hp claimed rfl)]
    exact pairs_same _ s s rfl

theorem pairs_pushToPoolBy {onPods : Bool} {place : Option Placement}
    (hconfirmed : u.status = .applyPending → u.isApplyConfirmed = true) (hmode : ws.mode ≠ .onHost)
    (hpool : ws.pool = some pool) (hon : onPods = true ↔ ws.mode = .kubernetes) (hplace : place.isSome = onPods) :
    Pairs (Same (Bound workspace u ws place)) (pushToPoolBy send cfg u pool onPods place)
      (pushToPoolBy send' cfg u pool onPods place) (fun _ s t => s = t) fun s t => s = t := by
  refine (pairs_same_of (J := fun names w => names = w.registry.agents ∧ Bound workspace u ws place w) ?_).bind fun names => ?_
  · intro s names s' hb hrun
    obtain ⟨hnames, rfl, -⟩ := of_run_connected hrun
    exact ⟨hnames, hb⟩
  split
  · exact (pairs_same _).pre fun _ _ h => h.1
  refine (pairs_same_of (J := fun found w => ∀ target, found = some target →
    Known workspace u ws w.store ∧ Entitled ws u.id u.kind target.agent w) ?_).bind fun found => ?_
  · rintro s found s' ⟨rfl, hb⟩ hrun target rfl
    exact entitled_of_findTarget hpool hon hplace hb hrun
  cases found with
  | none => exact (pairs_same _).pre fun _ _ h => h.1
  | some target => exact (pairs_handOverBy hsend hconfirmed hmode).pre fun _ _ h => ⟨h.1, h.2 target rfl⟩

theorem pairs_pushToAgentBy (hconfirmed : u.status = .applyPending → u.isApplyConfirmed = true) (hmode : ws.mode ≠ .onHost) :
    Pairs (Same fun w => Known workspace u ws w.store ∧ w.capacity.Named) (pushToAgentBy send cfg u ws)
      (pushToAgentBy send' cfg u ws) (fun _ s t => s = t) fun s t => s = t := by
  unfold pushToAgentBy
  split
  · exact (pairs_same _).pre fun _ _ h => h.1
  next pool hpool =>
  split
  · next hpods =>
    refine (pairs_same_of (J := fun place w => Bound workspace u ws place w) ?_).bind fun place => ?_
    · rintro s place s' ⟨hknown, hn⟩ hrun
      obtain ⟨n, hend⟩ : ∃ n, Ends SamePods n (findSlot cfg u pool) s (.ok place) s' := Ends.of_run hrun
      obtain ⟨_, hr, hheld⟩ := ends_findSlot (handles_holding s.capacity) (enters_holding hn) hend
      cases hr
      obtain ⟨capacity, rfl⟩ := (onlyPods_findSlot pool).run hrun
      exact ⟨hknown, s.capacity, hheld⟩
    cases place with
    | none => exact (pairs_same _).pre fun _ _ h => h.1
    | some place => exact pairs_pushToPoolBy hsend hconfirmed hmode hpool (by simp [hpods]) rfl
  · next hno =>
    refine (pairs_pushToPoolBy hsend hconfirmed hmode hpool (by simp [hno]) rfl).pre fun s t h => ⟨h.1, h.2.1, s.capacity, ?_⟩
    exact .empty h.2.2 u.id

theorem pairs_dispatchTaskBy :
    Pairs (Same fun w => Picked workspace u w.store ∧ w.capacity.Named) (dispatchTaskBy send cfg u).run
      (dispatchTaskBy send' cfg u).run (fun _ s t => s = t) fun s t => s = t := by
  unfold dispatchTaskBy
  split
  · exact pairs_pure fun _ _ h => h.1
  next hconfirmed =>
  refine pairs_look_bind (fun s t h => by rw [h.1]) (fun found => ?_) fun _ _ _ h => h.1
  cases found with
  | none => exact pairs_pure fun _ _ h => h.1.1
  | some ws =>
    simp only
    split
    · exact (pairs_always (pairs_same _)).pre fun _ _ h => h.1.1
    · next hmode =>
      refine (pairs_always (pairs_pushToAgentBy hsend (fun hst => ?_) hmode)).pre fun s t h => ?_
      · simpa [hst] using hconfirmed
      · obtain ⟨⟨rfl, hu, hn⟩, hws⟩ := h
        exact ⟨rfl, ⟨hu, hu.2 ▸ hws⟩, hn⟩

theorem startsAlike_dispatchTaskBy :
    StartsAlike (Same fun w => Filed w.store ∧ w.capacity.Named) (fun s t => s = t) workspace (dispatchTaskBy send cfg)
      (dispatchTaskBy send' cfg) where
  ended := fun _ _ h => h.1
  started := fun _ => (pairs_dispatchTaskBy hsend).pre fun _ _ h => ⟨h.1.1, h.2, h.1.2.2⟩

end

/-! ## Whole attempts -/

theorem agrees_same : Agrees (Same fun w => Filed w.store ∧ w.capacity.Named) process workspace where
  filed := fun _ _ h => h.2.1
  hold := fun _ _ h => by rw [h.1]
  listed := fun _ _ h => by rw [h.1]
  next := fun _ _ h => by rw [h.1]
  checks := fun _ _ _ h => by rw [h.1]
  own := fun _ _ _ h hu => h.1 ▸ hu
  holds := fun _ _ h => by rw [h.1]
  request := fun _ _ h => ⟨by rw [h.1], h.2⟩

theorem keptAtEnd_eq : KeptAtEnd (fun s t => s = t) process workspace where
  release := fun _ _ h => by rw [h]
  clock := fun _ _ h => by rw [h]
  schedule := fun _ _ _ h => by rw [h]

/-- An attempt tells an agent of a task only when the row of the task is written and the agent is
    entitled to it: what the channel does at any other moment makes no difference to the attempt.
    The attempts are those that send on the dispatcher's channel. -/
theorem attempts_persist_before_sending (cfg : Settings) (process : Nat) (workspace : String) (hf : Filed w.store)
    (hn : w.capacity.Named) :
    (tryDispatchBy (dispatchTaskBy (Agent.sendTask process) cfg) cfg process workspace = tryDispatch cfg process workspace ∧
      SendsOnly (Persisted cfg workspace)
        (fun send => (tryDispatchBy (dispatchTaskBy send cfg) cfg process workspace).run) w) ∧
    ∀ task,
      executeConfirmedApplyBy (dispatchTaskBy (Agent.sendTask process) cfg) cfg process workspace task =
        executeConfirmedApply cfg process workspace task ∧
      SendsOnly (Persisted cfg workspace)
        (fun send => (executeConfirmedApplyBy (dispatchTaskBy send cfg) cfg process workspace task).run) w := by
  refine ⟨⟨rfl, fun send send' hsend => ?_⟩, fun task => ⟨rfl, fun send send' hsend => ?_⟩⟩
  · exact (pairs_tryDispatchBy agrees_same keptAtEnd_eq (startsAlike_dispatchTaskBy hsend) w w ⟨rfl, hf, hn⟩).eq
  · exact (pairs_executeConfirmedApplyBy agrees_same keptAtEnd_eq (startsAlike_dispatchTaskBy hsend) w w ⟨rfl, hf, hn⟩).eq

/-- A channel on which nothing arrives. -/
def deadChannel : Channel := fun agent _ => throw (.notConnected agent)

/-- From a pending plan and a free slot the attempt does send: a dead channel makes a difference. -/
theorem attempts_persist_before_sending_one_plan :
    SendsOnly (Persisted { holder := "a" } "ws")
      (fun send => (tryDispatchBy (dispatchTaskBy send { holder := "a" }) { holder := "a" } 0 "ws").run) oneFreeSlot ∧
    ((tryDispatch { holder := "a" } 0 "ws").run.run oneFreeSlot).1 = .finished (.ok (.started 1 (some "agent"))) ∧
    ((tryDispatchBy (dispatchTaskBy deadChannel { holder := "a" }) { holder := "a" } 0 "ws").run.run oneFreeSlot).1 =
      .finished (.ok (.retry 1 (.ofSecs 5) .sendFailed)) :=
  ⟨(attempts_persist_before_sending { holder := "a" } 0 "ws" filed_oneFreeSlot named_oneFreeSlot).1.2, rfl, rfl⟩

end Dispatch

end TaskFleet
