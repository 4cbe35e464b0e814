/-
  TaskFleet.Proofs.Dispatch.FailedSends — a send that fails is taken back.

  Had the message got through, the attempt would have started its task. As it did not, the row is as
  it was, but for the agent, the lease and the count of failed attempts, and nothing is on the slot
  that was used. No other slot has changed, unless the attempt found its first slot on a pod whose
  agent is not connected: that one is given up before another one is looked for.
  - `Refuses`: a channel on which nothing gets to the agent while the agents are as they are.
  - `OnSlot`, `GivenUp`: what an attempt has done to the slots when it sends.
  - `Reverts`: what was started on one channel is taken back on another one.
  - `failed_sends_are_taken_back`: whole attempts, with nobody else at work.
  - `parked_slot_is_given_up`: the other slot that may be free afterwards was kept for the apply.
-/

import TaskFleet.Proofs.Capacity.FreedSlots
import TaskFleet.Proofs.Dispatch.PersistedSends
import TaskFleet.Proofs.Dispatch.SoloAttempts

namespace TaskFleet.Dispatch

open Fallible Program Capacity Store

variable {cfg : Settings} {process : Nat} {workspace pool agent : String} {via send : Channel} {w v v₁ v₂ v' w₁ : World}
  {t : Task} {ws : Workspace} {mode : ExecutionMode} {id task : UInt64} {target : Target} {p q : Placement}
  {place : Option Placement} {c c₁ c₂ : Capacity} {α : Type}

/-- A channel that touches nothing but the agents, and on which no message gets to this one as long as
    the agents are as they are in this world when the send begins. What they do while it waits is
    part of the channel. -/
structure Refuses (send : Channel) (agent : String) (w : World) : Prop where
  agents : ∀ agent m, (send agent m).run.Steps OnlyAgents
  fails : ∀ m v, v.registry = w.registry → v.sendFault = w.sendFault →
    ∃ e v', (send agent m).run.run v = (.finished (.error e), v')

/-- Whatever error a dispatcher's send ends in, it ends in it wherever the agents are the same. -/
theorem refuses_sendTask (h : ∀ m, ∃ e v, (Agent.sendTask process agent m).run.run w = (.finished (.error e), v)) :
    Refuses (Agent.sendTask process) agent w where
  agents := Agent.onlyAgents_sendTask process
  fails m v hregistry hfault := by
    obtain ⟨e, w₁, hrun⟩ := h m
    obtain ⟨ending, registry, hw, hv⟩ := Agent.run_sendTask_congr hregistry.symm hfault.symm process agent m
    cases hw.symm.trans hrun
    exact ⟨e, _, hv⟩

/-! ## Slots -/

/-- The task was put on this slot, which was its own or free. -/
structure PutOn (task : UInt64) (p : Placement) (c c₁ : Capacity) : Prop where
  before : c.taskAt p.spot = some task ∨ ∃ s, c.slotAt p.spot = some s ∧ s.isIdle = true
  here : ∃ s, c₁.slotAt p.spot = some s ∧ s.task = some task
  others : ∀ y, y ≠ p.spot → c₁.slotAt y = c.slotAt y
  agents : ∀ pod, (c₁.pods.get? pod).map (·.agent) = (c.pods.get? pod).map (·.agent)
  agent : (c.pods.get? p.pod).map (·.agent) = some p.agent
  named : c.Named → c₁.Named

theorem putOn_placementOf? (hn : c.Named) (h : c.placementOf? task = some p) : PutOn task p c c := by
  have htask := taskAt_of_placementOf? hn h
  exact ⟨.inl htask, Option.bind_eq_some_iff.1 htask, fun _ _ => rfl, fun _ => rfl, agent_of_placementOf? hn h, id⟩

theorem putOn_of_reserves {kind : TaskKind} {now : UInt64} (h : Reserves c c₁ p task kind now) : PutOn task p c c₁ := by
  obtain ⟨⟨s, hs, hidle⟩, hagent, rfl⟩ := h
  have hhere : (c.modifySlot p.pod p.slot (·.bind .reserved task kind now)).slotAt p.spot = some _ := slotAt_modifySlot_self hs
  exact ⟨.inr ⟨s, hs, hidle⟩, ⟨_, hhere, rfl⟩, fun y hy => slotAt_modifySlot_of_ne hy,
    fun pod => agent_modifySlot p.spot _ pod, hagent, fun hn => hn.modify p.pod fun _ => rfl⟩

/-- A slot that the attempt had first, on a pod whose agent is not connected, and that is free now. -/
structure GivenUp (task : UInt64) (w : World) (c : Capacity) (y : Spot) : Prop where
  before : w.capacity.taskAt y = some task ∨ ∃ s, w.capacity.slotAt y = some s ∧ s.isIdle = true
  away : ∀ agent, (w.capacity.pods.get? y.pod).map (·.agent) = some (some agent) → w.registry.connections.get? agent = none
  free : ∃ s, c.slotAt y = some s ∧ s.IsFree

/-- Every slot but this one is as it was, unless the attempt had another one first and gave it up. -/
def OthersKept (task : UInt64) (w : World) (x : Spot) (c : Capacity) : Prop :=
  ∃ first, (first = x ∨ GivenUp task w c first) ∧ ∀ y, y ≠ x → y ≠ first → c.slotAt y = w.capacity.slotAt y

theorem OthersKept.modifySlot {x : Spot} (h : OthersKept task w x c) (f : Slot → Slot) :
    OthersKept task w x (c.modifySlot x.pod x.slot f) := by
  have hsame : ∀ y, y ≠ x → (c.modifySlot x.pod x.slot f).slotAt y = c.slotAt y := fun y hy => slotAt_modifySlot_of_ne hy
  obtain ⟨first, hfirst, hkept⟩ := h
  refine ⟨first, ?_, fun y hy hyfirst => (hsame y hy).trans (hkept y hy hyfirst)⟩
  by_cases hx : first = x
  · exact .inl hx
  · have hgiven := hfirst.resolve_left hx
    exact .inr ⟨hgiven.before, hgiven.away, by rw [hsame first hx]; exact hgiven.free⟩

/-- The attempt has the task on this slot. -/
structure OnSlot (task : UInt64) (w : World) (p : Placement) (c : Capacity) : Prop where
  here : ∃ s, c.slotAt p.spot = some s ∧ s.task = some task
  agent : (c.pods.get? p.pod).map (·.agent) = some p.agent
  others : OthersKept task w p.spot c

theorem PutOn.onSlot (h : PutOn task p w.capacity c) : OnSlot task w p c :=
  ⟨h.here, (h.agents p.pod).trans h.agent, p.spot, .inl rfl, fun y hy _ => h.others y hy⟩

/-- A slot is given up for another one. -/
theorem PutOn.moved (h : PutOn task p w.capacity c) {now : UInt64}
    (h' : PutOn task q (c.modifySlot p.pod p.slot (·.clear now)) c₂)
    (haway : ∀ agent, p.agent = some agent → w.registry.connections.get? agent = none) : OnSlot task w q c₂ := by
  refine ⟨h'.here, (h'.agents q.pod).trans h'.agent, p.spot, ?_, fun y hyq hyp => ?_⟩
  · by_cases hpq : p.spot = q.spot
    · exact .inl hpq
    · obtain ⟨s, hs, -⟩ := h.here
      have hclear : (c.modifySlot p.pod p.slot (·.clear now)).slotAt p.spot = some (s.clear now) := slotAt_modifySlot_self hs
      refine .inr ⟨h.before, fun a ha => ?_, s.clear now, (h'.others p.spot hpq).trans hclear, Slot.isFree_clear s now⟩
      exact haway a (Option.some.inj (h.agent.symm.trans ha))
  · have hsame : (c.modifySlot p.pod p.slot (·.clear now)).slotAt y = c.slotAt y := slotAt_modifySlot_of_ne (y := p.spot) hyp
    exact (h'.others y hyq).trans (hsame.trans (h.others y hyp))

theorem OnSlot.runsOn (h : OnSlot task w p c) (now : UInt64) :
    (c.modifySlot p.pod p.slot (·.markRunning now)).RunsOn task p.spot p.agent := by
  obtain ⟨s, hs, htask⟩ := h.here
  exact ⟨⟨s.markRunning now, slotAt_modifySlot_self (y := p.spot) hs, htask, rfl⟩, (agent_modifySlot p.spot _ _).trans h.agent⟩

theorem OnSlot.free (h : OnSlot task w p c) (now : UInt64) :
    ∃ s, (c.modifySlot p.pod p.slot (·.clear now)).slotAt p.spot = some s ∧ s.IsFree := by
  obtain ⟨s, hs, -⟩ := h.here
  exact ⟨s.clear now, slotAt_modifySlot_self (y := p.spot) hs, Slot.isFree_clear s now⟩

/-! ## On the way to the send -/

theorem of_run_onCapacity {α : Type} {f : Capacity → UInt64 → Except CapacityError (α × Capacity)} {r : Except CapacityError α}
    (h : (Program.onCapacity f).run w = (.finished r, v)) :
    (∃ a capacity, r = .ok a ∧ f w.capacity w.now = .ok (a, capacity) ∧ v = { w with capacity }) ∨
      ∃ e, r = .error e ∧ v = w := by
  unfold Program.onCapacity at h
  rw [run_apply] at h
  cases hf : f w.capacity w.now with
  | ok a =>
    rw [hf] at h
    cases h
    exact .inl ⟨a.1, a.2, rfl, rfl, rfl⟩
  | error e =>
    rw [hf] at h
    cases h
    exact .inr ⟨e, rfl, rfl⟩

theorem putOn_of_findSlot (hn : w.capacity.Named) (h : (findSlot cfg t pool).run w = (.finished (some p), v)) :
    PutOn t.id p w.capacity v.capacity ∧ OnlyPods w v := by
  refine ⟨?_, (onlyPods_findSlot pool).run h⟩
  unfold findSlot at h
  rw [run_get_bind] at h
  split at h
  · next held hheld =>
    cases h
    split at hheld
    · exact putOn_placementOf? hn hheld
    · cases hheld
  · obtain ⟨r, v₁, hallocate, hrest⟩ := of_run_bind h
    obtain ⟨a, capacity, rfl, hok, rfl⟩ | ⟨e, rfl, rfl⟩ := of_run_onCapacity hallocate
    · cases hrest
      exact putOn_of_reserves (allocate_reserves hn hok)
    · cases hrest

theorem putOn_of_allocateOnFirst {agents : List String} {a : String} (hn : w.capacity.Named)
    (h : (allocateOnFirst t agents).run w = (.finished (some (a, p)), v)) :
    PutOn t.id p w.capacity v.capacity ∧ p.agent = some a := by
  induction agents generalizing w with
  | nil => cases h
  | cons first rest ih =>
    obtain ⟨r, v₁, hallocate, hrest⟩ := of_run_bind h
    obtain ⟨b, capacity, rfl, hok, rfl⟩ | ⟨e, rfl, rfl⟩ := of_run_onCapacity hallocate
    · cases hrest
      obtain ⟨hreserves, hagent⟩ := allocateOnAgent_reserves hn hok
      exact ⟨putOn_of_reserves hreserves, hagent⟩
    · exact ih hn hrest

/-- What is on the slot of a place, changed. -/
def atPlace (place : Option Placement) (f : Slot → Slot) (c : Capacity) : Capacity :=
  place.elim c fun p => c.modifySlot p.pod p.slot f

theorem run_release (hslot : ∀ p, place = some p → ∃ s, w.capacity.slotAt p.spot = some s) :
    (release place).run w = (.finished (), { w with capacity := atPlace place (·.clear w.now) w.capacity }) := by
  cases place with
  | none => rfl
  | some p =>
    obtain ⟨s, hs⟩ := hslot p rfl
    exact run_bind_finished _ (run_editCapacity (setSlot_eq (x := p.spot) hs))

theorem connections_of_not_mem {r : Registry} {a : String} (h : a ∉ r.agents) : r.connections.get? a = none := by
  cases hget : r.connections.get? a with
  | none => rfl
  | some conn => exact absurd (List.mem_map_of_mem (Table.mem_rows_iff.2 hget)) h

/-- The search for an agent keeps the slot, or gives it up for one on the pod of an agent that is
    connected. -/
theorem onSlot_of_findTarget (hn : w.capacity.Named) (hput : PutOn t.id p w.capacity c)
    (h : (findTarget t pool true (some p) w.registry.agents).run { w with capacity := c } = (.finished (some target), v)) :
    ∃ q, target.place = some q ∧ q.agent = some target.agent ∧ OnSlot t.id w q v.capacity := by
  unfold findTarget at h
  split at h
  · next a ha =>
    cases h
    exact ⟨p, rfl, (Option.filter_eq_some_iff.1 ha).1, hput.onSlot⟩
  · next hnone =>
    obtain ⟨_, v₁, hrelease, h⟩ := of_run_bind h
    have hslot : ∀ q, some p = some q → ∃ s, c.slotAt q.spot = some s := fun q hq => by
      cases hq
      exact hput.here.imp fun _ h => h.1
    cases (run_release (w := { w with capacity := c }) hslot).symm.trans hrelease
    obtain ⟨names, v₂, hcandidates, h⟩ := of_run_bind h
    obtain ⟨rfl, rfl⟩ := of_run_candidates hcandidates
    rw [if_pos rfl] at h
    obtain ⟨found, v₃, hfirst, h⟩ := of_run_bind h
    have hend : (Ending.finished (found.map fun r => (⟨r.1, some r.2⟩ : Target)), v₃) = (Ending.finished (some target), v) := h
    obtain ⟨⟨a, q⟩, rfl, rfl⟩ := Option.map_eq_some_iff.1 (Ending.finished.inj (Prod.mk.inj hend).1)
    cases (Prod.mk.inj hend).2
    have hcleared : (c.modifySlot p.pod p.slot (·.clear w.now)).Named := (hput.named hn).modify p.pod fun _ => rfl
    obtain ⟨hput', hagent⟩ := putOn_of_allocateOnFirst hcleared hfirst
    refine ⟨q, rfl, hagent, hput.moved hput' fun b hb => connections_of_not_mem fun hmem => ?_⟩
    rw [Option.bind_some, hb, Option.filter_some, if_pos (List.contains_iff_mem.2 hmem)] at hnone
    cases hnone

/-- Without pods the search for an agent leaves the slots alone. -/
theorem noSlot_of_findTarget {connected : List String}
    (h : (findTarget t pool false none connected).run w = (.finished (some target), v)) : target.place = none ∧ v = w := by
  obtain ⟨_, v₁, hrelease, hcandidates⟩ := of_run_bind h
  obtain rfl : v₁ = w := (Prod.mk.inj hrelease).2.symm
  obtain ⟨names, v₂, hnames, hhead⟩ := of_run_bind hcandidates
  obtain ⟨rfl, rfl⟩ := of_run_candidates hnames
  have hend : (Ending.finished ((v₂.registry.candidates pool t.kind).head?.map fun a => (⟨a, none⟩ : Target)), v₂) =
    (Ending.finished (some target), v) := hhead
  obtain ⟨a, -, rfl⟩ := Option.map_eq_some_iff.1 (Ending.finished.inj (Prod.mk.inj hend).1)
  exact ⟨rfl, (Prod.mk.inj hend).2.symm⟩

/-! ## From the send on -/

/-- The attempt has the task where it is to go: on a slot, or at an agent without pods. -/
def Housed (mode : ExecutionMode) (task : UInt64) (w : World) (target : Target) (c : Capacity) : Prop :=
  if mode = .kubernetes then ∃ p, target.place = some p ∧ p.agent = some target.agent ∧ OnSlot task w p c
  else target.place = none ∧ c = w.capacity

/-- The slot on which the task would run is free, and the others are kept. Without pods all slots are as
    they were. -/
def SlotsBack (mode : ExecutionMode) (task : UInt64) (agent : String) (w : World) (c₁ c : Capacity) : Prop :=
  if mode = .kubernetes then
    ∃ x, c₁.RunsOn task x (some agent) ∧ (∃ s, c.slotAt x = some s ∧ s.IsFree) ∧ OthersKept task w x c
  else c = w.capacity

theorem Housed.slot (h : Housed mode task w target c) (hp : target.place = some p) : ∃ s, c.slotAt p.spot = some s := by
  unfold Housed at h
  split at h
  · obtain ⟨q, hq, -, hon⟩ := h
    cases hp.symm.trans hq
    obtain ⟨s, hs, -⟩ := hon.here
    exact ⟨s, hs⟩
  · cases hp.symm.trans h.1

theorem Housed.slotsBack (h : Housed mode task w target c) (now : UInt64) :
    SlotsBack mode task target.agent w (atPlace target.place (·.markRunning now) c) (atPlace target.place (·.clear now) c) := by
  unfold Housed at h
  unfold SlotsBack
  split
  · next hmode =>
    rw [if_pos hmode] at h
    obtain ⟨q, hplace, hagent, hon⟩ := h
    rw [hplace]
    exact ⟨q.spot, hagent ▸ hon.runsOn now, hon.free now, hon.others.modifySlot _⟩
  · next hmode =>
    rw [if_neg hmode] at h
    rw [h.1]
    exact h.2

/-- Who stands in line for locks does not matter. -/
theorem SlotsBack.unlocked {locks : Locks} (h : SlotsBack mode task agent { w with locks } c₁ c) :
    SlotsBack mode task agent w c₁ c := by
  unfold SlotsBack at h ⊢
  split
  · next hmode =>
    rw [if_pos hmode] at h
    obtain ⟨x, hruns, hfree, first, hfirst, hkept⟩ := h
    exact ⟨x, hruns, hfree, first, hfirst.imp_right fun h => ⟨h.before, h.away, h.free⟩, hkept⟩
  · next hmode =>
    rw [if_neg hmode] at h
    exact h

/-- An attempt that would have put the task on a slot of these pods has been taken back: the row is the
    one before it, with one more failed attempt and without an agent and a lease. -/
structure TakenBack (mode : ExecutionMode) (t : Task) (agent : String) (w : World) (c₁ : Capacity) (v : World) : Prop where
  row : RowIs { t with agent := none, lease := none }.countRetry w.store v.store
  slots : SlotsBack mode t.id agent w c₁ v.capacity
  clock : v.clock = w.clock

/-- Where the program would have started the task for the agent on the one channel, it takes it back on
    the other one. -/
def Reverts (via send : Channel) (cfg : Settings) (mode : ExecutionMode) (t : Task) (agent : String) (w v : World)
    (p : Channel → Program World DispatchOutcome) : Prop :=
  ∀ id v₁, (p via).run v = (.finished (.started id (some agent)), v₁) →
    id = t.id ∧ ∃ v', (p send).run v = (retried t.id (cfg.dispatch.backoff.delay t.retryCount) .sendFailed w, v') ∧
      TakenBack mode t agent w v₁.capacity v'

theorem reverts_bind {q : Program World α} {k : α → Channel → Program World DispatchOutcome}
    (h : ∀ a v₂, q.run v = (.finished a, v₂) → Reverts via send cfg mode t agent w v₂ (k a)) :
    Reverts via send cfg mode t agent w v fun send => q >>= fun a => k a send := by
  intro id v₁ hrun
  obtain ⟨a, v₂, hq, hrest⟩ := of_run_bind hrun
  obtain ⟨hid, v', hsend, hback⟩ := h a v₂ hq id v₁ hrest
  exact ⟨hid, v', (run_bind_finished _ hq).trans hsend, hback⟩

/-- The program starts nothing. -/
theorem reverts_of_run {q : Channel → Program World DispatchOutcome} {e : Ending DispatchOutcome}
    (h : (q via).run v = (e, v')) (he : ∀ id, e ≠ .finished (.started id (some agent))) :
    Reverts via send cfg mode t agent w v q := by
  intro id v₁ hrun
  exact absurd (Prod.mk.inj (h.symm.trans hrun)).1 (he id)

theorem reverts_retryWithBackoff {reason : RetryReason} :
    Reverts via send cfg mode t agent w v fun _ => retryWithBackoff cfg t reason := by
  obtain ⟨store, v', hretry, -⟩ := run_retryWithBackoff cfg t reason v
  exact reverts_of_run hretry fun _ => retried_ne_started

theorem reverts_retryAfter {delay : Duration} {reason : RetryReason} :
    Reverts via send cfg mode t agent w v fun _ => retryAfter t delay reason := by
  obtain ⟨v', hretry, -⟩ := run_retryAfter t delay reason v
  exact reverts_of_run hretry fun _ => retried_ne_started

theorem of_run_settled {a : String}
    (h : (settle cfg t.id >>= fun _ => pure (DispatchOutcome.started t.id (some a))).run v =
      (.finished (.started id (some agent)), v₁)) :
    id = t.id ∧ a = agent ∧ v₁.capacity = v.capacity := by
  obtain ⟨_, v₂, hsettle, hstarted⟩ := of_run_bind h
  obtain ⟨store, hupdate⟩ := run_tryUpdate t.id (fun t => .ok (t.settle cfg.holder)) v
  cases hupdate.symm.trans hsettle
  cases hstarted
  exact ⟨rfl, rfl, rfl⟩

theorem run_tryUpdate_ok {change : Task → Except StoreError Task} {u : Task} {store : Store}
    (h : v.store.updateTask id change = .ok (u, store)) : (tryUpdate id change).run v = (.finished (), { v with store }) :=
  run_bind_finished _ (run_transact h)

/-- A claim is taken back, and the place of the task. -/
theorem run_takeBack {s : Store} {now : UInt64} {a : Option String} (hmove : t.status.canMove .running = true)
    (hrow : RowIs (claimedRow cfg t a now) s v.store)
    (hslot : ∀ p, place = some p → ∃ s, v.capacity.slotAt p.spot = some s) :
    ∃ v', (release place >>= fun _ => rollBack t >>= fun _ => retryWithBackoff cfg t .sendFailed).run v =
        (retried t.id (cfg.dispatch.backoff.delay t.retryCount) .sendFailed v, v') ∧
      RowIs { t with agent := none, lease := none }.countRetry s v'.store ∧
      v'.capacity = atPlace place (·.clear v.now) v.capacity ∧ v'.clock = v.clock := by
  obtain ⟨s₁, hback, hrow₁⟩ : ∃ s₁, v.store.updateTask t.id (Task.rollBack t) = .ok (_, s₁) ∧ RowIs _ s s₁ :=
    hrow.updateTask rfl (rollBack_claimedRow hmove now) rfl
  obtain ⟨s₂, hcount, hrow₂⟩ : ∃ s₂, s₁.updateTask t.id (fun t => .ok t.countRetry) = .ok (_, s₂) ∧ RowIs _ s s₂ :=
    hrow₁.updateTask rfl rfl rfl
  have hfree := run_release hslot
  have hback := run_tryUpdate_ok (v := { v with capacity := atPlace place (·.clear v.now) v.capacity }) hback
  have hcount := run_tryUpdate_ok
    (v := { v with store := s₁, capacity := atPlace place (·.clear v.now) v.capacity }) hcount
  obtain ⟨v', hretry, hqueue⟩ := run_retryAfter t (cfg.dispatch.backoff.delay t.retryCount) .sendFailed
    { v with store := s₂, capacity := atPlace place (·.clear v.now) v.capacity }
  refine ⟨v', ?_, ?_⟩
  · rw [run_bind_finished _ hfree]
    refine (run_bind_finished _ hback).trans ?_
    exact (run_bind_finished _ hcount).trans hretry
  · obtain ⟨_, _, rfl⟩ := hqueue
    exact ⟨hrow₂, rfl, rfl⟩

theorem agent_of_run_startLocal {a : Option String} (h : (startLocal cfg t).run w = (.finished (.started id a), v)) : a = none := by
  obtain ⟨answer, v₁, -, hrest⟩ := of_run_bind h
  match answer with
  | .error e =>
    obtain ⟨store, v₂, hretry, -⟩ := run_retryWithBackoff cfg t .persistFailed v₁
    exact absurd (Prod.mk.inj (hretry.symm.trans hrest)).1 retried_ne_started
  | .ok none => cases hrest
  | .ok (some claimed) =>
    obtain ⟨_, v₂, -, hspawn⟩ := of_run_bind hrest
    cases hspawn
    rfl

/-- A claim that took the task wrote its row. -/
theorem rowIs_of_claimTask {s s' : Store} {claimed : Task} {a : Option String} {now : UInt64} (ht : s.Holds t)
    (h : s.claimTask t.id (claimRequest cfg t now) (Task.start t.stageOnStart a now) = .ok (.claimed claimed, s')) :
    t.status.canMove .running = true ∧ RowIs (claimedRow cfg t a now) s s' := by
  rcases Store.claimTask_cases h with ⟨hno, -⟩ | ⟨u, hu, -, hclaimable, -, rfl⟩
  · exact absurd rfl (hno claimed)
  · cases ht.task?.symm.trans hu
    exact ⟨(hclaimable rfl).movable, (RowIs.refl ht).insert rfl rfl⟩

section

variable (hvia : ∀ agent m, (via agent m).run.Steps OnlyAgents) (hsend : Refuses send agent w)

include hvia hsend

theorem reverts_handOverBy (ht : w.store.Holds t) (hpods : OnlyPods w v) (hplaced : Housed mode t.id w target v.capacity) :
    Reverts via send cfg mode t agent w v fun send => handOverBy send cfg t target := by
  refine reverts_bind fun answer v₂ hclaim => ?_
  cases answer with
  | error e => exact reverts_bind fun _ _ _ => reverts_retryWithBackoff
  | ok found =>
    cases found with
    | none => exact reverts_bind fun _ _ _ => reverts_of_run rfl fun _ h => by cases h
    | some claimed =>
      intro id v₁ hrun
      obtain ⟨store, hclaimed, rfl⟩ := claimTask_of_run_claim hclaim
      obtain ⟨sent, v₃, hsent, hrest⟩ := of_run_bind hrun
      obtain ⟨registry, rfl⟩ := (hvia _ _).run hsent
      cases sent with
      | error e =>
        obtain ⟨_, v₄, -, hback⟩ := of_run_bind hrest
        obtain ⟨_, v₅, -, hretry⟩ := of_run_bind hback
        obtain ⟨_, v₆, hagain, -⟩ := run_retryWithBackoff cfg t .sendFailed v₅
        exact absurd (Prod.mk.inj (hagain.symm.trans hretry)).1 retried_ne_started
      | ok =>
        have hstarted : id = t.id ∧ target.agent = agent ∧
            v₁.capacity = atPlace target.place (·.markRunning v.now) v.capacity := by
          obtain ⟨a, place⟩ := target
          cases place with
          | none => exact of_run_settled (v := { v with store, registry }) hrest
          | some p =>
            obtain ⟨s, hs⟩ := hplaced.slot rfl
            obtain ⟨_, v₄, hmark, hsettled⟩ := of_run_bind hrest
            cases (run_markRunning (w := { v with store, registry }) hs).symm.trans hmark
            exact of_run_settled hsettled
        obtain ⟨rfl, rfl, hmarked⟩ := hstarted
        obtain ⟨capacity, hv⟩ := hpods
        have hstore : v.store = w.store := by rw [hv]
        obtain ⟨hmove, hrow⟩ := rowIs_of_claimTask ht (hstore ▸ hclaimed)
        obtain ⟨e, v₃, hfails⟩ := hsend.fails ⟨t.id, t.workspace, actionFor t⟩ { v with store } (by rw [hv]) (by rw [hv])
        obtain ⟨registry', rfl⟩ := (hsend.agents _ _).run hfails
        obtain ⟨v', hback, hrow', hkept, hclock⟩ := run_takeBack (v := { v with store, registry := registry' }) hmove hrow
          fun p hp => hplaced.slot hp
        have hsame : v.clock = w.clock := by rw [hv]
        refine ⟨rfl, v', (run_bind_finished _ hfails).trans (hback.trans ?_), hrow', ?_, hclock.trans hsame⟩
        · exact Prod.ext (retried_congr hsame) rfl
        · rw [hmarked, hkept]
          exact hplaced.slotsBack v.now

theorem reverts_pushToPoolBy {onPods : Bool} (ht : w.store.Holds t) (hpods : OnlyPods w v)
    (hfind : ∀ target v₂, (findTarget t pool onPods place w.registry.agents).run v = (.finished (some target), v₂) →
      Housed mode t.id w target v₂.capacity) :
    Reverts via send cfg mode t agent w v fun send => pushToPoolBy send cfg t pool onPods place := by
  refine reverts_bind fun connected v₂ hconnected => ?_
  obtain ⟨rfl, rfl, -⟩ := of_run_connected hconnected
  by_cases hempty : v₂.registry.agents.isEmpty = true
  · simp only [hempty, if_true]
    refine reverts_bind fun _ _ _ => ?_
    split
    · exact reverts_bind fun _ _ _ => reverts_retryAfter
    · exact reverts_retryAfter
  · simp only [hempty]
    refine reverts_bind fun found v₃ hfound => ?_
    have hpods₃ : OnlyPods w v₃ := trans_of OnlyPods hpods ((onlyPods_findTarget _ _ _ _).run hfound)
    cases found with
    | none => exact reverts_retryWithBackoff
    | some target =>
      obtain ⟨capacity, rfl⟩ := hpods
      exact reverts_handOverBy hvia hsend ht hpods₃ (hfind target v₃ hfound)

theorem reverts_pushToAgentBy (ht : w.store.Holds t) (hn : w.capacity.Named) :
    Reverts via send cfg ws.mode t agent w w fun send => pushToAgentBy send cfg t ws := by
  unfold pushToAgentBy
  cases ws.pool with
  | none => exact reverts_retryAfter
  | some pool =>
    by_cases hmode : ws.mode = .kubernetes
    · simp only [hmode, if_true]
      refine reverts_bind fun place v hfound => ?_
      cases place with
      | none => exact reverts_retryWithBackoff
      | some p =>
        obtain ⟨hput, hpods⟩ := putOn_of_findSlot hn hfound
        refine reverts_pushToPoolBy hvia hsend ht hpods fun target v₂ htarget => ?_
        obtain ⟨capacity, rfl⟩ := hpods
        exact onSlot_of_findTarget hn hput htarget
    · simp only [hmode, if_false]
      refine reverts_pushToPoolBy hvia hsend ht (refl w) fun target v₂ htarget => ?_
      obtain ⟨hplace, rfl⟩ := noSlot_of_findTarget htarget
      unfold Housed
      rw [if_neg hmode]
      exact ⟨hplace, rfl⟩

/-- The attempt on a task, once it has it. -/
theorem run_dispatchTaskBy_reverts (ht : w.store.Holds t) (hn : w.capacity.Named)
    (h : (dispatchTaskBy via cfg t).run.run w = (.finished (.ok (.started id (some agent))), w₁)) :
    (t.status = .applyPending → t.isApplyConfirmed = true) ∧
      ∃ ws, w.store.workspace? t.workspace = .ok (some ws) ∧ ws.mode ≠ .onHost ∧ id = t.id ∧
        ∃ w', (dispatchTaskBy send cfg t).run.run w =
            (asAttempt (retried t.id (cfg.dispatch.backoff.delay t.retryCount) .sendFailed w), w') ∧
          TakenBack ws.mode t agent w w₁.capacity w' := by
  unfold dispatchTaskBy at h ⊢
  by_cases hunconfirmed : t.status = .applyPending ∧ (!t.isApplyConfirmed) = true
  · rw [if_pos hunconfirmed] at h
    cases h
  refine ⟨fun hst => by simpa [hst] using hunconfirmed, ?_⟩
  rw [if_neg hunconfirmed] at h ⊢
  obtain ⟨found, hws, h⟩ := of_run_look_bind h
  cases found with
  | none => cases h
  | some ws =>
    refine ⟨ws, hws, ?_⟩
    by_cases hmode : ws.mode = .onHost
    · simp only [hmode, if_true] at h
      cases agent_of_run_startLocal (of_run_always h)
    · simp only [hmode, if_false] at h
      obtain ⟨hid, w', hpush, hback⟩ := reverts_pushToAgentBy hvia hsend ht hn id w₁ (of_run_always h)
      refine ⟨hmode, hid, w', (run_look_bind _ hws).trans ?_, hback⟩
      simp only [hmode, if_false]
      exact run_always_eq hpush

end

/-! ## Whole attempts -/

/-- The attempts that start a task of a workspace, given the channel on which it is sent. -/
inductive AttemptOn (cfg : Settings) (process : Nat) (workspace : String) :
    (Channel → Fallible DispatchError DispatchOutcome) → Prop
  | next : AttemptOn cfg process workspace fun send => tryDispatchBy (dispatchTaskBy send cfg) cfg process workspace
  | confirmedApply (task : UInt64) : AttemptOn cfg process workspace fun send =>
      executeConfirmedApplyBy (dispatchTaskBy send cfg) cfg process workspace task

variable {on : Channel → Fallible DispatchError DispatchOutcome}

/-- On the dispatcher's channel these are the attempts of a dispatcher. -/
theorem AttemptOn.attempt (hp : AttemptOn cfg process workspace on) : Attempt workspace (on (Agent.sendTask process)) := by
  cases hp with
  | next => exact .next cfg process
  | confirmedApply task => exact .confirmedApply cfg process task

/-- An attempt that starts a task is the start of that task, on whatever channel. -/
theorem AttemptOn.found (hp : AttemptOn cfg process workspace on) (hf : Filed w.store) {a : Option String}
    (h : (on via).run.run w = (.finished (.ok (.started id a)), w₁)) :
    ∃ t v v₁, Picked workspace t w.store ∧ (t.status = .pending ∨ t.status = .applyPending) ∧ OnlyLocks w v ∧
      (dispatchTaskBy via cfg t).run.run v = (.finished (.ok (.started id a)), v₁) ∧ OnlyLocks v₁ w₁ ∧
      ∀ send e v', (dispatchTaskBy send cfg t).run.run v = (e, v') → e ≠ .stuck →
        ∃ w', (on send).run.run w = ((caught cfg workspace (e, v')).1, w') ∧ OnlyLocks (caught cfg workspace (e, v')).2 w' := by
  cases hp with
  | next =>
    obtain ⟨t, v, v₁, ht, hst, hcomes, hrun, hlast⟩ := found_tryDispatchBy hf h
    exact ⟨t, v, v₁, ht, hst, hcomes.ready, hrun, hlast, fun send => hcomes.ends (dispatchTaskBy send cfg)⟩
  | confirmedApply task =>
    obtain ⟨t, v, v₁, ht, hst, hcomes, hrun, hlast⟩ := found_executeConfirmedApplyBy hf h
    exact ⟨t, v, v₁, ht, hst, hcomes.ready, hrun, hlast, fun send => hcomes.ends (dispatchTaskBy send cfg)⟩

/-- A send that fails, whatever its error, where the attempt would have started the task had it got
    through: the task is put off, the row is the one before the attempt, with one more failed
    attempt and without an agent and a lease, and the slot that was used is free. -/
theorem failed_sends_are_taken_back (hp : AttemptOn cfg process workspace on) (hf : Filed w.store)
    (hn : w.capacity.Named) (hvia : ∀ agent m, (via agent m).run.Steps OnlyAgents) (hsend : Refuses send agent w)
    (h : (on via).run.run w = (.finished (.ok (.started id (some agent))), w₁)) :
    ∃ t ws w', Picked workspace t w.store ∧ t.id = id ∧
      (t.status = .pending ∨ t.status = .applyPending ∧ t.isApplyConfirmed = true) ∧
      w.store.workspace? workspace = .ok (some ws) ∧ ws.mode ≠ .onHost ∧
      (on send).run.run w = (putOff cfg workspace id (cfg.dispatch.backoff.delay t.retryCount) .sendFailed w, w') ∧
      RowIs { t with agent := none, lease := none }.countRetry w.store w'.store ∧
      SlotsBack ws.mode id agent w w₁.capacity w'.capacity := by
  obtain ⟨t, v, v₁, ht, hst, ⟨locks, rfl⟩, hrun, ⟨locks₁, rfl⟩, hcomes⟩ := hp.found hf h
  have hrefuses : Refuses send agent { w with locks } := ⟨hsend.agents, hsend.fails⟩
  obtain ⟨hconfirmed, ws, hws, hmode, rfl, v', hfails, hback⟩ :=
    run_dispatchTaskBy_reverts (w := { w with locks }) hvia hrefuses ht.1 hn hrun
  obtain ⟨w', hattempt, hlocks⟩ := hcomes send _ v' hfails asAttempt_retried_ne_stuck
  rw [caught_retried hback.clock] at hattempt
  have hkept : w'.store = v'.store ∧ w'.capacity = v'.capacity := by
    obtain ⟨locks', rfl⟩ := hlocks
    obtain ⟨queue, queueNotified, hqueue⟩ : OnlyQueue v' (caught cfg workspace
        (asAttempt (retried t.id (cfg.dispatch.backoff.delay t.retryCount) .sendFailed { w with locks }), v')).2 :=
      onlyQueue_caught _ v'
    rw [hqueue]
    exact ⟨rfl, rfl⟩
  refine ⟨t, ws, w', ht, rfl, hst.imp_right fun hst => ⟨hst, hconfirmed hst⟩, ht.2 ▸ hws, hmode, hattempt, ?_, ?_⟩
  · rw [hkept.1]
    exact hback.row
  · rw [hkept.2]
    exact hback.slots.unlocked

/-- A channel on which everything arrives. -/
def openChannel : Channel := fun _ _ => pure ()

theorem onlyAgents_openChannel (agent : String) (m : AgentMessage) : (openChannel agent m).run.Steps OnlyAgents := trivial

/-- The agent has hung up, which nobody has noticed yet. -/
def agentHungUp : World :=
  { oneFreeSlot with registry := oneFreeSlot.registry.modifyMailbox 0 fun b => { b with closed := true } }

/-- The attempt on the pending plan puts it on the free slot, and takes it from there again. -/
theorem failed_sends_are_taken_back_hung_up :
    ∃ t w', agentHungUp.store.task? 1 = .ok (some t) ∧
      (tryDispatch { holder := "a" } 0 "ws").run.run agentHungUp = (.finished (.ok (.retry 1 (.ofSecs 5) .sendFailed)), w') ∧
      RowIs { t with agent := none, lease := none }.countRetry agentHungUp.store w'.store ∧
      ∃ x s, w'.capacity.slotAt x = some s ∧ s.IsFree ∧ OthersKept 1 agentHungUp x w'.capacity := by
  obtain ⟨w₁, hopen⟩ : ∃ w₁, (tryDispatchBy (dispatchTaskBy openChannel { holder := "a" }) { holder := "a" } 0 "ws").run.run agentHungUp =
    (.finished (.ok (.started 1 (some "agent"))), w₁) := ⟨_, rfl⟩
  have hrefuses : Refuses (Agent.sendTask 0) "agent" agentHungUp := refuses_sendTask fun _ => ⟨_, _, rfl⟩
  obtain ⟨t, ws, w', ht, hid, -, hws, -, hrun, hrow, hback⟩ :=
    failed_sends_are_taken_back (w := agentHungUp) .next filed_oneFreeSlot named_oneFreeSlot onlyAgents_openChannel hrefuses hopen
  have htask : agentHungUp.store.task? 1 = .ok (some t) := hid ▸ ht.task?
  have hcount : t.retryCount = 0 := by cases htask; rfl
  cases hws
  rw [hcount] at hrun
  obtain ⟨x, -, ⟨s, hs, hfree⟩, hothers⟩ := hback
  exact ⟨t, w', htask, hrun, hrow, x, s, hs, hfree, hothers⟩

/-! ## An apply that waits on a pod whose agent is gone -/

/-- A confirmed apply that waits on a slot of the one pod, whose agent is not connected. The other pod
    has a free slot, and its agent is connected; but the wire is cut. -/
def applyOffline : World where
  store := (({} : Store).putWorkspace smallWorkspace).setTask
    { id := 1, workspace := "ws", kind := .planAndApply, status := .applyPending, stage := some .applyPending,
      confirmedBy := some "alice", confirmedAt := some 0, createdAt := 0 }
  capacity := (({} : Capacity).insertPod (servedPod "pod-a" "agent-a" parked)).insertPod
    (servedPod "pod-b" "agent-b" { index := 0, updatedAt := 0 })
  registry := ({} : Registry).connect "agent-b" (some "pool") (some "pod-b")
  sendFault := some "wire cut"
  clock := 0
where
  parked : Slot := { index := 0, status := .reserved, task := some 1, kind := some .planAndApply, updatedAt := 0 }

/-- The attempt gives the slot up on which the apply waits, before it tries the other one: it is free
    after the send has failed, although it is not the one that was used. -/
theorem parked_slot_is_given_up :
    (∃ w₁, (executeConfirmedApplyBy (dispatchTaskBy openChannel { holder := "a" }) { holder := "a" } 0 "ws" 1).run.run applyOffline =
        (.finished (.ok (.started 1 (some "agent-b"))), w₁) ∧ w₁.capacity.taskAt ⟨"pod-b", 0⟩ = some 1) ∧
      ∃ s s' w', applyOffline.capacity.slotAt ⟨"pod-a", 0⟩ = some s ∧ s.status = .reserved ∧ s.task = some 1 ∧
        (executeConfirmedApply { holder := "a" } 0 "ws" 1).run.run applyOffline =
          (.finished (.ok (.retry 1 (.ofSecs 5) .sendFailed)), w') ∧
        w'.capacity.slotAt ⟨"pod-a", 0⟩ = some s' ∧ s'.status = .idle ∧ s'.task = none :=
  ⟨⟨_, rfl, rfl⟩, _, _, _, rfl, rfl, rfl, rfl, rfl, rfl, rfl⟩

end TaskFleet.Dispatch
