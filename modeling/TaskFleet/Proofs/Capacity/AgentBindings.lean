/-
  TaskFleet.Proofs.Capacity.AgentBindings — which pod an agent is recorded on.

  A registration records an agent on one pod and looks at no other. So an agent that turns up on
  another pod is recorded on both from then on, whether it disconnects in between or not, until
  maintenance gives one of the pods up or another agent registers from it.
  - `Change`: what a step of each call does to the pods and the agents recorded on them.
  - `Moves`: an agent registers from a pod while it is recorded on another.
  - `agents_are_bound_where_they_registered`: in every interleaving, agents are recorded where
    they registered and on one pod only, unless they move.
  - `moved_agent_is_bound_twice`: a slot is taken on the pod that the agent has left.
-/

import TaskFleet.Agent.Channel
import TaskFleet.Proofs.Capacity.Lineage
import TaskFleet.Proofs.Capacity.PodRecords
import TaskFleet.Proofs.Traces

namespace TaskFleet.Bindings

open Capacity Fallible

/-! ## Calls -/

inductive BindingCall where
  | connect (agent : String) (pool pod : Option String)
  | disconnect (agent : String)
  | heartbeat (agent : String) (status : AgentStatus)
  | createPod (pool : AgentPool)
  | deletePod (pod : String)
  | syncPods (pool : AgentPool)
  | registerAgent (pod agent : String)

def BindingCall.program (cfg : CapacitySettings) : BindingCall → Program World Unit
  | connect agent pool pod => ignoring (Agent.connect agent pool pod)
  | disconnect agent => Program.modify fun w => { w with registry := (w.registry.disconnect agent).2 }
  | heartbeat agent status => ignoring (Agent.heartbeat agent status)
  | createPod pool => ignoring (Capacity.createPod cfg pool)
  | deletePod pod => ignoring (Capacity.deletePod cfg pod)
  | syncPods pool => ignoring (Capacity.syncPods cfg pool)
  | registerAgent pod agent => do
    let _ ← Program.editCapacity (·.registerAgent pod agent ·)

/-- The call is for an agent that is on the pod. -/
def BindingCall.Registers : BindingCall → String → String → Prop
  | connect agent _ pod, agent', pod' => agent = agent' ∧ pod = some pod'
  | registerAgent pod agent, agent', pod' => agent = agent' ∧ pod = pod'
  | _, _, _ => False

/-- The call puts pods under management or gives them up. -/
def BindingCall.Maintains : BindingCall → Prop
  | createPod _ | deletePod _ | syncPods _ => True
  | _ => False

variable {cfg : CapacitySettings} {call : BindingCall} {calls : Nat → BindingCall} {w w' : World}
  {agent pod other : String}
  {e : Step World} {l : List (Step World)} {i : Nat}

theorem BindingCall.Registers.pod_unique (h : call.Registers agent pod) (h' : call.Registers agent other) :
    pod = other := by
  cases call with
  | connect a pool p => exact Option.some.inj (h.2.symm.trans h'.2)
  | registerAgent p a => exact h.2.symm.trans h'.2
  | disconnect a => exact h.elim
  | heartbeat a status => exact h.elim
  | createPod pool => exact h.elim
  | deletePod p => exact h.elim
  | syncPods pool => exact h.elim

/-! ## What steps do -/

/-- The agent is recorded on the pod. -/
def BoundTo (agent pod : String) (w : World) : Prop := (Record.registered pod agent).Holds w.capacity

/-- The same pods have the same agents recorded on them. -/
def SameAgents (w w' : World) : Prop :=
  ∀ name, (w'.capacity.pods.get? name).map (fun p => (p.name, p.agent)) =
    (w.capacity.pods.get? name).map fun p => (p.name, p.agent)

/-- Pods may go, and others come on which no agent is recorded. -/
def NoNewBinding : World → World → Prop :=
  Descends (fun name p' => p'.name = name ∧ p'.agent = none) fun p p' => p'.name = p.name ∧ p'.agent = p.agent

theorem lineage_noNewBinding :
    Lineage (fun name p' => p'.name = name ∧ p'.agent = none) fun p p' => p'.name = p.name ∧ p'.agent = p.agent where
  refl _ := ⟨rfl, rfl⟩
  trans h h' := ⟨h'.1.trans h.1, h'.2.trans h.2⟩
  new hnew h := ⟨h.1.trans hnew.1, h.2.trans hnew.2⟩
  heard _ _ := ⟨rfl, rfl⟩
  slots _ _ := ⟨rfl, rfl⟩

/-- What a step of a call does to the pods and the agents recorded on them. -/
inductive Change (call : BindingCall) (w w' : World) : Prop
  | same : SameAgents w w' → Change call w w'
  | maintained : call.Maintains → NoNewBinding w w' → Change call w w'
  | registered (agent pod : String) : call.Registers agent pod →
      w.capacity.registerAgent pod agent w.now = .ok w'.capacity → Change call w w'

theorem sameAgents_refl (w : World) : SameAgents w w := fun _ => rfl

theorem sameAgents_of_pods (h : w'.capacity.pods = w.capacity.pods) : SameAgents w w' := fun _ => by rw [h]

theorem SameAgents.noNewBinding (h : SameAgents w w') : NoNewBinding w w' := by
  intro name p' hp'
  have hname := h name
  rw [hp', Option.map_some] at hname
  obtain ⟨p, hp, heq⟩ := Option.map_eq_some_iff.1 hname.symm
  obtain ⟨hn, ha⟩ := Prod.mk.inj heq
  exact .inr ⟨p, hp, hn.symm, ha.symm⟩

theorem SameAgents.boundTo_iff (h : SameAgents w w') : BoundTo agent pod w' ↔ BoundTo agent pod w := by
  have hbound : ∀ w : World, BoundTo agent pod w ↔
      ∃ name, (w.capacity.pods.get? pod).map (fun p => (p.name, p.agent)) = some (name, some agent) := by
    intro w
    constructor
    · rintro ⟨p, hp, ha⟩
      exact ⟨p.name, by rw [hp, Option.map_some, ha]⟩
    · rintro ⟨name, hname⟩
      obtain ⟨p, hp, heq⟩ := Option.map_eq_some_iff.1 hname
      exact ⟨p, hp, (Prod.mk.inj heq).2⟩
  rw [hbound, hbound, h pod]

theorem NoNewBinding.boundTo (h : NoNewBinding w w') (hbound : BoundTo agent pod w') : BoundTo agent pod w := by
  obtain ⟨p', hp', ha⟩ := hbound
  rcases h pod p' hp' with ⟨-, hnone⟩ | ⟨p, hp, -, hsame⟩
  · rw [hnone] at ha
    cases ha
  · exact ⟨p, hp, hsame.symm.trans ha⟩

theorem NoNewBinding.named (h : NoNewBinding w w') (hn : w.capacity.Named) : w'.capacity.Named :=
  Descends.named h (fun _ _ hnew => hnew.1) (fun _ _ hsame => hsame.1) hn

/-- A registration writes one pod, and leaves the agents of all others where they are. -/
theorem boundTo_of_registerAgent {now : UInt64} (h : w.capacity.registerAgent pod agent now = .ok w'.capacity) :
    BoundTo agent pod w' ∧ ∀ a other, other ≠ pod → (BoundTo a other w' ↔ BoundTo a other w) := by
  refine ⟨holds_of_registerAgent h, fun a other hne => ?_⟩
  obtain ⟨-, hw'⟩ := registerAgent_ok_iff.1 h
  unfold BoundTo
  rw [hw']
  show (∃ p, (w.capacity.pods.modify pod _).get? other = some p ∧ p.agent = some a) ↔ _
  rw [Table.get?_modify, if_neg (Ne.symm hne)]
  rfl

theorem named_of_registerAgent {now : UInt64} (h : w.capacity.registerAgent pod agent now = .ok w'.capacity)
    (hn : w.capacity.Named) : w'.capacity.Named := by
  obtain ⟨-, hw'⟩ := registerAgent_ok_iff.1 h
  rw [hw']
  exact hn.modify pod fun _ => rfl

theorem Change.named (h : Change call w w') (hn : w.capacity.Named) : w'.capacity.Named := by
  cases h with
  | same h => exact h.noNewBinding.named hn
  | maintained _ h => exact h.named hn
  | registered agent pod _ h => exact named_of_registerAgent h hn

/-- Only a registration from the pod records an agent on it. -/
theorem Change.gained (h : Change call w w') (hafter : BoundTo agent pod w') (hbefore : ¬BoundTo agent pod w) :
    call.Registers agent pod ∧ w.capacity.registerAgent pod agent w.now = .ok w'.capacity := by
  cases h with
  | same h => exact absurd (h.boundTo_iff.1 hafter) hbefore
  | maintained _ h => exact absurd (h.boundTo hafter) hbefore
  | registered a p hcall hok =>
    obtain ⟨⟨q, hq, ha⟩, hothers⟩ := boundTo_of_registerAgent hok
    by_cases hp : pod = p
    · subst hp
      obtain ⟨q', hq', ha'⟩ := hafter
      rw [hq] at hq'
      cases hq'
      obtain rfl : a = agent := Option.some.inj (ha.symm.trans ha')
      exact ⟨hcall, hok⟩
    · exact absurd ((hothers agent pod hp).1 hafter) hbefore

/-- Only maintenance, or another agent on the same pod, takes an agent off a pod. -/
theorem Change.lost (h : Change call w w') (hbefore : BoundTo agent pod w) (hafter : ¬BoundTo agent pod w') :
    call.Maintains ∨ ∃ new, new ≠ agent ∧ call.Registers new pod := by
  cases h with
  | same h => exact absurd (h.boundTo_iff.2 hbefore) hafter
  | maintained hcall _ => exact .inl hcall
  | registered a p hcall hok =>
    obtain ⟨hbound, hothers⟩ := boundTo_of_registerAgent hok
    by_cases hp : pod = p
    · subst hp
      refine .inr ⟨a, fun he => hafter (he ▸ hbound), hcall⟩
    · exact absurd ((hothers agent pod hp).2 hbefore) hafter

/-! ## Steps of the calls -/

theorem steps_editCapacity {f : Capacity → UInt64 → Except CapacityError Capacity}
    (hf : ∀ (w : World) (c : Capacity), f w.capacity w.now = .ok c → Change call w { w with capacity := c }) :
    (Program.editCapacity f).Steps (Change call) := by
  refine Program.steps_apply fun w => ?_
  simp only
  split
  · next r hr =>
    obtain ⟨c, hc, he⟩ := Fallible.map_eq_ok_iff.1 hr
    cases he
    exact hf w _ hc
  · exact .same (sameAgents_refl w)

theorem steps_registerAgent (hcall : call.Registers agent pod) :
    (Program.editCapacity (·.registerAgent pod agent ·)).Steps (Change call) :=
  steps_editCapacity fun _ _ hok => .registered agent pod hcall hok

theorem sameAgents_heartbeat {now : UInt64} {c : Capacity} (h : w.capacity.heartbeat pod now = .ok c) :
    SameAgents w { w with capacity := c } := by
  obtain ⟨-, rfl⟩ := heartbeat_ok_iff.1 h
  intro name
  simp only [Table.get?_modify]
  split
  · rw [Option.map_map]; rfl
  · rfl

theorem steps_connect (agent : String) (pool pod : Option String) :
    (ignoring (Agent.connect agent pool pod)).Steps (Change (.connect agent pool pod)) := by
  have hlast : (always (ε := AgentError) (Program.modify fun w : World =>
      { w with registry := w.registry.connect agent pool pod })).run.Steps (Change (.connect agent pool pod)) :=
    steps_always (Program.steps_modify fun w => .same (sameAgents_of_pods rfl))
  refine steps_ignoring ?_
  unfold Agent.connect
  cases pod with
  | none => exact hlast
  | some pod =>
    have hcall : (BindingCall.connect agent pool (some pod)).Registers agent pod := ⟨rfl, rfl⟩
    exact steps_bind ((steps_registerAgent hcall).map _) fun _ => hlast

theorem steps_heartbeat (agent : String) (status : AgentStatus) :
    (ignoring (Agent.heartbeat agent status)).Steps (Change (.heartbeat agent status)) := by
  refine steps_ignoring ?_
  unfold Agent.heartbeat
  refine steps_bind (steps_always (Program.steps_apply fun w => .same (sameAgents_of_pods rfl))) fun found => ?_
  cases found with
  | none => exact Program.steps_pure _
  | some conn =>
    cases hpod : conn.pod with
    | none => simp only [hpod]; exact Program.steps_pure _
    | some pod =>
      simp only [hpod]
      exact (steps_editCapacity fun _ _ hok => .same (sameAgents_heartbeat hok)).map _

theorem steps_maintenance (hcall : call.Maintains) {p : Program World Unit}
    (hp : ∀ {R : World → World → Prop}, Capacity.Maintains cfg R → p.Steps R) : p.Steps (Change call) :=
  (hp (lineage_noNewBinding.maintains fun _ _ _ _ => ⟨rfl, rfl⟩)).mono fun _ _ h => .maintained hcall h

theorem steps_program (cfg : CapacitySettings) (call : BindingCall) : (call.program cfg).Steps (Change call) := by
  cases call with
  | connect agent pool pod => exact steps_connect agent pool pod
  | disconnect agent => exact Program.steps_modify fun w => .same (sameAgents_of_pods rfl)
  | heartbeat agent status => exact steps_heartbeat agent status
  | createPod pool =>
    have hcall : (BindingCall.createPod pool).Maintains := trivial
    exact steps_maintenance hcall fun hR => steps_ignoring (steps_createPod hR pool)
  | deletePod pod =>
    have hcall : (BindingCall.deletePod pod).Maintains := trivial
    exact steps_maintenance hcall fun hR => steps_ignoring (steps_deletePod hR pod)
  | syncPods pool =>
    have hcall : (BindingCall.syncPods pool).Maintains := trivial
    exact steps_maintenance hcall fun hR => steps_ignoring (steps_syncPods hR pool)
  | registerAgent pod agent =>
    have hcall : (BindingCall.registerAgent pod agent).Registers agent pod := ⟨rfl, rfl⟩
    exact (steps_registerAgent hcall).bind fun _ => Program.steps_pure _

/-! ## Runs -/

/-- Every step does what one of the calls may do, or leaves the agents on the pods. -/
def Accounts (calls : Nat → BindingCall) (e : Step World) : Prop :=
  match e.process with
  | some i => Change (calls i) e.before e.after
  | none => SameAgents e.before e.after

variable (calls w) in
def binding : Discipline World (List (Step World)) :=
  .accounting w (fun w => w.capacity.Named) (fun _ e => Accounts calls e) (fun _ _ => True)
    (fun _ _ s => .same (sameAgents_refl s)) fun _ _ _ => trivial

/-- What happens outside: anything that puts no pods under management and leaves the agents on
    them, such as the placing of tasks. -/
inductive OutsideBindings (c : Scene World (List (Step World))) : Scene World (List (Step World)) → Prop
  | surroundings (w : World) : SameAgents c.state w → OutsideBindings c ⟨w, c.memory ++ [⟨none, c.state, w⟩]⟩

/-- The calls begin, each with its number. -/
inductive BeginsBindingCall (cfg : CapacitySettings) (calls : Nat → BindingCall) (c : Scene World (List (Step World))) :
    Nat → Program World Unit → Scene World (List (Step World)) → Prop
  | call (i : Nat) : BeginsBindingCall cfg calls c i ((calls i).program cfg) c

theorem keeping (cfg : CapacitySettings) (calls : Nat → BindingCall) (hn : w.capacity.Named) :
    (binding calls w).Keeping OutsideBindings (BeginsBindingCall cfg calls) ⟨w, []⟩ fun _ _ _ => True where
  first := Discipline.accounted_first hn
  outside c d hc h := by
    obtain ⟨w', hsame⟩ := h
    exact ⟨hc.step (hsame.noNewBinding.named hc.good) hsame, fun j => Discipline.rely_accounting trivial⟩
  begins c i p d hc h := by
    obtain ⟨i⟩ := h
    refine ⟨⟨hc, fun j _ => Discipline.rely_refl _ j c⟩, ?_⟩
    refine Discipline.Ensures.of_steps (F := fun _ => True) (steps_program cfg (calls i)) (fun _ _ _ _ => trivial)
      (fun c act hi _ hstep => ⟨?_, trivial⟩) trivial
    exact Discipline.keeps_accounting hi (hstep.named hi.good) hstep fun _ _ => trivial

/-! ## Where agents are recorded -/

/-- In this step, the agent is registered from the pod. -/
def Registers (calls : Nat → BindingCall) (agent pod : String) (e : Step World) : Prop :=
  ∃ i, e.process = some i ∧ (calls i).Registers agent pod ∧
    e.before.capacity.registerAgent pod agent e.before.now = .ok e.after.capacity

/-- In this step, the agent is registered from the pod while it is recorded on the other one. -/
structure Moves (calls : Nat → BindingCall) (agent pod other : String) (e : Step World) : Prop where
  registers : Registers calls agent pod e
  elsewhere : other ≠ pod
  left : BoundTo agent other e.before

/-- The pod is the one from which the agent was registered last. -/
def LastFrom (calls : Nat → BindingCall) (agent pod : String) (l : List (Step World)) : Prop :=
  ∃ l₁ e l₂, l = l₁ ++ e :: l₂ ∧ Registers calls agent pod e ∧
    ∀ e' ∈ l₂, ∀ other, Registers calls agent other e' → other = pod

theorem Accounts.gained (h : Accounts calls e) (hafter : BoundTo agent pod e.after) (hbefore : ¬BoundTo agent pod e.before) :
    Registers calls agent pod e := by
  unfold Accounts at h
  split at h
  · next i hi => exact ⟨i, hi, h.gained hafter hbefore⟩
  · exact absurd (h.boundTo_iff.1 hafter) hbefore

theorem Accounts.lost (h : Accounts calls e) (hbefore : BoundTo agent pod e.before) (hafter : ¬BoundTo agent pod e.after) :
    ∃ i, e.process = some i ∧ ((calls i).Maintains ∨ ∃ new, new ≠ agent ∧ (calls i).Registers new pod) := by
  unfold Accounts at h
  split at h
  · next i hi => exact ⟨i, hi, h.lost hbefore hafter⟩
  · exact absurd (h.boundTo_iff.2 hbefore) hafter

/-- The pod that the agent has left keeps it. -/
theorem Moves.both (h : Moves calls agent pod other e) : BoundTo agent pod e.after ∧ BoundTo agent other e.after := by
  obtain ⟨i, -, -, hok⟩ := h.registers
  obtain ⟨hbound, hothers⟩ := boundTo_of_registerAgent hok
  exact ⟨hbound, (hothers agent other h.elsewhere).2 h.left⟩

section

variable (hsteps : ∀ e ∈ l, Accounts calls e)

include hsteps

theorem since_registers (hchain : Chain w l w') (hfirst : ¬BoundTo agent pod w) (hbound : BoundTo agent pod w') :
    Since (Registers calls agent pod) (BoundTo agent pod) l := by
  obtain ⟨l₁, e, l₂, rfl, hbefore, hafter, hall⟩ := hchain.since hfirst hbound
  exact ⟨l₁, e, l₂, rfl, (hsteps e (by simp)).gained hafter hbefore, hafter, hall⟩

/-- An agent on two pods came to the second one while it was on the first. -/
theorem since_moves (hchain : Chain w l w') (hfirst : ¬BoundTo agent pod w) (hne : pod ≠ other)
    (hpod : BoundTo agent pod w') (hother : BoundTo agent other w') :
    Since (fun e => Moves calls agent pod other e ∨ Moves calls agent other pod e)
      (fun w => BoundTo agent pod w ∧ BoundTo agent other w) l := by
  obtain ⟨l₁, e, l₂, rfl, hbefore, hafter, hall⟩ :=
    hchain.since (Q := fun w => BoundTo agent pod w ∧ BoundTo agent other w) (fun h => hfirst h.1) ⟨hpod, hother⟩
  refine ⟨l₁, e, l₂, rfl, ?_, hafter, hall⟩
  have haccounts := hsteps e (by simp)
  by_cases hleft : BoundTo agent pod e.before
  · exact .inr ⟨haccounts.gained hafter.2 fun h => hbefore ⟨hleft, h⟩, hne, hleft⟩
  · have hregisters := haccounts.gained hafter.1 hleft
    refine .inl ⟨hregisters, Ne.symm hne, Classical.byContradiction fun hnot => ?_⟩
    -- one step registers from one pod
    obtain ⟨i, hi, hcall, -⟩ := hregisters
    obtain ⟨j, hj, hcall', -⟩ := haccounts.gained hafter.2 hnot
    rw [hi] at hj
    cases hj
    exact hne (hcall.pod_unique hcall')

theorem lastFrom_of_boundTo (hchain : Chain w l w') (hfirst : ¬BoundTo agent pod w) (hbound : BoundTo agent pod w')
    (hstays : ∀ e ∈ l, ∀ pod other, ¬Moves calls agent pod other e) : LastFrom calls agent pod l := by
  obtain ⟨l₁, e, l₂, rfl, hregisters, hafter, hall⟩ := since_registers hsteps hchain hfirst hbound
  refine ⟨l₁, e, l₂, rfl, hregisters, fun e' he' other hother => Classical.byContradiction fun hne => ?_⟩
  have hleft : BoundTo agent pod e'.before :=
    hchain.split.2.before (P := BoundTo agent pod) (fun e' he' _ => hall e' he') hafter e' he'
  exact hstays e' (by simp [he']) other pod ⟨hother, Ne.symm hne, hleft⟩

end

/-- The pod holds the agent on record and no other does. Every look-up leads there, in whatever order
    it goes through the pods, and so does everything that is placed for the agent. -/
structure LeadsTo (agent pod : String) (c : Capacity) : Prop where
  found : ∃ p, c.Hosts pod agent p ∧
    ∀ pods : List Pod, (∀ q, q ∈ pods ↔ q ∈ c.pods.values) → pods.find? (·.agent == some agent) = some p
  placed : ∀ task kind now place c', c.allocateOnAgent agent task kind now = .ok (place, c') → place.pod = pod

/-- Agents connect, disconnect and are heard of, and pods are created, deleted and synced, from a
    state in which no agent is recorded. Agents are recorded only where they registered, and stay
    so until maintenance gives the pod up or another agent registers from it. An agent that
    registers while it is recorded on another pod is then recorded on both, and only so does an
    agent come to be on two pods. One that never did is on one pod at most: the last one that it
    registered from, where its tasks are placed. -/
theorem agents_are_bound_where_they_registered {cfg : CapacitySettings} {calls : Nat → BindingCall} {w : World}
    {c : Scene World (List (Step World))} {crew : List (Program World Unit)} (hn : w.capacity.Named)
    (hfirst : ∀ agent pod, ¬BoundTo agent pod w)
    (hrun : (binding calls w).Run OutsideBindings (BeginsBindingCall cfg calls) ⟨w, []⟩ c crew) (agent : String) :
    (∀ pod, BoundTo agent pod c.state → Since (Registers calls agent pod) (BoundTo agent pod) c.memory) ∧
    (∀ e ∈ c.memory, ∀ pod, BoundTo agent pod e.before → ¬BoundTo agent pod e.after →
      ∃ i, e.process = some i ∧ ((calls i).Maintains ∨ ∃ new, new ≠ agent ∧ (calls i).Registers new pod)) ∧
    (∀ e ∈ c.memory, ∀ pod other, Moves calls agent pod other e → BoundTo agent pod e.after ∧ BoundTo agent other e.after) ∧
    (∀ pod other, pod ≠ other → BoundTo agent pod c.state → BoundTo agent other c.state →
      Since (fun e => Moves calls agent pod other e ∨ Moves calls agent other pod e)
        (fun w => BoundTo agent pod w ∧ BoundTo agent other w) c.memory) ∧
    ((∀ e ∈ c.memory, ∀ pod other, ¬Moves calls agent pod other e) →
      ∀ pod, BoundTo agent pod c.state → LeadsTo agent pod c.state.capacity ∧ LastFrom calls agent pod c.memory) := by
  obtain ⟨hchain, hnamed, hthroughout⟩ := (hrun.sound (keeping cfg calls hn)).1
  have hsteps : ∀ e ∈ c.memory, Accounts calls e := fun e he => by
    obtain ⟨l₁, l₂, hl⟩ := List.append_of_mem he
    exact hthroughout l₁ e l₂ hl
  refine ⟨fun pod => since_registers hsteps hchain (hfirst agent pod), fun e he pod => (hsteps e he).lost,
    fun e _ pod other h => h.both, fun pod other hne => since_moves hsteps hchain (hfirst agent pod) hne,
    fun hstays pod hbound => ⟨?_, lastFrom_of_boundTo hsteps hchain (hfirst agent pod) hbound hstays⟩⟩
  obtain ⟨p, hp, ha⟩ := hbound
  have honly : ∀ other q, c.state.capacity.pods.get? other = some q → q.agent = some agent → other = pod := by
    intro other q hq hagent
    refine Classical.byContradiction fun hne => ?_
    obtain ⟨l₁, e, l₂, hl, hmoves, -⟩ := since_moves hsteps hchain (hfirst agent other) hne ⟨q, hq, hagent⟩ ⟨p, hp, ha⟩
    have he : e ∈ c.memory := by rw [hl]; simp
    exact hmoves.elim (hstays e he _ _) (hstays e he _ _)
  have hhosts : c.state.capacity.Hosts pod agent p := ⟨hp, hnamed pod p hp, ha, honly⟩
  refine ⟨⟨p, hhosts, fun pods hpods => hhosts.find? hpods⟩, fun task kind now place c' h => ?_⟩
  obtain ⟨q, hq, -, hagent, hplace, -⟩ := allocateOnAgent_cases hnamed h
  exact honly place.pod q hq (hagent.symm.trans hplace)

/-! ## Runs -/

theorem named_emptyWorld : emptyWorld.capacity.Named := nofun

theorem not_boundTo_emptyWorld (agent pod : String) : ¬BoundTo agent pod emptyWorld := nofun

abbrev RunsTo (calls : Nat → BindingCall) : Scene World (List (Step World)) → List (Program World Unit) → Prop :=
  (binding calls emptyWorld).Run OutsideBindings (BeginsBindingCall {} calls) ⟨emptyWorld, []⟩

/-- The calls with these numbers, one after the other. -/
def inFull (calls : Nat → BindingCall) (numbers : List Nat) : Scene World (List (Step World)) :=
  numbers.foldl (fun c i => ((binding calls emptyWorld).carry i 10 ((calls i).program {}) c).2) ⟨emptyWorld, []⟩

theorem RunsTo.begun {calls : Nat → BindingCall} {c : Scene World (List (Step World))} {crew : List (Program World Unit)}
    (h : RunsTo calls c crew) :
    RunsTo calls ((binding calls emptyWorld).carry crew.length 10 ((calls crew.length).program {}) c).2
      (crew ++ [((binding calls emptyWorld).carry crew.length 10 ((calls crew.length).program {}) c).1]) :=
  Discipline.Run.begun h (.call crew.length) 10

/-- An agent connects from a new pod. -/
def staying : Nat → BindingCall
  | 0 => .createPod (smallPool 2)
  | _ => .connect "agent" none (some firstPod)

theorem agents_are_bound_where_they_registered_staying :
    emptyWorld.capacity.Named ∧ (∀ agent pod, ¬BoundTo agent pod emptyWorld) ∧
      ∃ c, RunsTo staying c [.done (), .done ()] ∧ BoundTo "agent" firstPod c.state ∧
        (∀ e ∈ c.memory, ∀ pod other, ¬Moves staying "agent" pod other e) ∧
        LeadsTo "agent" firstPod c.state.capacity ∧ LastFrom staying "agent" firstPod c.memory := by
  have hstart : RunsTo staying ⟨emptyWorld, []⟩ [] := .start
  have hrun : RunsTo staying (inFull staying [0, 1]) [.done (), .done ()] := hstart.begun.begun
  -- no other pod is ever there
  have hone : ∀ e ∈ (inFull staying [0, 1]).memory, ∀ row ∈ e.before.capacity.pods.rows, row.1 = firstPod := by
    decide +kernel
  have hstays : ∀ e ∈ (inFull staying [0, 1]).memory, ∀ pod other, ¬Moves staying "agent" pod other e := by
    rintro e he pod other ⟨⟨i, -, hcall, -⟩, helsewhere, ⟨q, hq, -⟩⟩
    have hpod : firstPod = pod := match i, hcall with
      | _ + 1, h => Option.some.inj h.2
    exact helsewhere ((hone e he _ (Table.mem_rows_iff.2 hq)).trans hpod)
  have hbound : BoundTo "agent" firstPod (inFull staying [0, 1]).state := ⟨_, rfl, rfl⟩
  obtain ⟨-, -, -, -, hlast⟩ := agents_are_bound_where_they_registered named_emptyWorld not_boundTo_emptyWorld hrun "agent"
  exact ⟨named_emptyWorld, not_boundTo_emptyWorld, _, hrun, hbound, hstays, hlast hstays firstPod hbound⟩

/-- An agent connects from a pod, disconnects, and connects from another one. -/
def moving : Nat → BindingCall
  | 0 | 1 => .createPod (smallPool 2)
  | 2 => .connect "agent" none (some firstPod)
  | 3 => .disconnect "agent"
  | _ => .connect "agent" none (some secondPod)

/-- The agent is connected from the second pod and recorded on both. A slot that is taken for it is
    one on the first. -/
theorem moved_agent_is_bound_twice :
    ∃ c, RunsTo moving c [.done (), .done (), .done (), .done (), .done ()] ∧
      BoundTo "agent" firstPod c.state ∧ BoundTo "agent" secondPod c.state ∧
      c.state.registry.connections.get? "agent" = some ⟨none, some secondPod, {}, 1⟩ ∧
      ∃ capacity, c.state.capacity.allocateOnAgent "agent" 1 .plan 0 = .ok (⟨firstPod, 0, some "agent"⟩, capacity) := by
  have hstart : RunsTo moving ⟨emptyWorld, []⟩ [] := .start
  have hrun : RunsTo moving (inFull moving [0, 1, 2, 3, 4]) [.done (), .done (), .done (), .done (), .done ()] :=
    hstart.begun.begun.begun.begun.begun
  exact ⟨_, hrun, ⟨_, rfl, rfl⟩, ⟨_, rfl, rfl⟩, rfl, _, rfl⟩

end TaskFleet.Bindings
