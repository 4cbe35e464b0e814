/-
  TaskFleet.Proofs.Dispatch.Hands — the slot in an attempt's hand.

  An attempt takes at most one slot into its hand, binds it to the task it wants to start, and
  puts it down again on every way out but one: a crash while the agents are listed. What it
  means to have a slot in the hand is a parameter (`I`), so that each property of the slots
  is followed through an attempt only once.
  - `Handles`: the meanings that reserving, releasing and marking a slot keep.
  - `left_handOver`, `left_pushToPool`, …: each part of an attempt ends with its hand empty, or
    with the slot that the started task runs on, or it crashes.
  - `left_dispatchTask`: the whole of an attempt on one task.
-/

import TaskFleet.Proofs.Capacity.Spared
import TaskFleet.Proofs.Dispatch.Choice

namespace TaskFleet

namespace Dispatch

open Fallible Program Capacity

variable {cfg : Settings} {process n : Nat} {c : Capacity} {w w' : World} {t : Task} {pool : String} {onPods : Bool}
  {place : Option Placement} {target : Target} {I : Option Placement → Capacity → Prop} {α : Type}

/-! ## Steps that leave the pods alone -/

theorem calm_transact (f : Store → Except StoreError (α × Store)) : (Program.transact f).Calm SamePods := by
  refine calm_apply fun w => ?_
  cases f w.store <;> rfl

theorem samePods_transact (f : Store → Except StoreError (α × Store)) : (Program.transact f).Steps SamePods :=
  Program.steps_transact samePods_refl fun _ _ _ _ => rfl

theorem samePods_claim (seen : Task) (agent : Option String) : (claim cfg seen agent).Steps SamePods :=
  .bind (Program.steps_get samePods_refl _) fun _ => .bind (Program.steps_claimTask (samePods_transact _)) fun _ => trivial

theorem calm_tryUpdate (id : UInt64) (change : Task → Except StoreError Task) : (tryUpdate id change).Calm SamePods :=
  .bind (calm_transact _) fun _ => calm_pure _

theorem calm_sendTask (agent : String) (m : AgentMessage) : (Agent.sendTask process agent m).run.Calm SamePods := by
  refine calm_bind (calm_always (calm_read _)) fun fault => ?_
  cases fault with
  | some reason => exact calm_pure _
  | none =>
    refine calm_bind (calm_always (calm_read _)) fun connection => ?_
    cases connection with
    | none => exact calm_pure _
    | some conn =>
      refine calm_bind (calm_always (calm_modify fun _ => rfl)) fun _ => ?_
      refine calm_bind (calm_always (calm_waitFor _)) fun _ => ?_
      refine calm_bind (calm_always (calm_apply fun _ => rfl)) fun delivered => ?_
      cases delivered with
      | true => exact calm_pure _
      | false => exact calm_bind (calm_always (calm_modify fun _ => rfl)) fun _ => calm_pure _

/-- Such a part of a call, among others that leave the pods alone too. -/
theorem ends_calm_bind {β : Type} {p : Program World α} {k : α → Program World β} {r : Except String β}
    (hp : p.Calm SamePods) (h : Ends SamePods n (p >>= k) w r w') :
    ∃ n' a w₁, w₁.capacity = w.capacity ∧ Ends SamePods n' (k a) w₁ r w' := by
  obtain ⟨_, n', a, w₁, -, hw, -, hk⟩ := hp.bind_ends h fun _ _ h => h
  exact ⟨n', a, w₁, hw, hk⟩

/-- A claim leaves the pods alone, also where it crashes. -/
theorem ends_claim_bind_pods {β : Type} {seen : Task} {agent : Option String}
    {k : Except StoreError (Option Task) → Program World β} {r : Except String β}
    (h : Ends SamePods n (claim cfg seen agent >>= k) w r w') :
    (∃ m, r = .error m ∧ w'.capacity = w.capacity) ∨
      ∃ n' answer w₁, w₁.capacity = w.capacity ∧ Ends SamePods n' (k answer) w₁ r w' := by
  rcases h.bind with ⟨m, rfl, hclaim⟩ | ⟨n₁, n₂, answer, w₁, -, hclaim, hk⟩
  · exact .inl ⟨m, rfl, (samePods_claim seen agent).ends hclaim fun _ _ h => h⟩
  · exact .inr ⟨n₂, answer, w₁, (samePods_claim seen agent).ends hclaim fun _ _ h => h, hk⟩

theorem ends_modify_bind {β : Type} {f : World → World} {k : Unit → Program World β} {r : Except String β}
    (h : Ends SamePods n (Program.modify f >>= k) w r w') (hf : ∀ w, SamePods w (f w)) :
    ∃ n' w₁, w₁.capacity = w.capacity ∧ Ends SamePods n' (k ()) w₁ r w' := by
  obtain ⟨n', w₁, rfl, hw, hk⟩ := h.modify_bind
  exact ⟨n', f w₁, Eq.trans (hf w₁) hw, hk⟩

/-! ## Taking a slot and putting it down -/

/-- A meaning of having a slot in the hand, or none, while a task is started: whatever an
    attempt does to the slots keeps it. -/
structure Handles (onPods : Bool) (t : Task) (I : Option Placement → Capacity → Prop) : Prop where
  named : ∀ place c, I place c → c.Named
  agent : ∀ p c, I (some p) c → (c.pods.get? p.pod).map (·.agent) = some p.agent
  reserve : ∀ p c c' now, onPods = true → I none c → Reserves c c' p t.id t.kind now → I (some p) c'
  release : ∀ p c now, I (some p) c → ∃ c', c.release p.pod p.slot now = .ok c' ∧ I none c'
  mark : ∀ p c now, I (some p) c → ∃ c', c.markRunning p.pod p.slot now = .ok c' ∧ I (some p) c' ∧
    c'.RunsOn t.id p.spot p.agent

/-- What is in the hand when the search for a slot begins: the slot of a task whose apply is
    due, or nothing. -/
structure Enters (t : Task) (I : Option Placement → Capacity → Prop) (c : Capacity) : Prop where
  held : ∀ p, t.status = .applyPending → c.placementOf? t.id = some p → I (some p) c
  empty : (t.status = .applyPending → c.placementOf? t.id = none) → I none c

/-- An operation on the pods that succeeds. -/
theorem ends_editCapacity {β : Type} {f : Capacity → UInt64 → Except CapacityError Capacity} {P : Capacity → Prop}
    {k : Except CapacityError Unit → Program World β} {r : Except String β}
    (hf : ∀ now, ∃ c', f w.capacity now = .ok c' ∧ P c') (h : Ends SamePods n (editCapacity f >>= k) w r w') :
    ∃ n' w₁, P w₁.capacity ∧ Ends SamePods n' (k (.ok ())) w₁ r w' := by
  obtain ⟨n', now, w₁, ⟨a, hok, hk⟩ | ⟨e, herr, -, hk⟩⟩ := ends_onCapacity h
  all_goals obtain ⟨c', hc', hP⟩ := hf now
  · simp only [hc', Except.map, Except.ok.injEq, Prod.mk.injEq] at hok
    exact ⟨n', w₁, hok.2 ▸ hP, hk⟩
  · simp only [hc', Except.map] at herr
    cases herr

theorem ends_value {a : α} {r : Except String α} (h : Ends SamePods n (pure a) w r w') :
    r = .ok a ∧ w'.capacity = w.capacity := ⟨(ends_done h).2.1, (ends_done h).2.2⟩

theorem ends_release (hI : Handles onPods t I) {r : Except String Unit} (h : I place w.capacity)
    (he : Ends SamePods n (release place) w r w') : r = .ok () ∧ I none w'.capacity := by
  unfold release at he
  cases place with
  | none =>
    obtain ⟨rfl, hw⟩ := ends_value he
    exact ⟨rfl, hw ▸ h⟩
  | some p =>
    obtain ⟨n', w₁, hnone, hend⟩ := ends_editCapacity (fun now => hI.release p w.capacity now h) he
    obtain ⟨rfl, hw'⟩ := ends_value hend
    exact ⟨rfl, hw' ▸ hnone⟩

/-- Putting the slot down on the way to an outcome that needs none. -/
theorem ends_release_bind {β : Type} {k : Unit → Program World β} (hI : Handles onPods t I) {r : Except String β}
    (h : I place w.capacity) (he : Ends SamePods n (release place >>= k) w r w') :
    ∃ n' w₁, I none w₁.capacity ∧ Ends SamePods n' (k ()) w₁ r w' := by
  rcases he.bind with ⟨m, rfl, hrel⟩ | ⟨n₁, n₂, u, w₁, rfl, hrel, hend⟩
  · cases (ends_release hI h hrel).1
  · exact ⟨n₂, w₁, (ends_release hI h hrel).2, hend⟩

theorem ends_findSlot (hI : Handles true t I) (hin : Enters t I w.capacity) {r : Except String (Option Placement)}
    (he : Ends SamePods n (findSlot cfg t pool) w r w') : ∃ place, r = .ok place ∧ I place w'.capacity := by
  obtain ⟨n', w₁, rfl, hw, he⟩ := he.get_bind
  have hw : w₁.capacity = w.capacity := hw
  rw [← hw] at hin
  cases hheld : if t.status = .applyPending then w₁.capacity.placementOf? t.id else none with
  | some p =>
    rw [hheld] at he
    obtain ⟨rfl, hw'⟩ := ends_value he
    split at hheld
    · next hst => exact ⟨some p, rfl, by rw [hw']; exact hin.held p hst hheld⟩
    · cases hheld
  | none =>
    rw [hheld] at he
    have hempty : I none w₁.capacity := hin.empty fun hst => by rwa [if_pos hst] at hheld
    obtain ⟨n'', now, w₂, ⟨p, hok, hend⟩ | ⟨e, -, hw₂, hend⟩⟩ := ends_onCapacity he
    · obtain ⟨rfl, hw'⟩ := ends_value hend
      have hreserves := allocate_reserves (hI.named _ _ hempty) hok
      exact ⟨some p, rfl, hw' ▸ hI.reserve p _ _ now rfl hempty hreserves⟩
    · obtain ⟨rfl, hw'⟩ := ends_value hend
      exact ⟨none, rfl, by rw [hw', hw₂]; exact hempty⟩

theorem ends_allocateOnFirst (hI : Handles true t I) {agents : List String}
    {r : Except String (Option (String × Placement))} (h : I none w.capacity)
    (he : Ends SamePods n (allocateOnFirst t agents) w r w') :
    ∃ found, r = .ok found ∧ I (found.map (·.2)) w'.capacity ∧ ∀ agent p, found = some (agent, p) → p.agent = some agent := by
  induction agents generalizing n w with
  | nil =>
    obtain ⟨rfl, hw'⟩ := ends_value he
    exact ⟨none, rfl, hw' ▸ h, fun _ _ h => by cases h⟩
  | cons agent rest ih =>
    obtain ⟨n', now, w₁, ⟨p, hok, hend⟩ | ⟨e, -, hw₁, hend⟩⟩ := ends_onCapacity he
    · obtain ⟨rfl, hw'⟩ := ends_value hend
      obtain ⟨hreserves, hagent⟩ := allocateOnAgent_reserves (hI.named _ _ h) hok
      refine ⟨some (agent, p), rfl, hw' ▸ hI.reserve p _ _ now rfl h hreserves, fun _ _ heq => ?_⟩
      cases heq
      exact hagent
    · exact ih (hw₁ ▸ h) hend

theorem ends_connected {r : Except String (List String)} (he : Ends SamePods n Agent.connected w r w') :
    w'.capacity = w.capacity := by
  obtain ⟨n', w₁, rfl, hw, hend⟩ := he.get_bind
  have hw : w₁.capacity = w.capacity := hw
  cases hf : w₁.agentsFault with
  | none =>
    rw [hf] at hend
    exact (ends_value hend).2.trans hw
  | some m =>
    rw [hf] at hend
    obtain ⟨-, -, hw'⟩ := ends_crash hend
    exact Eq.trans hw' hw

theorem ends_candidates {kind : TaskKind} {r : Except String (List String)}
    (he : Ends SamePods n (Agent.candidates pool kind) w r w') : w'.capacity = w.capacity := by
  rcases he.bind with ⟨m, -, hend⟩ | ⟨n₁, n₂, a, w₁, -, hconn, hend⟩
  · exact ends_connected hend
  · obtain ⟨n', w₂, -, hw, hend⟩ := ends_step hend
    have hw' : w'.capacity = w₁.capacity := Eq.trans (ends_done hend).2.2 hw
    exact hw'.trans (ends_connected hconn)

/-- The target has a slot exactly if the pool runs on pods, and the slot's pod is the agent's. -/
structure Fits (onPods : Bool) (target : Target) : Prop where
  placed : target.place.isSome = onPods
  agent : ∀ p, target.place = some p → p.agent = some target.agent

/-- Looking for an agent ends with a crash and an empty hand, or with the slot of the target
    in the hand. -/
theorem ends_findTarget (hI : Handles onPods t I) {connected : List String} {r : Except String (Option Target)}
    (h : I place w.capacity) (hpods : place.isSome = onPods)
    (he : Ends SamePods n (findTarget t pool onPods place connected) w r w') :
    (∃ m, r = .error m ∧ I none w'.capacity) ∨
      ∃ found, r = .ok found ∧ I (found.bind (·.place)) w'.capacity ∧ ∀ target, found = some target → Fits onPods target := by
  unfold findTarget at he
  split at he
  · next agent hagent =>
    obtain ⟨rfl, hw'⟩ := ends_value he
    obtain ⟨p, hp, hpa⟩ := Option.bind_eq_some_iff.1 (Option.filter_eq_some_iff.1 hagent).1
    refine .inr ⟨_, rfl, hw' ▸ h, fun target htarget => ?_⟩
    cases htarget
    refine ⟨hpods, fun p' hp' => ?_⟩
    rw [hp] at hp'
    cases hp'
    exact hpa
  · obtain ⟨n₁, w₁, hnone, he⟩ := ends_release_bind hI h he
    rcases he.bind with ⟨m, rfl, hcand⟩ | ⟨n₃, n₄, candidates, w₂, rfl, hcand, he⟩
    · exact .inl ⟨m, rfl, (ends_candidates hcand) ▸ hnone⟩
    have hnone : I none w₂.capacity := (ends_candidates hcand) ▸ hnone
    split at he
    · next hon =>
      rw [hon] at hI
      rcases he.bind with ⟨m, rfl, hfirst⟩ | ⟨n₅, n₆, found, w₃, rfl, hfirst, he⟩
      · obtain ⟨found, hr, -⟩ := ends_allocateOnFirst hI hnone hfirst
        cases hr
      obtain ⟨found', hr, hheld, hagent⟩ := ends_allocateOnFirst hI hnone hfirst
      cases hr
      obtain ⟨rfl, hw'⟩ := ends_value he
      refine .inr ⟨_, rfl, ?_, fun target htarget => ?_⟩
      · rw [hw']
        cases found with
        | none => exact hheld
        | some f => exact hheld
      · obtain ⟨⟨agent, p⟩, rfl, rfl⟩ := Option.map_eq_some_iff.1 htarget
        refine ⟨Eq.symm hon, fun p' hp' => ?_⟩
        cases hp'
        exact hagent agent p rfl
    · next hno =>
      obtain ⟨rfl, hw'⟩ := ends_value he
      refine .inr ⟨_, rfl, ?_, fun target htarget => ?_⟩
      · cases candidates.head? <;> exact hw' ▸ hnone
      · obtain ⟨agent, -, rfl⟩ := Option.map_eq_some_iff.1 htarget
        exact ⟨(Bool.eq_false_iff.2 hno).symm, fun p hp => by cases hp⟩

/-! ## Handing a task over -/

/-- What an attempt to start a task leaves in its hand, and where the task runs if it was
    started on a pod. A crash may leave a slot in the hand. -/
def Left (onPods : Bool) (task : UInt64) (I : Option Placement → Capacity → Prop) (c : Capacity) :
    Except String DispatchOutcome → Prop
  | .error _ => ∃ place, I place c
  | .ok .idle => False
  | .ok (.skipped id) => id = task ∧ I none c
  | .ok (.retry id _ _) => id = task ∧ I none c
  | .ok (.started id agent) => id = task ∧
    if onPods then ∃ p a, agent = some a ∧ I (some p) c ∧ c.RunsOn task p.spot (some a) else I none c

theorem Left.mono {J : Option Placement → Capacity → Prop} {task : UInt64} {r : Except String DispatchOutcome}
    (h : Left onPods task I c r) (hle : ∀ place c, I place c → J place c) : Left onPods task J c r := by
  match r, h with
  | .error _, ⟨place, h⟩ => exact ⟨place, hle _ _ h⟩
  | .ok (.skipped _), ⟨hid, h⟩ => exact ⟨hid, hle _ _ h⟩
  | .ok (.retry _ _ _), ⟨hid, h⟩ => exact ⟨hid, hle _ _ h⟩
  | .ok (.started _ _), ⟨hid, h⟩ =>
    refine ⟨hid, ?_⟩
    split
    · next hon =>
      rw [if_pos hon] at h
      obtain ⟨p, a, ha, hp, hruns⟩ := h
      exact ⟨p, a, ha, hle _ _ hp, hruns⟩
    · next hoff =>
      rw [if_neg hoff] at h
      exact hle _ _ h

theorem Left.hand {task : UInt64} {r : Except String DispatchOutcome} (h : Left onPods task I c r) : ∃ place, I place c := by
  match r, h with
  | .error _, h => exact h
  | .ok (.skipped _), h => exact ⟨none, h.2⟩
  | .ok (.retry _ _ _), h => exact ⟨none, h.2⟩
  | .ok (.started _ _), ⟨_, h⟩ =>
    split at h
    · obtain ⟨p, a, -, hp, -⟩ := h
      exact ⟨some p, hp⟩
    · exact ⟨none, h⟩

theorem left_retryAfter {delay : Duration} {reason : RetryReason} {r : Except String DispatchOutcome}
    (h : I none w.capacity) (he : Ends SamePods n (retryAfter t delay reason) w r w') :
    Left onPods t.id I w'.capacity r := by
  rcases ends_schedule_bind he with ⟨n', w₁, notBefore, hw, -, hend⟩ | ⟨w₁, hw, -, rfl, hw'⟩
  · obtain ⟨rfl, hw'⟩ := ends_value hend
    have hsame : w'.capacity = w.capacity := hw'.trans hw
    exact ⟨rfl, hsame ▸ h⟩
  · have hsame : w'.capacity = w.capacity := Eq.trans hw' hw
    exact ⟨none, hsame ▸ h⟩

theorem left_retryWithBackoff {reason : RetryReason} {r : Except String DispatchOutcome}
    (h : I none w.capacity) (he : Ends SamePods n (retryWithBackoff cfg t reason) w r w') :
    Left onPods t.id I w'.capacity r := by
  obtain ⟨n', u, w₁, hw, hend⟩ := ends_calm_bind (calm_tryUpdate _ _) he
  exact left_retryAfter (hw ▸ h) hend

theorem left_handOver (hI : Handles onPods t I) {r : Except String DispatchOutcome} (h : I target.place w.capacity)
    (hfits : Fits onPods target) (he : Ends SamePods n (handOver cfg process t target) w r w') :
    Left onPods t.id I w'.capacity r := by
  rcases ends_claim_bind_pods he with ⟨m, rfl, hw'⟩ | ⟨n₁, answer, w₁, hw₁, he⟩
  · exact ⟨_, hw' ▸ h⟩
  rw [← hw₁] at h
  match answer with
  | .error e =>
    obtain ⟨n₂, w₂, hnone, hend⟩ := ends_release_bind hI h he
    exact left_retryWithBackoff hnone hend
  | .ok none =>
    obtain ⟨n₂, w₂, hnone, hend⟩ := ends_release_bind hI h he
    obtain ⟨rfl, hw'⟩ := ends_value hend
    exact ⟨rfl, hw' ▸ hnone⟩
  | .ok (some claimed) =>
    obtain ⟨n₂, sent, w₂, hw₂, he⟩ := ends_calm_bind (calm_sendTask _ _) he
    rw [← hw₂] at h
    cases sent with
    | error e =>
      obtain ⟨n₃, w₃, hnone, he⟩ := ends_release_bind hI h he
      obtain ⟨n₄, u, w₄, hw₄, hend⟩ := ends_calm_bind (calm_tryUpdate _ _) he
      exact left_retryWithBackoff (hw₄ ▸ hnone) hend
    | ok u =>
      -- what is left after the slot was marked
      have hrest : ∀ {m : Nat} {w₃ : World}, Ends SamePods m (settle cfg t.id >>= fun _ =>
          pure (.started t.id (some target.agent))) w₃ r w' →
          r = .ok (.started t.id (some target.agent)) ∧ w'.capacity = w₃.capacity := by
        intro m w₃ hend
        obtain ⟨n₅, u, w₄, hw₄, hend⟩ := ends_calm_bind (calm_tryUpdate _ _) hend
        obtain ⟨hr, hw'⟩ := ends_value hend
        exact ⟨hr, hw'.trans hw₄⟩
      obtain ⟨agent, place⟩ := target
      cases place with
      | none =>
        obtain ⟨rfl, hw'⟩ := hrest he
        have hoff : onPods = false := hfits.placed.symm
        rw [hoff]
        exact ⟨rfl, hw' ▸ h⟩
      | some p =>
        obtain ⟨n₃, w₃, ⟨hheld, hruns⟩, he⟩ := ends_editCapacity (fun now => hI.mark p _ now h) he
        obtain ⟨rfl, hw'⟩ := hrest he
        rw [hfits.agent p rfl] at hruns
        have hon : onPods = true := hfits.placed.symm
        rw [hon, hw']
        exact ⟨rfl, p, agent, rfl, hheld, hruns⟩

theorem left_startLocal {r : Except String DispatchOutcome} (h : I none w.capacity)
    (he : Ends SamePods n (startLocal cfg t) w r w') : Left false t.id I w'.capacity r := by
  rcases ends_claim_bind_pods he with ⟨m, rfl, hw'⟩ | ⟨n₁, answer, w₁, hw₁, he⟩
  · exact ⟨none, hw' ▸ h⟩
  match answer with
  | .error e => exact left_retryWithBackoff (hw₁ ▸ h) he
  | .ok none =>
    obtain ⟨rfl, hw'⟩ := ends_value he
    exact ⟨rfl, (hw'.trans hw₁) ▸ h⟩
  | .ok (some claimed) =>
    obtain ⟨n₂, u, w₂, hw₂, he⟩ := ends_calm_bind (calm_tryUpdate _ _) he
    obtain ⟨n₃, w₃, hw₃, hend⟩ := ends_modify_bind he fun _ => rfl
    obtain ⟨rfl, hw'⟩ := ends_value hend
    exact ⟨rfl, (hw'.trans (hw₃.trans (hw₂.trans hw₁))) ▸ h⟩

theorem left_pushToPool (hI : Handles onPods t I) {r : Except String DispatchOutcome} (h : I place w.capacity)
    (hpods : place.isSome = onPods) (he : Ends SamePods n (pushToPool cfg process t pool onPods place) w r w') :
    Left onPods t.id I w'.capacity r := by
  rcases he.bind with ⟨m, rfl, hconn⟩ | ⟨n₁, n₂, connected, w₁, -, hconn, he⟩
  · -- nothing undoes this crash: the slot stays in the hand
    exact ⟨_, (ends_connected hconn) ▸ h⟩
  rw [← ends_connected hconn] at h
  split at he
  · obtain ⟨n₃, w₂, hnone, he⟩ := ends_release_bind hI h he
    split at he
    · obtain ⟨n₄, w₃, hw₃, hend⟩ := ends_modify_bind he fun _ => rfl
      exact left_retryAfter (hw₃ ▸ hnone) hend
    · exact left_retryAfter hnone he
  · rcases he.bind with ⟨m, rfl, htarget⟩ | ⟨n₃, n₄, found, w₂, -, htarget, he⟩
    · rcases ends_findTarget hI h hpods htarget with ⟨_, -, hnone⟩ | ⟨_, hr, -⟩
      · exact ⟨none, hnone⟩
      · cases hr
    · rcases ends_findTarget hI h hpods htarget with ⟨_, hr, -⟩ | ⟨found', hr, hheld, hfits⟩
      · cases hr
      · cases hr
        cases found with
        | none => exact left_retryWithBackoff hheld he
        | some target => exact left_handOver hI hheld (hfits target rfl) he

/-! ## Attempts on one task -/

/-- The hand as `I` has it, or empty and the pods untouched. -/
def HandOr (I : Option Placement → Capacity → Prop) (c₀ : Capacity) (place : Option Placement) (c : Capacity) : Prop :=
  I place c ∨ (place = none ∧ c = c₀)

/-- Where no slots are taken, the pods stay untouched. -/
def Untouched (c₀ : Capacity) (place : Option Placement) (c : Capacity) : Prop := place = none ∧ c = c₀

theorem handles_untouched (hn : c.Named) : Handles false t (Untouched c) where
  named := fun _ _ h => h.2 ▸ hn
  agent := fun _ _ h => by cases h.1
  reserve := fun _ _ _ _ h => by cases h
  release := fun _ _ _ h => by cases h.1
  mark := fun _ _ _ h => by cases h.1

theorem left_untouched {r : Except String DispatchOutcome} (h : Left onPods t.id (Untouched c) w.capacity r) :
    Left onPods t.id (HandOr I c) w.capacity r := h.mono fun _ _ h => .inr h

theorem left_pushToAgent (hI : Handles true t I) (hn : w.capacity.Named) (hin : Enters t I w.capacity) {ws : Workspace}
    {r : Except String DispatchOutcome} (he : Ends SamePods n (pushToAgent cfg process t ws) w r w') :
    Left (ws.mode = .kubernetes) t.id (HandOr I w.capacity) w'.capacity r := by
  have huntouched : Untouched w.capacity none w.capacity := ⟨rfl, rfl⟩
  unfold pushToAgent pushToAgentBy at he
  split at he
  · exact left_untouched (left_retryAfter huntouched he)
  · next pool _ =>
    split at he
    · next hmode =>
      rw [decide_eq_true hmode]
      rcases he.bind with ⟨m, rfl, hslot⟩ | ⟨n₁, n₂, place, w₁, -, hslot, he⟩
      · obtain ⟨_, hr, -⟩ := ends_findSlot hI hin hslot
        cases hr
      obtain ⟨place', hr, hheld⟩ := ends_findSlot hI hin hslot
      cases hr
      have hleft : Left true t.id I w'.capacity r := by
        cases place with
        | none => exact left_retryWithBackoff hheld he
        | some p => exact left_pushToPool hI hheld rfl he
      exact hleft.mono fun _ _ h => .inl h
    · next hmode =>
      rw [decide_eq_false hmode]
      exact left_untouched (left_pushToPool (handles_untouched hn) huntouched rfl he)

/-- An attempt on one task fails before it touches anything, or reads the task's workspace and
    leaves what an attempt there leaves. -/
theorem left_dispatchTask {R : World → World → Prop} [IsPreorder World R] (hR : Bystanders R) (hI : Handles true t I)
    (hn : w.capacity.Named) (hin : Enters t I w.capacity) {r : Except String (Except DispatchError DispatchOutcome)}
    (he : Ends R n (dispatchTask cfg process t).run w r w') :
    (∃ e, r = .ok (.error e) ∧ R w w') ∨
      ∃ r' ws w₁, r = r'.map .ok ∧ R w w₁ ∧ w₁.store.workspace? t.workspace = .ok (some ws) ∧
        Left (ws.mode = .kubernetes) t.id (HandOr I w.capacity) w'.capacity r' := by
  unfold dispatchTask dispatchTaskBy at he
  split at he
  · obtain ⟨-, rfl, hw'⟩ := ends_done he
    exact .inl ⟨_, rfl, hw'⟩
  · rcases ends_look_bind he with ⟨e, rfl, hw'⟩ | ⟨n₁, found, w₁, hw₁, hfound, he⟩
    · exact .inl ⟨e, rfl, hw'⟩
    cases found with
    | none =>
      obtain ⟨-, rfl, hw'⟩ := ends_done he
      exact .inl ⟨_, rfl, trans_of R hw₁ hw'⟩
    | some ws =>
      simp only at he
      have hsame : w₁.capacity = w.capacity := hR.pods _ _ hw₁
      rw [← hsame] at hn hin ⊢
      split at he
      · next hmode =>
        obtain ⟨r', rfl, hlocal⟩ := ends_always he
        refine .inr ⟨r', ws, w₁, rfl, hw₁, hfound, ?_⟩
        rw [hmode]
        exact left_untouched (left_startLocal ⟨rfl, rfl⟩ (hlocal.mono hR.pods))
      · obtain ⟨r', rfl, hpush⟩ := ends_always he
        exact .inr ⟨r', ws, w₁, rfl, hw₁, hfound, left_pushToAgent hI hn hin (hpush.mono hR.pods)⟩

end Dispatch

end TaskFleet
