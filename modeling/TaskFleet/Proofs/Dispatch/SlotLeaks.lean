/-
  TaskFleet.Proofs.Dispatch.SlotLeaks — what an attempt leaves on the slots.

  An attempt ends with its hand empty or with the slot that the started task runs on. The only
  ways out on which a slot stays taken are crashes, while the agents are listed or the task is
  claimed.
  - `Holding`: the slot that is in the hand, and the agent of its pod.
  - `Answers`: how an attempt answers, and what it leaves on the slots.
  - `attempts_spare_slots`: whole attempts; `crash_keeps_the_slot` is the way out that leaks.
-/

import TaskFleet.Proofs.Dispatch.Hands
import TaskFleet.Proofs.Store.Queries

namespace TaskFleet

namespace Dispatch

open Fallible Program Capacity

variable {cfg : Settings} {process n : Nat} {c : Capacity} {w w' : World} {t : Task} {onPods : Bool}
  {place : Option Placement}

/-! ## The slot in an attempt's hand -/

/-- The slot that an attempt has in its hand, if it has one, and the agent of its pod. No other
    task was put on a slot. -/
structure Holding (task : UInt64) (place : Option Placement) (c c' : Capacity) : Prop where
  spared : Spared task (place.map (·.spot)) c c'
  agent : ∀ p, place = some p → (c'.pods.get? p.pod).map (·.agent) = some p.agent
  others : ∀ x other, other ≠ task → c'.taskAt x = some other → c.taskAt x = some other

theorem Holding.empty (hn : c.Named) (task : UInt64) : Holding task none c c :=
  ⟨.refl hn task, fun p hp => (by cases hp), fun _ _ _ h => h⟩

theorem taskAt_modifySlot_of_some {c : Capacity} {x y : Spot} {f : Slot → Slot} {task other : UInt64}
    (hf : ∀ s, c.slotAt x = some s → (f s).task = none ∨ (f s).task = some task) (hne : other ≠ task)
    (h : (c.modifySlot x.pod x.slot f).taskAt y = some other) : c.taskAt y = some other := by
  by_cases hxy : y = x
  · unfold taskAt at h
    rw [slotAt_modifySlot, if_pos hxy, hxy] at h
    cases hs : c.slotAt x with
    | none => rw [hs] at h; cases h
    | some s =>
      rw [hs] at h
      have h : (f s).task = some other := h
      rcases hf s hs with hnone | hsome
      · rw [hnone] at h; cases h
      · rw [hsome] at h; cases h; exact absurd rfl hne
  · rwa [taskAt_congr (slotAt_modifySlot_of_ne hxy)] at h

theorem Holding.reserve {task : UInt64} {c₁ c₂ : Capacity} {p : Placement} {now : UInt64} {kind : TaskKind}
    (h : Holding task none c c₁) (hr : Reserves c₁ c₂ p task kind now) : Holding task (some p) c c₂ := by
  refine ⟨h.spared.reserve hr, fun p' hp' => ?_, fun x other hne hx => h.others x other hne ?_⟩
  · cases hp'
    rw [hr.eq]
    exact (agent_modifySlot p.spot _ _).trans hr.agent
  · rw [hr.eq] at hx
    exact taskAt_modifySlot_of_some (x := p.spot) (fun s _ => .inr rfl) hne hx

theorem Holding.release {task : UInt64} {c₁ : Capacity} {p : Placement} (h : Holding task (some p) c c₁) (now : UInt64) :
    ∃ c₂, c₁.release p.pod p.slot now = .ok c₂ ∧ Holding task none c c₂ := by
  obtain ⟨c₂, hok, hspared⟩ := Spared.release (x := p.spot) h.spared now
  refine ⟨c₂, hok, hspared, fun _ hp => (by cases hp), fun x other hne hx => h.others x other hne ?_⟩
  rw [setSlot_ok (y := p.spot) hok] at hx
  exact taskAt_modifySlot_of_some (x := p.spot) (fun s _ => .inl rfl) hne hx

theorem Holding.markRunning {task : UInt64} {c₁ : Capacity} {p : Placement} (h : Holding task (some p) c c₁)
    (now : UInt64) :
    ∃ c₂, c₁.markRunning p.pod p.slot now = .ok c₂ ∧ Holding task (some p) c c₂ ∧ c₂.RunsOn task p.spot p.agent := by
  obtain ⟨c₂, hok, hspared, hruns⟩ := Spared.markRunning (x := p.spot) h.spared (h.agent p rfl) now
  refine ⟨c₂, hok, ⟨hspared, fun p' hp' => ?_, fun x other hne hx => h.others x other hne ?_⟩, hruns⟩
  · cases hp'
    exact hruns.agent
  · obtain ⟨s, hs, hst⟩ := Spared.slot (x := p.spot) h.spared
    rw [setSlot_ok (y := p.spot) hok] at hx
    refine taskAt_modifySlot_of_some (x := p.spot) (fun s' hs' => .inr ?_) hne hx
    rw [hs] at hs'
    cases hs'
    exact hst

/-- A task that has a slot may take it into its hand. -/
theorem Holding.held {task : UInt64} {p : Placement} (hn : c.Named) (h : c.placementOf? task = some p) :
    Holding task (some p) c c := by
  have htask := taskAt_of_placementOf? hn h
  obtain ⟨s, hs, hst⟩ := Option.bind_eq_some_iff.1 htask
  refine ⟨⟨hn, fun _ => rfl, fun x s _ hs hidle => ⟨s, hs, hidle⟩, fun _ _ hs _ _ => hs, fun _ _ h => h, fun x hx => ?_⟩,
    fun p' hp' => ?_, fun _ _ _ h => h⟩
  · cases hx
    exact ⟨htask, s, hs, .inr hst⟩
  · cases hp'
    exact agent_of_placementOf? hn h

theorem handles_holding (c : Capacity) : Handles onPods t fun place c' => Holding t.id place c c' where
  named := fun _ _ h => h.spared.named
  agent := fun p _ h => h.agent p rfl
  reserve := fun _ _ _ _ _ h hr => h.reserve hr
  release := fun _ _ now h => h.release now
  mark := fun _ _ now h => h.markRunning now

theorem enters_holding (hn : c.Named) : Enters t (fun place c' => Holding t.id place c c') c where
  held := fun _ _ h => .held hn h
  empty := fun _ => .empty hn t.id

/-! ## Whole attempts -/

variable {R : World → World → Prop} [IsPreorder World R] {workspace : String}

/-- The task is one that an attempt may start for a workspace: it belongs there, or it is what
    a second look finds under the ID of one that belongs there. -/
def Candidate (R : World → World → Prop) (workspace : String) (w : World) (t : Task) : Prop :=
  t.workspace = workspace ∨ ∃ w₁ w₂ seen seens, R w w₁ ∧ R w w₂ ∧
    w₁.store.tasksWhere (·.workspace == workspace) = .ok seens ∧ seen ∈ seens ∧ w₂.store.task? seen.id = .ok (some t)

/-- What an attempt leaves on the slots, by its outcome; the workspace of a task that it
    started was read on the way. -/
def Outcome (R : World → World → Prop) (workspace : String) (w : World) (c' : Capacity) : DispatchOutcome → Prop
  | .idle => c' = w.capacity
  | .skipped id => Spared id none w.capacity c'
  | .retry id _ _ => Spared id none w.capacity c'
  | .started id agent => ∃ t ws w₁, Candidate R workspace w t ∧ R w w₁ ∧ w₁.store.workspace? t.workspace = .ok (some ws) ∧
    if ws.mode = .kubernetes then
      ∃ x a, agent = some a ∧ Spared id (some x) w.capacity c' ∧ c'.RunsOn id x (some a)
    else Spared id none w.capacity c'

/-- How an attempt answers, and what it leaves on the slots. It crashes itself if it cannot be queued
    again. -/
inductive Answers (R : World → World → Prop) (workspace : String) (w : World) (c' : Capacity) :
    Except String (Except DispatchError DispatchOutcome) → Prop
  | crashed (m : String) (task : UInt64) (hand : Option Spot) : Spared task hand w.capacity c' →
      Answers R workspace w c' (.ok (.error (.crashed workspace m)))
  | failed (e : DispatchError) : c' = w.capacity → Answers R workspace w c' (.ok (.error e))
  | ended (o : DispatchOutcome) : Outcome R workspace w c' o → Answers R workspace w c' (.ok (.ok o))
  | lost (task : UInt64) (hand : Option Spot) : Spared task hand w.capacity c' →
      Answers R workspace w c' (.error sumTooLarge)

variable {r : Except String (Except DispatchError DispatchOutcome)}

theorem Chosen.candidate (h : Chosen R workspace w t w') : Candidate R workspace w t := by
  cases h with
  | next w₁ _ hnext _ => exact .inl (Store.workspace_of_nextTask hnext)
  | resumed w₁ w₂ seens seen hw₁ hlist hmem hw₂ hfound _ _ =>
    exact .inr ⟨w₁, w₂, seen, seens, hw₁, trans_of R hw₁ hw₂, hlist, hmem, hfound⟩
  | confirmed w₁ task _ _ hrefusal _ => exact .inl (workspace_of_refusal hrefusal)

omit [IsPreorder World R] in
theorem answers_idles {result : Except DispatchError DispatchOutcome} (hn : w.capacity.Named) (h : Idles result)
    {c' : Capacity} (hc : c' = w.capacity) : Answers R workspace w c' (.ok result) := by
  match result, h with
  | .error e, _ => exact .failed e hc
  | .ok .idle, _ => exact .ended _ hc
  | .ok (.skipped id), _ => exact .ended _ (by rw [hc]; exact Spared.refl hn id)

/-- What a call for a chosen task leaves, as far as the slots are concerned. -/
theorem left_chosen (hR : Bystanders R) (hn : w.capacity.Named) {w₁ w₂ : World} (hc : Chosen R workspace w t w₁)
    (he : Ends R n (dispatchTask cfg process t).run w₁ r w₂) :
    (∃ e, r = .ok (.error e) ∧ w₂.capacity = w.capacity) ∨
      ∃ r' ws w₃, r = r'.map .ok ∧ R w w₃ ∧ w₃.store.workspace? t.workspace = .ok (some ws) ∧
        Left (ws.mode = .kubernetes) t.id (fun place c' => Holding t.id place w.capacity c') w₂.capacity r' := by
  have hsame : w₁.capacity = w.capacity := hR.pods _ _ hc.between
  rw [← hsame] at hn ⊢
  rcases left_dispatchTask hR (handles_holding w₁.capacity) hn (enters_holding hn) he with
    ⟨e, rfl, hw⟩ | ⟨r', ws, w₃, hr, hw₃, hws, hleft⟩
  · exact .inl ⟨e, rfl, hR.pods _ _ hw⟩
  · refine .inr ⟨r', ws, w₃, hr, trans_of R hc.between hw₃, hws, hleft.mono fun place c' h => ?_⟩
    rcases h with h | ⟨rfl, rfl⟩
    · exact h
    · exact .empty hn t.id

/-- What a call that crashed has in its hand. -/
theorem spared_of_crash (hR : Bystanders R) (hn : w.capacity.Named) {w₁ w₂ : World} {m : String}
    (hc : Chosen R workspace w t w₁) (he : Ends R n (dispatchTask cfg process t).run w₁ (.error m) w₂) :
    ∃ hand, Spared t.id hand w.capacity w₂.capacity := by
  rcases left_chosen hR hn hc he with ⟨e, hr, -⟩ | ⟨r', ws, w₃, hr, -, -, hleft⟩
  · cases hr
  · cases r' with
    | ok o => cases hr
    | error m =>
      obtain ⟨place, hheld⟩ := hleft
      exact ⟨_, hheld.spared⟩

theorem Choice.answers (hR : Bystanders R) (hn : w.capacity.Named) (h : Choice R cfg process workspace w w' r) :
    Answers R workspace w w'.capacity r := by
  cases h with
  | nothing hr hw => exact answers_idles hn hr (hR.pods _ _ hw)
  | @crashed _ _ _ w₂ w₃ _ notBefore hc he hw _ hw' =>
    have hlast : w'.capacity = (w₃.scheduleAt workspace notBefore).capacity := hR.pods _ _ hw'
    have hqueue : w₃.capacity = w₂.capacity := hR.pods _ _ hw
    have hsame : w'.capacity = w₂.capacity := hlast.trans hqueue
    obtain ⟨hand, hspared⟩ := spared_of_crash hR hn hc he
    exact .crashed _ _ hand (hsame ▸ hspared)
  | lost hc he hw _ hw' =>
    obtain ⟨hand, hspared⟩ := spared_of_crash hR hn hc he
    exact .lost _ hand ((hR.pods _ _ (trans_of R hw hw')).symm ▸ hspared)
  | task hc he hw =>
    rw [hR.pods _ _ hw]
    rcases left_chosen hR hn hc he with ⟨e, hr, hsame⟩ | ⟨r', ws, w₃, hr, hw₃, hws, hleft⟩
    · cases hr
      exact .failed e hsame
    · cases r' with
      | error m => cases hr
      | ok o =>
        cases hr
        refine .ended o ?_
        cases o with
        | idle => exact hleft.elim
        | skipped id => exact hleft.1 ▸ hleft.2.spared
        | retry id delay reason => exact hleft.1 ▸ hleft.2.spared
        | started id agent =>
          obtain ⟨rfl, h⟩ := hleft
          refine ⟨_, ws, w₃, hc.candidate, hw₃, hws, ?_⟩
          by_cases hmode : ws.mode = .kubernetes
          · rw [decide_eq_true hmode, if_pos rfl] at h
            obtain ⟨p, a, ha, hheld, hruns⟩ := h
            rw [if_pos hmode]
            exact ⟨p.spot, a, ha, hheld.spared, hruns⟩
          · rw [decide_eq_false hmode, if_neg Bool.false_ne_true] at h
            rw [if_neg hmode]
            exact h.spared

/-! ## What the slots look like after an attempt -/

/-- The two ways to start a task of a workspace. -/
inductive Attempt (workspace : String) : Fallible DispatchError DispatchOutcome → Prop
  | next (cfg : Settings) (process : Nat) : Attempt workspace (tryDispatch cfg process workspace)
  | confirmedApply (cfg : Settings) (process : Nat) (task : UInt64) :
      Attempt workspace (executeConfirmedApply cfg process workspace task)

theorem Attempt.choice {p : Fallible DispatchError DispatchOutcome} (hp : Attempt workspace p) (hR : Bystanders R)
    (he : Ends R n p.run w r w') : ∃ cfg process, Choice R cfg process workspace w w' r := by
  cases hp with
  | next cfg process => exact ⟨cfg, process, choice_tryDispatch hR.locks he⟩
  | confirmedApply cfg process task => exact ⟨cfg, process, choice_executeConfirmedApply hR.locks he⟩

theorem Attempt.answers {p : Fallible DispatchError DispatchOutcome} (hp : Attempt workspace p) (hR : Bystanders R)
    (hn : w.capacity.Named) (he : Ends R n p.run w r w') : Answers R workspace w w'.capacity r := by
  obtain ⟨cfg, process, hchoice⟩ := hp.choice hR he
  exact hchoice.answers hR hn

/-- The slots after an attempt, by its answer: only the slot of a started task, or one that was
    in the hand of an attempt that crashed, is other than it was. An attempt without an answer has
    crashed, and could not be queued again. -/
def SlotsLeft (c c' : Capacity) : Except String (Except DispatchError DispatchOutcome) → Prop
  | .error m => m = sumTooLarge ∧ ∃ task hand, Spared task hand c c'
  | .ok (.error (.crashed _ _)) => ∃ task hand, Spared task hand c c'
  | .ok (.error _) => c' = c
  | .ok (.ok .idle) => c' = c
  | .ok (.ok (.skipped task)) => Spared task none c c'
  | .ok (.ok (.retry task _ _)) => Spared task none c c'
  | .ok (.ok (.started task _)) => ∃ hand, Spared task hand c c'

omit [IsPreorder World R] in
theorem Answers.slotsLeft {c' : Capacity} (hn : w.capacity.Named) (h : Answers R workspace w c' r) :
    SlotsLeft w.capacity c' r := by
  cases h with
  | crashed m task hand h => exact ⟨task, hand, h⟩
  | lost task hand h => exact ⟨rfl, task, hand, h⟩
  | failed e h =>
    cases e with
    | crashed ws m => exact ⟨0, none, by rw [h]; exact .refl hn 0⟩
    | _ => exact h
  | ended o h =>
    cases o with
    | started task agent =>
      obtain ⟨t, ws, w₁, -, -, -, hslots⟩ := h
      split at hslots
      · obtain ⟨x, a, -, hspared, -⟩ := hslots
        exact ⟨some x, hspared⟩
      · exact ⟨none, hslots⟩
    | _ => exact h

/-- Every record of a task is under its own key. -/
def Filed (s : Store) : Prop := ∀ k t, s.tasks.get? k = some (.record t) → k = t.key

theorem filed_of_keyed {s : Store} (hs : s.Keyed) : Filed s := by
  intro k t h
  obtain ⟨_, ht, hk⟩ := hs k _ h
  cases ht
  exact hk

/-- In a store that nobody changes, a task that may be started belongs to the workspace. -/
theorem Candidate.belongs (hf : Filed w.store) (h : Candidate Elsewhere workspace w t) : t.workspace = workspace := by
  rcases h with hws | ⟨w₁, w₂, seen, seens, hw₁, hw₂, hlist, hmem, hfound⟩
  · exact hws
  rw [hw₁.1] at hlist
  rw [hw₂.1] at hfound
  obtain ⟨all, hall, rfl⟩ := map_eq_ok_iff.1 hlist
  obtain ⟨hseen, hws⟩ := List.mem_filter.1 hmem
  obtain ⟨k, hk⟩ := (Store.mem_of_mapM_read hall).1 hseen
  have hget := Table.mem_rows_iff.1 hk
  rw [hf k seen hget] at hget
  unfold Store.task? Table.record? at hfound
  rw [show taskKey seen.id = seen.key from rfl, hget] at hfound
  cases hfound
  simpa using hws

/-- No slot leaks, unless an attempt crashes: whatever else an attempt answers, idle slots are
    idle, and slots of other tasks are as before; and a task that it started on a workspace with
    pods, and that had no slot, runs on exactly one, on the pod of the agent it was sent to. -/
theorem attempts_spare_slots {p : Fallible DispatchError DispatchOutcome} (hp : Attempt workspace p)
    (hn : w.capacity.Named) :
    (∀ n r, Ends SamePods n p.run w r w' → SlotsLeft w.capacity w'.capacity r) ∧
    (∀ n task agent ws, Ends Elsewhere n p.run w (.ok (.ok (.started task agent))) w' → Filed w.store →
      w.store.workspace? workspace = .ok (some ws) → ws.mode = .kubernetes → (∀ x, w.capacity.taskAt x ≠ some task) →
      ∃ x a, agent = some a ∧ (∀ y, w'.capacity.taskAt y = some task ↔ y = x) ∧ w'.capacity.RunsOn task x (some a)) := by
  refine ⟨fun n r he => (hp.answers bystanders_samePods hn he).slotsLeft hn, ?_⟩
  intro n task agent ws he hf hws hmode hnone
  cases hp.answers bystanders_elsewhere hn he with
  | ended o h =>
    obtain ⟨t, ws', w₁, hcand, hw₁, hws', hslots⟩ := h
    rw [hw₁.1, hcand.belongs hf, hws] at hws'
    cases hws'
    rw [if_pos hmode] at hslots
    obtain ⟨x, a, rfl, hspared, hruns⟩ := hslots
    refine ⟨x, a, rfl, fun y => ⟨fun hy => ?_, fun hy => ?_⟩, hruns⟩
    · exact Classical.byContradiction fun hyx => hnone y (hspared.own y (fun h => hyx (Option.some.inj h).symm) hy)
    · exact hy ▸ (hspared.inHand x rfl).1

/-! ## A pool with one free slot -/

/-- A pending plan, and a pod of its pool whose agent is connected. -/
def oneFreeSlot : World :=
  { servedWorld with store := (servedWorld.store.addTask (.submitted "ws" .plan 0 .manual) 1).2 }

theorem named_oneFreeSlot : oneFreeSlot.capacity.Named := order_empty.named.insert rfl

theorem taskAt_oneFreeSlot (x : Spot) : oneFreeSlot.capacity.taskAt x = none := by
  have hsame : SameTasks {} (({} : Capacity).insertPod oneFreePod) :=
    sameTasks_insertPod order_empty rfl fun s hs => by rw [List.mem_singleton.1 hs]
  exact (hsame.tasks x).trans rfl

theorem filed_oneFreeSlot : Filed oneFreeSlot.store := by
  intro k t h
  unfold oneFreeSlot servedWorld Store.addTask Store.putTask at h
  simp only at h
  rw [Table.get?_insert] at h
  split at h
  · next hk => cases h; exact hk.symm
  · cases h

theorem attempts_spare_slots_one_plan :
    ∃ n w', Ends Elsewhere n (tryDispatch { holder := "a" } 0 "ws").run oneFreeSlot
        (.ok (.ok (.started 1 (some "agent")))) w' ∧
      SlotsLeft oneFreeSlot.capacity w'.capacity (.ok (.ok (.started 1 (some "agent")))) ∧
      ∃ x a, some "agent" = some a ∧ (∀ y, w'.capacity.taskAt y = some 1 ↔ y = x) ∧ w'.capacity.RunsOn 1 x (some a) := by
  obtain ⟨w', hrun⟩ : ∃ w', (tryDispatch { holder := "a" } 0 "ws").run.run oneFreeSlot =
    (.finished (.ok (.started 1 (some "agent"))), w') := ⟨_, rfl⟩
  obtain ⟨n, hend⟩ : ∃ n, Ends Elsewhere n (tryDispatch { holder := "a" } 0 "ws").run oneFreeSlot
    (.ok (.ok (.started 1 (some "agent")))) w' := Ends.of_run hrun
  obtain ⟨hleft, hplaced⟩ := attempts_spare_slots (.next { holder := "a" } 0) named_oneFreeSlot
  have hslots := hleft n _ (hend.mono fun _ _ h => h.2)
  refine ⟨n, w', hend, hslots, hplaced n 1 (some "agent") _ hend filed_oneFreeSlot rfl rfl fun x hx => ?_⟩
  rw [taskAt_oneFreeSlot] at hx
  cases hx

/-- Listing the agents crashes. -/
def agentsUnlisted : World := { oneFreeSlot with agentsFault := some "unlisted" }

/-- The slot was reserved before the agents were listed, and nobody gives it back. -/
theorem crash_keeps_the_slot :
    ∃ w' s s', (tryDispatch { holder := "a" } 0 "ws").run.run agentsUnlisted =
        (.finished (.error (.crashed "ws" "unlisted")), w') ∧
      agentsUnlisted.capacity.slotAt ⟨"pod", 0⟩ = some s ∧ s.status = .idle ∧
      w'.capacity.slotAt ⟨"pod", 0⟩ = some s' ∧ s'.status = .reserved ∧ s'.task = some 1 ∧
      (w'.store.task? 1).map (·.map (·.status)) = .ok (some .pending) :=
  ⟨_, _, _, rfl, rfl, rfl, rfl, rfl, rfl, rfl⟩

end Dispatch

end TaskFleet
