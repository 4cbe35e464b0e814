/-
  TaskFleet.Proofs.Autoscale.GiveUp — how often a pod whose agent never registers is replaced.

  The restart history follows the replacement, and what it says spaces the restarts and ends
  them. But a look at the pool in the time that a replacement has for its agent finds nothing
  unhealthy and forgets the whole history. So restarts are bounded between two such looks,
  and over a whole run only if there are none.
  - `after_restartUnhealthy`: the three things that a look at a pool with one pod can do.
  - `Run.remembers`: the history of the pod is that of the restarts since the last early look.
  - `restarts_bounded_without_early_looks`: a run without early looks spaces its restarts and
    ends them, and in every run the next restart depends on the remembered ones only.
  - `restarts_unbounded_after_early_look`: one early look is enough for a restart too many.
-/

import TaskFleet.Proofs.Capacity.Pods
import TaskFleet.Autoscale.Cycle

namespace TaskFleet.Autoscale

open Fallible

variable {cfg : Settings} {pool : AgentPool} {p q : Pod} {w w' : World} {names : List String} {policy : RestartPolicy}

/-! ## One look at the pool -/

/-- What the restart history says of a pod: how often its line was restarted, and when last. -/
def memory (w : World) (pool : AgentPool) (pod : String) : UInt32 × Option UInt64 :=
  match ((w.trackers.get? pool.id).getD {}).get? pod with
  | some h => (h.count, h.lastAt)
  | none => (0, none)

/-- Whether a history allows a restart now. -/
def Allows (policy : RestartPolicy) (memory : UInt32 × Option UInt64) (now : UInt64) : Prop :=
  memory.1 < policy.maxRestarts ∧ ∀ last ∈ memory.2, (policy.backoff memory.1).secs.toNat ≤ now.toNat - last.toNat

/-- Nothing of the pool is in flight. -/
def Quiet (w : World) (pool : AgentPool) : Prop := ∃ work, w.store.poolWorkload pool.id = .ok work ∧ work.inFlight = 0

/-- The world after a look at a pool whose only pod is `p`. -/
inductive After (cfg : Settings) (pool : AgentPool) (p : Pod) (w : World) : List String → World → Prop
  /-- The pod still has time: the history is forgotten. -/
  | early {w' : World} : isUnhealthy cfg p w.now = false → w'.capacity = w.capacity →
      memory w' pool p.name = (0, none) → After cfg pool p w [] w'
  /-- The pod is left as it is, with its history. -/
  | spared {w' : World} : isUnhealthy cfg p w.now = true →
      ¬(Allows cfg.scaling.restart (memory w pool p.name) w.now ∧ p.isFullyIdle = true) → w'.capacity = w.capacity →
      memory w' pool p.name = memory w pool p.name → After cfg pool p w [] w'
  /-- Another pod is in its place, with its history and one restart more. -/
  | replaced {w' : World} (q : Pod) : isUnhealthy cfg p w.now = true →
      Allows cfg.scaling.restart (memory w pool p.name) w.now → p.isFullyIdle = true →
      w'.capacity.Named → w'.capacity.Lone pool.id q → q.agent = none →
      memory w' pool q.name = ((memory w pool p.name).1 + 1, some w.now) → After cfg pool p w [q.name] w'

theorem verdict_restart_iff {h : RestartInfo} {now : UInt64} :
    (∃ n, RestartTracker.verdict policy h now = .restart n) ↔ Allows policy (h.count, h.lastAt) now := by
  unfold RestartTracker.verdict Allows
  by_cases hmax : policy.maxRestarts ≤ h.count
  · have hnot : ¬h.count < policy.maxRestarts := UInt32.not_lt.2 hmax
    simp [hmax, hnot]
  · rw [if_neg hmax]
    have hlt : h.count < policy.maxRestarts := UInt32.not_le.1 hmax
    cases hl : h.lastAt with
    | none => simp [hlt]
    | some last =>
      simp only [Option.mem_def, Option.some.injEq, forall_eq', hlt, true_and]
      split <;> simp <;> omega

/-- The history that a decision reads is the one remembered. -/
theorem memory_history (w : World) (pool : AgentPool) (pod : String) (now : UInt64) :
    ((((w.trackers.get? pool.id).getD {}).history pod now).count,
      (((w.trackers.get? pool.id).getD {}).history pod now).lastAt) = memory w pool pod := by
  unfold memory RestartTracker.history
  cases ((w.trackers.get? pool.id).getD {}).get? pod <;> rfl

theorem memory_insert (w : World) (pool : AgentPool) (tracker : RestartTracker) (pod : String) :
    memory { w with trackers := w.trackers.insert pool.id tracker } pool pod =
      match tracker.get? pod with
      | some h => (h.count, h.lastAt)
      | none => (0, none) := by
  unfold memory
  rw [Table.get?_insert_self]
  rfl

/-- The world while a decision is made: the pod has a history, which begins now if it is new. -/
def decided (w : World) (pool : AgentPool) (pod : String) (now : UInt64) : World :=
  let tracker := (w.trackers.get? pool.id).getD {}
  { w with trackers := w.trackers.insert pool.id ⟨tracker.pods.insert pod (tracker.history pod now)⟩ }

theorem memory_decided (w : World) (pool : AgentPool) (pod : String) (now : UInt64) :
    memory (decided w pool pod now) pool pod = memory w pool pod := by
  unfold decided
  rw [memory_insert, RestartTracker.get?, Table.get?_insert_self]
  exact memory_history w pool pod now

/-- What follows a decision to restart. -/
def replacePod (cfg : Settings) (pool : AgentPool) (pod : String) (now : UInt64) : Program World (Option String) := do
  match ← (Capacity.deletePod cfg.capacity pod).run with
  | .error _ => return none
  | .ok () =>
    let new := (← (Capacity.createPod cfg.capacity pool).run).toOption.map (·.name)
    let _ ← onTracker pool.id (·.recordRestart pod new now)
    return new

theorem run_restart_of_allows {now : UInt64} {pod : String} (h : Allows cfg.scaling.restart (memory w pool pod) now) :
    (restart cfg pool pod now).run w = (replacePod cfg pool pod now).run (decided w pool pod now) := by
  rw [← memory_history w pool pod now, ← verdict_restart_iff] at h
  obtain ⟨n, hv⟩ := h
  unfold restart onTracker
  simp only [Program.run_apply_bind, RestartTracker.decide, hv]
  rfl

theorem run_restart_of_not_allows {now : UInt64} {pod : String}
    (h : ¬Allows cfg.scaling.restart (memory w pool pod) now) :
    (restart cfg pool pod now).run w = (.finished none, decided w pool pod now) := by
  rw [← memory_history w pool pod now, ← verdict_restart_iff] at h
  unfold restart onTracker decided
  simp only [Program.run_apply_bind, RestartTracker.decide]
  cases hv : RestartTracker.verdict cfg.scaling.restart
      (RestartTracker.history ((w.trackers.get? pool.id).getD {}) pod now) now with
  | restart n => exact absurd ⟨n, hv⟩ h
  | backoff remaining => rfl
  | giveUp count first => rfl

theorem run_replacePod_of_busy {now : UInt64} {pod : String} (hp : w.capacity.pods.get? pod = some p)
    (hbusy : ¬p.isFullyIdle = true) : (replacePod cfg pool pod now).run w = (.finished none, w) := by
  obtain ⟨e, he⟩ : ∃ e, w.capacity.removeIdle pod = .error e := by
    cases hr : w.capacity.removeIdle pod with
    | error e => exact ⟨e, rfl⟩
    | ok c =>
      obtain ⟨q, hq, hidle, -⟩ := Capacity.removeIdle_ok_iff.1 hr
      rw [hp] at hq
      cases hq
      exact absurd hidle hbusy
  unfold replacePod
  rw [Program.run_bind, Capacity.run_deletePod_error cfg.capacity he]
  rfl

theorem run_replacePod (cfg : Settings) (now : UInt64) (hc : w.cluster.Works) (hn : w.capacity.Named)
    (hl : w.capacity.Lone pool.id p) (hidle : p.isFullyIdle = true) :
    ∃ w' q, (replacePod cfg pool p.name now).run w = (.finished (some q.name), w') ∧
      w'.capacity.Named ∧ w'.capacity.Lone pool.id q ∧ q.agent = none ∧ w'.clock = w.clock ∧
      memory w' pool q.name = ((memory w pool p.name).1 + 1, some now) := by
  obtain ⟨w₁, hdelete, hcap₁, hsame₁⟩ := Capacity.run_deletePod cfg.capacity hc
    (Capacity.removeIdle_ok_iff.2 ⟨p, hl.held, hidle, rfl⟩)
  obtain ⟨w₂, name, hcreate, hcap₂, hsame₂⟩ := Capacity.run_createPod cfg.capacity pool (hsame₁.works hc)
  have hnone : ∀ name q, w₁.capacity.pods.get? name = some q → q.pool ≠ pool.id := by
    intro name q hq
    rw [hcap₁] at hq
    exact hl.none_after_erase hn hq
  have hn₁ : w₁.capacity.Named := by rw [hcap₁]; exact hn.erase p.name
  obtain ⟨q, hq⟩ : ∃ q, q = Pod.fresh name pool.id pool.slotsPerPod w₁.now w₁.now := ⟨_, rfl⟩
  have hname : q.name = name := by rw [hq]; rfl
  have hpool : q.pool = pool.id := by rw [hq]; rfl
  rw [← hq] at hcreate hcap₂
  rw [← hname] at hcap₂
  obtain ⟨tracker, ht⟩ : ∃ tracker,
      tracker = (((w₂.trackers.get? pool.id).getD {}).recordRestart p.name (some q.name) now).2 := ⟨_, rfl⟩
  refine ⟨{ w₂ with trackers := w₂.trackers.insert pool.id tracker }, q, ?_, ?_, ?_, ?_, ?_, ?_⟩
  · unfold replacePod onTracker
    rw [Program.run_bind, hdelete]
    simp only
    rw [Program.run_bind, hcreate, ht]
    rfl
  · exact hn₁.insert hcap₂
  · rw [← hpool]
    exact Capacity.Lone.of_insert (hpool ▸ hnone) hcap₂
  · rw [hq]; rfl
  · exact hsame₂.clock.trans hsame₁.clock
  · -- the old pod's history, with one restart more, is under the new pod's name
    rw [memory_insert, ht]
    unfold RestartTracker.recordRestart RestartTracker.get?
    rw [Option.getD_some, Table.get?_insert_self]
    rw [hsame₂.trackers, hsame₁.trackers, ← memory_history w pool p.name now]

/-- The world once only the pool's pods have a history. -/
def retained (w : World) (pool : AgentPool) (pods : List Pod) : World :=
  { w with trackers := w.trackers.insert pool.id (((w.trackers.get? pool.id).getD {}).retain (pods.map (·.name))) }

theorem memory_retained : memory (retained w pool [p]) pool p.name = memory w pool p.name := by
  unfold retained
  rw [memory_insert, RestartTracker.get?, RestartTracker.retain, Table.get?_filter]
  unfold memory RestartTracker.get?
  cases ((w.trackers.get? pool.id).getD {}).pods.get? p.name <;> simp [Option.filter]

theorem run_restartUnhealthy_early (hq : Quiet w pool) (hpods : w.capacity.podsIn pool.id = [p])
    (h : isUnhealthy cfg p w.now = false) :
    (restartUnhealthy cfg pool).run.run w =
      (.finished (.ok []), { retained w pool [p] with trackers := (retained w pool [p]).trackers.insert pool.id {} }) := by
  obtain ⟨work, hw, hzero⟩ := hq
  unfold restartUnhealthy look onTracker
  simp [Program.readStore, hw, hzero, hpods, h, RestartTracker.clear, Except.map, retained]

theorem run_restartUnhealthy_late (hq : Quiet w pool) (hpods : w.capacity.podsIn pool.id = [p])
    (h : isUnhealthy cfg p w.now = true) :
    (restartUnhealthy cfg pool).run.run w =
      ((fun new => Except.ok new.toList) <$> restart cfg pool p.name w.now).run (retained w pool [p]) := by
  obtain ⟨work, hw, hzero⟩ := hq
  unfold restartUnhealthy look onTracker
  simp [Program.readStore, hw, hzero, hpods, h, restartEach]
  rfl

theorem after_restartUnhealthy (hq : Quiet w pool) (hc : w.cluster.Works) (hn : w.capacity.Named)
    (hl : w.capacity.Lone pool.id p) :
    ∃ names w', (restartUnhealthy cfg pool).run.run w = (.finished (.ok names), w') ∧ w'.clock = w.clock ∧
      After cfg pool p w names w' := by
  have hpods := hl.podsIn_eq hn
  cases hu : isUnhealthy cfg p w.now with
  | false =>
    refine ⟨[], _, run_restartUnhealthy_early hq hpods hu, rfl, .early hu rfl ?_⟩
    rw [memory_insert]
    rfl
  | true =>
    rw [run_restartUnhealthy_late hq hpods hu, map_eq_pure_bind, Program.run_bind]
    by_cases hallows : Allows cfg.scaling.restart (memory w pool p.name) w.now
    · have hallows' := hallows
      rw [← memory_retained] at hallows'
      rw [run_restart_of_allows hallows']
      by_cases hidle : p.isFullyIdle = true
      · obtain ⟨w', q, hrun, hn', hl', ha', hclock, hmem⟩ := run_replacePod cfg w.now
          (w := decided (retained w pool [p]) pool p.name w.now) hc hn hl hidle
        rw [hrun]
        refine ⟨[q.name], w', rfl, hclock, .replaced q hu hallows hidle hn' hl' ha' ?_⟩
        rw [hmem, memory_decided, memory_retained]
      · have hheld : (decided (retained w pool [p]) pool p.name w.now).capacity.pods.get? p.name = some p := hl.held
        rw [run_replacePod_of_busy hheld hidle]
        refine ⟨[], _, rfl, rfl, .spared hu (fun h => hidle h.2) rfl ?_⟩
        rw [memory_decided, memory_retained]
    · have hnot := hallows
      rw [← memory_retained] at hnot
      rw [run_restart_of_not_allows hnot]
      refine ⟨[], _, rfl, rfl, .spared hu (fun h => hallows h.1) rfl ?_⟩
      rw [memory_decided, memory_retained]

/-! ## Runs -/

/-- A look at the pool. -/
structure Look where
  time : UInt64
  /-- Whether the pod still had time for its agent to register. -/
  isEarly : Bool
  /-- Whether the pod was replaced. -/
  restarted : Bool

/-- What others may do between two looks: time passes and other pods come and go, while the
    pool's pod stays as it is but for its slots and what was heard of it. -/
structure Between (pool : AgentPool) (w w' : World) : Prop where
  clock : w.now ≤ w'.now
  named : w'.capacity.Named
  pods : ∀ p, w.capacity.Lone pool.id p → ∃ p', w'.capacity.Lone pool.id p' ∧
    p'.name = p.name ∧ p'.createdAt = p.createdAt ∧ p'.agent = p.agent
  history : w'.trackers.get? pool.id = w.trackers.get? pool.id
  works : w'.cluster.Works
  quiet : Quiet w' pool

/-- The runs of the control loop over a pool that begins with one pod and no history, and on
    which no agent ever registers; with their looks, in order. -/
inductive Run (cfg : Settings) (pool : AgentPool) : List Look → World → Prop
  | start {w : World} {p : Pod} : w.capacity.Named → w.capacity.Lone pool.id p → p.agent = none →
      memory w pool p.name = (0, none) → Run cfg pool [] w
  | look {looks : List Look} {w w' w'' : World} {names : List String} : Run cfg pool looks w → Between pool w w' →
      (restartUnhealthy cfg pool).run.run w' = (.finished (.ok names), w'') →
      Run cfg pool
        (looks ++ [⟨w'.now, (w'.capacity.podsIn pool.id).all (!isUnhealthy cfg · w'.now), !names.isEmpty⟩]) w''

/-- The times of the restarts among these looks. -/
def restarts (looks : List Look) : List UInt64 := (looks.filter (·.restarted)).map (·.time)

/-- What a look adds to the remembered restarts. -/
def remember (times : List UInt64) (l : Look) : List UInt64 :=
  if l.isEarly then [] else if l.restarted then times ++ [l.time] else times

/-- The restarts since the last early look. -/
def remembered (looks : List Look) : List UInt64 := looks.foldl remember []

/-- Each restart after the first comes at least the backoff for the restarts before it later
    than the last of these. -/
def Spaced (policy : RestartPolicy) (times : List UInt64) : Prop :=
  ∀ i (h : i + 1 < times.length),
    times[i].toNat + (policy.backoff (UInt32.ofNat (i + 1))).secs.toNat ≤ times[i + 1].toNat

theorem Spaced.append {times : List UInt64} {now : UInt64} (h : Spaced policy times)
    (hlast : ∀ t ∈ times.getLast?,
      t.toNat + (policy.backoff (UInt32.ofNat times.length)).secs.toNat ≤ now.toNat) : Spaced policy (times ++ [now]) := by
  intro i hi
  rw [List.length_append, List.length_singleton] at hi
  by_cases hin : i + 1 < times.length
  · rw [List.getElem_append_left (by omega), List.getElem_append_left hin]
    exact h i hin
  · -- the restart that was added
    have hlen : i + 1 = times.length := by omega
    have hget : times.getLast? = some times[i] := by
      rw [List.getLast?_eq_getElem?, List.getElem?_eq_getElem (by omega)]
      congr 2
      omega
    rw [List.getElem_append_left (by omega), List.getElem_append_right (by omega)]
    simp only [hlen, Nat.sub_self, List.getElem_singleton]
    exact hlast _ hget

/-- The pod that is there has the history of the remembered restarts. -/
structure Remembers (cfg : Settings) (pool : AgentPool) (times : List UInt64) (w : World) (p : Pod) : Prop where
  named : w.capacity.Named
  lone : w.capacity.Lone pool.id p
  agent : p.agent = none
  count : (memory w pool p.name).1.toNat = times.length
  last : (memory w pool p.name).2 = times.getLast?
  past : ∀ t ∈ times, t ≤ w.now
  spaced : Spaced cfg.scaling.restart times
  bounded : times.length ≤ cfg.scaling.restart.maxRestarts.toNat

theorem Remembers.between {times : List UInt64} (h : Remembers cfg pool times w p) (hb : Between pool w w') :
    ∃ p', Remembers cfg pool times w' p' := by
  obtain ⟨p', hl', hname, -, hagent⟩ := hb.pods p h.lone
  have hmem : memory w' pool p'.name = memory w pool p.name := by
    unfold memory
    rw [hb.history, hname]
  refine ⟨p', hb.named, hl', hagent.trans h.agent, ?_, ?_, ?_, h.spaced, h.bounded⟩
  · rw [hmem]; exact h.count
  · rw [hmem]; exact h.last
  · intro t ht
    exact UInt64.le_trans (h.past t ht) hb.clock

/-- Whether the pool's only pod may be replaced now, by the restarts that are remembered. -/
def MayRestart (cfg : Settings) (times : List UInt64) (p : Pod) (now : UInt64) : Prop :=
  isUnhealthy cfg p now = true ∧ p.isFullyIdle = true ∧ times.length < cfg.scaling.restart.maxRestarts.toNat ∧
    ∀ last ∈ times.getLast?,
      last.toNat + (cfg.scaling.restart.backoff (UInt32.ofNat times.length)).secs.toNat ≤ now.toNat

theorem Remembers.allows_iff {times : List UInt64} (h : Remembers cfg pool times w p) :
    Allows cfg.scaling.restart (memory w pool p.name) w.now ↔
      times.length < cfg.scaling.restart.maxRestarts.toNat ∧ ∀ last ∈ times.getLast?,
        last.toNat + (cfg.scaling.restart.backoff (UInt32.ofNat times.length)).secs.toNat ≤ w.now.toNat := by
  have hcount : (memory w pool p.name).1 = UInt32.ofNat times.length := by
    rw [← h.count, UInt32.ofNat_toNat]
  unfold Allows
  rw [h.last, UInt32.lt_iff_toNat_lt, h.count, hcount]
  refine and_congr_right fun _ => forall_congr' fun last => imp_congr_right fun hlast => ?_
  have hle := UInt64.le_iff_toNat_le.1 (h.past last (List.mem_of_getLast? hlast))
  omega

/-- A look at the pool answers; it replaces the pod exactly if the remembered restarts allow
    that, and the new pod is remembered with what the look adds. -/
theorem Remembers.look {times : List UInt64} (h : Remembers cfg pool times w p) (hc : w.cluster.Works)
    (hq : Quiet w pool) :
    ∃ names w' p', (restartUnhealthy cfg pool).run.run w = (.finished (.ok names), w') ∧
      (names ≠ [] ↔ MayRestart cfg times p w.now) ∧
      Remembers cfg pool (remember times ⟨w.now, !isUnhealthy cfg p w.now, !names.isEmpty⟩) w' p' := by
  obtain ⟨names, w', hrun, hclock, hafter⟩ := after_restartUnhealthy hq hc h.named h.lone
  have hnow : w'.now = w.now := by unfold World.now; rw [hclock]
  cases hafter with
  | early hu hcap hmem =>
    refine ⟨[], w', p, hrun, ?_, ?_⟩
    · simp [MayRestart, hu]
    · have hnil : remember times ⟨w.now, !isUnhealthy cfg p w.now, !([] : List String).isEmpty⟩ = [] := by
        simp [remember, hu]
      rw [hnil]
      refine ⟨hcap ▸ h.named, hcap ▸ h.lone, h.agent, ?_, ?_, ?_, ?_, Nat.zero_le _⟩
      · rw [hmem]; rfl
      · rw [hmem]; rfl
      · intro t ht; cases ht
      · intro i hi; simp at hi
  | spared hu hnot hcap hmem =>
    rw [h.allows_iff] at hnot
    refine ⟨[], w', p, hrun, ?_, ?_⟩
    · constructor
      · intro hne; exact absurd rfl hne
      · rintro ⟨-, hidle, hlen, hlast⟩
        exact absurd ⟨⟨hlen, hlast⟩, hidle⟩ hnot
    · have hsame : remember times ⟨w.now, !isUnhealthy cfg p w.now, !([] : List String).isEmpty⟩ = times := by
        simp [remember, hu]
      rw [hsame]
      refine ⟨hcap ▸ h.named, hcap ▸ h.lone, h.agent, ?_, ?_, ?_, h.spaced, h.bounded⟩
      · rw [hmem]; exact h.count
      · rw [hmem]; exact h.last
      · rw [hnow]; exact h.past
  | replaced q hu hallows hidle hn hl ha hmem =>
    obtain ⟨hlen, hlast⟩ := h.allows_iff.1 hallows
    refine ⟨[q.name], w', q, hrun, ?_, ?_⟩
    · simp only [ne_eq, List.cons_ne_self, not_false_eq_true, true_iff]
      exact ⟨hu, hidle, hlen, hlast⟩
    · have happend : remember times ⟨w.now, !isUnhealthy cfg p w.now, !List.isEmpty [q.name]⟩ = times ++ [w.now] := by
        simp [remember, hu]
      rw [happend]
      refine ⟨hn, hl, ha, ?_, ?_, ?_, h.spaced.append hlast, ?_⟩
      · have hroom : (memory w pool p.name).1.toNat + 1 < 4294967296 := by
          have := cfg.scaling.restart.maxRestarts.toNat_lt
          rw [h.count]; omega
        rw [hmem, List.length_append, List.length_singleton, ← h.count, UInt32.toNat_add]
        exact Nat.mod_eq_of_lt hroom
      · rw [hmem, List.getLast?_append]; rfl
      · intro t ht
        rw [hnow]
        rcases List.mem_append.1 ht with ht | ht
        · exact h.past t ht
        · rw [List.mem_singleton.1 ht]; exact UInt64.le_refl _
      · rw [List.length_append, List.length_singleton]; omega

theorem remembered_append (looks : List Look) (l : Look) :
    remembered (looks ++ [l]) = remember (remembered looks) l := by
  unfold remembered
  rw [List.foldl_append]
  rfl

theorem restarts_append (looks : List Look) (l : Look) :
    restarts (looks ++ [l]) = if l.restarted then restarts looks ++ [l.time] else restarts looks := by
  unfold restarts
  cases hr : l.restarted <;> simp [hr]

/-- The look that a call is. -/
theorem isEarly_eq {p : Pod} (hn : w.capacity.Named) (hl : w.capacity.Lone pool.id p) :
    (w.capacity.podsIn pool.id).all (!isUnhealthy cfg · w.now) = !isUnhealthy cfg p w.now := by
  rw [hl.podsIn_eq hn]
  simp

theorem Run.remembers {looks : List Look} (h : Run cfg pool looks w) :
    ∃ p, Remembers cfg pool (remembered looks) w p := by
  induction h with
  | @start w p hn hl ha hmem =>
    refine ⟨p, hn, hl, ha, ?_, ?_, ?_, ?_, Nat.zero_le _⟩
    · rw [hmem]; rfl
    · rw [hmem]; rfl
    · intro t ht; cases ht
    · intro i hi; simp [remembered] at hi
  | look _ hb hcall ih =>
    obtain ⟨p, hp⟩ := ih
    obtain ⟨p', hp'⟩ := hp.between hb
    obtain ⟨names, w', q, hrun, -, hq⟩ := hp'.look hb.works hb.quiet
    rw [hcall] at hrun
    cases hrun
    rw [remembered_append, isEarly_eq hp'.named hp'.lone]
    exact ⟨q, hq⟩

/-- No look comes in the time that a replacement has for its agent. -/
def NoEarlyLook (looks : List Look) : Prop :=
  ∀ before l after, looks = before ++ l :: after → restarts before ≠ [] → l.isEarly = false

theorem Run.remembered_eq {looks : List Look} (h : Run cfg pool looks w) (hlate : NoEarlyLook looks) :
    remembered looks = restarts looks := by
  induction h with
  | start => rfl
  | @look looks w w' w'' names hrun hb hcall ih =>
    have hlate' : NoEarlyLook looks := by
      intro before l after he
      exact hlate before l (after ++ [_]) (by rw [he, List.append_assoc, List.cons_append])
    have hlast := hlate looks _ [] rfl
    obtain ⟨p, hp⟩ := hrun.remembers
    obtain ⟨p', hp'⟩ := hp.between hb
    obtain ⟨names', w₁, q, hrun', hiff, -⟩ := hp'.look hb.works hb.quiet
    rw [hcall] at hrun'
    cases hrun'
    rw [isEarly_eq hp'.named hp'.lone] at hlast ⊢
    rw [remembered_append, restarts_append, ih hlate']
    unfold remember
    cases hu : isUnhealthy cfg p' w'.now with
    | true => simp
    | false =>
      -- an early look restarts nothing, and nothing was restarted before it
      have hnone : names = [] := by
        refine Classical.byContradiction fun hne => ?_
        have := (hiff.1 hne).1
        rw [hu] at this; cases this
      have hbefore : restarts looks = [] := by
        refine Classical.byContradiction fun hne => ?_
        have := hlast hne
        rw [hu] at this; cases this
      simp [hnone, hbefore]

/-- A run in which no look comes too early spaces its restarts and ends them. In every run a
    further look answers, and restarts exactly if what was restarted since the last early
    look allows it. -/
theorem restarts_bounded_without_early_looks {looks : List Look} (h : Run cfg pool looks w) :
    (NoEarlyLook looks →
      Spaced cfg.scaling.restart (restarts looks) ∧
      (restarts looks).length ≤ cfg.scaling.restart.maxRestarts.toNat) ∧
    (∀ w', Between pool w w' → ∃ names w'' p, w'.capacity.Lone pool.id p ∧
      (restartUnhealthy cfg pool).run.run w' = (.finished (.ok names), w'') ∧
      (names ≠ [] ↔ MayRestart cfg (remembered looks) p w'.now)) := by
  obtain ⟨p, hp⟩ := h.remembers
  refine ⟨fun hlate => ?_, fun w' hb => ?_⟩
  · rw [← h.remembered_eq hlate]
    exact ⟨hp.spaced, hp.bounded⟩
  · obtain ⟨p', hp'⟩ := hp.between hb
    obtain ⟨names, w'', q, hrun, hiff, -⟩ := hp'.look hb.works hb.quiet
    exact ⟨names, w'', p', hp'.lone, hrun, hiff⟩

/-! ## One pod, one restart -/

theorem NoEarlyLook.of_all {looks : List Look} (h : ∀ l ∈ looks, l.isEarly = false) : NoEarlyLook looks := by
  intro before l after he _
  exact h l (by rw [he]; simp)

/-- A look after nothing but time has passed. -/
theorem Run.lookAt {looks : List Look} (h : Run cfg pool looks w) (clock : UInt64) (hle : w.clock / 1000 ≤ clock / 1000)
    (hc : w.cluster.Works) (hq : Quiet w pool)
    (hcall : (restartUnhealthy cfg pool).run.run { w with clock } = (.finished (.ok names), w')) :
    Run cfg pool
      (looks ++ [⟨clock / 1000, (w.capacity.podsIn pool.id).all (!isUnhealthy cfg · (clock / 1000)), !names.isEmpty⟩])
      w' := by
  obtain ⟨p, hp⟩ := h.remembers
  have hb : Between pool w { w with clock } :=
    ⟨hle, hp.named, fun p hl => ⟨p, hl, rfl, rfl, rfl⟩, rfl, hc, hq⟩
  exact h.look hb hcall

/-- One restart is allowed, and ten minutes are to pass after it. -/
def oneRestart : Settings where
  holder := "a"
  scaling := { restart := { base := .ofSecs 600, maxRestarts := 1 } }

/-- The only pod is as old as the world. -/
def atStart : World where
  clock := 0
  capacity := ({} : Capacity).insertPod (.fresh "pod" "pool" 1 0 0)

theorem run_atStart : Run oneRestart (smallPool 1) [] atStart := by
  have hnone : ∀ name q, ({} : Capacity).pods.get? name = some q → False := fun _ _ h => by cases h
  refine .start (p := .fresh "pod" "pool" 1 0 0) ?_ ?_ rfl rfl
  · exact Capacity.Named.insert (c := {}) (fun _ _ h => (hnone _ _ h).elim) rfl
  · exact Capacity.Lone.of_insert (c := {}) (p := .fresh "pod" "pool" 1 0 0) (fun _ _ h => (hnone _ _ h).elim) rfl

theorem restarts_bounded_one_restart :
    ∃ looks w, Run oneRestart (smallPool 1) looks w ∧ NoEarlyLook looks ∧ restarts looks = [120] ∧
      ((NoEarlyLook looks →
        Spaced oneRestart.scaling.restart (restarts looks) ∧
        (restarts looks).length ≤ oneRestart.scaling.restart.maxRestarts.toNat) ∧
      (∀ w', Between (smallPool 1) w w' → ∃ names w'' p, w'.capacity.Lone (smallPool 1).id p ∧
        (restartUnhealthy oneRestart (smallPool 1)).run.run w' = (.finished (.ok names), w'') ∧
        (names ≠ [] ↔ MayRestart oneRestart (remembered looks) p w'.now))) := by
  have hfirst := run_atStart.lookAt 120000 (by decide) ⟨rfl, rfl, rfl⟩ ⟨{}, rfl, rfl⟩ rfl
  have hsecond := hfirst.lookAt 240000 (by decide) ⟨rfl, rfl, rfl⟩ ⟨{}, rfl, rfl⟩ rfl
  refine ⟨_, _, hsecond, ?_, by decide, restarts_bounded_without_early_looks hsecond⟩
  exact NoEarlyLook.of_all (by decide)

/-- A restart, an early look, and a restart that comes too soon and is one too many. -/
theorem restarts_unbounded_after_early_look :
    (¬∀ (cfg : Settings) (pool : AgentPool) (looks : List Look) (w : World), Run cfg pool looks w →
      Spaced cfg.scaling.restart (restarts looks)) ∧
    (¬∀ (cfg : Settings) (pool : AgentPool) (looks : List Look) (w : World), Run cfg pool looks w →
      (restarts looks).length ≤ cfg.scaling.restart.maxRestarts.toNat) := by
  have hfirst := run_atStart.lookAt 120000 (by decide) ⟨rfl, rfl, rfl⟩ ⟨{}, rfl, rfl⟩ rfl
  have hearly := hfirst.lookAt 180000 (by decide) ⟨rfl, rfl, rfl⟩ ⟨{}, rfl, rfl⟩ rfl
  have hsecond := hearly.lookAt 240000 (by decide) ⟨rfl, rfl, rfl⟩ ⟨{}, rfl, rfl⟩ rfl
  refine ⟨fun hspaced => ?_, fun hbounded => ?_⟩
  · have hgap := hspaced _ _ _ _ hsecond 0 (by decide)
    exact absurd hgap (by decide)
  · exact absurd (hbounded _ _ _ _ hsecond) (by decide)

end TaskFleet.Autoscale
