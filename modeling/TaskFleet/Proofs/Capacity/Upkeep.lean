/-
  TaskFleet.Proofs.Capacity.Upkeep — what keeping up the number of pods leaves alone.

  A process adds pods under names that it gives out itself, gives up pods with nothing on them,
  and takes over what the cluster lists. A new pod could only do harm to an old one by its name.
  - `Upkeep`: pods of some pools on which something is stay with their slots, and whatever pod
    is there without having been there before has nothing on it.
  - `Unclaimed`: the names that may be given out next belong to no pod on which something is.
  - `Careful`: programs that do no more than upkeep, as long as the names are unclaimed.
  - `careful_createPod`, `careful_deletePod`, `careful_reconcile`: reconciliation looks after
    its own pool, and is careful with all others.
-/

import TaskFleet.Proofs.Calls
import TaskFleet.Proofs.Capacity.Pods

namespace TaskFleet

/-- Nothing is on the pod, and nothing was said to be. -/
def Pod.IsBlank (p : Pod) : Prop := ∀ s ∈ p.slots, s.status = .idle ∧ s.task = none

theorem Pod.IsBlank.isFullyIdle {p : Pod} (h : p.IsBlank) : p.isFullyIdle = true := by
  unfold Pod.isFullyIdle
  rw [List.all_eq_true]
  intro s hs
  simp [Slot.isIdle, (h s hs).1]

theorem Pod.isBlank_fresh (name pool : String) (slots : UInt32) (createdAt now : UInt64) :
    (Pod.fresh name pool slots createdAt now).IsBlank := by
  intro s hs
  obtain ⟨i, -, rfl⟩ := List.mem_map.1 hs
  exact ⟨rfl, rfl⟩

/-- What a call comes to with this answer. -/
def CallAnswer.result {α : Type} (call : String) : CallAnswer α → Except CapacityError α
  | .ok a => .ok a
  | .refused reason => .error (.backend reason)
  | .unanswered => .error (.timeout call)

theorem CallAnswer.result_eq_ok_iff {α : Type} {call : String} {answer : CallAnswer α} {a : α} :
    answer.result call = .ok a ↔ answer = .ok a := by
  cases answer <;> simp [result]

namespace Capacity

variable {c c₁ c₂ : Capacity} {K K' : String → Prop} {n m : Nat} {pool : AgentPool} {now : UInt64} {α β ε : Type}

/-- The name that is given out at a count. -/
def podName (pool : String) (now seq : UInt64) : String := s!"runplane-agent-{pool}-{now}-{seq}"

/-- Names that are given out begin in one way. -/
theorem podName_ne (pool : String) (now seq : UInt64) {name : String} (h : name.toList.head? ≠ some 'r') :
    podName pool now seq ≠ name := by
  rintro rfl
  have hr : "runplane-agent-".toList.head? = some 'r' := rfl
  refine h ?_
  unfold podName
  simp only [toString, String.toList_append, List.head?_append, hr, Option.some_or]

/-- What became of the pods in so many steps; the pools in `K` were only kept up. -/
structure Upkeep (K : String → Prop) (n : Nat) (c c' : Capacity) : Prop where
  named : c'.Named
  names : ∃ k ≤ n, c'.nameSeq = c.nameSeq + UInt64.ofNat k
  old : ∀ name p', c'.pods.get? name = some p' → p'.IsBlank ∨ ∃ p, c.pods.get? name = some p ∧ (p.IsBlank → p'.IsBlank)
  kept : ∀ name p, c.pods.get? name = some p → K p.pool → p.isFullyIdle = false →
    ∃ p', c'.pods.get? name = some p' ∧ p'.pool = p.pool ∧ p'.slots = p.slots

/-- The next names that are given out belong to no pod on which something is. -/
def Unclaimed (n : Nat) (c : Capacity) : Prop :=
  ∀ pool now k p, k < n → c.pods.get? (podName pool now (c.nameSeq + UInt64.ofNat k)) = some p → p.IsBlank

theorem Upkeep.refl (hn : c.Named) : Upkeep K n c c where
  named := hn
  names := ⟨0, Nat.zero_le n, by simp⟩
  old := fun _ p' hp' => .inr ⟨p', hp', fun h => h⟩
  kept := fun _ p hp _ _ => ⟨p, hp, rfl, rfl⟩

theorem Upkeep.mono (h : Upkeep K n c c₁) (hnm : n ≤ m) (hK : ∀ pool, K' pool → K pool) : Upkeep K' m c c₁ := by
  obtain ⟨k, hk, hseq⟩ := h.names
  exact ⟨h.named, ⟨k, Nat.le_trans hk hnm, hseq⟩, h.old, fun name p hp hpool => h.kept name p hp (hK _ hpool)⟩

theorem Upkeep.trans (h : Upkeep K n c c₁) (h' : Upkeep K m c₁ c₂) : Upkeep K (n + m) c c₂ where
  named := h'.named
  names := by
    obtain ⟨k, hk, hseq⟩ := h.names
    obtain ⟨k', hk', hseq'⟩ := h'.names
    exact ⟨k + k', by omega, by rw [hseq', hseq, UInt64.ofNat_add, UInt64.add_assoc]⟩
  old := by
    intro name p₂ hp₂
    rcases h'.old name p₂ hp₂ with hblank | ⟨p₁, hp₁, hblank₁⟩
    · exact .inl hblank
    · rcases h.old name p₁ hp₁ with hblank | ⟨p, hp, hblank⟩
      · exact .inl (hblank₁ hblank)
      · exact .inr ⟨p, hp, fun hb => hblank₁ (hblank hb)⟩
  kept := by
    intro name p hp hK hbusy
    obtain ⟨p₁, hp₁, hpool₁, hslots₁⟩ := h.kept name p hp hK hbusy
    have hbusy₁ : p₁.isFullyIdle = false := by unfold Pod.isFullyIdle at hbusy ⊢; rw [hslots₁]; exact hbusy
    obtain ⟨p₂, hp₂, hpool₂, hslots₂⟩ := h'.kept name p₁ hp₁ (hpool₁ ▸ hK) hbusy₁
    exact ⟨p₂, hp₂, hpool₂.trans hpool₁, hslots₂.trans hslots₁⟩

theorem Unclaimed.mono (h : Unclaimed n c) (hmn : m ≤ n) : Unclaimed m c :=
  fun pool now k p hk => h pool now k p (Nat.lt_of_lt_of_le hk hmn)

/-- Upkeep uses up no more names than it takes steps, and leaves the next ones unclaimed. -/
theorem Unclaimed.after (h : Unclaimed (n + m) c) (hu : Upkeep K n c c₁) : Unclaimed m c₁ := by
  intro pool now k p hk hp
  obtain ⟨j, hj, hseq⟩ := hu.names
  rcases hu.old _ p hp with hblank | ⟨p₀, hp₀, hblank⟩
  · exact hblank
  · rw [hseq, UInt64.add_assoc, ← UInt64.ofNat_add] at hp₀
    exact hblank (h pool now (j + k) p₀ (by omega) hp₀)

/-! ## Careful programs -/

/-- A program that does no more than upkeep while others leave the pods alone, and does not
    crash. -/
def Careful (K : String → Prop) (p : Program World α) : Prop :=
  ∀ n w r w', w.capacity.Named → Unclaimed n w.capacity → Program.Ends Elsewhere n p w r w' →
    (∃ a, r = .ok a) ∧ Upkeep K n w.capacity w'.capacity

theorem Careful.mono {p : Program World α} (h : Careful K p) (hK : ∀ pool, K' pool → K pool) : Careful K' p :=
  fun n w r w' hn hu he => (h n w r w' hn hu he).imp_right (·.mono (Nat.le_refl n) hK)

theorem Careful.bind {p : Program World α} {k : α → Program World β} (hp : Careful K p) (hk : ∀ a, Careful K (k a)) :
    Careful K (p >>= k) := by
  intro n w r w' hn hu he
  rcases he.bind with ⟨m, -, hend⟩ | ⟨n₁, n₂, a, w₁, rfl, hfirst, hrest⟩
  · obtain ⟨⟨a, hr⟩, -⟩ := hp n w _ w' hn hu hend
    cases hr
  · obtain ⟨-, hup⟩ := hp n₁ w _ w₁ hn (hu.mono (Nat.le_add_right _ _)) hfirst
    obtain ⟨hr, hup'⟩ := hk a n₂ w₁ r w' hup.named (hu.after hup) hrest
    exact ⟨hr, hup.trans hup'⟩

theorem careful_of_calm {p : Program World α} (h : p.Calm SamePods) : Careful K p := by
  intro n w r w' hn _ he
  obtain ⟨a, hr, hsame⟩ := h.ends he fun _ _ h => h.2
  rw [show w'.capacity = w.capacity from hsame]
  exact ⟨⟨a, hr⟩, .refl hn⟩

theorem careful_pure (a : α) : Careful K (pure a : Program World α) := careful_of_calm (Program.calm_pure a)

/-- A single change of the pods. -/
theorem careful_apply {f : World → α × World}
    (hf : ∀ w n, w.capacity.Named → Unclaimed (n + 1) w.capacity → Upkeep K 1 w.capacity (f w).2.capacity) :
    Careful K (Program.apply f) := by
  intro n w r w' hn hu he
  obtain ⟨n', w₁, rfl, hw, hend⟩ := Program.ends_step he
  obtain ⟨-, hr, hw'⟩ := Program.ends_done hend
  rw [hw'.2, ← hw.2]
  rw [← hw.2] at hn hu
  exact ⟨⟨_, hr⟩, (hf w₁ n' hn hu).mono (by omega) fun _ h => h⟩

theorem careful_modify {f : World → World}
    (hf : ∀ w n, w.capacity.Named → Unclaimed (n + 1) w.capacity → Upkeep K 1 w.capacity (f w).capacity) :
    Careful K (Program.modify f) := by
  intro n w r w' hn hu he
  obtain ⟨n', w₁, rfl, hw, hend⟩ := Program.ends_step he
  obtain ⟨-, hr, hw'⟩ := Program.ends_done hend
  rw [hw'.2, ← hw.2]
  rw [← hw.2] at hn hu
  exact ⟨⟨_, hr⟩, (hf w₁ n' hn hu).mono (by omega) fun _ h => h⟩

theorem composes_careful (K : String → Prop) : Composes fun _ p => Careful K p where
  pure := careful_pure
  bind := Careful.bind

/-! ## Calls to the cluster -/

variable (cfg : CapacitySettings)

theorem calm_call_of {R : World → World → Prop} {f : Cluster → CallAnswer α × Cluster} (name : String)
    (hcluster : ∀ w, R w { w with cluster := (f w.cluster).2 }) (halarm : ∀ w alarms, R w { w with alarms }) :
    (call cfg name f).run.Calm R := by
  refine Fallible.calm_bind (Fallible.calm_always (Program.calm_apply hcluster)) fun answer => ?_
  cases answer with
  | ok a => exact Program.calm_pure _
  | refused reason => exact Program.calm_pure _
  | unanswered =>
    refine Fallible.calm_bind (Fallible.calm_always ?_) fun _ => Program.calm_pure _
    exact .bind (Program.calm_apply fun w => halarm w _) fun _ => Program.calm_waitFor _

theorem calm_call (name : String) (f : Cluster → CallAnswer α × Cluster) : (call cfg name f).run.Calm SamePods :=
  calm_call_of cfg name (fun _ => rfl) fun _ _ => rfl

section

variable {others : World → World → Prop} [IsPreorder World others] {w w' : World} {call : String}

/-- The cluster answers in one step, and what it answers is the result. -/
theorem ends_call {f : Cluster → CallAnswer α × Cluster} {r : Except String (Except CapacityError α)}
    (he : Program.Ends others n (Capacity.call cfg call f).run w r w') :
    ∃ w₁, others w w₁ ∧ r = .ok ((f w₁.cluster).1.result call) ∧
      ((∃ a, (f w₁.cluster).1 = .ok a) → others { w₁ with cluster := (f w₁.cluster).2 } w') := by
  unfold Capacity.call at he
  rw [Fallible.run_always_bind] at he
  obtain ⟨n', w₁, -, hw₁, he⟩ := he.apply_bind
  refine ⟨w₁, hw₁, ?_⟩
  cases hanswer : (f w₁.cluster).1 with
  | ok a =>
    simp only [hanswer] at he
    obtain ⟨-, hr, hw'⟩ := Program.ends_done he
    exact ⟨hr, fun _ => hw'⟩
  | refused reason =>
    simp only [hanswer] at he
    obtain ⟨-, hr, -⟩ := Program.ends_done he
    exact ⟨hr, nofun⟩
  | unanswered =>
    simp only [hanswer] at he
    obtain ⟨_, _, -, -, he⟩ := Program.ends_step he
    obtain ⟨_, _, -, -, -, he⟩ := Program.ends_await he
    obtain ⟨-, hr, -⟩ := Program.ends_done he
    exact ⟨hr, nofun⟩

theorem ends_call_ok {f : Cluster → CallAnswer α × Cluster} {a : α}
    (he : Program.Ends others n (Capacity.call cfg call f).run w (.ok (.ok a)) w') :
    ∃ w₁, others w w₁ ∧ (f w₁.cluster).1 = .ok a ∧ others { w₁ with cluster := (f w₁.cluster).2 } w' := by
  obtain ⟨w₁, hw₁, hr, hw'⟩ := ends_call cfg he
  have hanswer := CallAnswer.result_eq_ok_iff.1 (Except.ok.inj hr).symm
  exact ⟨w₁, hw₁, hanswer, hw' ⟨a, hanswer⟩⟩

end

/-! ## Creating and deleting pods -/

/-- What the creation of a pod does once its name is given out. -/
def start (cfg : CapacitySettings) (pod : Pod) : Fallible CapacityError Pod := do
  call cfg "create_pod" (·.create pod.pool pod.name pod.createdAt)
  Fallible.always <| Program.modify fun w => { w with capacity := w.capacity.insertPod pod }
  return pod

theorem ends_createPod_named {others : World → World → Prop} [IsPreorder World others] {w w' : World}
    {r : Except String (Except CapacityError Pod)} (he : Program.Ends others n (createPod cfg pool).run w r w') :
    ∃ n' w₁, n = n' + 1 ∧ others w w₁ ∧
      Program.Ends others n' (start cfg
        (.fresh (podName pool.id w₁.now w₁.capacity.nameSeq) pool.id pool.slotsPerPod w₁.now w₁.now)).run
        { w₁ with capacity := { w₁.capacity with nameSeq := w₁.capacity.nameSeq + 1 } } r w' :=
  Program.ends_step he

theorem calm_createPod_of {R : World → World → Prop} (hpods : ∀ w w', w'.capacity.pods = w.capacity.pods → R w w')
    (hinsert : ∀ w name now, R w { w with
      capacity := w.capacity.insertPod (.fresh name pool.id pool.slotsPerPod now now) }) :
    (createPod cfg pool).run.Calm R := by
  refine Fallible.calm_bind (Fallible.calm_always (Program.calm_apply fun w => hpods w _ rfl)) fun r => ?_
  obtain ⟨name, now⟩ := r
  refine Fallible.calm_bind ((calm_call cfg _ _).mono fun w w' h => hpods w w' (congrArg Capacity.pods h)) fun _ => ?_
  exact Fallible.calm_bind (Fallible.calm_always (Program.calm_modify fun w => hinsert w name now)) fun _ =>
    Program.calm_pure _

theorem upkeep_insertPod (hn : c.Named) {p : Pod} (hu : Unclaimed 1 c)
    (hname : p.name = podName pool.id now c.nameSeq) (hp : p.IsBlank) :
    Upkeep K 1 c ({ c with nameSeq := c.nameSeq + 1 }.insertPod p) where
  named := hn.insert rfl
  names := ⟨1, Nat.le_refl 1, rfl⟩
  old := by
    intro name p' hp'
    unfold insertPod at hp'
    rw [Table.get?_insert] at hp'
    split at hp'
    · cases hp'; exact .inl hp
    · exact .inr ⟨p', hp', fun h => h⟩
  kept := by
    intro name q hq _ hbusy
    have hne : p.name ≠ name := by
      rintro rfl
      rw [hname] at hq
      have hblank := hu pool.id now 0 q Nat.one_pos (by simpa using hq)
      rw [hblank.isFullyIdle] at hbusy
      cases hbusy
    exact ⟨q, (Table.get?_insert_of_ne _ _ hne).trans hq, rfl, rfl⟩

theorem careful_createPod : Careful K (createPod cfg pool).run := by
  intro n w r w' hn hu he
  obtain ⟨n₁, w₁, rfl, hw₁, he⟩ := ends_createPod_named cfg he
  obtain ⟨pod, hpod⟩ : ∃ pod, pod =
    Pod.fresh (podName pool.id w₁.now w₁.capacity.nameSeq) pool.id pool.slotsPerPod w₁.now w₁.now := ⟨_, rfl⟩
  rw [← hpod] at he
  rw [← hw₁.2] at hn hu ⊢
  have hspent : Upkeep K (n₁ + 1) w₁.capacity { w₁.capacity with nameSeq := w₁.capacity.nameSeq + 1 } :=
    ⟨hn, ⟨1, by omega, rfl⟩, fun _ p' hp' => .inr ⟨p', hp', fun h => h⟩, fun _ p hp _ _ => ⟨p, hp, rfl, rfl⟩⟩
  -- the pods are the same from the step that gives out the name to the one that adds the pod
  rcases Fallible.ends_bind he with ⟨m, -, hcall⟩ | ⟨e, rfl, hcall⟩ | ⟨n₂, n₃, u, w₂, -, hcall, hadd⟩
  all_goals
    obtain ⟨_, hr, hsame⟩ := (calm_call cfg _ _).ends hcall fun _ _ h => h.2
  · cases hr
  · exact ⟨⟨_, rfl⟩, (show w'.capacity = _ from hsame) ▸ hspent⟩
  · obtain ⟨n₄, w₃, -, hw₃, hend⟩ := Program.ends_step hadd
    obtain ⟨-, rfl, hw'⟩ := Program.ends_done hend
    have hafter : w'.capacity = { w₁.capacity with nameSeq := w₁.capacity.nameSeq + 1 }.insertPod pod := by
      rw [hw'.2, show w₃.capacity = _ from hw₃.2.trans hsame]
    rw [hafter]
    have hname : pod.name = podName pool.id w₁.now w₁.capacity.nameSeq := by rw [hpod]; rfl
    have hblank : pod.IsBlank := by rw [hpod]; exact Pod.isBlank_fresh _ _ _ _ _
    exact ⟨⟨_, rfl⟩, (upkeep_insertPod hn (hu.mono (by omega)) hname hblank).mono (by omega) fun _ h => h⟩

theorem upkeep_removeIdle (hn : c.Named) {pod : String} (h : c.removeIdle pod = .ok c₁) : Upkeep K n c c₁ := by
  obtain ⟨p, hp, hidle, rfl⟩ := removeIdle_ok_iff.1 h
  refine ⟨hn.erase pod, ⟨0, Nat.zero_le n, by simp⟩, fun name p' hp' => ?_, fun name q hq _ hbusy => ?_⟩
  · rw [Table.get?_erase] at hp'
    split at hp'
    · cases hp'
    · exact .inr ⟨p', hp', fun h => h⟩
  · have hne : pod ≠ name := by
      rintro rfl
      rw [hp] at hq
      cases hq
      rw [hidle] at hbusy
      cases hbusy
    exact ⟨q, by rw [Table.get?_erase, if_neg hne]; exact hq, rfl, rfl⟩

theorem careful_deletePod (pod : String) : Careful K (deletePod cfg pod).run := by
  refine (composes_careful _).bind_run (careful_apply fun w n hn _ => ?_) fun _ => careful_of_calm (calm_call cfg _ _)
  cases hr : w.capacity.removeIdle pod with
  | ok c => simp only [hr, Except.map]; exact upkeep_removeIdle hn hr
  | error e => simp only [hr, Except.map]; exact .refl hn

/-! ## Reconciliation -/

/-- Changing pods one by one, where names and pools stay and blank pods stay blank. -/
theorem upkeep_change (f : String → Pod → Pod) (hn : c.Named)
    (hf : ∀ name p, c.pods.get? name = some p → (f name p).name = p.name ∧ (p.IsBlank → (f name p).IsBlank) ∧
      (K p.pool → (f name p).pool = p.pool ∧ (f name p).slots = p.slots))
    {c' : Capacity} (hseq : c'.nameSeq = c.nameSeq)
    (hget : ∀ name, c'.pods.get? name = (c.pods.get? name).map (f name)) : Upkeep K n c c' where
  named := by
    intro name p' hp'
    rw [hget] at hp'
    obtain ⟨p, hp, rfl⟩ := Option.map_eq_some_iff.1 hp'
    exact (hf name p hp).1.trans (hn name p hp)
  names := ⟨0, Nat.zero_le n, by simp [hseq]⟩
  old := by
    intro name p' hp'
    rw [hget] at hp'
    obtain ⟨p, hp, rfl⟩ := Option.map_eq_some_iff.1 hp'
    exact .inr ⟨p, hp, (hf name p hp).2.1⟩
  kept := by
    intro name p hp hK _
    obtain ⟨hpool, hslots⟩ := (hf name p hp).2.2 hK
    exact ⟨f name p, by rw [hget, hp]; rfl, hpool, hslots⟩

theorem upkeep_modify (pod : String) (f : Pod → Pod) (hn : c.Named)
    (hf : ∀ p, c.pods.get? pod = some p → (f p).name = p.name ∧ (p.IsBlank → (f p).IsBlank) ∧
      (K p.pool → (f p).pool = p.pool ∧ (f p).slots = p.slots)) :
    Upkeep K n c { c with pods := c.pods.modify pod f } := by
  refine upkeep_change (fun name p => if pod = name then f p else p) hn (fun name p hp => ?_) rfl fun name => ?_
  · split
    · next he => exact hf p (he ▸ hp)
    · exact ⟨rfl, fun h => h, fun _ => ⟨rfl, rfl⟩⟩
  · rw [Table.get?_modify]
    split
    · rfl
    · cases c.pods.get? name <;> rfl

theorem upkeep_takeOver (hn : c.Named) (o : ObservedPod) : Upkeep K 0 c (c.takeOver pool now o) := by
  unfold takeOver
  split
  · exact upkeep_modify _ _ hn fun p _ => ⟨rfl, fun h => h, fun _ => ⟨rfl, rfl⟩⟩
  · next hno =>
    have hnew : c.pods.get? o.name = none := by simpa [Table.contains] using hno
    refine ⟨hn.insert rfl, ⟨0, Nat.le_refl 0, by simp [insertPod]⟩, fun name p' hp' => ?_, fun name p hp _ _ => ?_⟩
    · unfold insertPod at hp'
      rw [Table.get?_insert] at hp'
      split at hp'
      · cases hp'; exact .inl (Pod.isBlank_fresh _ _ _ _ _)
      · exact .inr ⟨p', hp', fun h => h⟩
    · have hne : o.name ≠ name := by
        rintro rfl
        rw [hnew] at hp
        cases hp
      exact ⟨p, (Table.get?_insert_of_ne _ _ hne).trans hp, rfl, rfl⟩

theorem upkeep_filter (keep : String → Pod → Bool) (hn : c.Named) (hkeep : ∀ name p, K p.pool → keep name p = true) :
    Upkeep K n c { c with pods := c.pods.filter keep } := by
  have hget : ∀ name p, (c.pods.filter keep).get? name = some p → c.pods.get? name = some p := by
    intro name p hp
    rw [Table.get?_filter] at hp
    exact (Option.filter_eq_some_iff.1 hp).1
  refine ⟨fun name p hp => hn name p (hget name p hp), ⟨0, Nat.zero_le n, by simp⟩,
    fun name p' hp' => .inr ⟨p', hget name p' hp', fun h => h⟩, fun name p hp hK _ => ⟨p, ?_, rfl, rfl⟩⟩
  rw [Table.get?_filter, hp]
  exact Option.filter_eq_some_iff.2 ⟨rfl, hkeep name p hK⟩

theorem upkeep_takeOverAll (hn : c.Named) (observed : List ObservedPod) :
    Upkeep (· ≠ pool.id) 0 c (c.takeOverAll pool now observed) := by
  have hfold : ∀ (l : List ObservedPod) (d : Capacity), d.Named →
      Upkeep (· ≠ pool.id) 0 d (l.foldl (takeOver · pool now) d) := by
    intro l
    induction l with
    | nil => intro d hd; exact .refl hd
    | cons o l ih =>
      intro d hd
      have hone : Upkeep (· ≠ pool.id) 0 d (d.takeOver pool now o) := upkeep_takeOver hd o
      exact hone.trans (ih _ hone.named)
  have hall := hfold (observed.filter fun o => !o.phase.isFinished) c hn
  have hdropped : Upkeep (· ≠ pool.id) 0 _ (c.takeOverAll pool now observed) :=
    upkeep_filter (fun name p => p.pool != pool.id ||
      (observed.filter fun o => !o.phase.isFinished).any (·.name == name)) hall.named fun name p hK => by
        simp [bne_iff_ne.2 hK]
  exact hall.trans hdropped

theorem followTasks_of_no_task {store : Store} {slots : List Slot} (h : ∀ s ∈ slots, s.task = none) :
    (Slot.followTasks store now slots).2 = slots := by
  induction slots with
  | nil => rfl
  | cons s rest ih =>
    unfold Slot.followTasks
    rw [h s List.mem_cons_self]
    simp [ih fun s' hs' => h s' (List.mem_cons_of_mem _ hs')]

/-- Following the tasks on a pod is the business of its own pool. -/
theorem upkeep_followTasks (hn : c.Named) {store : Store} {pod : String}
    (hpod : ∀ p, c.pods.get? pod = some p → ¬K p.pool) : Upkeep K n c (c.followTasks store pod now).2 := by
  unfold followTasks
  cases hp : c.pods.get? pod with
  | none => exact .refl hn
  | some p =>
    refine upkeep_modify pod _ hn fun q hq => ⟨rfl, fun hblank => ?_, fun hK => absurd hK (hpod q hq)⟩
    rw [hp] at hq
    cases hq
    have hsame : (Slot.followTasks store now p.slots).2 = p.slots := followTasks_of_no_task fun s hs => (hblank s hs).2
    rw [hsame]
    exact hblank

theorem upkeep_expireReservations (hn : c.Named) :
    Upkeep (· ≠ pool.id) n c (c.expireReservations cfg pool.id now) := by
  unfold expireReservations
  refine upkeep_change (fun _ p => if p.pool = pool.id then
    { p with slots := p.slots.map (·.expire cfg.reservationTtlSecs now) } else p) hn (fun name p _ => ?_) rfl
    fun name => Table.get?_mapValues _ _ _
  split
  · next hpool =>
    refine ⟨rfl, fun hblank s hs => ?_, fun hne => absurd hpool hne⟩
    obtain ⟨s₀, hs₀, rfl⟩ := List.mem_map.1 hs
    obtain ⟨hidle, htask⟩ := hblank s₀ hs₀
    simp [Slot.expire, hidle, htask]
  · exact ⟨rfl, fun h => h, fun _ => ⟨rfl, rfl⟩⟩

theorem careful_syncPods : Careful (· ≠ pool.id) (syncPods cfg pool).run := by
  have hC := composes_careful (· ≠ pool.id)
  refine hC.bind_run (careful_of_calm (calm_call cfg _ _)) fun observed => ?_
  refine hC.bind_run (hC.always (careful_modify fun w n hn _ => ?_)) fun _ => ?_
  · exact (upkeep_takeOverAll hn observed).mono (by omega) fun _ h => h
  · exact hC.always (hC.forEach (fun pod => hC.ignoring (careful_of_calm (calm_call cfg _ _))) _)

theorem pool_of_followTasks {store : Store} {pod name : String} {p' : Pod}
    (h : (c.followTasks store pod now).2.pods.get? name = some p') : ∃ p, c.pods.get? name = some p ∧ p'.pool = p.pool := by
  unfold followTasks at h
  cases hp : c.pods.get? pod with
  | none => rw [hp] at h; exact ⟨p', h, rfl⟩
  | some q =>
    rw [hp] at h
    simp only [Table.get?_modify] at h
    split at h
    · obtain ⟨p, hp, rfl⟩ := Option.map_eq_some_iff.1 h
      exact ⟨p, hp, rfl⟩
    · exact ⟨p', h, rfl⟩

/-- Only tasks on pods of the pool are followed; no pod changes its pool meanwhile. -/
theorem upkeep_followTasksOn {pods : List String} {w w' : World} {r : Except String (Except StoreError Unit)}
    (hn : w.capacity.Named) (hpods : ∀ pod ∈ pods, ∀ p, w.capacity.pods.get? pod = some p → p.pool = pool.id)
    (he : Program.Ends Elsewhere n (followTasksOn pods).run w r w') :
    (∃ a, r = .ok a) ∧ Upkeep (· ≠ pool.id) n w.capacity w'.capacity := by
  induction pods generalizing n w with
  | nil =>
    obtain ⟨-, hr, hw⟩ := Program.ends_done he
    rw [hw.2]
    exact ⟨⟨_, hr⟩, .refl hn⟩
  | cons pod rest ih =>
    -- the first pod
    have hfirst : ∀ {m : Nat} {r : Except String (Except StoreError Unit)} {w₁ : World},
        Program.Ends Elsewhere m (Program.apply fun w => ((w.capacity.followTasks w.store pod w.now).1,
          { w with capacity := (w.capacity.followTasks w.store pod w.now).2 })) w r w₁ →
        (∃ a, r = .ok a) ∧ Upkeep (· ≠ pool.id) m w.capacity w₁.capacity ∧
          ∀ name p', w₁.capacity.pods.get? name = some p' → ∃ p, w.capacity.pods.get? name = some p ∧ p'.pool = p.pool := by
      intro m r w₁ hend
      obtain ⟨m', w₂, rfl, hw₂, hend⟩ := Program.ends_step hend
      obtain ⟨-, hr, hw₁⟩ := Program.ends_done hend
      rw [hw₁.2, ← hw₂.2]
      rw [← hw₂.2] at hn hpods
      refine ⟨⟨_, hr⟩, upkeep_followTasks hn fun p hp => ?_, fun name p' hp' => pool_of_followTasks hp'⟩
      exact Classical.not_not.2 (hpods pod List.mem_cons_self p hp)
    rcases Fallible.ends_bind he with ⟨m, -, hend⟩ | ⟨e, rfl, hend⟩ | ⟨n₁, n₂, u, w₁, rfl, hend, hrest⟩
    · obtain ⟨⟨_, hr⟩, -⟩ := hfirst hend
      cases hr
    · exact ⟨⟨_, rfl⟩, (hfirst hend).2.1⟩
    · obtain ⟨-, hup, hpools⟩ := hfirst hend
      refine (ih hup.named (fun pod' hpod' p' hp' => ?_) hrest).imp_right hup.trans
      obtain ⟨p, hp, hpool⟩ := hpools pod' p' hp'
      exact hpool.trans (hpods pod' (List.mem_cons_of_mem _ hpod') p hp)

/-- The pods of a pool, as they are when they are listed. -/
theorem upkeep_followTasksIn {w w' : World} {r : Except String Unit} (hn : w.capacity.Named)
    (he : Program.Ends Elsewhere n (Fallible.ignoring (followTasksOn ((w.capacity.podsIn pool.id).map (·.name)))) w r w') :
    (∃ a, r = .ok a) ∧ Upkeep (· ≠ pool.id) n w.capacity w'.capacity := by
  have hpods : ∀ pod ∈ (w.capacity.podsIn pool.id).map (·.name), ∀ p, w.capacity.pods.get? pod = some p → p.pool = pool.id :=
    fun pod hpod p hp => (mem_names_podsIn hn hp).1 hpod
  rcases he.bind with ⟨m, -, hend⟩ | ⟨n₁, n₂, u, w₁, rfl, hend, hrest⟩
  · obtain ⟨⟨_, hr⟩, -⟩ := upkeep_followTasksOn hn hpods hend
    cases hr
  · obtain ⟨-, hr, hw'⟩ := Program.ends_done hrest
    rw [hw'.2]
    exact ⟨⟨_, hr⟩, (upkeep_followTasksOn hn hpods hend).2.mono (Nat.le_add_right _ _) fun _ h => h⟩

theorem careful_reconcile : Careful (· ≠ pool.id) (reconcile cfg pool).run := by
  have hC := composes_careful (· ≠ pool.id)
  refine hC.bind_run (careful_syncPods cfg) fun _ => ?_
  rw [Fallible.run_always_bind]
  intro n w r w' hn hu he
  obtain ⟨n', w₁, rfl, hw₁, he⟩ := he.get_bind
  rw [Fallible.run_always_bind] at he
  rw [← hw₁.2] at hn hu ⊢
  have hexpire : Careful (· ≠ pool.id) (Fallible.always (Program.modify fun w =>
      { w with capacity := w.capacity.expireReservations cfg pool.id w.now }) : Fallible CapacityError Unit).run :=
    hC.always (careful_modify fun w n hn _ => upkeep_expireReservations cfg hn)
  rcases he.bind with ⟨m, -, hend⟩ | ⟨n₁, n₂, u, w₂, rfl, hend, hrest⟩
  · obtain ⟨⟨_, hr⟩, -⟩ := upkeep_followTasksIn hn hend
    cases hr
  · obtain ⟨-, hfollowed⟩ := upkeep_followTasksIn hn hend
    have hnext : Unclaimed n₂ w₂.capacity := Unclaimed.after (hu.mono (by omega)) hfollowed
    obtain ⟨hr, hlast⟩ := hexpire n₂ w₂ r w' hfollowed.named hnext hrest
    exact ⟨hr, (hfollowed.trans hlast).mono (by omega) fun _ h => h⟩

/-! ## Parts that create nothing -/

/-- No pod appears in the cluster. -/
def AddsNone (w w' : World) : Prop := ∀ name, w.cluster.pods.get? name = none → w'.cluster.pods.get? name = none

instance : IsPreorder World AddsNone where
  refl _ := fun _ h => h
  trans _ _ _ h h' := fun name hn => h' name (h name hn)

/-- No name is given out. -/
def SameNames (w w' : World) : Prop := w'.capacity.nameSeq = w.capacity.nameSeq

instance : IsPreorder World SameNames where
  refl _ := rfl
  trans _ _ _ h h' := h'.trans h

/-- No pod was created, and clock and store were left alone. -/
structure NoCreation (w w' : World) : Prop where
  clock : w'.clock = w.clock
  store : w'.store = w.store
  names : SameNames w w'
  cluster : AddsNone w w'

theorem NoCreation.of_pods {w : World} {capacity : Capacity} (h : capacity.nameSeq = w.capacity.nameSeq) :
    NoCreation w { w with capacity } := ⟨rfl, rfl, h, fun _ h => h⟩

theorem noCreation_refl (w : World) : NoCreation w w := ⟨rfl, rfl, rfl, fun _ h => h⟩

theorem calm_call_delete (pod : String) : (call cfg "delete_pod" (·.delete pod)).run.Calm NoCreation := by
  refine calm_call_of cfg _ (fun w => ⟨rfl, rfl, rfl, fun name h => ?_⟩) fun w _ => ⟨rfl, rfl, rfl, fun _ h => h⟩
  unfold Cluster.delete Cluster.faulty
  split
  · show (w.cluster.pods.erase pod).get? name = none
    rw [Table.get?_erase]
    split
    · rfl
    · exact h
  · exact h
  · exact h

theorem calm_deletePod_of {R : World → World → Prop} (hrefl : ∀ w, R w w) {pod : String}
    (hremove : ∀ w c, w.capacity.removeIdle pod = .ok c → R w { w with capacity := c })
    (hdelete : (call cfg "delete_pod" (·.delete pod)).run.Calm R) : (deletePod cfg pod).run.Calm R := by
  refine .bind (Program.calm_apply fun w => ?_) fun r => ?_
  · simp only
    split
    · next c hc =>
      obtain ⟨u, hu, he⟩ := Fallible.map_eq_ok_iff.1 hc
      cases he
      exact hremove w _ hu
    · exact hrefl w
  · cases r with
    | ok u => exact hdelete
    | error e => exact Program.calm_pure _

theorem calm_deletePod (pod : String) : (deletePod cfg pod).run.Calm NoCreation := by
  refine calm_deletePod_of cfg noCreation_refl (fun w c hc => ?_) (calm_call_delete cfg pod)
  obtain ⟨p, -, -, rfl⟩ := removeIdle_ok_iff.1 hc
  exact .of_pods rfl

theorem nameSeq_takeOver (c : Capacity) (o : ObservedPod) : (c.takeOver pool now o).nameSeq = c.nameSeq := by
  unfold takeOver
  split <;> rfl

theorem nameSeq_takeOverAll (c : Capacity) (observed : List ObservedPod) :
    (c.takeOverAll pool now observed).nameSeq = c.nameSeq := by
  have hfold : ∀ (l : List ObservedPod) (d : Capacity), (l.foldl (takeOver · pool now) d).nameSeq = d.nameSeq := by
    intro l
    induction l with
    | nil => intro d; rfl
    | cons o l ih => intro d; exact (ih _).trans (nameSeq_takeOver d o)
  exact hfold _ c

theorem nameSeq_followTasks (c : Capacity) (store : Store) (pod : String) :
    (c.followTasks store pod now).2.nameSeq = c.nameSeq := by
  unfold followTasks
  cases c.pods.get? pod <;> rfl

theorem calm_followTasksOn_of {R : World → World → Prop}
    (hfollow : ∀ w pod, R w { w with capacity := (w.capacity.followTasks w.store pod w.now).2 }) (pods : List String) :
    (followTasksOn pods).run.Calm R := by
  induction pods with
  | nil => exact Program.calm_pure _
  | cons pod rest ih => exact Fallible.calm_bind (Program.calm_apply fun w => hfollow w pod) fun _ => ih

/-- What a reconciliation does once the cluster's list is taken over. -/
def tend (cfg : CapacitySettings) (pool : AgentPool) : Fallible CapacityError Unit := do
  let pods ← Fallible.always <| Program.get fun w => (w.capacity.podsIn pool.id).map (·.name)
  Fallible.always <| Fallible.ignoring (followTasksOn pods)
  Fallible.always <| Program.modify fun w =>
    { w with capacity := w.capacity.expireReservations cfg pool.id w.now }

theorem reconcile_eq : reconcile cfg pool = syncPods cfg pool >>= fun _ => tend cfg pool := rfl

theorem calm_tend_of {R : World → World → Prop} (hrefl : ∀ w, R w w)
    (hfollow : ∀ w pod, R w { w with capacity := (w.capacity.followTasks w.store pod w.now).2 })
    (hexpire : ∀ w, R w { w with capacity := w.capacity.expireReservations cfg pool.id w.now }) :
    (tend cfg pool).run.Calm R := by
  refine Fallible.calm_bind (Fallible.calm_always (Program.calm_get hrefl _)) fun pods => ?_
  have hfollowed : (Fallible.ignoring (followTasksOn pods)).Calm R :=
    (calm_followTasksOn_of hfollow pods).bind fun _ => Program.calm_pure _
  exact Fallible.calm_bind (Fallible.calm_always hfollowed) fun _ => Fallible.calm_always (Program.calm_modify hexpire)

/-- What every single change by a reconciliation is, the whole of it is. -/
theorem calm_reconcile_of {R : World → World → Prop} (hrefl : ∀ w, R w w)
    (hlist : (call cfg "list_pods" fun cluster => (cluster.list pool.id, cluster)).run.Calm R)
    (hdelete : ∀ pod, (call cfg "delete_pod" (·.delete pod)).run.Calm R)
    (htake : ∀ w observed, R w { w with capacity := w.capacity.takeOverAll pool w.now observed })
    (hfollow : ∀ w pod, R w { w with capacity := (w.capacity.followTasks w.store pod w.now).2 })
    (hexpire : ∀ w, R w { w with capacity := w.capacity.expireReservations cfg pool.id w.now }) :
    (reconcile cfg pool).run.Calm R := by
  have hsync : (syncPods cfg pool).run.Calm R := by
    refine Fallible.calm_bind hlist fun observed => ?_
    refine Fallible.calm_bind (Fallible.calm_always (Program.calm_modify fun w => htake w observed)) fun _ => ?_
    exact Fallible.calm_always (.forEach (fun pod => (hdelete pod).bind fun _ => Program.calm_pure _) _)
  rw [reconcile_eq]
  exact Fallible.calm_bind hsync fun _ => calm_tend_of cfg hrefl hfollow hexpire

theorem calm_reconcile : (reconcile cfg pool).run.Calm NoCreation :=
  calm_reconcile_of cfg noCreation_refl (calm_call_of cfg _ noCreation_refl fun _ _ => ⟨rfl, rfl, rfl, fun _ h => h⟩)
    (calm_call_delete cfg) (fun w observed => .of_pods (nameSeq_takeOverAll w.capacity observed))
    (fun w pod => .of_pods (nameSeq_followTasks w.capacity w.store pod)) fun _ => .of_pods rfl

end Capacity

end TaskFleet
