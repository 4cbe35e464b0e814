/-
  TaskFleet.Proofs.Capacity.Reconciliation — what a reconciliation leaves for the next one to do.

  It takes over the pods that the cluster lists as not finished, looks after the task of every
  slot, and lets reservations run out. Each part leaves standing what the one before it brought
  about, and has nothing to do where that is so already.
  - `Slot.InLine`, `Slot.Recent`: a slot as the store and the clock would have it
    (`inLine_lookedAfter`, `recent_expire`), and on which nothing is left to do
    (`InLine.lookedAfter_eq`, `Recent.expire_eq`).
  - `get?_takeOverAll`, `ends_reconcile`: every pod after the list was taken over, and at the end.
  - `Settled`: a pool that agrees with the cluster, the store and the clock.
  - `reconciliation_settles_a_pool`: it does after a reconciliation, and the next one changes nothing.
-/

import TaskFleet.Proofs.Capacity.FreedSlots
import TaskFleet.Proofs.Capacity.Upkeep
import TaskFleet.Proofs.Store.Scans

namespace TaskFleet

/-! ## Slots -/

namespace Slot

variable {s s' : Slot} {store : Store} {now ttl : UInt64}

/-- The task on the slot, if there is one, runs, or it waits and has the slot reserved. -/
def InLine (store : Store) (s : Slot) : Prop :=
  ∀ task, s.task = some task → ∃ t, store.task? task = .ok (some t) ∧
    (t.status = .running ∨ (t.status = .applyPending ∨ t.status = .pending) ∧ s.status = .reserved)

/-- It has not been reserved for longer than reservations last. -/
def Recent (ttl now : UInt64) (s : Slot) : Prop := s.status = .reserved → now.toNat - s.updatedAt.toNat ≤ ttl.toNat

/-- Nothing is on a slot without a task. -/
def FreeWhenUnbound (s : Slot) : Prop := s.task = none → s.IsFree

theorem inLine_of_none (h : s.task = none) : s.InLine store := by
  intro task htask
  rw [h] at htask
  cases htask

theorem inLine_of_some {task : UInt64} {t : Task} (htask : s.task = some task) (ht : store.task? task = .ok (some t))
    (h : t.status = .running ∨ (t.status = .applyPending ∨ t.status = .pending) ∧ s.status = .reserved) :
    s.InLine store := by
  intro task' htask'
  cases htask.symm.trans htask'
  exact ⟨t, ht, h⟩

theorem inLine_lookedAfter (hs : store.Readable) (s : Slot) (now : UInt64) : (s.lookedAfter store now).InLine store := by
  cases htask : s.task with
  | none =>
    rw [lookedAfter_of_none htask]
    exact inLine_of_none htask
  | some task =>
    obtain ⟨found, hfound⟩ := hs task
    rw [lookedAfter_of_some htask hfound]
    cases found with
    | none => exact inLine_of_none rfl
    | some t =>
      show (s.followTask (some t.status) now).InLine store
      unfold followTask
      cases hst : t.status with
      | running => exact inLine_of_some htask hfound (.inl hst)
      | applyPending =>
        simp only
        split
        · next hreserved => exact inLine_of_some htask hfound (.inr ⟨.inl hst, hreserved⟩)
        · exact inLine_of_some htask hfound (.inr ⟨.inl hst, rfl⟩)
      | pending =>
        simp only
        split
        · next hreserved => exact inLine_of_some htask hfound (.inr ⟨.inr hst, hreserved⟩)
        · exact inLine_of_none rfl
      | _ => exact inLine_of_none rfl

theorem InLine.lookedAfter_eq (h : s.InLine store) (now : UInt64) : s.lookedAfter store now = s := by
  cases htask : s.task with
  | none => exact lookedAfter_of_none htask
  | some task =>
    obtain ⟨t, ht, hstatus⟩ := h task htask
    rw [lookedAfter_of_some htask ht]
    rcases hstatus with hst | ⟨hst | hst, hreserved⟩
    · rw [Option.map_some, hst]
      rfl
    all_goals
      rw [Option.map_some, hst]
      exact if_pos hreserved

theorem lookedAfter_lookedAfter (hs : store.Readable) (s : Slot) (now now' : UInt64) :
    (s.lookedAfter store now).lookedAfter store now' = s.lookedAfter store now :=
  (inLine_lookedAfter hs s now).lookedAfter_eq now'

/-- Letting it run out clears a slot or leaves it as it is. -/
theorem expire_cases (s : Slot) (ttl now : UInt64) :
    (s.Recent ttl now ∧ s.expire ttl now = s) ∨ (¬s.Recent ttl now ∧ s.expire ttl now = s.clear now) := by
  unfold expire Recent
  by_cases h : s.status = .reserved ∧ ttl.toNat < now.toNat - s.updatedAt.toNat
  · rw [if_pos h]
    exact .inr ⟨fun hrecent => absurd (hrecent h.1) (Nat.not_le.2 h.2), rfl⟩
  · rw [if_neg h]
    exact .inl ⟨fun hreserved => Nat.not_lt.1 fun hlong => h ⟨hreserved, hlong⟩, rfl⟩

theorem Recent.expire_eq (h : s.Recent ttl now) : s.expire ttl now = s := by
  rcases expire_cases s ttl now with ⟨-, heq⟩ | ⟨hno, -⟩
  · exact heq
  · exact absurd h hno

theorem recent_expire (s : Slot) (ttl now : UInt64) : (s.expire ttl now).Recent ttl now := by
  rcases expire_cases s ttl now with ⟨hrecent, heq⟩ | ⟨-, heq⟩
  · rw [heq]
    exact hrecent
  · rw [heq]
    exact nofun

theorem InLine.expire (h : s.InLine store) (ttl now : UInt64) : (s.expire ttl now).InLine store := by
  rcases expire_cases s ttl now with ⟨-, heq⟩ | ⟨-, heq⟩
  · rw [heq]
    exact h
  · rw [heq]
    exact inLine_of_none rfl

theorem FreeWhenUnbound.tidied (h : s.FreeWhenUnbound) (ht : s.Tidied s') : s'.FreeWhenUnbound := by
  cases ht with
  | same => exact h
  | cleared now => exact fun _ => isFree_clear s now
  | kept now hbound => exact fun htask => absurd htask hbound

theorem tidied_lookedAfter (hs : store.Readable) (s : Slot) (now : UInt64) : s.Tidied (s.lookedAfter store now) := by
  cases htask : s.task with
  | none =>
    rw [lookedAfter_of_none htask]
    exact .same
  | some task =>
    obtain ⟨found, hfound⟩ := hs task
    rw [lookedAfter_of_some htask hfound]
    exact tidied_followTask htask _ now

theorem tidied_expire (s : Slot) (ttl now : UInt64) : s.Tidied (s.expire ttl now) := by
  rcases expire_cases s ttl now with ⟨-, heq⟩ | ⟨-, heq⟩
  · rw [heq]
    exact .same
  · rw [heq]
    exact .cleared now

end Slot

/-! ## Pods -/

namespace Pod

variable {p : Pod} {store : Store} {now ttl : UInt64}

/-- The pod after a look at the tasks on its slots. -/
def lookedAfter (store : Store) (now : UInt64) (p : Pod) : Pod := { p with slots := p.slots.map (·.lookedAfter store now) }

/-- The pod after its reservations had time to run out. -/
def expire (ttl now : UInt64) (p : Pod) : Pod := { p with slots := p.slots.map (·.expire ttl now) }

theorem lookedAfter_eq (h : ∀ s ∈ p.slots, s.InLine store) (now : UInt64) : p.lookedAfter store now = p := by
  have hslots := (List.map_congr_left fun s hs => (h s hs).lookedAfter_eq now).trans (List.map_id p.slots)
  unfold lookedAfter
  rw [hslots]

theorem expire_eq (h : ∀ s ∈ p.slots, s.Recent ttl now) : p.expire ttl now = p := by
  have hslots := (List.map_congr_left fun s hs => (h s hs).expire_eq).trans (List.map_id p.slots)
  unfold expire
  rw [hslots]

theorem lookedAfter_lookedAfter (hs : store.Readable) (p : Pod) (now now' : UInt64) :
    (p.lookedAfter store now).lookedAfter store now' = p.lookedAfter store now := by
  refine lookedAfter_eq (fun s h => ?_) now'
  obtain ⟨s₀, -, rfl⟩ := List.mem_map.1 h
  exact Slot.inLine_lookedAfter hs s₀ now

theorem lookedAfter_fresh (name pool : String) (slots : UInt32) (createdAt since now : UInt64) (store : Store) :
    (Pod.fresh name pool slots createdAt since).lookedAfter store now = .fresh name pool slots createdAt since := by
  refine lookedAfter_eq (fun s hs => Slot.inLine_of_none ?_) now
  exact (isBlank_fresh name pool slots createdAt since s hs).2

theorem expire_fresh (name pool : String) (slots : UInt32) (createdAt since ttl now : UInt64) :
    (Pod.fresh name pool slots createdAt since).expire ttl now = .fresh name pool slots createdAt since := by
  refine expire_eq fun s hs hreserved => ?_
  rw [(isBlank_fresh name pool slots createdAt since s hs).1] at hreserved
  cases hreserved

end Pod

/-! ## Taking over the cluster's list -/

/-- The cluster lists a pod of this name as not finished. -/
def Unfinished (observed : List ObservedPod) (name : String) : Prop :=
  ∃ o ∈ observed, o.name = name ∧ o.phase.isFinished = false

/-- The cluster keeps its pods under their names. -/
def Cluster.Named (c : Cluster) : Prop := ∀ name o, c.pods.get? name = some o → o.name = name

theorem Cluster.named_empty : Cluster.Named {} := by
  intro name o ho
  cases ho

theorem Cluster.Named.insert {c : Cluster} (hn : c.Named) (o : ObservedPod) : (c.insert o).Named := by
  intro name o' ho'
  unfold Cluster.insert at ho'
  rw [Table.get?_insert] at ho'
  split at ho'
  · next he => cases ho'; exact he
  · exact hn name o' ho'

/-- What the cluster lists as not finished are pods that it has. -/
theorem Cluster.unfinished_iff {c : Cluster} (hn : c.Named) {pool name : String} {observed : List ObservedPod}
    (h : c.list pool = .ok observed) :
    Unfinished observed name ↔ ∃ o, c.pods.get? name = some o ∧ o.pool = pool ∧ o.phase.isFinished = false := by
  unfold list faulty at h
  split at h
  · cases h
    constructor
    · rintro ⟨o, ho, rfl, hfinished⟩
      obtain ⟨ho, hpool⟩ := List.mem_filter.1 ho
      obtain ⟨k, hk⟩ := Table.mem_values.1 ho
      exact ⟨o, by rw [hn k o hk]; exact hk, beq_iff_eq.1 hpool, hfinished⟩
    · rintro ⟨o, ho, hpool, hfinished⟩
      exact ⟨o, List.mem_filter.2 ⟨Table.mem_values.2 ⟨name, ho⟩, beq_iff_eq.2 hpool⟩, hn name o ho, hfinished⟩
  · cases h
  · cases h

namespace Capacity

variable {c c' : Capacity} {pool : AgentPool} {observed : List ObservedPod} {name : String} {now : UInt64}

/-- A pod that is not finished, as it is taken over: the one under its name, or a new one. -/
def taken (c : Capacity) (pool : AgentPool) (now : UInt64) (o : ObservedPod) : Pod :=
  match c.pods.get? o.name with
  | some p => { p with lastHeartbeat := now }
  | none => .fresh o.name pool.id pool.slotsPerPod o.createdAt now

theorem get?_takeOver (c : Capacity) (pool : AgentPool) (now : UInt64) (o : ObservedPod) (name : String) :
    (c.takeOver pool now o).pods.get? name = if o.name = name then some (c.taken pool now o) else c.pods.get? name := by
  unfold takeOver taken Table.contains
  cases hp : c.pods.get? o.name with
  | none =>
    show (c.pods.insert o.name _).get? name = _
    rw [Table.get?_insert]
  | some p =>
    show (c.pods.modify o.name _).get? name = _
    rw [Table.get?_modify]
    split
    · next he => rw [← he, hp]; rfl
    · rfl

theorem get?_takeOver_all (c : Capacity) (pool : AgentPool) (now : UInt64) (live : List ObservedPod) (name : String) :
    (live.foldl (takeOver · pool now) c).pods.get? name =
      match live.find? (·.name == name) with
      | some o => some (c.taken pool now o)
      | none => c.pods.get? name := by
  induction live generalizing c with
  | nil => rfl
  | cons o rest ih =>
    rw [List.foldl_cons, ih, List.find?_cons]
    have hname : ∀ o', rest.find? (·.name == name) = some o' → o'.name = name := fun o' h => by simpa using List.find?_some h
    by_cases he : o.name = name
    · -- a second pod of the name finds the first one, which was heard of just now
      have hbeq : (o.name == name) = true := beq_iff_eq.2 he
      rw [hbeq, get?_takeOver, if_pos he]
      cases hrest : rest.find? (·.name == name) with
      | none => rfl
      | some o' =>
        show some ((c.takeOver pool now o).taken pool now o') = some (c.taken pool now o)
        have hheard : { c.taken pool now o with lastHeartbeat := now } = c.taken pool now o := by
          unfold taken
          split <;> rfl
        rw [taken, get?_takeOver, if_pos (he.trans (hname o' hrest).symm)]
        exact congrArg some hheard
    · have hbeq : (o.name == name) = false := beq_eq_false_iff_ne.2 he
      rw [hbeq, get?_takeOver, if_neg he]
      cases hrest : rest.find? (·.name == name) with
      | none => rfl
      | some o' =>
        show some ((c.takeOver pool now o).taken pool now o') = some (c.taken pool now o')
        have hother : o.name ≠ o'.name := fun h => he (h.trans (hname o' hrest))
        unfold taken
        rw [get?_takeOver, if_neg hother]

/-- The pods that are listed are there, and of the others those of other pools. -/
theorem get?_takeOverAll (c : Capacity) (pool : AgentPool) (now : UInt64) (observed : List ObservedPod) (name : String) :
    (∃ o ∈ observed, o.name = name ∧ o.phase.isFinished = false ∧
      (c.takeOverAll pool now observed).pods.get? name = some (c.taken pool now o)) ∨
    (¬Unfinished observed name ∧
      (c.takeOverAll pool now observed).pods.get? name = (c.pods.get? name).filter (·.pool != pool.id)) := by
  obtain ⟨live, hlive⟩ : ∃ live, live = observed.filter fun o => !o.phase.isFinished := ⟨_, rfl⟩
  have hget : (c.takeOverAll pool now observed).pods.get? name =
      ((live.foldl (takeOver · pool now) c).pods.get? name).filter
        fun p => p.pool != pool.id || live.any (·.name == name) := by
    rw [hlive]
    exact Table.get?_filter _ _ _
  rw [hget, get?_takeOver_all]
  cases hfind : live.find? (·.name == name) with
  | none =>
    have hno : live.any (·.name == name) = false := List.any_eq_false.2 (List.find?_eq_none.1 hfind)
    refine .inr ⟨fun ⟨o, ho, hname, hfinished⟩ => ?_, ?_⟩
    · have hmem : o ∈ live := by
        rw [hlive, List.mem_filter, hfinished]
        exact ⟨ho, rfl⟩
      exact List.find?_eq_none.1 hfind o hmem (beq_iff_eq.2 hname)
    · simp only [hno, Bool.or_false]
  | some o =>
    have hmem := List.mem_of_find?_eq_some hfind
    have hname : o.name = name := by simpa using List.find?_some hfind
    have hany : live.any (·.name == name) = true := List.any_eq_true.2 ⟨o, hmem, beq_iff_eq.2 hname⟩
    rw [hlive, List.mem_filter] at hmem
    refine .inl ⟨o, hmem.1, hname, by simpa using hmem.2, ?_⟩
    simp only [hany, Bool.or_true]
    rfl

/-! ## Every pod after a reconciliation -/

open Program

variable {others : World → World → Prop} [IsPreorder World others] {cfg : CapacitySettings} {n : Nat} {w w' : World}
  {during : UInt64 → Prop}

/-- Store and pods stay as they are, and the clock at such times. -/
structure Meanwhile (during : UInt64 → Prop) (w w' : World) : Prop where
  elsewhere : Elsewhere w w'
  time : during w.now → during w'.now

instance (during : UInt64 → Prop) : IsPreorder World (Meanwhile during) where
  refl w := ⟨refl_of Elsewhere w, fun h => h⟩
  trans _ _ _ h h' := ⟨trans_of Elsewhere h.elsewhere h'.elsewhere, fun ht => h'.time (h.time ht)⟩

theorem calm_call_meanwhile {α : Type} (cfg : CapacitySettings) (during : UInt64 → Prop) (name : String)
    (f : Cluster → CallAnswer α × Cluster) : (call cfg name f).run.Calm (Meanwhile during) :=
  calm_call_of cfg name (fun _ => ⟨⟨rfl, rfl⟩, fun h => h⟩) fun _ _ => ⟨⟨rfl, rfl⟩, fun h => h⟩

theorem get?_followTasks {store : Store} (hs : store.Readable) (c : Capacity) (pod : String) (now : UInt64) :
    (c.followTasks store pod now).1 = .ok () ∧ ∀ name, (c.followTasks store pod now).2.pods.get? name =
      (c.pods.get? name).map fun p => if name = pod then p.lookedAfter store now else p := by
  unfold followTasks
  cases hp : c.pods.get? pod with
  | none =>
    refine ⟨rfl, fun name => ?_⟩
    by_cases he : name = pod
    · rw [he, hp]
      rfl
    · simp [he]
  | some p =>
    simp only [Slot.followTasks_readable hs, true_and]
    intro name
    rw [Table.get?_modify]
    by_cases he : name = pod
    · rw [if_pos he.symm, he, hp]
      simp [Pod.lookedAfter]
    · rw [if_neg (Ne.symm he)]
      simp [he]

theorem get?_expireReservations (c : Capacity) (cfg : CapacitySettings) (pool : String) (now : UInt64) (name : String) :
    (c.expireReservations cfg pool now).pods.get? name =
      (c.pods.get? name).map fun p => if p.pool = pool then p.expire cfg.reservationTtlSecs now else p :=
  Table.get?_mapValues _ _ _

/-- Every pod of these is looked after, however often it is named and whenever its turn comes. -/
theorem ends_followTasksOn (ho : ∀ s s', others s s' → Meanwhile during s s') (hs : w.store.Readable) (hin : during w.now)
    {pods : List String} {r : Except String (Except StoreError Unit)} (he : Ends others n (followTasksOn pods).run w r w') :
    r = .ok (.ok ()) ∧ w'.store = w.store ∧ during w'.now ∧ ∀ name, ∃ now, w'.capacity.pods.get? name =
      (w.capacity.pods.get? name).map fun p => if name ∈ pods then p.lookedAfter w.store now else p := by
  induction pods generalizing n w with
  | nil =>
    obtain ⟨-, hr, hw⟩ := ends_done he
    obtain ⟨⟨hstore, hpods⟩, htime⟩ := ho _ _ hw
    exact ⟨hr, hstore, htime hin, fun name => ⟨0, by simp [hpods]⟩⟩
  | cons pod rest ih =>
    unfold followTasksOn at he
    rw [Fallible.run_ofResult_bind] at he
    obtain ⟨n', w₁, -, hw₁, he⟩ := he.apply_bind
    obtain ⟨⟨hstore₁, hpods₁⟩, htime₁⟩ := ho _ _ hw₁
    obtain ⟨hok, hget⟩ := get?_followTasks hs w.capacity pod w₁.now
    simp only [hstore₁, hpods₁, hok] at he
    obtain ⟨hr, hstore, htime, hrest⟩ := ih (by exact hs) (by exact htime₁ hin) he
    refine ⟨hr, hstore, htime, fun name => ?_⟩
    obtain ⟨now, hnow⟩ := hrest name
    rw [hnow]
    simp only [hget]
    cases w.capacity.pods.get? name with
    | none => exact ⟨now, rfl⟩
    | some p =>
      by_cases hpod : name = pod
      · refine ⟨w₁.now, ?_⟩
        simp [hpod, Pod.lookedAfter_lookedAfter hs]
      · refine ⟨now, ?_⟩
        simp [hpod]

/-- The same with no heed to how it ends. -/
theorem ends_ignoring_followTasksOn (ho : ∀ s s', others s s' → Meanwhile during s s') (hs : w.store.Readable)
    (hin : during w.now) {pods : List String} {r : Except String Unit}
    (he : Ends others n (Fallible.ignoring (followTasksOn pods)) w r w') :
    r = .ok () ∧ during w'.now ∧ ∀ name, ∃ now, w'.capacity.pods.get? name =
      (w.capacity.pods.get? name).map fun p => if name ∈ pods then p.lookedAfter w.store now else p := by
  rcases he.bind with ⟨m, -, hend⟩ | ⟨n₁, n₂, result, w₁, -, hfollowed, hend⟩
  · obtain ⟨hr, -⟩ := ends_followTasksOn ho hs hin hend
    cases hr
  · obtain ⟨-, -, htime, hget⟩ := ends_followTasksOn ho hs hin hfollowed
    obtain ⟨-, hr, hw'⟩ := ends_done hend
    obtain ⟨⟨-, hpods⟩, htime'⟩ := ho _ _ hw'
    rw [hpods]
    exact ⟨hr, htime' htime, hget⟩

theorem ends_syncPods (ho : ∀ s s', others s s' → Meanwhile during s s') {r : Except String (Except CapacityError Unit)}
    (he : Ends others n (syncPods cfg pool).run w r w') :
    (∃ e, r = .ok (.error e) ∧ Elsewhere w w') ∨
    ∃ w₀ observed w₁, others w w₀ ∧ w₀.cluster.list pool.id = .ok observed ∧ others w₀ w₁ ∧ r = .ok (.ok ()) ∧
      w'.store = w.store ∧ (during w.now → during w'.now) ∧ w'.capacity = w.capacity.takeOverAll pool w₁.now observed := by
  unfold syncPods at he
  rcases Fallible.ends_bind he with ⟨m, -, hend⟩ | ⟨e, hr, hend⟩ | ⟨n₁, n₂, observed, w₁, -, hlist, he⟩
  · obtain ⟨_, hr, -⟩ := (calm_call_meanwhile cfg during _ _).ends hend ho
    cases hr
  · obtain ⟨-, -, hw'⟩ := (calm_call_meanwhile cfg during _ _).ends hend ho
    exact .inl ⟨e, hr, hw'.elsewhere⟩
  · obtain ⟨w₀, hw₀, hlisted, hw₁⟩ := ends_call_ok cfg hlist
    rw [Fallible.run_always_bind] at he
    obtain ⟨n', w₂, -, hw₂, he⟩ := he.modify_bind
    obtain ⟨r', hr', hdeletions⟩ := Fallible.ends_always he
    have hdelete := Program.Calm.forEach (R := Meanwhile during) (fun pod =>
      (calm_call_meanwhile cfg during "delete_pod" (·.delete pod)).bind fun _ => calm_pure ())
      ((observed.filter (·.phase.isFinished)).map (·.name))
    obtain ⟨u, rfl, ⟨hstore, hpods⟩, htime⟩ := hdelete.ends hdeletions ho
    obtain ⟨⟨hstore₂, hpods₂⟩, htime₂⟩ := ho _ _ (trans_of others hw₀ (trans_of others hw₁ hw₂))
    refine .inr ⟨w₀, observed, w₂, hw₀, hlisted, trans_of others hw₁ hw₂, hr', hstore.trans hstore₂, ?_, ?_⟩
    · exact fun h => htime (htime₂ h)
    · rw [hpods, ← hpods₂]

/-- The pool's pods were looked after, and then their reservations ran out at this time. -/
def Tended (cfg : CapacitySettings) (pool : AgentPool) (store : Store) (now : UInt64) (c c' : Capacity) : Prop :=
  ∀ name, ∃ t, c'.pods.get? name = (c.pods.get? name).map fun p =>
    if p.pool = pool.id then (p.lookedAfter store t).expire cfg.reservationTtlSecs now else p

theorem Tended.named {store : Store} (h : Tended cfg pool store now c c') (hn : c.Named) : c'.Named := by
  intro name p' hp'
  obtain ⟨t, ht⟩ := h name
  rw [ht] at hp'
  obtain ⟨p, hp, rfl⟩ := Option.map_eq_some_iff.1 hp'
  have hname := hn name p hp
  split <;> exact hname

/-- Each part of it finds the names of the pool's pods as they are. -/
theorem ends_tend (ho : ∀ s s', others s s' → Meanwhile during s s') (hs : w.store.Readable) (hn : w.capacity.Named)
    (hin : during w.now) {r : Except String (Except CapacityError Unit)} (he : Ends others n (tend cfg pool).run w r w') :
    r = .ok (.ok ()) ∧
      ∃ last, during last.now ∧ others last w' ∧ Tended cfg pool w.store last.now w.capacity w'.capacity := by
  unfold tend at he
  rw [Fallible.run_always_bind] at he
  obtain ⟨n₁, w₁, -, hw₁, he⟩ := he.get_bind
  obtain ⟨⟨hstore₁, hpods₁⟩, htime₁⟩ := ho _ _ hw₁
  have hs₁ : w₁.store.Readable := hstore₁ ▸ hs
  rw [Fallible.run_always_bind] at he
  rcases he.bind with ⟨m, -, hend⟩ | ⟨n₂, n₃, u, w₂, -, hfollowed, he⟩
  · obtain ⟨hr, -⟩ := ends_ignoring_followTasksOn ho hs₁ (htime₁ hin) hend
    cases hr
  obtain ⟨-, htime₂, hget⟩ := ends_ignoring_followTasksOn ho hs₁ (htime₁ hin) hfollowed
  -- the reservations run out
  obtain ⟨r', hr', hexpire⟩ := Fallible.ends_always he
  obtain ⟨n₄, w₃, -, hw₃, hend⟩ := ends_step hexpire
  obtain ⟨-, rfl, hw'⟩ := ends_done hend
  obtain ⟨⟨-, hpods₃⟩, htime₃⟩ := ho _ _ hw₃
  refine ⟨hr', { w₃ with capacity := w₃.capacity.expireReservations cfg pool.id w₃.now }, htime₃ htime₂, hw', ?_⟩
  intro name
  obtain ⟨now, hnow⟩ := hget name
  refine ⟨now, ?_⟩
  rw [(ho _ _ hw').elsewhere.2, get?_expireReservations, hpods₃, hnow, hpods₁, hstore₁]
  cases hp : w.capacity.pods.get? name with
  | none => rfl
  | some p =>
    have hin : name ∈ (w.capacity.podsIn pool.id).map (·.name) ↔ p.pool = pool.id := mem_names_podsIn hn hp
    simp only [Option.map_some, Option.some.injEq]
    by_cases hpool : p.pool = pool.id
    · rw [if_pos (hin.2 hpool), if_pos hpool]
      exact if_pos hpool
    · rw [if_neg fun h => hpool (hin.1 h), if_neg hpool, if_neg hpool]

/-- A reconciliation fails with the cluster's list of pods, or every pod is as the three parts
    leave it. -/
theorem ends_reconcile (ho : ∀ s s', others s s' → Meanwhile during s s') (hs : w.store.Readable) (hn : w.capacity.Named)
    (hin : during w.now) {r : Except String (Except CapacityError Unit)}
    (he : Ends others n (reconcile cfg pool).run w r w') :
    (∃ e, r = .ok (.error e) ∧ Elsewhere w w') ∨
    ∃ w₀ observed w₁ last, others w w₀ ∧ w₀.cluster.list pool.id = .ok observed ∧ others w₀ w₁ ∧ during last.now ∧
      others last w' ∧ r = .ok (.ok ()) ∧
      Tended cfg pool w.store last.now (w.capacity.takeOverAll pool w₁.now observed) w'.capacity := by
  rw [reconcile_eq] at he
  rcases Fallible.ends_bind he with ⟨m, -, hend⟩ | ⟨e, hr, hend⟩ | ⟨n₁, n₂, u, w₂, -, hsync, he⟩
  · rcases ends_syncPods ho hend with ⟨_, hr, -⟩ | ⟨_, _, _, -, -, -, hr, -⟩ <;> cases hr
  · rcases ends_syncPods ho hend with ⟨_, -, hw'⟩ | ⟨_, _, _, -, -, -, hr, -⟩
    · exact .inl ⟨e, hr, hw'⟩
    · cases hr
  rcases ends_syncPods ho hsync with ⟨_, hr, -⟩ | ⟨w₀, observed, w₁, hw₀, hlisted, hw₁, -, hstore, htime, hpods⟩
  · cases hr
  have hn₂ : w₂.capacity.Named := hpods ▸ (tidies_takeOverAll w.capacity pool w₁.now observed).named hn
  obtain ⟨hr, last, hlast, hw', htended⟩ := ends_tend ho (show Store.Readable w₂.store from hstore ▸ hs) hn₂ (htime hin) he
  rw [hstore, hpods] at htended
  exact .inr ⟨w₀, observed, w₁, last, hw₀, hlisted, hw₁, hlast, hw', hr, htended⟩

/-! ## A settled pool -/

/-- The pool agrees with the pods that the cluster listed, with the store and with the clock, after
    its pods were heard of and reservations ran out at these times. -/
structure Settled (cfg : CapacitySettings) (pool : AgentPool) (observed : List ObservedPod) (store : Store)
    (heard now : UInt64) (c c' : Capacity) : Prop where
  managed : ∀ name, (∃ p, c'.pods.get? name = some p ∧ p.pool = pool.id) ↔ Unfinished observed name
  /-- A pod that was managed keeps its agent, and its slots as far as they agree. -/
  kept : ∀ name p, Unfinished observed name → c.pods.get? name = some p → ∃ t, c'.pods.get? name = some { p with
    lastHeartbeat := heard, slots := p.slots.map fun s => (s.lookedAfter store t).expire cfg.reservationTtlSecs now }
  new : ∀ name, Unfinished observed name → c.pods.get? name = none → ∃ o ∈ observed, o.name = name ∧
    c'.pods.get? name = some (.fresh name pool.id pool.slotsPerPod o.createdAt heard)
  inLine : ∀ name p, c'.pods.get? name = some p → p.pool = pool.id → ∀ s ∈ p.slots, s.InLine store
  recent : ∀ name p, c'.pods.get? name = some p → p.pool = pool.id → ∀ s ∈ p.slots, s.Recent cfg.reservationTtlSecs now
  sound : (∀ name p, c.pods.get? name = some p → ∀ s ∈ p.slots, s.FreeWhenUnbound) →
    ∀ name p, c'.pods.get? name = some p → ∀ s ∈ p.slots, s.FreeWhenUnbound
  /-- What runs, and is not reserved for too long, is left alone. -/
  untouched : ∀ x s task t, Unfinished observed x.pod → c.slotAt x = some s → s.task = some task →
    store.task? task = .ok (some t) → t.status = .running → s.Recent cfg.reservationTtlSecs now → c'.slotAt x = some s
  elsewhere : ∀ name p, p.pool ≠ pool.id → (c'.pods.get? name = some p ↔ c.pods.get? name = some p)

variable {store : Store} {heard : UInt64}

/-- No pod of another pool has the name of a pod that the cluster lists as not finished. -/
def NoClash (pool : AgentPool) (observed : List ObservedPod) (c : Capacity) : Prop :=
  ∀ name p, Unfinished observed name → c.pods.get? name = some p → p.pool = pool.id

theorem pool_taken {o : ObservedPod} (hclash : NoClash pool observed c) (ho : Unfinished observed o.name) :
    (c.taken pool now o).pool = pool.id := by
  unfold taken
  cases hp : c.pods.get? o.name with
  | none => rfl
  | some p => exact hclash o.name p ho hp

theorem freeWhenUnbound_taken {o : ObservedPod} {s : Slot}
    (h : ∀ name p, c.pods.get? name = some p → ∀ s ∈ p.slots, s.FreeWhenUnbound)
    (hs : s ∈ (c.taken pool now o).slots) : s.FreeWhenUnbound := by
  unfold taken at hs
  split at hs
  · next p hp => exact h o.name p hp s hs
  · obtain ⟨i, -, rfl⟩ := List.mem_map.1 hs
    exact fun _ => ⟨rfl, rfl, rfl⟩

section

variable (h : Tended cfg pool store now (c.takeOverAll pool heard observed) c') (hclash : NoClash pool observed c)

include h

theorem Tended.unlisted (hname : ¬Unfinished observed name) :
    c'.pods.get? name = (c.pods.get? name).filter (·.pool != pool.id) := by
  rcases get?_takeOverAll c pool heard observed name with ⟨o, ho, rfl, hfinished, -⟩ | ⟨-, htaken⟩
  · exact absurd ⟨o, ho, rfl, hfinished⟩ hname
  · obtain ⟨t, ht⟩ := h name
    rw [ht, htaken]
    cases hp : (c.pods.get? name).filter (·.pool != pool.id) with
    | none => rfl
    | some p =>
      have hpool : p.pool ≠ pool.id := by simpa using (Option.filter_eq_some_iff.1 hp).2
      rw [Option.map_some, if_neg hpool]

theorem Tended.unfinished {p : Pod} (hp : c'.pods.get? name = some p) (hpool : p.pool = pool.id) :
    Unfinished observed name := by
  refine Classical.byContradiction fun hno => ?_
  rw [h.unlisted hno] at hp
  have hother := (Option.filter_eq_some_iff.1 hp).2
  simp [hpool] at hother

include hclash

theorem Tended.listed (hname : Unfinished observed name) : ∃ o ∈ observed, o.name = name ∧
    (c.taken pool heard o).pool = pool.id ∧
    ∃ t, c'.pods.get? name = some (((c.taken pool heard o).lookedAfter store t).expire cfg.reservationTtlSecs now) := by
  rcases get?_takeOverAll c pool heard observed name with ⟨o, ho, rfl, -, htaken⟩ | ⟨hno, -⟩
  · obtain ⟨t, ht⟩ := h o.name
    have hpool : (c.taken pool heard o).pool = pool.id := pool_taken hclash hname
    rw [htaken, Option.map_some, if_pos hpool] at ht
    exact ⟨o, ho, rfl, hpool, t, ht⟩
  · exact absurd hname hno

theorem Tended.kept {p : Pod} (hname : Unfinished observed name) (hp : c.pods.get? name = some p) :
    ∃ t, c'.pods.get? name = some { p with
      lastHeartbeat := heard, slots := p.slots.map fun s => (s.lookedAfter store t).expire cfg.reservationTtlSecs now } := by
  obtain ⟨o, -, rfl, -, t, ht⟩ := h.listed hclash hname
  refine ⟨t, ?_⟩
  rw [ht, taken, hp]
  simp [Pod.lookedAfter, Pod.expire]

theorem Tended.new (hname : Unfinished observed name) (hnone : c.pods.get? name = none) : ∃ o ∈ observed, o.name = name ∧
    c'.pods.get? name = some (.fresh name pool.id pool.slotsPerPod o.createdAt heard) := by
  obtain ⟨o, ho, rfl, -, t, ht⟩ := h.listed hclash hname
  refine ⟨o, ho, rfl, ?_⟩
  rw [ht, taken, hnone]
  simp only [Pod.lookedAfter_fresh, Pod.expire_fresh]

/-- Every slot of the pool went through all parts. -/
theorem Tended.slot {p : Pod} {s : Slot} (hp : c'.pods.get? name = some p) (hpool : p.pool = pool.id) (hs : s ∈ p.slots) :
    ∃ o s₀ t, s₀ ∈ (c.taken pool heard o).slots ∧ s = (Slot.lookedAfter store t s₀).expire cfg.reservationTtlSecs now := by
  obtain ⟨o, -, -, -, t, ht⟩ := h.listed hclash (h.unfinished hp hpool)
  rw [hp] at ht
  cases ht
  obtain ⟨s₁, hs₁, rfl⟩ := List.mem_map.1 hs
  obtain ⟨s₀, hs₀, rfl⟩ := List.mem_map.1 hs₁
  exact ⟨o, s₀, t, hs₀, rfl⟩

theorem Tended.elsewhere {p : Pod} (hpool : p.pool ≠ pool.id) :
    c'.pods.get? name = some p ↔ c.pods.get? name = some p := by
  by_cases hname : Unfinished observed name
  · obtain ⟨o, -, rfl, hpool', t, ht⟩ := h.listed hclash hname
    refine ⟨fun hp => ?_, fun hp => absurd (hclash o.name p hname hp) hpool⟩
    rw [ht] at hp
    cases hp
    exact absurd hpool' hpool
  · rw [h.unlisted hname, Option.filter_eq_some_iff]
    simp [hpool]

theorem Tended.untouched {x : Spot} {s : Slot} {task : UInt64} {t : Task} (hname : Unfinished observed x.pod)
    (hat : c.slotAt x = some s) (htask : s.task = some task) (ht : store.task? task = .ok (some t))
    (hrunning : t.status = .running) (hrecent : s.Recent cfg.reservationTtlSecs now) : c'.slotAt x = some s := by
  obtain ⟨p, hp, hslot⟩ := Option.bind_eq_some_iff.1 hat
  obtain ⟨t', hp'⟩ := h.kept hclash hname hp
  have hstays : (s.lookedAfter store t').expire cfg.reservationTtlSecs now = s := by
    rw [(Slot.inLine_of_some htask ht (.inl hrunning)).lookedAfter_eq, hrecent.expire_eq]
  unfold slotAt
  rw [hp', Option.bind_some, List.getElem?_map, hslot, Option.map_some, hstays]

theorem Tended.settled (hs : store.Readable) : Settled cfg pool observed store heard now c c' where
  managed name := by
    refine ⟨fun ⟨p, hp, hpool⟩ => h.unfinished hp hpool, fun hname => ?_⟩
    obtain ⟨o, -, -, hpool, t, ht⟩ := h.listed hclash hname
    exact ⟨_, ht, hpool⟩
  kept _ _ := h.kept hclash
  new _ := h.new hclash
  inLine name p hp hpool s hmem := by
    obtain ⟨o, s₀, t, -, rfl⟩ := h.slot hclash hp hpool hmem
    exact (Slot.inLine_lookedAfter hs s₀ t).expire _ _
  recent name p hp hpool s hmem := by
    obtain ⟨o, s₀, t, -, rfl⟩ := h.slot hclash hp hpool hmem
    exact Slot.recent_expire _ _ _
  sound hsound name p hp s hmem := by
    by_cases hpool : p.pool = pool.id
    · obtain ⟨o, s₀, t, hs₀, rfl⟩ := h.slot hclash hp hpool hmem
      have hlooked := (freeWhenUnbound_taken hsound hs₀).tidied (Slot.tidied_lookedAfter hs s₀ t)
      exact hlooked.tidied (Slot.tidied_expire _ _ _)
    · exact hsound name p ((h.elsewhere hclash hpool).1 hp) s hmem
  untouched _ _ _ _ := h.untouched hclash
  elsewhere _ _ := h.elsewhere hclash

end

/-! ## The next reconciliation -/

/-- If the cluster lists the pool's pods, the same ones are not finished. -/
def StillLists (pool : AgentPool) (observed : List ObservedPod) (w : World) : Prop :=
  ∀ observed', w.cluster.list pool.id = .ok observed' → ∀ name, Unfinished observed' name ↔ Unfinished observed name

/-- The clock stands still, no record is written and no name is given out. -/
structure Unmoved (w w' : World) : Prop where
  clock : w'.clock = w.clock
  store : w'.store = w.store
  names : SameNames w w'

instance : IsPreorder World Unmoved where
  refl w := ⟨rfl, rfl, refl_of SameNames w⟩
  trans _ _ _ h h' := ⟨h'.clock.trans h.clock, h'.store.trans h.store, trans_of SameNames h.names h'.names⟩

omit [IsPreorder World others] in
theorem ends_reconcile_unmoved (ho : ∀ s s', others s s' → Elsewhere s s') (hq : ∀ s s', others s s' → SameSurroundings s s')
    {r : Except String (Except CapacityError Unit)} (he : Ends others n (reconcile cfg pool).run w r w') : Unmoved w w' := by
  have hcalm : (reconcile cfg pool).run.Calm Unmoved := (calm_reconcile cfg).mono fun _ _ h => ⟨h.clock, h.store, h.names⟩
  obtain ⟨_, -, hunmoved⟩ := hcalm.ends he fun s s' h =>
    ⟨(hq s s' h).clock, (ho s s' h).1, congrArg Capacity.nameSeq (ho s s' h).2⟩
  exact hunmoved

/-- Taking the list over and looking after pods and reservations again leaves a settled pool alone. -/
theorem Settled.tended_eq {observed' : List ObservedPod} {c₂ : Capacity}
    (h : Settled cfg pool observed store now now c c')
    (hlists : ∀ name, Unfinished observed' name ↔ Unfinished observed name)
    (h₂ : Tended cfg pool store now (c'.takeOverAll pool now observed') c₂) : c₂.pods = c'.pods := by
  have hclash : NoClash pool observed' c' := by
    intro name p hname hp
    obtain ⟨q, hq, hpool⟩ := (h.managed name).2 ((hlists name).1 hname)
    rw [hp] at hq
    cases hq
    exact hpool
  refine Table.ext_get? fun name => ?_
  by_cases hname : Unfinished observed' name
  · obtain ⟨o, -, rfl, -, t, ht⟩ := h₂.listed hclash hname
    obtain ⟨p, hp, hpool⟩ := (h.managed o.name).2 ((hlists o.name).1 hname)
    have hheard : p.lastHeartbeat = now := by
      cases hbefore : c.pods.get? o.name with
      | none =>
        obtain ⟨_, -, -, hp'⟩ := h.new o.name ((hlists o.name).1 hname) hbefore
        cases hp.symm.trans hp'
        rfl
      | some q =>
        obtain ⟨_, hp'⟩ := h.kept o.name q ((hlists o.name).1 hname) hbefore
        cases hp.symm.trans hp'
        rfl
    have htaken : c'.taken pool now o = p := by
      unfold taken
      rw [hp]
      show { p with lastHeartbeat := now } = p
      rw [← hheard]
    rw [ht, htaken, Pod.lookedAfter_eq (h.inLine o.name p hp hpool), Pod.expire_eq (h.recent o.name p hp hpool), hp]
  · rw [h₂.unlisted hname]
    cases hp : c'.pods.get? name with
    | none => rfl
    | some p =>
      have hpool : p.pool ≠ pool.id := fun hpool => hname ((hlists name).2 ((h.managed name).1 ⟨p, hp, hpool⟩))
      exact Option.filter_eq_some_iff.2 ⟨rfl, by simpa using hpool⟩

/-- However the next reconciliation ends, it leaves the pods of a settled pool as they are, while
    the clock stands still, the store is the same and the cluster lists the same pods. -/
theorem Settled.again (h : Settled cfg pool observed w.store w.now w.now c w.capacity) (hs : w.store.Readable)
    (hn : w.capacity.Named) (ho : ∀ s s', others s s' → Elsewhere s s') (hq : ∀ s s', others s s' → SameSurroundings s s')
    (hlists : StillLists pool observed w) {r : Except String (Except CapacityError Unit)}
    (he : Ends others n (reconcile cfg pool).run w r w') : w'.capacity = w.capacity := by
  obtain ⟨hclock, -, hnames⟩ := ends_reconcile_unmoved ho hq he
  have hmeanwhile : ∀ s s', others s s' → Meanwhile (fun _ => True) s s' := fun s s' h => ⟨ho s s' h, fun _ => trivial⟩
  rcases ends_reconcile hmeanwhile hs hn trivial he with
    ⟨e, -, hw'⟩ | ⟨w₀, observed', w₁, last, hw₀, hlisted, hw₁, -, hlast, -, htended⟩
  · exact hw'.2
  · have hheard : w₁.now = w.now := by
      unfold World.now
      rw [(hq _ _ hw₁).clock, (hq _ _ hw₀).clock]
    have hnow : last.now = w.now := by
      unfold World.now
      rw [← hclock, (hq _ _ hlast).clock]
    rw [(hq _ _ hw₀).cluster] at hlisted
    rw [hheard, hnow] at htended
    have hpods := h.tended_eq (hlists observed' hlisted) htended
    show (⟨w'.capacity.pods, w'.capacity.nameSeq⟩ : Capacity) = ⟨w.capacity.pods, w.capacity.nameSeq⟩
    rw [hpods, show w'.capacity.nameSeq = w.capacity.nameSeq from hnames]

/-! ## What a reconciliation leaves of the cluster -/

/-- Only pods with these names went, and the cluster lists what it has as before. -/
structure Removes (names : List String) (w w' : World) : Prop where
  faults : w'.cluster.listFault = w.cluster.listFault
  left : ∀ name o, w'.cluster.pods.get? name = some o → w.cluster.pods.get? name = some o
  kept : ∀ name, name ∉ names → w'.cluster.pods.get? name = w.cluster.pods.get? name

instance (names : List String) : IsPreorder World (Removes names) where
  refl _ := ⟨rfl, fun _ _ h => h, fun _ _ => rfl⟩
  trans _ _ _ h h' := ⟨h'.faults.trans h.faults, fun name o ho => h.left name o (h'.left name o ho),
    fun name hname => (h'.kept name hname).trans (h.kept name hname)⟩

theorem removes_same {names : List String} (h : w'.cluster = w.cluster) : Removes names w w' := by
  refine ⟨by rw [h], fun name o ho => ?_, fun name _ => by rw [h]⟩
  rw [← h]
  exact ho

theorem calm_delete_removes {names : List String} {pod : String} (hpod : pod ∈ names) :
    (call cfg "delete_pod" (·.delete pod)).run.Calm (Removes names) := by
  refine calm_call_of cfg _ (fun w => ?_) fun w _ => removes_same rfl
  unfold Cluster.delete Cluster.faulty
  split
  · refine ⟨rfl, fun name o ho => ?_, fun name hname => ?_⟩
    · have ho : (w.cluster.pods.erase pod).get? name = some o := ho
      rw [Table.get?_erase] at ho
      split at ho
      · cases ho
      · exact ho
    · show (w.cluster.pods.erase pod).get? name = _
      rw [Table.get?_erase, if_neg fun h : pod = name => hname (h ▸ hpod)]
  · exact removes_same rfl
  · exact removes_same rfl

theorem calm_deletions_removes {names : List String} (pods : List String) (h : pods ⊆ names) :
    (Program.forEach (fun pod => Fallible.ignoring (call cfg "delete_pod" (·.delete pod))) pods).Calm (Removes names) := by
  induction pods with
  | nil => exact calm_pure _
  | cons pod rest ih =>
    obtain ⟨hpod, hrest⟩ := List.cons_subset.1 h
    exact ((calm_delete_removes hpod).bind fun _ => calm_pure _).bind fun _ => ih hrest

/-- The pods that a reconciliation deletes are finished, so that the others are listed again. -/
theorem stillLists_of_removes (hn : w.cluster.Named) (hlist : w.cluster.list pool.id = .ok observed)
    (h : Removes ((observed.filter (·.phase.isFinished)).map (·.name)) w w') : StillLists pool observed w' := by
  intro observed' hlist' name
  have hn' : w'.cluster.Named := fun name o ho => hn name o (h.left name o ho)
  rw [Cluster.unfinished_iff hn' hlist', Cluster.unfinished_iff hn hlist]
  constructor
  · rintro ⟨o, ho, hunfinished⟩
    exact ⟨o, h.left name o ho, hunfinished⟩
  · rintro ⟨o, ho, hpool, hunfinished⟩
    refine ⟨o, (h.kept name fun hfinished => ?_).trans ho, hpool, hunfinished⟩
    obtain ⟨o', ho', rfl⟩ := List.mem_map.1 hfinished
    obtain ⟨ho', hfinished⟩ := List.mem_filter.1 ho'
    have hmem : o' ∈ w.cluster.pods.values := by
      unfold Cluster.list Cluster.faulty at hlist
      split at hlist
      · cases hlist
        exact (List.mem_filter.1 ho').1
      · cases hlist
      · cases hlist
    obtain ⟨k, hk⟩ := Table.mem_values.1 hmem
    rw [hn k o' hk, hk] at ho
    cases ho
    rw [hunfinished] at hfinished
    cases hfinished

theorem ends_reconcile_removes (hq : ∀ s s', others s s' → SameSurroundings s s')
    (he : Ends others n (reconcile cfg pool).run w (.ok (.ok ())) w') : ∃ observed, w.cluster.list pool.id = .ok observed ∧
      Removes ((observed.filter (·.phase.isFinished)).map (·.name)) w w' := by
  rw [reconcile_eq] at he
  rcases Fallible.ends_bind he with ⟨m, hr, -⟩ | ⟨e, hr, -⟩ | ⟨n₁, n₂, u, w₁, -, hsync, he⟩
  · cases hr
  · cases hr
  unfold syncPods at hsync
  rcases Fallible.ends_bind hsync with ⟨m, hr, -⟩ | ⟨e, hr, -⟩ | ⟨n₃, n₄, observed, w₂, -, hlist, hsync⟩
  · cases hr
  · cases hr
  obtain ⟨w₀, hw₀, hlisted, hw₂⟩ := ends_call_ok cfg hlist
  rw [(hq _ _ hw₀).cluster] at hlisted
  refine ⟨observed, hlisted, ?_⟩
  obtain ⟨names, hnames⟩ : ∃ names, names = (observed.filter (·.phase.isFinished)).map (·.name) := ⟨_, rfl⟩
  rw [← hnames] at hsync ⊢
  have hsame : ∀ s s', others s s' → Removes names s s' := fun s s' h => removes_same (hq s s' h).cluster
  rw [Fallible.run_always_bind] at hsync
  obtain ⟨n₅, w₃, -, hw₃, hsync⟩ := hsync.modify_bind
  obtain ⟨r', -, hdeletions⟩ := Fallible.ends_always hsync
  obtain ⟨-, -, hdeleted⟩ := (calm_deletions_removes names (List.Subset.refl _)).ends hdeletions hsame
  have htend : (tend cfg pool).run.Calm (Removes names) :=
    calm_tend_of cfg (refl_of _) (fun _ _ => removes_same rfl) fun _ => removes_same rfl
  obtain ⟨-, -, htended⟩ := htend.ends he hsame
  have hbefore := hsame _ _ (trans_of others hw₀ (trans_of others hw₂ hw₃))
  have htaken : Removes names w₃ { w₃ with capacity := w₃.capacity.takeOverAll pool w₃.now observed } := removes_same rfl
  have hsynced := trans_of (Removes names) htaken hdeleted
  exact trans_of (Removes names) hbefore (trans_of (Removes names) hsynced htended)

/-! ## Whole reconciliations -/

/-- A reconciliation that goes well leaves a pool that agrees with the cluster's list, the store and
    the clock, unless a pod of another pool has the name of a listed one. Where then nothing but the
    pool's own calls happens, the next one at the same time changes no pod, whatever comes of it:
    also the one straight after it, on a cluster that keeps its pods under their names. -/
theorem reconciliation_settles_a_pool (cfg : CapacitySettings) (pool : AgentPool)
    (ho : ∀ s s', others s s' → Meanwhile during s s') (hin : during w.now) (hs : w.store.Readable) (hn : w.capacity.Named)
    (he : Ends others n (reconcile cfg pool).run w (.ok (.ok ())) w') :
    ∃ w₀ observed w₁ last, others w w₀ ∧ w₀.cluster.list pool.id = .ok observed ∧ others w₀ w₁ ∧ during last.now ∧
      others last w' ∧ (NoClash pool observed w.capacity →
        Settled cfg pool observed w.store w₁.now last.now w.capacity w'.capacity ∧
        ((∀ s s', others s s' → SameSurroundings s s') →
          (∀ n₂ w₂ r w₃, w₂.store = w'.store → w₂.capacity = w'.capacity → w₂.clock = w'.clock →
            StillLists pool observed w₂ → Ends others n₂ (reconcile cfg pool).run w₂ r w₃ → w₃.capacity = w₂.capacity) ∧
          (w.cluster.Named → StillLists pool observed w'))) := by
  rcases ends_reconcile ho hs hn hin he with
    ⟨e, hr, -⟩ | ⟨w₀, observed, w₁, last, hw₀, hlisted, hw₁, hlast, hw', -, htended⟩
  · cases hr
  refine ⟨w₀, observed, w₁, last, hw₀, hlisted, hw₁, hlast, hw', fun hclash => ?_⟩
  have hsettled := htended.settled hclash hs
  refine ⟨hsettled, fun hq => ⟨fun n₂ w₂ r w₃ hstore hpods hclock hlists he₂ => ?_, fun hnamed => ?_⟩⟩
  · obtain ⟨hclock', hstore', -⟩ := ends_reconcile_unmoved (fun s s' h => (ho s s' h).elsewhere) hq he
    have hheard : w₁.now = w₂.now := by
      unfold World.now
      rw [hclock, hclock', (hq _ _ hw₁).clock, (hq _ _ hw₀).clock]
    have hnow : last.now = w₂.now := by
      unfold World.now
      rw [hclock, (hq _ _ hw').clock]
    rw [hheard, hnow, ← hstore', ← hstore, ← hpods] at hsettled
    have hn₂ : w₂.capacity.Named := hpods ▸ htended.named ((tidies_takeOverAll _ pool w₁.now observed).named hn)
    have hs₂ : w₂.store.Readable := by
      rw [hstore, hstore']
      exact hs
    exact hsettled.again hs₂ hn₂ (fun s s' h => (ho s s' h).elsewhere) hq hlists he₂
  · obtain ⟨observed', hlisted', hremoves⟩ := ends_reconcile_removes hq he
    rw [(hq _ _ hw₀).cluster] at hlisted
    cases hlisted.symm.trans hlisted'
    exact stillLists_of_removes hnamed hlisted hremoves

def podListed (name : String) (phase : PodPhase) : ObservedPod := { name, pool := "pool", phase, createdAt := 0 }

/-- A pod on which a task runs that is gone. -/
def leftRunning : Pod :=
  servedPod "a" "agent" { index := 0, status := .running, task := some 1, kind := some .plan, updatedAt := 0 }

/-- The cluster lists this pod, another that is not managed yet, and one that failed. -/
def listedWorld : World :=
  { clock := 0
    capacity := ({} : Capacity).insertPod leftRunning
    cluster := ((({} : Cluster).insert (podListed "a" .running)).insert (podListed "b" .pending)).insert
      (podListed "c" .failed) }

theorem reconciliation_settles_a_pool_listed :
    ∃ observed w', Settled {} (smallPool 2) observed listedWorld.store listedWorld.now w'.now listedWorld.capacity w'.capacity ∧
      StillLists (smallPool 2) observed w' ∧
      ∀ n r w₃, Ends Eq n (reconcile {} (smallPool 2)).run w' r w₃ → w₃.capacity = w'.capacity := by
  have hs : listedWorld.store.Readable := Store.keyed_empty.readable
  have hn : listedWorld.capacity.Named := by
    refine Named.insert (c := {}) (fun name p hp => ?_) rfl
    cases hp
  have hclash : ∀ observed, NoClash (smallPool 2) observed listedWorld.capacity := by
    intro observed name p _ hp
    replace hp : (Table.insert .empty "a" leftRunning).get? name = some p := hp
    rw [Table.get?_insert] at hp
    split at hp <;> cases hp
    rfl
  have hnamed : listedWorld.cluster.Named :=
    ((Cluster.named_empty.insert (podListed "a" .running)).insert (podListed "b" .pending)).insert (podListed "c" .failed)
  obtain ⟨cluster, hrun⟩ := run_reconcile {} (smallPool 2) hs rfl (by decide)
  obtain ⟨n, he⟩ : ∃ n, Ends Eq n (reconcile {} (smallPool 2)).run listedWorld _ _ := Ends.of_run hrun
  have ho : ∀ s s' : World, s = s' → Meanwhile (· = 0) s s' := fun s s' h => h ▸ refl_of (Meanwhile _) s
  have hq : ∀ s s' : World, s = s' → SameSurroundings s s' := fun s s' h => h ▸ refl_of SameSurroundings s
  obtain ⟨_, observed, _, _, rfl, -, rfl, hnow, rfl, hrest⟩ := reconciliation_settles_a_pool {} (smallPool 2) ho rfl hs hn he
  obtain ⟨hsettled, hagain⟩ := hrest (hclash observed)
  obtain ⟨hnext, hlists⟩ := hagain hq
  refine ⟨observed, { listedWorld with capacity := reconciled {} (smallPool 2) listedWorld, cluster }, hsettled,
    hlists hnamed, ?_⟩
  exact fun n r w₃ he₃ => hnext n _ r w₃ rfl rfl rfl (hlists hnamed) he₃

end Capacity

end TaskFleet
