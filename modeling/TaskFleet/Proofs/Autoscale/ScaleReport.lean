/-
  TaskFleet.Proofs.Autoscale.ScaleReport — what scaling reports, and what it did.

  Scaling answers a number of pods and whether it changed it. A frozen pool is counted again at the
  end. Otherwise the number is worked out from the pods that were there at first and the calls that
  succeeded: it is too high by the pods that were given up although the cluster did not delete them,
  and by those that a new pod took the name from. Neither is a change in its eyes.
  - `Account`: the pods that were created, deleted and lost. `Account.count`: they add up.
  - `ends_createPods`, `ends_deletePods_account`: the two loops, whatever the cluster answers.
  - `Reports`: an answer that is right but for lost and replaced pods; `Reports.right`.
  - `scaling_reports_what_it_did`: scaling gives such an answer.
  - `lost_pod_is_reported`: it still counts a pod that the cluster refused to delete.
-/

import TaskFleet.Proofs.Autoscale.ReplicaCeiling
import TaskFleet.Proofs.Capacity.PodOperations
import TaskFleet.Proofs.Capacity.Reservations

namespace TaskFleet.Autoscale

open Capacity Program

variable {cfg : Settings} {pool : AgentPool} {others : World → World → Prop} [IsPreorder World others] {n : Nat}
  {c c₁ c' : Capacity} {w w' : World} {created deleted lost pods : List String}

/-! ## Accounts -/

/-- What became of the pods of a pool: new ones were created, some were deleted, and some were
    given up without being deleted. -/
structure Account (pool : AgentPool) (c c' : Capacity) (created deleted lost : List String) : Prop where
  names : ∀ name, name ∈ c'.namesIn pool.id ↔ name ∈ created ∨ name ∈ c.namesIn pool.id ∧ name ∉ deleted ++ lost
  oneWay : created = [] ∨ deleted ++ lost = []
  distinct : created.Nodup ∧ (deleted ++ lost).Nodup
  managed : deleted ++ lost ⊆ c.namesIn pool.id
  givenOut : ∀ name ∈ created, ∃ now k, k < created.length ∧ name = podName pool.id now (c.nameSeq + UInt64.ofNat k)

/-- The pods add up; one whose name went to a new pod does not count twice. -/
theorem Account.count (h : Account pool c c' created deleted lost) :
    c'.podCount pool.id + (deleted ++ lost).length + (created.filter (· ∈ c.namesIn pool.id)).length =
      c.podCount pool.id + created.length := by
  obtain ⟨hnames, honeWay, ⟨hcreated, hgone⟩, hmanaged, -⟩ := h
  generalize deleted ++ lost = gone at *
  have hreplaced : (created.filter (· ∈ c.namesIn pool.id)).Nodup := hcreated.filter _
  have hperm : (c'.namesIn pool.id ++ gone ++ created.filter (· ∈ c.namesIn pool.id)).Perm
      (c.namesIn pool.id ++ created) := by
    refine List.perm_iff_count.2 fun name => ?_
    simp only [List.count_append, (c'.nodup_namesIn pool.id).count, hgone.count, hreplaced.count,
      (c.nodup_namesIn pool.id).count, hcreated.count, hnames name, List.mem_filter, decide_eq_true_eq]
    have hone : ¬(name ∈ created ∧ name ∈ gone) := by
      rcases honeWay with h | h <;> simp [h]
    have hhad : name ∈ gone → name ∈ c.namesIn pool.id := fun h => hmanaged h
    by_cases hc : name ∈ created <;> by_cases hg : name ∈ gone <;> by_cases hk : name ∈ c.namesIn pool.id <;>
      simp_all
  have hlength := hperm.length_eq
  simp only [List.length_append, length_namesIn] at hlength
  exact hlength

theorem Account.of_pods (h : c'.pods = c.pods) : Account pool c c' [] [] [] where
  names name := by simp [mem_namesIn, h]
  oneWay := .inl rfl
  distinct := ⟨.nil, .nil⟩
  managed := nofun
  givenOut := nofun

/-- One pod is created before the others. -/
theorem Account.create {p : Pod} {now : UInt64} (hname : p.name = podName pool.id now c.nameSeq) (hpool : p.pool = pool.id)
    (hpods : c₁.pods = c.pods.insert p.name p) (hseq : c₁.nameSeq = c.nameSeq + 1)
    (h : Account pool c₁ c' created [] []) (hsize : created.length < UInt64.size) :
    Account pool c c' (p.name :: created) [] [] := by
  have hnext : ∀ k, c₁.nameSeq + UInt64.ofNat k = c.nameSeq + UInt64.ofNat (k + 1) := fun k => by
    rw [hseq, Nat.add_comm k, UInt64.ofNat_add, ← UInt64.add_assoc]
    rfl
  have hnew : p.name ∉ created := by
    intro hmem
    -- the other names have later counts, none of which is this one before they overflow
    obtain ⟨now', k, hk, hsame⟩ := h.givenOut _ hmem
    rw [hname, hnext] at hsame
    have hcount : UInt64.ofNat (k + 1) = 0 := by simpa using (podName_inj hsame).2
    have hzero := congrArg UInt64.toNat hcount
    rw [UInt64.toNat_ofNat', Nat.mod_eq_of_lt (Nat.lt_of_le_of_lt hk hsize)] at hzero
    exact absurd hzero (Nat.succ_ne_zero k)
  refine ⟨fun name => ?_, .inr rfl, ⟨List.nodup_cons.2 ⟨hnew, h.distinct.1⟩, .nil⟩, nofun, fun name hmem => ?_⟩
  · rw [h.names, ← hpool, mem_namesIn_insert hpods]
    simp [or_left_comm, or_assoc]
  · rcases List.mem_cons.1 hmem with rfl | hmem
    · exact ⟨now, 0, Nat.succ_pos _, by simp [hname]⟩
    · obtain ⟨now', k, hk, hgiven⟩ := h.givenOut name hmem
      exact ⟨now', k + 1, Nat.succ_lt_succ hk, by rw [hgiven, hnext]⟩

/-! ## Creating -/

/-- The pods are created one after the other, up to the first failure. -/
theorem ends_createPods (ho : ∀ s s', others s s' → SamePods s s') {k : Nat} (hk : k ≤ UInt64.size) {r : Except String Nat}
    (he : Ends others n (createPods cfg pool k) w r w') :
    ∃ created, r = .ok created.length ∧ created.length ≤ k ∧ Account pool w.capacity w'.capacity created [] [] := by
  induction k generalizing n w r with
  | zero =>
    obtain ⟨-, hr, hw'⟩ := ends_done he
    exact ⟨[], hr, Nat.le_refl 0, .of_pods (congrArg Capacity.pods (ho _ _ hw'))⟩
  | succ k ih =>
    rcases he.bind with ⟨m, -, hend⟩ | ⟨n₁, n₂, result, w₁, -, hend, hrest⟩
    all_goals obtain ⟨w₀, p, -, hp, ⟨e, hr, hpods⟩ | ⟨hr, hpods⟩⟩ := ends_createPod ho hend
    all_goals cases hr
    · obtain ⟨-, hr, hw'⟩ := ends_done hrest
      refine ⟨[], hr, Nat.zero_le _, .of_pods ?_⟩
      rw [show w'.capacity = w₁.capacity from ho _ _ hw', hpods]
    · rw [← map_eq_pure_bind] at hrest
      obtain ⟨r', hr', hmore⟩ := hrest.map
      obtain ⟨created, hr, hle, haccount⟩ := ih (Nat.le_of_succ_le hk) hmore
      refine ⟨p.name :: created, by rw [hr', hr]; rfl, Nat.succ_le_succ hle, ?_⟩
      have hname : p.name = podName pool.id w₀.now w.capacity.nameSeq := by rw [hp]; rfl
      have hpool : p.pool = pool.id := by rw [hp]; rfl
      refine haccount.create hname hpool ?_ ?_ (Nat.lt_of_lt_of_le (Nat.lt_succ_of_le hle) hk)
      all_goals rw [hpods]; rfl

/-! ## Deleting -/

/-- The cluster goes on deleting pods. -/
def StillDeletes (w w' : World) : Prop := w.cluster.deleteFault = none → w'.cluster.deleteFault = none

instance : IsPreorder World StillDeletes where
  refl _ := id
  trans _ _ _ h h' := h' ∘ h

theorem calm_deletePod_stillDeletes (pod : String) : (deletePod cfg.capacity pod).run.Calm StillDeletes := by
  refine calm_deletePod_of _ (fun _ => id) (fun _ _ _ => id) (calm_call_of _ _ (fun w hw => ?_) fun _ _ => id)
  show (w.cluster.delete pod).2.deleteFault = none
  unfold Cluster.delete Cluster.faulty
  rw [hw]
  exact hw

theorem ends_deletePod_deletes (ho : ∀ s s', others s s' → SamePods s s') {pod : String} {p : Pod}
    (hp : w.capacity.pods.get? pod = some p) (hidle : p.isFullyIdle = true)
    (hkeeps : ∀ s s', others s s' → StillDeletes s s') (hfault : w.cluster.deleteFault = none)
    {r : Except String (Except CapacityError Unit)} (he : Ends others n (deletePod cfg.capacity pod).run w r w') :
    r = .ok (.ok ()) ∧ w'.cluster.deleteFault = none := by
  obtain ⟨-, w₁, w₂, hw₁, hw₂, hr⟩ := ends_deletePod_idle ho hp hidle he
  obtain ⟨_, -, hstill⟩ := (calm_deletePod_stillDeletes pod).ends he hkeeps
  have hfault₁ : w₁.cluster.deleteFault = none := hkeeps _ _ hw₁ hfault
  have hfault₂ : w₂.cluster.deleteFault = none := hkeeps _ _ hw₂ hfault₁
  refine ⟨?_, hstill hfault⟩
  rw [hr]
  unfold Cluster.delete Cluster.faulty
  rw [hfault₂]
  rfl

/-- The deletions that were made one after the other, some with success and some without. -/
inductive Deletions (others : World → World → Prop) (cfg : CapacitySettings) :
    List String → List String → World → World → Prop
  | nil {w w' : World} : others w w' → Deletions others cfg [] [] w w'
  | deleted {n : Nat} {pod : String} {deleted lost : List String} {w w₁ w' : World} :
    Ends others n (deletePod cfg pod).run w (.ok (.ok ())) w₁ → Deletions others cfg deleted lost w₁ w' →
      Deletions others cfg (pod :: deleted) lost w w'
  | lost {n : Nat} {pod : String} {deleted lost : List String} {e : CapacityError} {w w₁ w' : World} :
    Ends others n (deletePod cfg pod).run w (.ok (.error e)) w₁ → Deletions others cfg deleted lost w₁ w' →
      Deletions others cfg deleted (pod :: lost) w w'

/-- All these pods are given up; those whose deletion failed are lost. -/
theorem ends_deletePods_idle (ho : ∀ s s', others s s' → SamePods s s') (hnodup : pods.Nodup)
    (hidle : ∀ pod ∈ pods, ∃ p, w.capacity.pods.get? pod = some p ∧ p.isFullyIdle = true) {r : Except String Nat}
    (he : Ends others n (deletePods cfg pods) w r w') :
    ∃ deleted lost, r = .ok deleted.length ∧ (deleted ++ lost).Perm pods ∧ Deletions others cfg.capacity deleted lost w w' ∧
      ((∀ s s', others s s' → StillDeletes s s') → w.cluster.deleteFault = none → lost = []) := by
  induction pods generalizing n w r with
  | nil =>
    obtain ⟨-, hr, hw'⟩ := ends_done he
    exact ⟨[], [], hr, .nil, .nil hw', fun _ _ => rfl⟩
  | cons pod rest ih =>
    obtain ⟨hnot, hnodup⟩ := List.nodup_cons.1 hnodup
    obtain ⟨p, hp, hfree⟩ := hidle pod List.mem_cons_self
    rcases he.bind with ⟨m, -, hend⟩ | ⟨n₁, n₂, result, w₁, -, hend, hrest⟩
    all_goals obtain ⟨hpods, w₂, w₃, hw₂, hw₃, hr⟩ := ends_deletePod_idle ho hp hfree hend
    · cases hr
    have hothers : ∀ pod' ∈ rest, ∃ p, w₁.capacity.pods.get? pod' = some p ∧ p.isFullyIdle = true := by
      intro pod' hpod'
      obtain ⟨p', hp', hfree'⟩ := hidle pod' (List.mem_cons_of_mem _ hpod')
      refine ⟨p', ?_, hfree'⟩
      rw [hpods, Table.get?_erase, if_neg fun he : pod = pod' => hnot (he ▸ hpod')]
      exact hp'
    cases result with
    | ok u =>
      rw [← map_eq_pure_bind] at hrest
      obtain ⟨r', hr', hmore⟩ := hrest.map
      obtain ⟨deleted, lost, hr, hperm, hcalls, hlost⟩ := ih hnodup hothers hmore
      refine ⟨pod :: deleted, lost, by rw [hr', hr]; rfl, hperm.cons pod, .deleted hend hcalls, ?_⟩
      exact fun hkeeps hfault => hlost hkeeps (ends_deletePod_deletes ho hp hfree hkeeps hfault hend).2
    | error e =>
      obtain ⟨deleted, lost, hr, hperm, hcalls, hlost⟩ := ih hnodup hothers hrest
      refine ⟨deleted, pod :: lost, hr, List.perm_middle.trans (hperm.cons pod), .lost hend hcalls, fun hkeeps hfault => ?_⟩
      cases (ends_deletePod_deletes ho hp hfree hkeeps hfault hend).1

/-- The idle ones among the pods of a pool, as they are deleted. -/
theorem Account.delete (hn : c.Named) (hsub : pods.Sublist ((c.idlePods pool.id).map (·.name)))
    (hperm : (deleted ++ lost).Perm pods) (h : Dropped pods c c') : Account pool c c' [] deleted lost := by
  have hidle : ∀ name ∈ pods, ∃ p, c.pods.get? name = some p ∧ p.pool = pool.id ∧ p.isFullyIdle = true :=
    fun name hname => (mem_names_idlePods hn).1 (hsub.subset hname)
  refine ⟨fun name => ?_, .inl rfl, ⟨.nil, ?_⟩, fun name hname => ?_, nofun⟩
  · simp only [mem_namesIn, h name, hperm.mem_iff, List.not_mem_nil, false_or]
    constructor
    · rintro ⟨p, ⟨hp, hbusy⟩, hpool⟩
      refine ⟨⟨p, hp, hpool⟩, fun hname => ?_⟩
      obtain ⟨q, hq, -, hfree⟩ := hidle name hname
      rw [hp] at hq
      cases hq
      rw [hbusy hname] at hfree
      cases hfree
    · rintro ⟨⟨p, hp, hpool⟩, hname⟩
      exact ⟨p, ⟨hp, fun hmem => absurd hmem hname⟩, hpool⟩
  · exact hperm.nodup_iff.2 (hsub.nodup (nodup_names_idlePods hn))
  · obtain ⟨p, hp, hpool, -⟩ := hidle name (hperm.subset hname)
    exact mem_namesIn.2 ⟨p, hp, hpool⟩

/-- The deletions are made at some time from `w` on. None of them fails while the cluster goes on
    deleting pods. -/
structure Attempted (others : World → World → Prop) (cfg : CapacitySettings) (w : World) (deleted lost : List String) :
    Prop where
  calls : ∃ w₁ w₂, others w w₁ ∧ Deletions others cfg deleted lost w₁ w₂
  noneLost : (∀ s s', others s s' → StillDeletes s s') → w.cluster.deleteFault = none → lost = []

theorem Attempted.nothing : Attempted others cfg.capacity w [] [] :=
  ⟨⟨w, w, refl_of others w, .nil (refl_of others w)⟩, fun _ _ => rfl⟩

theorem Attempted.before {w₁ : World} (hw : others w w₁) (h : Attempted others cfg.capacity w₁ deleted lost) :
    Attempted others cfg.capacity w deleted lost := by
  obtain ⟨⟨w₂, w₃, hw₂, hcalls⟩, hlost⟩ := h
  exact ⟨⟨w₂, w₃, trans_of others hw hw₂, hcalls⟩, fun hkeeps hfault => hlost hkeeps (hkeeps _ _ hw hfault)⟩

/-- Deleting idle pods of a pool, whatever the cluster answers. -/
theorem ends_deletePods_account (ho : ∀ s s', others s s' → SamePods s s') (hn : w.capacity.Named)
    (hsub : pods.Sublist ((w.capacity.idlePods pool.id).map (·.name))) {r : Except String Nat}
    (he : Ends others n (deletePods cfg pods) w r w') :
    ∃ deleted lost, r = .ok deleted.length ∧ deleted.length ≤ pods.length ∧
      Account pool w.capacity w'.capacity [] deleted lost ∧ Attempted others cfg.capacity w deleted lost := by
  have hidle : ∀ name ∈ pods, ∃ p, w.capacity.pods.get? name = some p ∧ p.isFullyIdle = true := by
    intro name hname
    obtain ⟨p, hp, -, hfree⟩ := (mem_names_idlePods hn).1 (hsub.subset hname)
    exact ⟨p, hp, hfree⟩
  obtain ⟨deleted, lost, hr, hperm, hcalls, hlost⟩ :=
    ends_deletePods_idle ho (hsub.nodup (nodup_names_idlePods hn)) hidle he
  obtain ⟨-, hdropped⟩ := ends_deletePods (he.mono ho)
  have hfewer : deleted.length ≤ pods.length := by
    rw [← hperm.length_eq, List.length_append]
    exact Nat.le_add_right _ _
  exact ⟨deleted, lost, hr, hfewer, .delete hn hsub hperm hdropped, ⟨w, w', refl_of others w, hcalls⟩, hlost⟩

/-! ## Scaling -/

theorem pos_length_iff {l : List String} {b : Bool} (h : b = decide (0 < l.length)) : b = true ↔ l ≠ [] := by
  rw [h, decide_eq_true_eq, List.length_pos_iff]

/-- A frozen pool is counted again. -/
theorem ends_shrinkFrozen_report (ho : ∀ s s', others s s' → SamePods s s') (hn : w.capacity.Named)
    (hsize : w.capacity.podCount pool.id < UInt32.size) {count : UInt32} {scaled : Bool}
    (he : Ends others n (shrinkFrozen cfg pool.id) w (.ok (count, scaled)) w') :
    ∃ deleted lost, Account pool w.capacity w'.capacity [] deleted lost ∧ Attempted others cfg.capacity w deleted lost ∧
      count.toNat = w'.capacity.podCount pool.id ∧ (scaled = true ↔ deleted ≠ []) := by
  obtain ⟨n₁, w₁, -, hw₁, he⟩ := he.get_bind
  have hpods₁ : w₁.capacity = w.capacity := ho _ _ hw₁
  rw [hpods₁] at he
  rw [← hpods₁] at hn hsize he ⊢
  rcases he.bind with ⟨m, hr, -⟩ | ⟨n₂, n₃, k, w₂, -, hdelete, he⟩
  · cases hr
  obtain ⟨deleted, lost, hr, -, haccount, hattempted⟩ := ends_deletePods_account ho hn (List.Sublist.refl _) hdelete
  cases hr
  obtain ⟨n₄, w₃, -, hw₃, he⟩ := he.get_bind
  obtain ⟨-, hr, hw'⟩ := ends_done he
  cases hr
  have hpods' : w'.capacity = w₂.capacity := (ho _ _ hw').trans (ho _ _ hw₃)
  refine ⟨deleted, lost, hpods' ▸ haccount, hattempted.before hw₁, ?_, pos_length_iff rfl⟩
  -- none were added, so there are not too many of them for the answer
  have hleft : w₃.capacity.podCount pool.id < UInt32.size := by
    have hsum := haccount.count
    simp only [List.filter_nil, List.length_nil] at hsum
    rw [show w₃.capacity = w₂.capacity from ho _ _ hw₃]
    omega
  rw [show w'.capacity = w₃.capacity from ho _ _ hw', UInt32.toNat_ofNat_of_lt' hleft]

theorem ends_grow_report (ho : ∀ s s', others s s' → SamePods s s') {current missing : UInt32}
    (hfits : current.toNat + missing.toNat < UInt32.size) {waiting : List String} {count : UInt32} {scaled : Bool}
    (he : Ends others n (grow cfg pool current missing waiting) w (.ok (count, scaled)) w') :
    ∃ created, Account pool w.capacity w'.capacity created [] [] ∧ count.toNat = current.toNat + created.length ∧
      (scaled = true ↔ created ≠ []) := by
  rcases he.bind with ⟨m, hr, -⟩ | ⟨n₁, n₂, k, w₁, -, hcreate, he⟩
  · cases hr
  have hmissing : missing.toNat ≤ UInt64.size := Nat.le_trans (Nat.le_of_lt missing.toNat_lt) (by decide)
  obtain ⟨created, hr, hfewer, haccount⟩ := ends_createPods ho hmissing hcreate
  cases hr
  have hlast : w'.capacity = w₁.capacity ∧
      (count, scaled) = (current + .ofNat created.length, decide (0 < created.length)) := by
    split at he
    · obtain ⟨n₃, n₄, u, w₂, -, hw₂, -, he⟩ := (calm_trigger waiting).bind_ends he ho
      obtain ⟨-, hr, hw'⟩ := ends_done he
      exact ⟨(ho _ _ hw').trans hw₂, Except.ok.inj hr⟩
    · obtain ⟨-, hr, hw'⟩ := ends_done he
      exact ⟨ho _ _ hw', Except.ok.inj hr⟩
  obtain ⟨hpods, hr⟩ := hlast
  cases hr
  refine ⟨created, hpods ▸ haccount, ?_, pos_length_iff rfl⟩
  have hsum : current.toNat + created.length < UInt32.size := Nat.lt_of_le_of_lt (Nat.add_le_add_left hfewer _) hfits
  have hcreated : (UInt32.ofNat created.length).toNat = created.length :=
    UInt32.toNat_ofNat_of_lt' (Nat.lt_of_le_of_lt (Nat.le_add_left _ _) hsum)
  rw [UInt32.toNat_add, hcreated]
  exact Nat.mod_eq_of_lt hsum

theorem ends_shrink_report (ho : ∀ s s', others s s' → SamePods s s') (hn : w.capacity.Named)
    {current surplus count : UInt32} (hsurplus : surplus ≤ current) {scaled : Bool}
    (he : Ends others n (shrink cfg pool.id current surplus).run w (.ok (.ok (count, scaled))) w') :
    ∃ deleted lost, Account pool w.capacity w'.capacity [] deleted lost ∧ Attempted others cfg.capacity w deleted lost ∧
      count.toNat = current.toNat - deleted.length ∧ (scaled = true ↔ deleted ≠ []) := by
  rcases ends_look_bind he with ⟨e, -, hr, -⟩ | ⟨n₁, work, w₁, -, hw₁, -, he⟩
  · cases hr
  split at he
  · obtain ⟨-, hr, hw'⟩ := ends_done he
    cases hr
    have hpods : w'.capacity = w.capacity := (ho _ _ hw').trans (ho _ _ hw₁)
    exact ⟨[], [], .of_pods (congrArg Capacity.pods hpods), .nothing, rfl, by simp⟩
  rw [Fallible.run_always_bind] at he
  obtain ⟨n₂, w₂, -, hw₂, he⟩ := he.get_bind
  have hw : others w w₂ := trans_of others hw₁ hw₂
  rw [← show w₂.capacity = w.capacity from ho _ _ hw] at hn ⊢
  rw [Fallible.run_always_bind] at he
  rcases he.bind with ⟨m, hr, -⟩ | ⟨n₃, n₄, k, w₃, -, hdelete, he⟩
  · cases hr
  obtain ⟨deleted, lost, hr, hfewer, haccount, hattempted⟩ :=
    ends_deletePods_account ho hn (List.take_sublist surplus.toNat _) hdelete
  cases hr
  obtain ⟨-, hr, hw'⟩ := ends_done he
  cases hr
  rw [show w'.capacity = w₃.capacity from ho _ _ hw']
  refine ⟨deleted, lost, haccount, hattempted.before hw, ?_, pos_length_iff rfl⟩
  have hdeleted : deleted.length ≤ current.toNat :=
    Nat.le_trans hfewer (Nat.le_trans (List.length_take_le _ _) (UInt32.le_iff_toNat_le.1 hsurplus))
  have hsame : (UInt32.ofNat deleted.length).toNat = deleted.length :=
    UInt32.toNat_ofNat_of_lt' (Nat.lt_of_le_of_lt hdeleted current.toNat_lt)
  have hle : UInt32.ofNat deleted.length ≤ current := by
    rw [UInt32.le_iff_toNat_le, hsame]
    exact hdeleted
  rw [UInt32.toNat_sub_of_le _ _ hle, hsame]

/-- What scaling answers, beside what it did. The number is that of the pods in the end, but for
    those that were lost and those that a new pod took the name from. -/
structure Reports (others : World → World → Prop) (cfg : Settings) (pool : AgentPool) (w w' : World)
    (created deleted lost : List String) (count : UInt32) (scaled : Bool) : Prop where
  account : Account pool w.capacity w'.capacity created deleted lost
  changed : scaled = true ↔ created ≠ [] ∨ deleted ≠ []
  counted : ∃ w₀, others w w₀ ∧
    (FrozenAt pool w₀ → created = [] ∧ count.toNat = w'.capacity.podCount pool.id) ∧
    (¬FrozenAt pool w₀ → count.toNat =
      w'.capacity.podCount pool.id + lost.length + (created.filter (· ∈ w.capacity.namesIn pool.id)).length)
  attempted : Attempted others cfg.capacity w deleted lost

omit [IsPreorder World others] in
/-- With no pod lost and no name taken, the answer is right. -/
theorem Reports.right {count : UInt32} {scaled : Bool} (h : Reports others cfg pool w w' created deleted [] count scaled)
    (hnew : ∀ name ∈ created, name ∉ w.capacity.namesIn pool.id) :
    count.toNat = w'.capacity.podCount pool.id ∧
      (scaled = true ↔ ∃ name, ¬(name ∈ w'.capacity.namesIn pool.id ↔ name ∈ w.capacity.namesIn pool.id)) := by
  have hreplaced : created.filter (· ∈ w.capacity.namesIn pool.id) = [] :=
    List.filter_eq_nil_iff.2 fun name hname => by simpa using hnew name hname
  refine ⟨?_, h.changed.trans ⟨fun hsome => ?_, fun ⟨name, hname⟩ => ?_⟩⟩
  · obtain ⟨w₀, -, hfrozen, hopen⟩ := h.counted
    by_cases hw₀ : FrozenAt pool w₀
    · exact (hfrozen hw₀).2
    · simpa [hreplaced] using hopen hw₀
  · rcases hsome with hcreated | hdeleted
    · obtain ⟨name, hname⟩ := List.exists_mem_of_ne_nil _ hcreated
      exact ⟨name, fun hiff => hnew name hname (hiff.1 ((h.account.names name).2 (.inl hname)))⟩
    · obtain ⟨name, hname⟩ := List.exists_mem_of_ne_nil _ hdeleted
      have hmem : name ∈ deleted ++ [] := List.mem_append_left _ hname
      refine ⟨name, fun hiff => ?_⟩
      have hcreated : created = [] := h.account.oneWay.resolve_right (List.ne_nil_of_mem hmem)
      have hkept := (h.account.names name).1 (hiff.2 (h.account.managed hmem))
      rw [hcreated] at hkept
      simp [hname] at hkept
  · refine Classical.byContradiction fun hnone => hname ?_
    rw [h.account.names]
    simp_all

/-- An open pool is brought to its number of pods, starting from those that are there. -/
theorem ends_resize_report (ho : ∀ s s', others s s' → SamePods s s') (hn : w.capacity.Named) {current desired : UInt32}
    (hcurrent : current.toNat = w.capacity.podCount pool.id) {waiting : List String} {count : UInt32} {scaled : Bool}
    (he : Ends others n
      (if desired = current then pure (current, false)
      else if current < desired then Fallible.always (grow cfg pool current (desired - current) waiting)
      else shrink cfg pool.id current (current - desired) : Fallible ScalingError (UInt32 × Bool)).run w
        (.ok (.ok (count, scaled))) w') :
    ∃ created deleted lost, Account pool w.capacity w'.capacity created deleted lost ∧
      Attempted others cfg.capacity w deleted lost ∧
      count.toNat + deleted.length = w.capacity.podCount pool.id + created.length ∧
      (scaled = true ↔ created ≠ [] ∨ deleted ≠ []) := by
  split at he
  · obtain ⟨-, hr, hw'⟩ := ends_done he
    cases hr
    exact ⟨[], [], [], .of_pods (congrArg Capacity.pods (ho _ _ hw')), .nothing, hcurrent, by simp⟩
  split at he
  · next hless =>
    have hfits : current.toNat + (desired - current).toNat < UInt32.size := by
      rw [UInt32.toNat_sub_of_le _ _ (UInt32.le_of_lt hless),
        Nat.add_sub_cancel' (Nat.le_of_lt (UInt32.lt_iff_toNat_lt.1 hless))]
      exact desired.toNat_lt
    obtain ⟨created, haccount, hcount, hscaled⟩ := ends_grow_report ho hfits (Fallible.ends_always_ok he)
    exact ⟨created, [], [], haccount, .nothing, hcurrent ▸ hcount, by simpa using hscaled⟩
  · next hmore =>
    have hsurplus : current - desired ≤ current := by
      rw [UInt32.le_iff_toNat_le, UInt32.toNat_sub_of_le _ _ (UInt32.not_lt.1 hmore)]
      exact Nat.sub_le _ _
    obtain ⟨deleted, lost, haccount, hattempted, hcount, hscaled⟩ := ends_shrink_report ho hn hsurplus he
    have hsum := haccount.count
    rw [List.length_append] at hsum
    simp only [List.filter_nil, List.length_nil] at hsum
    exact ⟨[], deleted, lost, haccount, hattempted, by rw [List.length_nil]; omega, by simpa using hscaled⟩

theorem reports_scaleReconciled (ho : ∀ s s', others s s' → SamePods s s') (hn : w.capacity.Named)
    (hsize : w.capacity.podCount pool.id < UInt32.size) {count : UInt32} {scaled : Bool}
    (he : Ends others n (scaleReconciled cfg pool).run w (.ok (.ok (count, scaled))) w') :
    ∃ created deleted lost, Reports others cfg pool w w' created deleted lost count scaled := by
  obtain ⟨w₀, hw₀, ⟨e, hr, -⟩ | ⟨n₁, status, w₁, hw₁, hstatus, he⟩⟩ := ends_freezeStatus_then he
  · cases hr
  replace hw₁ : others w w₁ := trans_of others hw₀ hw₁
  have hpods₁ : w₁.capacity = w.capacity := ho _ _ hw₁
  split at he
  · next hfrozen =>
    obtain ⟨deleted, lost, haccount, hattempted, hcount, hscaled⟩ :=
      ends_shrinkFrozen_report ho (hpods₁ ▸ hn) (hpods₁ ▸ hsize) (Fallible.ends_always_ok he)
    refine ⟨[], deleted, lost, hpods₁ ▸ haccount, by simpa using hscaled, ⟨w₀, hw₀, fun _ => ⟨rfl, hcount⟩, fun hopen => ?_⟩,
      hattempted.before hw₁⟩
    exact absurd (hstatus.1 hfrozen) hopen
  · next hopen =>
    rw [Fallible.run_always_bind] at he
    obtain ⟨n₂, w₂, -, hw₂, he⟩ := he.get_bind
    rcases ends_look_bind he with ⟨e, -, hr, -⟩ | ⟨n₃, work, w₃, -, hw₃, -, he⟩
    · cases hr
    have hpods₂ : w₂.capacity = w.capacity := (ho _ _ hw₂).trans hpods₁
    replace hw₃ : others w w₃ := trans_of others hw₁ (trans_of others hw₂ hw₃)
    have hpods₃ : w₃.capacity = w.capacity := ho _ _ hw₃
    simp only [hpods₂, ← hpods₃] at he hsize hn
    obtain ⟨created, deleted, lost, haccount, hattempted, hcount, hscaled⟩ :=
      ends_resize_report ho hn (toNat_snapshot_pods work hsize) he
    -- the pods that were there add up with those that came and went
    have hsum := haccount.count
    rw [List.length_append] at hsum
    rw [hpods₃] at haccount hsum hcount
    have hcounted : count.toNat =
        w'.capacity.podCount pool.id + lost.length + (created.filter (· ∈ w.capacity.namesIn pool.id)).length := by omega
    exact ⟨created, deleted, lost, haccount, hscaled, ⟨w₀, hw₀, fun h => absurd (hstatus.2 h) hopen, fun _ => hcounted⟩,
      hattempted.before hw₃⟩

/-- From the reconciliation on, scaling says whether it created or deleted a pod, and gives the number
    of pods in the end, except that a pod which was given up without being deleted still counts, and
    one that lost its name to a new pod too; a frozen pool is counted as it is. No pod is lost as long
    as the cluster deletes pods. Without such pods, the answer is right in every respect. -/
theorem scaling_reports_what_it_did (cfg : Settings) (pool : AgentPool) (ho : ∀ s s', others s s' → SamePods s s')
    (hn : w.capacity.Named) {count : UInt32} {scaled : Bool}
    (he : Ends others n (scalePool cfg pool).run w (.ok (.ok (count, scaled))) w') :
    ∃ w₁, Reconciles others cfg pool (goOn (scaleReconciled cfg pool)) w w₁ (.ok (.ok (count, scaled))) w' ∧
      (w₁.capacity.podCount pool.id < UInt32.size → ∃ created deleted lost,
        Reports others cfg pool w₁ w' created deleted lost count scaled ∧
        (lost = [] → (∀ name ∈ created, name ∉ w₁.capacity.namesIn pool.id) →
          count.toNat = w'.capacity.podCount pool.id ∧
          (scaled = true ↔ ∃ name, ¬(name ∈ w'.capacity.namesIn pool.id ↔ name ∈ w₁.capacity.namesIn pool.id)))) := by
  rw [scalePool_eq] at he
  obtain ⟨n₁, n₂, result, w₁, -, h₁, hfirst, hrest⟩ :=
    (calm_reconcile_adds pool).bind_ends he fun s s' h => addsIn_samePods (ho s s' h)
  refine ⟨w₁, ⟨n₁, n₂, result, hfirst, hrest⟩, fun hsize => ?_⟩
  cases result with
  | error e =>
    obtain ⟨-, hr, -⟩ := ends_done hrest
    cases hr
  | ok u =>
    obtain ⟨created, deleted, lost, hreports⟩ := reports_scaleReconciled ho (h₁.named hn) hsize hrest
    refine ⟨created, deleted, lost, hreports, fun hlost hnew => ?_⟩
    rw [hlost] at hreports
    exact hreports.right hnew

/-! ## A pod that the cluster does not delete -/

/-- Scaling the pool that is to have no pods, of which it has one. -/
theorem run_scalePool_undeletable : ∃ w₁ w',
    (reconcile anySettings.capacity closedPool).run.run undeletable = (.finished (.ok ()), w₁) ∧
    (scaleReconciled anySettings closedPool).run.run w₁ = (.finished (.ok (1, false)), w') ∧
    (scalePool anySettings closedPool).run.run undeletable = (.finished (.ok (1, false)), w') ∧
    w₁.capacity.namesIn "pool" = ["a"] ∧ w₁.capacity.podCount "pool" = 1 ∧ w'.capacity.podCount "pool" = 0 := by
  simp only [scalePool, scaleReconciled_of_none (show ceiling closedPool = 0 from rfl)]
  exact ⟨_, _, rfl, rfl, rfl, rfl, rfl, rfl⟩

theorem scaling_reports_what_it_did_undeletable :
    ∃ w₁ w' created deleted lost, Reports Eq anySettings closedPool w₁ w' created deleted lost 1 false := by
  obtain ⟨w₁, w', hreconcile, -, hrun, -, hcount, -⟩ := run_scalePool_undeletable
  obtain ⟨n, he⟩ : ∃ n, Ends Eq n (scalePool anySettings closedPool).run undeletable (.ok (.ok (1, false))) w' :=
    Ends.of_run hrun
  have hn : undeletable.capacity.Named := by
    refine Named.insert (c := {}) (fun name p hp => ?_) rfl
    cases hp
  have ho : ∀ s s' : World, s = s' → SamePods s s' := fun s s' h => h ▸ refl_of SamePods s
  obtain ⟨w₂, ⟨n₁, n₂, result, hfirst, -⟩, hreports⟩ := scaling_reports_what_it_did anySettings closedPool ho hn he
  obtain rfl : w₁ = w₂ := congrArg Prod.snd (hreconcile.symm.trans hfirst.run_eq)
  have hsize : w₁.capacity.podCount closedPool.id < UInt32.size := hcount ▸ (by decide : 1 < UInt32.size)
  obtain ⟨created, deleted, lost, hreport, -⟩ := hreports hsize
  exact ⟨w₁, w', created, deleted, lost, hreport⟩

/-- The cluster refuses to delete the only pod, which is not managed any more after that. Scaling
    answers that there is one pod, as before. -/
theorem lost_pod_is_reported :
    ∃ n w₁ w', Ends Eq n (scalePool anySettings closedPool).run undeletable (.ok (.ok (1, false))) w' ∧
      Reconciles Eq anySettings closedPool (goOn (scaleReconciled anySettings closedPool)) undeletable w₁
        (.ok (.ok (1, false))) w' ∧
      w₁.capacity.namesIn "pool" = ["a"] ∧ w'.capacity.podCount "pool" = 0 := by
  obtain ⟨w₁, w', hreconcile, hscale, hrun, hnames, -, hcount⟩ := run_scalePool_undeletable
  obtain ⟨n, he⟩ := Ends.of_run hrun
  obtain ⟨n₁, he₁⟩ := Ends.of_run hreconcile
  obtain ⟨n₂, he₂⟩ := Ends.of_run hscale
  exact ⟨n, w₁, w', he, ⟨n₁, n₂, .ok (), he₁, he₂⟩, hnames, hcount⟩

end TaskFleet.Autoscale
