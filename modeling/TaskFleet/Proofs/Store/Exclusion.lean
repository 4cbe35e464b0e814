/-
  TaskFleet.Proofs.Store.Exclusion — exclusive tasks have their workspace to themselves, in
  the order of their IDs.

  Any number of orchestrators interleave their transactions on one store: tasks are created,
  workspaces stored, tasks claimed by any holder at any time, applies confirmed, and rows
  changed gently. A claim looks only at earlier rows and only if the task is pending, so the
  order is carried by an invariant: whatever exclusive task works, and whatever exclusive
  task was ever claimed, every earlier one of its workspace is over.
  - `Inv.write` / `Inv.claim`: what one transaction keeps.
  - `Reach.inv`: what every interleaving keeps.
  - `exclusive_work_in_order`: at most one exclusive task of a workspace runs or waits for
    its apply, every earlier one is over, and first claims come in ascending order.
-/

import TaskFleet.Proofs.Store.RowChanges

namespace TaskFleet

/-- Whether the task is exclusive and has started, but is not over. -/
def Task.Works (t : Task) : Prop := t.kind = .planAndApply ∧ (t.status = .running ∨ t.status = .applyPending)

/-- The task that a claim took, if it took one. -/
def Claim.taken : Claim → List Task
  | .claimed t => [t]
  | _ => []

namespace Store

variable {s s' : Store} {t t' u : Task} {id : UInt64} {claims : List Task}

/-! ## Interleavings -/

/-- The stores that transactions lead to from an empty one, with the tasks that were claimed
    on the way, in order. -/
inductive Reach : List Task → Store → Prop
  | empty : Reach [] {}
  | create {claims : List Task} {s s' : Store} {t' : Task} (t : Task) :
      Reach claims s → t.status = .pending → s.createTask t = some (t', s') → Reach claims s'
  | putWorkspace {claims : List Task} {s : Store} (w : Workspace) : Reach claims s → Reach claims (s.putWorkspace w)
  | claim {claims : List Task} {s s' : Store} {c : Claim} (id : UInt64) (r : ClaimRequest) (edit : Task → Task) :
      Reach claims s → r.expected = .pending ∨ r.expected = .applyPending →
      (∀ t, (edit t).id = t.id ∧ (edit t).kind = t.kind ∧ (edit t).workspace = t.workspace ∧
        (edit t).status = t.status) →
      s.claimTask id r edit = .ok (c, s') → Reach (claims ++ c.taken) s'
  | confirm {claims : List Task} {s s' : Store} {t' : Task} (id : UInt64) (user : String) (now : UInt64) :
      Reach claims s → s.confirmApply id user now = .ok (t', s') → Reach claims s'
  /-- A change need only be gentle on the row it meets. -/
  | update {claims : List Task} {s s' : Store} {t' : Task} (id : UInt64) (change : Task → Except StoreError Task) :
      Reach claims s → (∀ t t', s.Holds t → t.id = id → change t = .ok t' → t.Gentle t') →
      s.updateTask id change = .ok (t', s') → Reach claims s'

/-! ## The invariant -/

/-- Every exclusive task of a workspace below an ID is over. -/
def Settled (s : Store) (workspace : String) (id : UInt64) : Prop :=
  ∀ u, s.Holds u → u.kind = .planAndApply → u.workspace = workspace → u.id < id → u.status.isTerminal = true

structure Inv (claims : List Task) (s : Store) : Prop where
  keyed : s.Keyed
  /-- The counter is ahead of every task. -/
  counted : ∀ t, s.Holds t → t.id ≤ s.lastTaskId
  counted_claims : ∀ t ∈ claims, t.id ≤ s.lastTaskId
  working : ∀ t, s.Holds t → t.Works → s.Settled t.workspace t.id
  claimed : ∀ t ∈ claims, t.kind = .planAndApply → s.Settled t.workspace t.id
  ordered : claims.Pairwise fun t u =>
    t.kind = .planAndApply → u.kind = .planAndApply → u.workspace = t.workspace → t.id ≤ u.id

theorem Inv.empty : Inv [] {} where
  keyed := keyed_empty
  counted := by intro t h; cases h
  counted_claims := by intro t h; cases h
  working := by intro t h; cases h
  claimed := by intro t h; cases h
  ordered := .nil

/-- The tasks and the counter are all that matters. -/
theorem Inv.congr (h : Inv claims s) (ht : s'.tasks = s.tasks) (hl : s'.lastTaskId = s.lastTaskId) :
    Inv claims s' where
  keyed := h.keyed.congr ht
  counted := by intro t hh; rw [hl]; exact h.counted t ((Holds.congr ht).1 hh)
  counted_claims := by rw [hl]; exact h.counted_claims
  working := by
    intro t hh hw u hu
    exact h.working t ((Holds.congr ht).1 hh) hw u ((Holds.congr ht).1 hu)
  claimed := by
    intro t hm hk u hu
    exact h.claimed t hm hk u ((Holds.congr ht).1 hu)
  ordered := h.ordered

/-! ## One transaction -/

theorem Settled.write {workspace : String} {n : UInt64} (h : s.Settled workspace n) (ht : s.Holds t)
    (hid : t'.id = t.id) (hk : t'.kind = t.kind) (hw : t'.workspace = t.workspace)
    (hover : t.status.isTerminal = true → t'.status.isTerminal = true) : (s.setTask t').Settled workspace n := by
  intro u hu huk huw hlt
  rcases holds_setTask.1 hu with rfl | ⟨hu, -⟩
  · exact hover (h t ht (hk ▸ huk) (hw ▸ huw) (hid ▸ hlt))
  · exact h u hu huk huw hlt

/-- A row may be written over as long as a task that is over stays over and one that is to
    work finds every earlier task over. -/
theorem Inv.write (h : Inv claims s) (ht : s.Holds t) (hid : t'.id = t.id) (hk : t'.kind = t.kind)
    (hw : t'.workspace = t.workspace) (hover : t.status.isTerminal = true → t'.status.isTerminal = true)
    (hworks : t'.Works → s.Settled t.workspace t.id) : Inv claims (s.setTask t') where
  keyed := h.keyed.setTask t'
  counted := by
    intro u hu
    rcases holds_setTask.1 hu with rfl | ⟨hu, -⟩
    · rw [hid]; exact h.counted t ht
    · exact h.counted u hu
  counted_claims := h.counted_claims
  working := by
    intro u hu huw
    refine Settled.write ?_ ht hid hk hw hover
    rcases holds_setTask.1 hu with rfl | ⟨hu, -⟩
    · rw [hid, hw]; exact hworks huw
    · exact h.working u hu huw
  claimed := fun u hm huk => (h.claimed u hm huk).write ht hid hk hw hover
  ordered := h.ordered

theorem Inv.create (h : Inv claims s) (hp : t.status = .pending) (hcreate : s.createTask t = some (t', s')) :
    Inv claims s' := by
  obtain ⟨hfresh, hnew, hs'⟩ := createTask_cases hcreate
  have hid : t'.id = s.lastTaskId + 1 := by rw [hnew]
  have hstatus : t'.status = .pending := by rw [hnew]; exact hp
  have hheld : ∀ u, s'.Holds u → u = t' ∨ s.Holds u := by
    intro u hu
    rw [hs'] at hu
    exact (holds_setTask.1 hu).imp_right (·.1)
  -- the new task is behind every ID that was given out, so it is in nobody's way
  have hsettled : ∀ workspace n, n ≤ s.lastTaskId → s.Settled workspace n → s'.Settled workspace n := by
    intro workspace n hn hset u hu huk huw hlt
    rcases hheld u hu with rfl | hu
    · rw [hid] at hlt
      exact absurd (UInt64.lt_of_lt_of_le hlt hn) (UInt64.not_lt.2 (UInt64.le_of_lt hfresh))
    · exact hset u hu huk huw hlt
  have hlast : s'.lastTaskId = s.lastTaskId + 1 := by rw [hs']; rfl
  constructor
  · rw [hs']; exact Keyed.setTask (h.keyed.congr rfl) t'
  · intro u hu
    rw [hlast]
    rcases hheld u hu with rfl | hu
    · rw [hid]; exact UInt64.le_refl _
    · exact UInt64.le_trans (h.counted u hu) (UInt64.le_of_lt hfresh)
  · intro u hm
    rw [hlast]
    exact UInt64.le_trans (h.counted_claims u hm) (UInt64.le_of_lt hfresh)
  · intro u hu huw
    rcases hheld u hu with rfl | hu
    · rcases huw.2 with hst | hst <;> rw [hstatus] at hst <;> cases hst
    · exact hsettled _ _ (h.counted u hu) (h.working u hu huw)
  · intro u hm huk
    exact hsettled _ _ (h.counted_claims u hm) (h.claimed u hm huk)
  · exact h.ordered

/-- Every earlier exclusive task is over when an exclusive task is claimed: a claim of a
    pending one looks, and one that waits for its apply has worked before. -/
theorem Inv.settled_of_claimable (h : Inv claims s) (ht : s.Holds t) (hk : t.kind = .planAndApply)
    {r : ClaimRequest} (hr : r.expected = .pending ∨ r.expected = .applyPending) (hc : s.Claimable t r) :
    s.Settled t.workspace t.id := by
  rcases hr with hr | hr
  · intro u hu huk huw hlt
    exact h.keyed.terminal_of_unblocked (hc.unblocked hk hr) hu huk huw hlt
  · exact h.working t ht ⟨hk, .inr (hc.expected.trans hr)⟩

theorem Inv.claim (h : Inv claims s) {r : ClaimRequest} {edit : Task → Task} {c : Claim}
    (hr : r.expected = .pending ∨ r.expected = .applyPending)
    (hedit : ∀ t, (edit t).id = t.id ∧ (edit t).kind = t.kind ∧ (edit t).workspace = t.workspace ∧
      (edit t).status = t.status)
    (hc : s.claimTask id r edit = .ok (c, s')) : Inv (claims ++ c.taken) s' := by
  rcases h.keyed.claimTask_cases hc with ⟨hno, rfl⟩ | ⟨t, ht, rfl, hcl, rfl, rfl⟩
  · have hnil : c.taken = [] := by
      cases c with
      | claimed t => exact absurd rfl (hno t)
      | _ => rfl
    rw [hnil, List.append_nil]; exact h
  -- the claimed row, which keeps what the task is
  obtain ⟨t', ht'⟩ : ∃ t', t' = taken t r edit := ⟨_, rfl⟩
  obtain ⟨hid, hk, hw, hst⟩ := hedit { t with status := .running, lease := r.lease? }
  have hid : t'.id = t.id := by rw [ht']; exact hid
  have hk : t'.kind = t.kind := by rw [ht']; exact hk
  have hw : t'.workspace = t.workspace := by rw [ht']; exact hw
  have hactive : t.status.isTerminal ≠ true := by
    intro hover
    have := TaskStatus.canMove_of_terminal hover .running
    rw [hcl.movable] at this; cases this
  have hsettled : t.kind = .planAndApply → s.Settled t.workspace t.id := fun hk =>
    h.settled_of_claimable ht hk hr hcl
  rw [← ht', insert_eq_setTask hid]
  have hinv := h.write ht hid hk hw (fun hover => absurd hover hactive) (fun hworks => hsettled (hk ▸ hworks.1))
  refine ⟨hinv.keyed, hinv.counted, ?_, hinv.working, ?_, ?_⟩
  · intro u hm
    rcases List.mem_append.1 hm with hm | hm
    · exact hinv.counted_claims u hm
    · rw [List.mem_singleton.1 hm, hid]; exact h.counted t ht
  · intro u hm huk
    rcases List.mem_append.1 hm with hm | hm
    · exact hinv.claimed u hm huk
    · rw [List.mem_singleton.1 hm] at huk ⊢
      rw [hid, hw]
      exact (hsettled (hk ▸ huk)).write ht hid hk hw fun hover => absurd hover hactive
  · refine List.pairwise_append.2 ⟨hinv.ordered, List.pairwise_singleton _ _, ?_⟩
    intro u hm v hv huk hvk hvw
    rw [List.mem_singleton.1 hv] at hvk hvw ⊢
    -- had the claimed task been earlier, it would be over
    refine Decidable.byContradiction fun hlt => hactive ?_
    rw [hid] at hlt
    exact h.claimed u hm huk t ht (hk ▸ hvk) (hw ▸ hvw) (UInt64.not_le.1 hlt)

theorem Inv.confirm (h : Inv claims s) {user : String} {now : UInt64} (hc : s.confirmApply id user now = .ok (t', s')) :
    Inv claims s' := by
  obtain ⟨t, ht, _, _, rfl, rfl⟩ := h.keyed.of_confirmApply hc
  exact h.write ht rfl rfl rfl (fun hover => hover) fun hworks => h.working t ht hworks

theorem Inv.update (h : Inv claims s) {change : Task → Except StoreError Task}
    (hg : ∀ t t', s.Holds t → t.id = id → change t = .ok t' → t.Gentle t')
    (hu : s.updateTask id change = .ok (t', s')) : Inv claims s' := by
  obtain ⟨t, ht, hid, hch, hset⟩ := h.keyed.of_updateTask hu
  have hg := hg t t' ht hid hch
  rw [hset hg.id]
  refine h.write ht hg.id hg.kind hg.workspace hg.terminal fun hworks => h.working t ht ⟨hg.kind ▸ hworks.1, ?_⟩
  -- a task that works after a gentle change was neither pending nor over before it
  cases hst : t.status with
  | running => exact .inl rfl
  | applyPending => exact .inr rfl
  | pending =>
    rcases hg.waiting hst with h' | h' | h' <;> rcases hworks.2 with h'' | h'' <;> rw [h'] at h'' <;> cases h''
  | _ =>
    have hsame := TaskStatus.eq_of_path_of_terminal hg.path (by rw [hst]; rfl)
    rcases hworks.2 with h'' | h'' <;> rw [hsame, hst] at h'' <;> cases h''

/-! ## Every interleaving -/

theorem Reach.inv (h : Reach claims s) : Inv claims s := by
  induction h with
  | empty => exact .empty
  | create t _ hp hcreate ih => exact ih.create hp hcreate
  | putWorkspace w _ ih => exact ih.congr rfl rfl
  | claim id r edit _ hr hedit hc ih => exact ih.claim hr hedit hc
  | confirm id user now _ hc ih => exact ih.confirm hc
  | update id change _ hg hu ih => exact ih.update hg hu

/-- The claims of a workspace's exclusive tasks, by ID. -/
def exclusiveClaims (workspace : String) (claims : List Task) : List UInt64 :=
  (claims.filter fun t => t.kind == .planAndApply && t.workspace == workspace).map (·.id)

/-- The exclusive tasks of a workspace in the order in which they were first claimed. -/
def firstClaims (workspace : String) (claims : List Task) : List UInt64 := (exclusiveClaims workspace claims).eraseDups

theorem pairwise_lt_eraseDups {l : List UInt64} (h : l.Pairwise (· ≤ ·)) : l.eraseDups.Pairwise (· < ·) := by
  induction hn : l.length using Nat.strongRecOn generalizing l with
  | ind n ih =>
  cases l with
  | nil => exact .nil
  | cons a l =>
    obtain ⟨ha, hl⟩ := List.pairwise_cons.1 h
    rw [List.eraseDups_cons]
    refine List.pairwise_cons.2 ⟨fun b hb => ?_, ih _ ?_ (hl.sublist List.filter_sublist) rfl⟩
    · obtain ⟨hb, hne⟩ := List.mem_filter.1 (List.mem_eraseDups.1 hb)
      exact UInt64.lt_of_le_of_ne (ha b hb) fun e => by simp [e] at hne
    · rw [← hn]; exact Nat.lt_succ_of_le (List.length_filter_le _ _)

theorem Inv.pairwise_exclusiveClaims (h : Inv claims s) (workspace : String) :
    (exclusiveClaims workspace claims).Pairwise (· ≤ ·) := by
  unfold exclusiveClaims
  rw [List.pairwise_map, List.pairwise_filter]
  refine h.ordered.imp fun hle ht hu => ?_
  simp only [Bool.and_eq_true, beq_iff_eq] at ht hu
  exact hle ht.1 hu.1 (hu.2.trans ht.2.symm)

/-- Two exclusive tasks of one workspace never work at once: the later one would find the
    earlier one over. -/
theorem Inv.eq_of_works (h : Inv claims s) (ht : s.Holds t) (hu : s.Holds u) (htw : t.Works) (huw : u.Works)
    (hw : u.workspace = t.workspace) : u = t := by
  have hactive : ∀ v : Task, v.Works → v.status.isTerminal ≠ true := by
    rintro v ⟨-, hv | hv⟩ <;> rw [hv] <;> decide
  rcases Nat.lt_trichotomy t.id.toNat u.id.toNat with hlt | heq | hgt
  · exact absurd (h.working u hu huw t ht htw.1 hw.symm (UInt64.lt_iff_toNat_lt.2 hlt)) (hactive t htw)
  · exact holds_inj hu ht (UInt64.toNat_inj.1 heq.symm)
  · exact absurd (h.working t ht htw u hu huw.1 hw (UInt64.lt_iff_toNat_lt.2 hgt)) (hactive u huw)

theorem exclusive_work_in_order {claims : List Task} {s : Store} (h : Reach claims s) (workspace : String) :
    (∀ t u, s.Holds t → s.Holds u → t.Works → u.Works → t.workspace = workspace → u.workspace = workspace → t = u) ∧
    (∀ t u, s.Holds t → t.Works → t.workspace = workspace →
      s.Holds u → u.kind = .planAndApply → u.workspace = workspace → u.id < t.id → u.status.isTerminal = true) ∧
    (firstClaims workspace claims).Pairwise (· < ·) := by
  refine ⟨?_, ?_, ?_⟩
  · intro t u ht hu htw huw hwt hwu
    exact h.inv.eq_of_works hu ht huw htw (hwt.trans hwu.symm)
  · intro t u ht htw hwt hu huk hwu hlt
    exact h.inv.working t ht htw u hu huk (hwu.trans hwt.symm) hlt
  · exact pairwise_lt_eraseDups (h.inv.pairwise_exclusiveClaims workspace)

/-- Two exclusive tasks of one workspace: the second is claimed once the first has failed. -/
theorem exclusive_work_in_order_two_tasks :
    ∃ claims s, Reach claims s ∧ firstClaims "ws" claims = [1, 2] ∧
      (∀ t u, s.Holds t → s.Holds u → t.Works → u.Works → t.workspace = "ws" → u.workspace = "ws" → t = u) ∧
      (∀ t u, s.Holds t → t.Works → t.workspace = "ws" →
        s.Holds u → u.kind = .planAndApply → u.workspace = "ws" → u.id < t.id → u.status.isTerminal = true) ∧
      (firstClaims "ws" claims).Pairwise (· < ·) := by
  have hstored := Reach.empty.putWorkspace { id := "ws", mode := .onHost }
  have hone := hstored.create (Task.submitted "ws" .planAndApply 7 .manual) rfl rfl
  have htwo := hone.create (Task.submitted "ws" .planAndApply 8 .manual) rfl rfl
  have hfirst := htwo.claim 1 ⟨.pending, "a", 60, 9⟩ (fun t => t) (.inl rfl) (fun _ => ⟨rfl, rfl, rfl, rfl⟩) rfl
  have hover := hfirst.update 1 (·.conclude .failed 10) (fun _ _ _ _ h => Task.gentle_conclude rfl h) rfl
  have hsecond := hover.claim 2 ⟨.pending, "b", 60, 11⟩ (fun t => t) (.inl rfl) (fun _ => ⟨rfl, rfl, rfl, rfl⟩) rfl
  exact ⟨_, _, hsecond, rfl, exclusive_work_in_order hsecond "ws"⟩

end Store

end TaskFleet
