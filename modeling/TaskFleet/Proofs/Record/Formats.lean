/-
  TaskFleet.Proofs.Record.Formats — tasks, workspaces and pools in the form they are stored in.

  Each kind of record has its rules (`rules`): its fields in order, which of them have no
  default, and what no value of the field can be. From them, for each kind:
  - `ofDatum?_without`: what was written is read again, further keys or not, and where fields
    with a default were left out, with exactly those at their defaults (`reset`).
  - `ofDatum?_faulty`: a record with a faulty field is refused.
  - `Lease.fits`, `FreezeSchedule.fits`: the records inside other records.
-/

import TaskFleet.Proofs.Record.Readers

namespace TaskFleet

open Datum

variable {s : Style} {d : Datum} {fs : List (Option String × Datum)} {gone : List String}

/-- None of the fields that were left out is mandatory. -/
def Datum.Optional (rules : List Rule) (gone : List String) : Prop := ∀ r ∈ rules, r.mandatory = true → r.name ∉ gone

/-! ## Cases -/

theorem TaskKind.ofName?_name (k : TaskKind) : Named.ofName? (Named.name k) = some k := by cases k <;> rfl

theorem TaskStatus.ofName?_name (t : TaskStatus) : Named.ofName? (Named.name t) = some t := by cases t <;> rfl

theorem Stage.ofName?_name (t : Stage) : Named.ofName? (Named.name t) = some t := by cases t <;> rfl

theorem TaskOrigin.ofName?_name (o : TaskOrigin) : Named.ofName? (Named.name o) = some o := by cases o <;> rfl

theorem ExecutionMode.ofName?_name (m : ExecutionMode) : Named.ofName? (Named.name m) = some m := by cases m <;> rfl

theorem PoolKind.ofName?_name (k : PoolKind) : Named.ofName? (Named.name k) = some k := by cases k <;> rfl

/-! ## Leases -/

namespace Lease

def rules : List Rule := [
  ⟨"holder", true, NotText⟩,
  ⟨"locked_at", true, NotBelow UInt64.size⟩,
  ⟨"expires_at", true, NotBelow UInt64.size⟩]

theorem rules_met {l : Lease} (h : ofDatum? s (.record fs) = some l) : ∀ r ∈ rules, r.Met fs := by
  obtain ⟨f, hf, h⟩ := Option.bind_eq_some_iff.1 h
  obtain ⟨holder, _, h⟩ := required_met hf (by decide) fits_string h
  obtain ⟨lockedAt, _, h⟩ := required_met hf (by decide) fits_word h
  obtain ⟨expiresAt, -⟩ := required_met hf (by decide) fits_word h
  simp only [rules, List.forall_mem_cons]
  exact ⟨holder, lockedAt, expiresAt, nofun⟩

theorem fits : Fits toDatum ofDatum? (Faulty rules) where
  reads {s l d} h := by
    obtain ⟨fs, hf, he⟩ := h.fields? (show _ = fieldNames.map some from rfl) (by decide) s []
    rw [without_nil] at hf
    rw [ofDatum?, hf, Option.bind_eq_bind, Option.bind_some,
      he.required "holder" fits_string rfl List.not_mem_nil,
      he.required "locked_at" fits_word rfl List.not_mem_nil,
      he.required "expires_at" fits_word rfl List.not_mem_nil]
    rfl
  rejects := faulty_eq_none rules_met

end Lease

/-! ## Freeze schedules -/

namespace FreezeSchedule

def rules : List Rule := [
  ⟨"weekdays", true, NotListOf (NotBelow UInt8.size)⟩,
  ⟨"from_time", true, NotText⟩,
  ⟨"to_time", true, NotText⟩]

theorem rules_met {z : FreezeSchedule} (h : ofDatum? s (.record fs) = some z) : ∀ r ∈ rules, r.Met fs := by
  obtain ⟨f, hf, h⟩ := Option.bind_eq_some_iff.1 h
  obtain ⟨weekdays, _, h⟩ := required_met hf (by decide) fits_byte.listOf h
  obtain ⟨fromTime, _, h⟩ := required_met hf (by decide) fits_string h
  obtain ⟨toTime, -⟩ := required_met hf (by decide) fits_string h
  simp only [rules, List.forall_mem_cons]
  exact ⟨weekdays, fromTime, toTime, nofun⟩

theorem fits : Fits toDatum ofDatum? (Faulty rules) where
  reads {s z d} h := by
    obtain ⟨fs, hf, he⟩ := h.fields? (show _ = fieldNames.map some from rfl) (by decide) s []
    rw [without_nil] at hf
    rw [ofDatum?, hf, Option.bind_eq_bind, Option.bind_some,
      he.required "weekdays" fits_byte.listOf rfl List.not_mem_nil,
      he.required "from_time" fits_string rfl List.not_mem_nil,
      he.required "to_time" fits_string rfl List.not_mem_nil]
    rfl
  rejects := faulty_eq_none rules_met

end FreezeSchedule

/-! ## Tasks -/

namespace Task

def rules : List Rule := [
  ⟨"id", true, NotBelow UInt64.size⟩,
  ⟨"workspace_id", true, NotText⟩,
  ⟨"kind", true, NotCase TaskKind⟩,
  ⟨"status", true, NotCase TaskStatus⟩,
  ⟨"stage", false, NotNullable (NotCase Stage)⟩,
  ⟨"agent_id", false, NotNullable NotText⟩,
  ⟨"retry_count", false, NotBelow UInt32.size⟩,
  ⟨"apply_confirmed_by", false, NotNullable NotText⟩,
  ⟨"apply_confirmed_at", false, NotNullable (NotBelow UInt64.size)⟩,
  ⟨"origin", false, NotCase TaskOrigin⟩,
  ⟨"error_message", false, NotNullable NotText⟩,
  ⟨"created_at", true, NotBelow UInt64.size⟩,
  ⟨"started_at", false, NotNullable (NotBelow UInt64.size)⟩,
  ⟨"completed_at", false, NotNullable (NotBelow UInt64.size)⟩,
  ⟨"lease", false, NotNullable (Faulty Lease.rules)⟩]

/-- The task with these fields at their defaults. -/
def reset (gone : List String) (t : Task) : Task :=
  { t with
    stage := if "stage" ∈ gone then none else t.stage
    agent := if "agent_id" ∈ gone then none else t.agent
    retryCount := if "retry_count" ∈ gone then 0 else t.retryCount
    confirmedBy := if "apply_confirmed_by" ∈ gone then none else t.confirmedBy
    confirmedAt := if "apply_confirmed_at" ∈ gone then none else t.confirmedAt
    origin := if "origin" ∈ gone then .manual else t.origin
    errorMessage := if "error_message" ∈ gone then none else t.errorMessage
    startedAt := if "started_at" ∈ gone then none else t.startedAt
    completedAt := if "completed_at" ∈ gone then none else t.completedAt
    lease := if "lease" ∈ gone then none else t.lease }

theorem rules_met {t : Task} (h : ofDatum? s (.record fs) = some t) : ∀ r ∈ rules, r.Met fs := by
  obtain ⟨f, hf, h⟩ := Option.bind_eq_some_iff.1 h
  obtain ⟨id, _, h⟩ := required_met hf (by decide) fits_word h
  obtain ⟨workspace, _, h⟩ := required_met hf (by decide) fits_string h
  obtain ⟨kind, _, h⟩ := required_met hf (by decide) (fits_case TaskKind.ofName?_name) h
  obtain ⟨status, _, h⟩ := required_met hf (by decide) (fits_case TaskStatus.ofName?_name) h
  obtain ⟨stage, _, h⟩ := optional_met hf (by decide) (fits_case Stage.ofName?_name) nofun h
  obtain ⟨agent, _, h⟩ := optional_met hf (by decide) fits_string nofun h
  obtain ⟨retryCount, _, h⟩ := defaulted_met hf (by decide) fits_word32 h
  obtain ⟨confirmedBy, _, h⟩ := optional_met hf (by decide) fits_string nofun h
  obtain ⟨confirmedAt, _, h⟩ := optional_met hf (by decide) fits_word nofun h
  obtain ⟨origin, _, h⟩ := defaulted_met hf (by decide) (fits_case TaskOrigin.ofName?_name) h
  obtain ⟨errorMessage, _, h⟩ := optional_met hf (by decide) fits_string nofun h
  obtain ⟨createdAt, _, h⟩ := required_met hf (by decide) fits_word h
  obtain ⟨startedAt, _, h⟩ := optional_met hf (by decide) fits_word nofun h
  obtain ⟨completedAt, _, h⟩ := optional_met hf (by decide) fits_word nofun h
  obtain ⟨lease, -⟩ := optional_met hf (by decide) Lease.fits nofun h
  simp only [rules, List.forall_mem_cons]
  exact ⟨id, workspace, kind, status, stage, agent, retryCount, confirmedBy, confirmedAt, origin, errorMessage, createdAt,
    startedAt, completedAt, lease, nofun⟩

theorem ofDatum?_without {t : Task} (h : Extended t.toDatum d) (hgone : Optional rules gone) :
    ofDatum? s (d.without gone) = some (t.reset gone) := by
  obtain ⟨fs, hf, he⟩ := h.fields? (show _ = fieldNames.map some from rfl) (by decide) s gone
  simp only [Optional, rules, List.forall_mem_cons, true_imp_iff] at hgone
  obtain ⟨hid, hworkspace, hkind, hstatus, -, -, -, -, -, -, -, hcreated, -⟩ := hgone
  rw [ofDatum?, hf, Option.bind_eq_bind, Option.bind_some,
    he.required "id" fits_word rfl hid,
    he.required "workspace_id" fits_string rfl hworkspace,
    he.required "kind" (fits_case TaskKind.ofName?_name) rfl hkind,
    he.required "status" (fits_case TaskStatus.ofName?_name) rfl hstatus,
    he.optional "stage" (fits_case Stage.ofName?_name) nofun rfl,
    he.optional "agent_id" fits_string nofun rfl,
    he.defaulted "retry_count" fits_word32 rfl,
    he.optional "apply_confirmed_by" fits_string nofun rfl,
    he.optional "apply_confirmed_at" fits_word nofun rfl,
    he.defaulted "origin" (fits_case TaskOrigin.ofName?_name) rfl,
    he.optional "error_message" fits_string nofun rfl,
    he.required "created_at" fits_word rfl hcreated,
    he.optional "started_at" fits_word nofun rfl,
    he.optional "completed_at" fits_word nofun rfl,
    he.optional "lease" Lease.fits nofun rfl]
  rfl

end Task

/-! ## Workspaces -/

namespace Workspace

def rules : List Rule := [
  ⟨"workspace_id", true, NotText⟩,
  ⟨"execution_mode", true, NotCase ExecutionMode⟩,
  ⟨"current_pool_id", false, NotNullable NotText⟩,
  ⟨"is_locked", false, NotFlag⟩,
  ⟨"locked_by", false, NotNullable NotText⟩]

/-- The workspace with these fields at their defaults. -/
def reset (gone : List String) (w : Workspace) : Workspace :=
  { w with
    pool := if "current_pool_id" ∈ gone then none else w.pool
    isLocked := if "is_locked" ∈ gone then false else w.isLocked
    lockedBy := if "locked_by" ∈ gone then none else w.lockedBy }

theorem rules_met {w : Workspace} (h : ofDatum? s (.record fs) = some w) : ∀ r ∈ rules, r.Met fs := by
  obtain ⟨f, hf, h⟩ := Option.bind_eq_some_iff.1 h
  obtain ⟨id, _, h⟩ := required_met hf (by decide) fits_string h
  obtain ⟨mode, _, h⟩ := required_met hf (by decide) (fits_case ExecutionMode.ofName?_name) h
  obtain ⟨pool, _, h⟩ := optional_met hf (by decide) fits_string nofun h
  obtain ⟨isLocked, _, h⟩ := defaulted_met hf (by decide) fits_flag h
  obtain ⟨lockedBy, -⟩ := optional_met hf (by decide) fits_string nofun h
  simp only [rules, List.forall_mem_cons]
  exact ⟨id, mode, pool, isLocked, lockedBy, nofun⟩

theorem ofDatum?_without {w : Workspace} (h : Extended w.toDatum d) (hgone : Optional rules gone) :
    ofDatum? s (d.without gone) = some (w.reset gone) := by
  obtain ⟨fs, hf, he⟩ := h.fields? (show _ = fieldNames.map some from rfl) (by decide) s gone
  simp only [Optional, rules, List.forall_mem_cons, true_imp_iff] at hgone
  obtain ⟨hid, hmode, -⟩ := hgone
  rw [ofDatum?, hf, Option.bind_eq_bind, Option.bind_some,
    he.required "workspace_id" fits_string rfl hid,
    he.required "execution_mode" (fits_case ExecutionMode.ofName?_name) rfl hmode,
    he.optional "current_pool_id" fits_string nofun rfl,
    he.defaulted "is_locked" fits_flag rfl,
    he.optional "locked_by" fits_string nofun rfl]
  rfl

end Workspace

/-! ## Pools -/

namespace AgentPool

def rules : List Rule := [
  ⟨"pool_id", true, NotText⟩,
  ⟨"kind", true, NotCase PoolKind⟩,
  ⟨"min_replicas", true, NotBelow UInt32.size⟩,
  ⟨"max_replicas", true, NotBelow UInt32.size⟩,
  ⟨"slots_per_pod", false, NotBelow UInt32.size⟩,
  ⟨"freeze_schedules", false, NotListOf (Faulty FreezeSchedule.rules)⟩,
  ⟨"one_time_unfreeze_until", false, NotNullable (NotBelow UInt64.size)⟩]

/-- The pool with these fields at their defaults. -/
def reset (gone : List String) (p : AgentPool) : AgentPool :=
  { p with
    slotsPerPod := if "slots_per_pod" ∈ gone then 3 else p.slotsPerPod
    freezeSchedules := if "freeze_schedules" ∈ gone then [] else p.freezeSchedules
    unfreezeUntil := if "one_time_unfreeze_until" ∈ gone then none else p.unfreezeUntil }

theorem rules_met {p : AgentPool} (h : ofDatum? s (.record fs) = some p) : ∀ r ∈ rules, r.Met fs := by
  obtain ⟨f, hf, h⟩ := Option.bind_eq_some_iff.1 h
  obtain ⟨id, _, h⟩ := required_met hf (by decide) fits_string h
  obtain ⟨kind, _, h⟩ := required_met hf (by decide) (fits_case PoolKind.ofName?_name) h
  obtain ⟨minReplicas, _, h⟩ := required_met hf (by decide) fits_word32 h
  obtain ⟨maxReplicas, _, h⟩ := required_met hf (by decide) fits_word32 h
  obtain ⟨slotsPerPod, _, h⟩ := defaulted_met hf (by decide) fits_word32 h
  obtain ⟨freezeSchedules, _, h⟩ := defaulted_met hf (by decide) FreezeSchedule.fits.listOf h
  obtain ⟨unfreezeUntil, -⟩ := optional_met hf (by decide) fits_word nofun h
  simp only [rules, List.forall_mem_cons]
  exact ⟨id, kind, minReplicas, maxReplicas, slotsPerPod, freezeSchedules, unfreezeUntil, nofun⟩

theorem ofDatum?_without {p : AgentPool} (h : Extended p.toDatum d) (hgone : Optional rules gone) :
    ofDatum? s (d.without gone) = some (p.reset gone) := by
  obtain ⟨fs, hf, he⟩ := h.fields? (show _ = fieldNames.map some from rfl) (by decide) s gone
  simp only [Optional, rules, List.forall_mem_cons, true_imp_iff] at hgone
  obtain ⟨hid, hkind, hmin, hmax, -⟩ := hgone
  rw [ofDatum?, hf, Option.bind_eq_bind, Option.bind_some,
    he.required "pool_id" fits_string rfl hid,
    he.required "kind" (fits_case PoolKind.ofName?_name) rfl hkind,
    he.required "min_replicas" fits_word32 rfl hmin,
    he.required "max_replicas" fits_word32 rfl hmax,
    he.defaulted "slots_per_pod" fits_word32 rfl,
    he.defaulted "freeze_schedules" FreezeSchedule.fits.listOf rfl,
    he.optional "one_time_unfreeze_until" fits_word nofun rfl]
  rfl

end AgentPool

end TaskFleet
