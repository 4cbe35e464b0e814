/-
  TaskFleet.Proofs.Config.Sections — every part of a configuration survives being written as TOML.

  A field that is left out takes the default that the record has, so a part with all its fields written
  reads like one with none; only what is absent stays out of the text. Each part says how deep its text
  nests.
-/

import TaskFleet.Config.Record
import TaskFleet.Proofs.Record.Formats
import TaskFleet.Proofs.Toml.Records

namespace TaskFleet

open Datum Toml

theorem survives_texts : Survives 0 (fun ts => .list (ts.map Datum.ofText)) (listOf string) := survives_string.listOf .text

/-! ## What runs on this machine -/

namespace CommandSpec

theorem survives : Survives 1 toDatum ofDatum? where
  present c h := by cases h
  restores s c := by
    obtain ⟨fs, hf, he⟩ := returned_fields (show c.toDatum = .ofFields _ from rfl) (show _ = fieldNames from rfl)
      (by decide) s
    rw [ofDatum?, hf, Option.bind_eq_bind, Option.bind_some,
      he.required "program" survives_string rfl,
      he.defaulted "args" survives_texts rfl,
      he.optional "working_dir" survives_string rfl,
      he.defaulted "per_workspace_dir" survives_flag rfl]
    rfl
  writable {s d c} h hd := by
    obtain ⟨fs, hf, h⟩ := Option.bind_eq_some_iff.1 h
    have hfits := fits_of_fields? hf hd
    obtain ⟨_, program, h⟩ := required_writable hfits survives_string h
    obtain ⟨_, args, h⟩ := defaulted_writable hfits survives_texts writable_nil h
    obtain ⟨_, workingDir, h⟩ := optional_writable hfits survives_string h
    obtain ⟨_, perWorkspaceDir, h⟩ := defaulted_writable hfits survives_flag (writable_flag _) h
    cases h
    refine .ofFields (show _ = fieldNames from rfl) (by decide) (by decide) ?_
    simp only [List.forall_mem_cons]
    exact ⟨program, args, workingDir, perWorkspaceDir, List.forall_mem_nil _⟩

end CommandSpec

namespace LocalCommands

theorem survives : Survives 2 toDatum ofDatum? where
  present c h := by cases h
  restores s c := by
    obtain ⟨fs, hf, he⟩ := returned_fields (show c.toDatum = .ofFields _ from rfl) (show _ = fieldNames from rfl)
      (by decide) s
    rw [ofDatum?, hf, Option.bind_eq_bind, Option.bind_some,
      he.optional "plan" CommandSpec.survives rfl,
      he.optional "apply" CommandSpec.survives rfl]
    rfl
  writable {s d c} h hd := by
    obtain ⟨fs, hf, h⟩ := Option.bind_eq_some_iff.1 h
    have hfits := fits_of_fields? hf hd
    obtain ⟨_, plan, h⟩ := optional_writable hfits CommandSpec.survives h
    obtain ⟨_, apply, h⟩ := optional_writable hfits CommandSpec.survives h
    cases h
    refine .ofFields (show _ = fieldNames from rfl) (by decide) (by decide) ?_
    simp only [List.forall_mem_cons]
    exact ⟨plan, apply, List.forall_mem_nil _⟩

end LocalCommands

/-! ## Sections of numbers and texts -/

namespace StoreSection

theorem survives : Survives 1 toDatum ofDatum? where
  present c h := by cases h
  restores s c := by
    obtain ⟨fs, hf, he⟩ := returned_fields (show c.toDatum = .ofFields _ from rfl) (show _ = fieldNames from rfl)
      (by decide) s
    rw [ofDatum?, hf, Option.bind_eq_bind, Option.bind_some]
    dsimp only
    rw [he.defaulted "path" survives_string rfl]
    rfl
  writable {s d c} h hd := by
    obtain ⟨fs, hf, h⟩ := Option.bind_eq_some_iff.1 h
    have hfits := fits_of_fields? hf hd
    obtain ⟨_, path, h⟩ := defaulted_writable hfits survives_string (.flat (.scalar (.text _))) h
    cases h
    refine .ofFields (show _ = fieldNames from rfl) (by decide) (by decide) ?_
    simp only [List.forall_mem_cons]
    exact ⟨path, List.forall_mem_nil _⟩

end StoreSection

namespace DispatchSection

theorem survives : Survives 1 toDatum ofDatum? where
  present c h := by cases h
  restores s c := by
    obtain ⟨fs, hf, he⟩ := returned_fields (show c.toDatum = .ofFields _ from rfl) (show _ = fieldNames from rfl)
      (by decide) s
    rw [ofDatum?, hf, Option.bind_eq_bind, Option.bind_some]
    dsimp only
    rw [he.defaulted "workers" survives_word rfl,
      he.defaulted "backoff_base_secs" survives_word rfl,
      he.defaulted "backoff_max_secs" survives_word rfl,
      he.defaulted "no_agents_delay_secs" survives_word rfl,
      he.defaulted "no_pool_delay_secs" survives_word rfl,
      he.defaulted "local_timeout_secs" survives_word rfl,
      he.defaulted "claim_lease_secs" survives_word rfl,
      he.defaulted "sweep_interval_secs" survives_word rfl]
    rfl
  writable {s d c} h hd := by
    obtain ⟨fs, hf, h⟩ := Option.bind_eq_some_iff.1 h
    have hfits := fits_of_fields? hf hd
    obtain ⟨_, workers, h⟩ := defaulted_writable hfits survives_word (writable_word rfl) h
    obtain ⟨_, backoffBaseSecs, h⟩ := defaulted_writable hfits survives_word (writable_word rfl) h
    obtain ⟨_, backoffMaxSecs, h⟩ := defaulted_writable hfits survives_word (writable_word rfl) h
    obtain ⟨_, noAgentsDelaySecs, h⟩ := defaulted_writable hfits survives_word (writable_word rfl) h
    obtain ⟨_, noPoolDelaySecs, h⟩ := defaulted_writable hfits survives_word (writable_word rfl) h
    obtain ⟨_, localTimeoutSecs, h⟩ := defaulted_writable hfits survives_word (writable_word rfl) h
    obtain ⟨_, claimLeaseSecs, h⟩ := defaulted_writable hfits survives_word (writable_word rfl) h
    obtain ⟨_, sweepIntervalSecs, h⟩ := defaulted_writable hfits survives_word (writable_word rfl) h
    cases h
    refine .ofFields (show _ = fieldNames from rfl) (by decide) (by decide) ?_
    simp only [List.forall_mem_cons]
    exact ⟨workers, backoffBaseSecs, backoffMaxSecs, noAgentsDelaySecs, noPoolDelaySecs, localTimeoutSecs, claimLeaseSecs,
      sweepIntervalSecs, List.forall_mem_nil _⟩

end DispatchSection

namespace CapacitySection

theorem survives : Survives 1 toDatum ofDatum? where
  present c h := by cases h
  restores s c := by
    obtain ⟨fs, hf, he⟩ := returned_fields (show c.toDatum = .ofFields _ from rfl) (show _ = fieldNames from rfl)
      (by decide) s
    rw [ofDatum?, hf, Option.bind_eq_bind, Option.bind_some]
    dsimp only
    rw [he.defaulted "heartbeat_timeout_secs" survives_word rfl,
      he.defaulted "reservation_ttl_secs" survives_word rfl,
      he.defaulted "backend_timeout_secs" survives_word rfl]
    rfl
  writable {s d c} h hd := by
    obtain ⟨fs, hf, h⟩ := Option.bind_eq_some_iff.1 h
    have hfits := fits_of_fields? hf hd
    obtain ⟨_, heartbeatTimeoutSecs, h⟩ := defaulted_writable hfits survives_word (writable_word rfl) h
    obtain ⟨_, reservationTtlSecs, h⟩ := defaulted_writable hfits survives_word (writable_word rfl) h
    obtain ⟨_, backendTimeoutSecs, h⟩ := defaulted_writable hfits survives_word (writable_word rfl) h
    cases h
    refine .ofFields (show _ = fieldNames from rfl) (by decide) (by decide) ?_
    simp only [List.forall_mem_cons]
    exact ⟨heartbeatTimeoutSecs, reservationTtlSecs, backendTimeoutSecs, List.forall_mem_nil _⟩

end CapacitySection

namespace ScalingSection

theorem survives : Survives 1 toDatum ofDatum? where
  present c h := by cases h
  restores s c := by
    obtain ⟨fs, hf, he⟩ := returned_fields (show c.toDatum = .ofFields _ from rfl) (show _ = fieldNames from rfl)
      (by decide) s
    rw [ofDatum?, hf, Option.bind_eq_bind, Option.bind_some]
    dsimp only
    rw [he.defaulted "interval_secs" survives_word rfl,
      he.defaulted "scale_up_utilization" survives_double rfl,
      he.defaulted "scale_down_utilization" survives_double rfl,
      he.defaulted "grace_period_secs" survives_word rfl,
      he.defaulted "restart_base_backoff_secs" survives_word rfl,
      he.defaulted "restart_max_backoff_secs" survives_word rfl,
      he.defaulted "max_restarts" survives_word32 rfl]
    rfl
  writable {s d c} h hd := by
    obtain ⟨fs, hf, h⟩ := Option.bind_eq_some_iff.1 h
    have hfits := fits_of_fields? hf hd
    obtain ⟨_, intervalSecs, h⟩ := defaulted_writable hfits survives_word (writable_word rfl) h
    obtain ⟨_, growAbove, h⟩ := defaulted_writable hfits survives_double (.flat (.scalar (.real _))) h
    obtain ⟨_, shrinkBelow, h⟩ := defaulted_writable hfits survives_double (.flat (.scalar (.real _))) h
    obtain ⟨_, gracePeriodSecs, h⟩ := defaulted_writable hfits survives_word (writable_word rfl) h
    obtain ⟨_, restartBaseSecs, h⟩ := defaulted_writable hfits survives_word (writable_word rfl) h
    obtain ⟨_, restartMaxSecs, h⟩ := defaulted_writable hfits survives_word (writable_word rfl) h
    obtain ⟨_, maxRestarts, h⟩ := defaulted_writable hfits survives_word32 (.flat (.scalar (scalar_word32 _))) h
    cases h
    refine .ofFields (show _ = fieldNames from rfl) (by decide) (by decide) ?_
    simp only [List.forall_mem_cons]
    exact ⟨intervalSecs, growAbove, shrinkBelow, gracePeriodSecs, restartBaseSecs, restartMaxSecs, maxRestarts,
      List.forall_mem_nil _⟩

end ScalingSection

namespace LogSection

theorem survives : Survives 1 toDatum ofDatum? where
  present c h := by cases h
  restores s c := by
    obtain ⟨fs, hf, he⟩ := returned_fields (show c.toDatum = .ofFields _ from rfl) (show _ = fieldNames from rfl)
      (by decide) s
    rw [ofDatum?, hf, Option.bind_eq_bind, Option.bind_some,
      he.defaulted "json" survives_flag rfl,
      he.optional "filter" survives_string rfl]
    rfl
  writable {s d c} h hd := by
    obtain ⟨fs, hf, h⟩ := Option.bind_eq_some_iff.1 h
    have hfits := fits_of_fields? hf hd
    obtain ⟨_, json, h⟩ := defaulted_writable hfits survives_flag (writable_flag _) h
    obtain ⟨_, filter, h⟩ := optional_writable hfits survives_string h
    cases h
    refine .ofFields (show _ = fieldNames from rfl) (by decide) (by decide) ?_
    simp only [List.forall_mem_cons]
    exact ⟨json, filter, List.forall_mem_nil _⟩

end LogSection

/-! ## Pools and workspaces -/

namespace FreezeSchedule

theorem survives : Survives 1 toDatum ofDatum? where
  present z h := by cases h
  restores s z := by
    obtain ⟨fs, hf, he⟩ := returned_fields (show z.toDatum = .ofFields _ from rfl) (show _ = fieldNames from rfl)
      (by decide) s
    rw [ofDatum?, hf, Option.bind_eq_bind, Option.bind_some,
      he.required "weekdays" (survives_byte.listOf scalar_byte) rfl,
      he.required "from_time" survives_string rfl,
      he.required "to_time" survives_string rfl]
    rfl
  writable {s d z} h hd := by
    obtain ⟨fs, hf, h⟩ := Option.bind_eq_some_iff.1 h
    have hfits := fits_of_fields? hf hd
    obtain ⟨_, weekdays, h⟩ := required_writable hfits (survives_byte.listOf scalar_byte) h
    obtain ⟨_, fromTime, h⟩ := required_writable hfits survives_string h
    obtain ⟨_, toTime, h⟩ := required_writable hfits survives_string h
    cases h
    refine .ofFields (show _ = fieldNames from rfl) (by decide) (by decide) ?_
    simp only [List.forall_mem_cons]
    exact ⟨weekdays, fromTime, toTime, List.forall_mem_nil _⟩

end FreezeSchedule

namespace Workspace

theorem survives : Survives 1 toDatum ofDatum? where
  present w h := by cases h
  restores s w := by
    obtain ⟨fs, hf, he⟩ := returned_fields (show w.toDatum = .ofFields _ from rfl) (show _ = fieldNames from rfl)
      (by decide) s
    rw [ofDatum?, hf, Option.bind_eq_bind, Option.bind_some,
      he.required "workspace_id" survives_string rfl,
      he.required "execution_mode" (survives_case ExecutionMode.ofName?_name) rfl,
      he.optional "current_pool_id" survives_string rfl,
      he.defaulted "is_locked" survives_flag rfl,
      he.optional "locked_by" survives_string rfl]
    rfl
  writable {s d w} h hd := by
    obtain ⟨fs, hf, h⟩ := Option.bind_eq_some_iff.1 h
    have hfits := fits_of_fields? hf hd
    obtain ⟨_, id, h⟩ := required_writable hfits survives_string h
    obtain ⟨_, mode, h⟩ := required_writable hfits (survives_case ExecutionMode.ofName?_name) h
    obtain ⟨_, pool, h⟩ := optional_writable hfits survives_string h
    obtain ⟨_, isLocked, h⟩ := defaulted_writable hfits survives_flag (writable_flag _) h
    obtain ⟨_, lockedBy, h⟩ := optional_writable hfits survives_string h
    cases h
    refine .ofFields (show _ = fieldNames from rfl) (by decide) (by decide) ?_
    simp only [List.forall_mem_cons]
    exact ⟨id, mode, pool, isLocked, lockedBy, List.forall_mem_nil _⟩

end Workspace

namespace AgentPool

theorem survives : Survives 2 toDatum ofDatum? where
  present p h := by cases h
  restores s p := by
    obtain ⟨fs, hf, he⟩ := returned_fields (show p.toDatum = .ofFields _ from rfl) (show _ = fieldNames from rfl)
      (by decide) s
    rw [ofDatum?, hf, Option.bind_eq_bind, Option.bind_some,
      he.required "pool_id" survives_string rfl,
      he.required "kind" (survives_case PoolKind.ofName?_name) rfl,
      he.required "min_replicas" survives_word32 rfl,
      he.required "max_replicas" survives_word32 rfl,
      he.defaulted "slots_per_pod" survives_word32 rfl,
      he.defaulted "freeze_schedules" FreezeSchedule.survives.tables rfl,
      he.optional "one_time_unfreeze_until" survives_word rfl]
    rfl
  writable {s d p} h hd := by
    obtain ⟨fs, hf, h⟩ := Option.bind_eq_some_iff.1 h
    have hfits := fits_of_fields? hf hd
    obtain ⟨_, id, h⟩ := required_writable hfits survives_string h
    obtain ⟨_, kind, h⟩ := required_writable hfits (survives_case PoolKind.ofName?_name) h
    obtain ⟨_, minReplicas, h⟩ := required_writable hfits survives_word32 h
    obtain ⟨_, maxReplicas, h⟩ := required_writable hfits survives_word32 h
    obtain ⟨_, slotsPerPod, h⟩ := defaulted_writable hfits survives_word32 (.flat (.scalar (scalar_word32 _))) h
    obtain ⟨_, freezeSchedules, h⟩ := defaulted_writable hfits FreezeSchedule.survives.tables writable_nil h
    obtain ⟨_, unfreezeUntil, h⟩ := optional_writable hfits survives_word h
    cases h
    refine .ofFields (show _ = fieldNames from rfl) (by decide) (by decide) ?_
    simp only [List.forall_mem_cons]
    exact ⟨id.mono, kind.mono, minReplicas.mono, maxReplicas.mono, slotsPerPod.mono, freezeSchedules, unfreezeUntil.mono,
      List.forall_mem_nil _⟩

end AgentPool

/-! ## Whole configurations -/

namespace Config

theorem survives : Survives 3 toDatum ofDatum? where
  present c h := by cases h
  restores s c := by
    obtain ⟨fs, hf, he⟩ := returned_fields (show c.toDatum = .ofFields _ from rfl) (show _ = fieldNames from rfl)
      (by decide) s
    rw [ofDatum?, hf, Option.bind_eq_bind, Option.bind_some,
      he.defaulted "store" StoreSection.survives rfl,
      he.defaulted "dispatch" DispatchSection.survives rfl,
      he.defaulted "capacity" CapacitySection.survives rfl,
      he.defaulted "autoscale" ScalingSection.survives rfl,
      he.defaulted "local" LocalCommands.survives rfl,
      he.defaulted "log" LogSection.survives rfl,
      he.defaulted "pools" AgentPool.survives.tables rfl,
      he.defaulted "workspaces" Workspace.survives.tables rfl]
    rfl
  writable {s d c} h hd := by
    obtain ⟨fs, hf, h⟩ := Option.bind_eq_some_iff.1 h
    have hfits := fits_of_fields? hf hd
    obtain ⟨_, store, h⟩ := defaulted_writable hfits StoreSection.survives (StoreSection.survives.of_empty rfl) h
    obtain ⟨_, dispatch, h⟩ := defaulted_writable hfits DispatchSection.survives (DispatchSection.survives.of_empty rfl) h
    obtain ⟨_, capacity, h⟩ := defaulted_writable hfits CapacitySection.survives (CapacitySection.survives.of_empty rfl) h
    obtain ⟨_, scaling, h⟩ := defaulted_writable hfits ScalingSection.survives (ScalingSection.survives.of_empty rfl) h
    obtain ⟨_, commands, h⟩ := defaulted_writable hfits LocalCommands.survives (LocalCommands.survives.of_empty rfl) h
    obtain ⟨_, log, h⟩ := defaulted_writable hfits LogSection.survives (LogSection.survives.of_empty rfl) h
    obtain ⟨_, pools, h⟩ := defaulted_writable hfits AgentPool.survives.tables writable_nil h
    obtain ⟨_, workspaces, h⟩ := defaulted_writable hfits Workspace.survives.tables writable_nil h
    cases h
    refine .ofFields (show _ = fieldNames from rfl) (by decide) (by decide) ?_
    simp only [List.forall_mem_cons]
    exact ⟨store.mono, dispatch.mono, capacity.mono, scaling.mono, commands, log.mono, pools, workspaces.mono,
      List.forall_mem_nil _⟩

end Config

end TaskFleet
