/-
  TaskFleet.Proofs.Config.RoundTrip — a configuration that was read can be written, and reads as itself.

  Written down, a configuration has every default spelled out and nothing that is absent. Whoever
  prints the configuration in force may therefore use the text in place of the one it came from: the
  program runs with the same settings, thresholds that are no numbers included.
-/

import TaskFleet.Config.Toml
import TaskFleet.Proofs.Config.Sections

namespace TaskFleet.Config

open Toml

variable {text : String} {c : Config}

/-- An accepted text is a tree whose numbers fit, and the configuration has sound pools. -/
theorem of_ofToml (h : ofToml text = .ok c) :
    ∃ d, fits d = true ∧ ofDatum? style d = some c ∧ c.pools.findSome? AgentPool.fault? = none := by
  unfold ofToml at h
  split at h
  · next c' hdecode =>
    obtain ⟨d, hparse, hread⟩ := Option.bind_eq_some_iff.1 hdecode
    unfold validate at h
    split at h
    · cases h
    · next hpools =>
      cases h
      exact ⟨d, fits_of_parse? hparse, hread, hpools⟩
  · cases h

/-- The text of a configuration reads as the configuration. -/
theorem ofToml_toToml (hd : Writable 3 c.toDatum) (hpools : c.pools.findSome? AgentPool.fault? = none) :
    ofToml c.toToml = .ok c := by
  obtain ⟨hkeys, hfields⟩ := fields_of_writable hd
  have hparse : parse? c.toToml = some (reread c.toDatum) := parse?_document hkeys hfields (by decide)
  have hdecode : decode? ofDatum? c.toToml = some c := by
    rw [decode?, hparse, Option.bind_some, survives.restores]
  rw [ofToml, hdecode]
  change c.validate = _
  rw [validate, hpools]

/-- A configuration that was accepted can be written down. The text is accepted in its place, as the same
    configuration with the same settings. -/
theorem accepted_configurations_read_back (h : ofToml text = .ok c) :
    ∃ written again, c.toToml? = some written ∧ ofToml written = .ok again ∧ again = c ∧
      ∀ holder, again.settings holder = c.settings holder := by
  obtain ⟨d, hfits, hread, hpools⟩ := of_ofToml h
  have hwritable := survives.writable hread hfits
  refine ⟨c.toToml, c, ?_, ofToml_toToml hwritable hpools, rfl, fun _ => rfl⟩
  rw [toToml?, document?, if_pos (fits_of_writable hwritable)]
  rfl

/-- A threshold that is no number, a command with nothing but its program, and one pool with a freeze window
    in front of its last key. -/
def mixedToml : String :=
  "[autoscale]\nscale_up_utilization = nan\n[local.plan]\nprogram = \"tf\"\n" ++
    "[[pools]]\npool_id = \"a\"\nkind = \"k8s\"\nmin_replicas = 0\nmax_replicas = 2\none_time_unfreeze_until = 9\n" ++
    "[[pools.freeze_schedules]]\nweekdays = [6]\nfrom_time = \"22:00\"\nto_time = \"06:00\"\n" ++
    "[[pools]]\npool_id = \"b\"\nkind = \"static\"\nmin_replicas = 1\nmax_replicas = 1\n"

theorem accepted_configurations_read_back_mixed :
    ∃ c, ofToml mixedToml = .ok c ∧ c.scaling.growAbove.isNaN = true ∧ c.commands = { plan := some { program := "tf" } } ∧
      c.pools.map (fun p => (p.freezeSchedules.length, p.unfreezeUntil)) = [(1, some 9), (0, none)] ∧
      ∃ written again, c.toToml? = some written ∧ ofToml written = .ok again ∧ again = c ∧
        ∀ holder, again.settings holder = c.settings holder := by
  have hread : (ofToml mixedToml).toOption.map (fun c => (c.scaling.growAbove.isNaN, c.commands,
      c.pools.map fun p => (p.freezeSchedules.length, p.unfreezeUntil))) =
      some (true, { plan := some { program := "tf" } }, [(1, some 9), (0, none)]) := by decide +kernel
  cases hc : ofToml mixedToml with
  | error e =>
    rw [hc] at hread
    cases hread
  | ok c =>
    rw [hc] at hread
    obtain ⟨hnan, hrest⟩ := Prod.mk.inj (Option.some.inj hread)
    obtain ⟨hcommands, hpools⟩ := Prod.mk.inj hrest
    exact ⟨c, rfl, hnan, hcommands, hpools, accepted_configurations_read_back hc⟩

end TaskFleet.Config
