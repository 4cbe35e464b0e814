/-
  TaskFleet.Proofs.Dispatch.Choice — which task an attempt starts, and that it starts no other.

  An attempt reads the store, perhaps waits for a lock, and then either has nothing to do or
  starts one task that it read. What others may change meanwhile is a parameter.
  - `Chosen`: how the task was read.
  - `Choice`: an attempt without a task leaves everything alone; any other attempt is one call
    of `dispatchTask`, and a crash of that call is turned into an error, if the workspace can be
    queued again.
  - `choice_tryDispatch`, `choice_executeConfirmedApply`: both kinds of attempts.
-/

import TaskFleet.Proofs.Calls
import TaskFleet.Proofs.Dispatch.Reads

namespace TaskFleet

namespace Dispatch

open Fallible Program

/-- Others leave the pods alone, and may stand in line for locks. -/
structure Bystanders (R : World → World → Prop) : Prop where
  pods : ∀ w w', R w w' → SamePods w w'
  locks : ∀ w locks, R w { w with locks }

theorem bystanders_samePods : Bystanders SamePods := ⟨fun _ _ h => h, fun _ _ => rfl⟩

theorem bystanders_elsewhere : Bystanders Elsewhere := ⟨fun _ _ h => h.2, fun _ _ => ⟨rfl, rfl⟩⟩

variable {cfg : Settings} {process n : Nat} {R : World → World → Prop} [IsPreorder World R] {workspace : String}
  {w₀ w w' : World} {t : Task} {α β : Type}

/-! ## Looks and locks -/

theorem ends_look_bind {f : Store → Except StoreError α} {k : α → Fallible DispatchError β}
    {r : Except String (Except DispatchError β)} (h : Ends R n (look f >>= k).run w r w') :
    (∃ e, r = .ok (.error e) ∧ R w w') ∨
      ∃ n' a w₁, R w w₁ ∧ f w₁.store = .ok a ∧ Ends R n' (k a).run w₁ r w' :=
  (ends_readStore_bind h).imp (fun ⟨e, _, hr, hw⟩ => ⟨.store e, hr, hw⟩)
    fun ⟨n', a, w₁, _, hrest⟩ => ⟨n', a, w₁, hrest⟩

/-- What is done under a lock, among others that may stand in line for locks too. -/
theorem ends_withLock {p : Program World β} {r : Except String β} (hlocks : ∀ w locks, R w { w with locks })
    (he : Ends R n (withLock process workspace p) w r w') :
    ∃ n' w₁ w₂, R w w₁ ∧ Ends R n' p w₁ r w₂ ∧ R w₂ w' := by
  obtain ⟨n₁, w₁, -, hw₁, he⟩ := ends_step he
  obtain ⟨n₂, w₂, -, hw₂, -, he⟩ := ends_await he
  have he : Ends R n₂ (p.andFinally (Program.modify fun w => { w with locks := w.locks.release workspace process }))
    w₂ r w' := he
  obtain ⟨n₃, w₃, -, hp, hlast⟩ := he.andFinally
  have hbegin : R w w₂ := trans_of R (trans_of R hw₁ (hlocks w₁ _)) hw₂
  exact ⟨n₃, w₂, w₃, hbegin, hp, trans_of R (hlocks w₃ _) hlast⟩

/-! ## Choices -/

/-- The task was read on the way from one state to the other: as the next task of the
    workspace, as what a second look finds under the ID of one of its tasks, or by the ID for
    which the apply was asked, and then it passed the checks. -/
inductive Chosen (R : World → World → Prop) (workspace : String) (w : World) (t : Task) (w' : World) : Prop
  | next (w₁ : World) : R w w₁ → w₁.store.nextTask workspace = .ok (some t) → R w₁ w' → Chosen R workspace w t w'
  | resumed (w₁ w₂ : World) (seens : List Task) (seen : Task) : R w w₁ →
      w₁.store.tasksWhere (·.workspace == workspace) = .ok seens → seen ∈ seens → R w₁ w₂ →
      w₂.store.task? seen.id = .ok (some t) → t.status = .applyPending → R w₂ w' → Chosen R workspace w t w'
  | confirmed (w₁ : World) (task : UInt64) : R w w₁ → w₁.store.task? task = .ok (some t) →
      refusal workspace task t = none → R w₁ w' → Chosen R workspace w t w'

theorem Chosen.between (h : Chosen R workspace w t w') : R w w' := by
  cases h with
  | next w₁ hw _ hw' => exact trans_of R hw hw'
  | resumed w₁ w₂ seens seen hw _ _ hw₂ _ _ hw' => exact trans_of R (trans_of R hw hw₂) hw'
  | confirmed w₁ task hw _ _ hw' => exact trans_of R hw hw'

/-- The answers of an attempt that starts nothing and tries nothing. -/
def Idles : Except DispatchError DispatchOutcome → Prop
  | .error _ => True
  | .ok .idle => True
  | .ok (.skipped _) => True
  | .ok _ => False

/-- What an attempt comes to, as long as a crash is still a crash. -/
inductive Tries (R : World → World → Prop) (cfg : Settings) (process : Nat) (workspace : String) (w w' : World) :
    Except String (Except DispatchError DispatchOutcome) → Prop
  | nothing {result : Except DispatchError DispatchOutcome} : Idles result → R w w' →
      Tries R cfg process workspace w w' (.ok result)
  | task {n : Nat} {t : Task} {w₁ w₂ : World} {r : Except String (Except DispatchError DispatchOutcome)} :
      Chosen R workspace w t w₁ → Ends R n (dispatchTask cfg process t).run w₁ r w₂ → R w₂ w' →
      Tries R cfg process workspace w w' r

/-- What an attempt comes to. It crashes itself if it is to be made again at a time that there
    is not. -/
inductive Choice (R : World → World → Prop) (cfg : Settings) (process : Nat) (workspace : String) (w w' : World) :
    Except String (Except DispatchError DispatchOutcome) → Prop
  | nothing {result : Except DispatchError DispatchOutcome} : Idles result → R w w' →
      Choice R cfg process workspace w w' (.ok result)
  | task {n : Nat} {t : Task} {w₁ w₂ : World} {result : Except DispatchError DispatchOutcome} :
      Chosen R workspace w t w₁ → Ends R n (dispatchTask cfg process t).run w₁ (.ok result) w₂ → R w₂ w' →
      Choice R cfg process workspace w w' (.ok result)
  | crashed {n : Nat} {t : Task} {w₁ w₂ w₃ : World} {message : String} {notBefore : UInt64} :
      Chosen R workspace w t w₁ → Ends R n (dispatchTask cfg process t).run w₁ (.error message) w₂ → R w₂ w₃ →
      w₃.after? (cfg.dispatch.backoff.delay 0) = some notBefore → R (w₃.scheduleAt workspace notBefore) w' →
      Choice R cfg process workspace w w' (.ok (.error (.crashed workspace message)))
  | lost {n : Nat} {t : Task} {w₁ w₂ w₃ : World} {message : String} :
      Chosen R workspace w t w₁ → Ends R n (dispatchTask cfg process t).run w₁ (.error message) w₂ → R w₂ w₃ →
      w₃.after? (cfg.dispatch.backoff.delay 0) = none → R w₃ w' →
      Choice R cfg process workspace w w' (.error sumTooLarge)

variable {r : Except String (Except DispatchError DispatchOutcome)}

theorem Tries.after (h : Tries R cfg process workspace w₀ w r) (hw : R w w') :
    Tries R cfg process workspace w₀ w' r := by
  cases h with
  | nothing hr h => exact .nothing hr (trans_of R h hw)
  | task hc he h => exact .task hc he (trans_of R h hw)

theorem tries_ended (result : Except DispatchError DispatchOutcome) (hr : Idles result) (hw : R w₀ w)
    (he : Ends R n (Program.done result) w r w') : Tries R cfg process workspace w₀ w' r := by
  obtain ⟨-, rfl, hw'⟩ := ends_done he
  exact .nothing hr (trans_of R hw hw')

theorem tries_failed {e : DispatchError} (hw : R w₀ w) (hw' : R w w') :
    Tries R cfg process workspace w₀ w' (.ok (.error e)) := .nothing trivial (trans_of R hw hw')

theorem tries_resumeApply {w₁ : World} {seens : List Task} {seen : Task} (hw₁ : R w₀ w₁)
    (hlist : w₁.store.tasksWhere (·.workspace == workspace) = .ok seens) (hmem : seen ∈ seens) (hw : R w₁ w)
    (he : Ends R n (resumeApply cfg process seen).run w r w') : Tries R cfg process workspace w₀ w' r := by
  rcases ends_look_bind he with ⟨e, rfl, hw'⟩ | ⟨n₁, found, w₂, hw₂, hfound, hrest⟩
  · exact tries_failed (trans_of R hw₁ hw) hw'
  cases found with
  | none => exact tries_ended (.ok (.skipped seen.id)) trivial (trans_of R (trans_of R hw₁ hw) hw₂) hrest
  | some current =>
    simp only at hrest
    split at hrest
    · next hst => exact .task (.resumed w₁ w₂ seens seen hw₁ hlist hmem (trans_of R hw hw₂) hfound hst (refl w₂)) hrest (refl w')
    · exact tries_ended (.ok (.skipped seen.id)) trivial (trans_of R (trans_of R hw₁ hw) hw₂) hrest

theorem tries_dispatchExclusive (hw : R w₀ w) (he : Ends R n (dispatchExclusive cfg process workspace).run w r w') :
    Tries R cfg process workspace w₀ w' r := by
  rcases ends_look_bind he with ⟨e, rfl, hw'⟩ | ⟨n₁, found, w₁, hw₁, hfound, hrest⟩
  · exact tries_failed hw hw'
  cases found with
  | none => exact tries_ended (.ok .idle) trivial (trans_of R hw hw₁) hrest
  | some t => exact .task (.next w₁ (trans_of R hw hw₁) hfound (refl w₁)) hrest (refl w')

theorem tries_dispatchNext (hlocks : ∀ w locks, R w { w with locks })
    (he : Ends R n (dispatchNext cfg process workspace).run w r w') :
    Tries R cfg process workspace w w' r := by
  rcases ends_look_bind he with ⟨e, rfl, hw'⟩ | ⟨n₁, onHold, w₁, hw₁, -, hrest⟩
  · exact tries_failed (refl w) hw'
  cases onHold with
  | true => exact tries_ended (.ok .idle) trivial hw₁ hrest
  | false =>
    rcases ends_look_bind hrest with ⟨e, rfl, hw'⟩ | ⟨n₂, resumable, w₂, hw₂, hresumable, hrest⟩
    · exact tries_failed hw₁ hw'
    have hw₂ : R w w₂ := trans_of R hw₁ hw₂
    cases resumable with
    | some seen =>
      obtain ⟨seens, hlist, hfind⟩ := map_eq_ok_iff.1 hresumable
      obtain ⟨n₃, w₃, w₄, hw₃, hend, hw₄⟩ := ends_withLock hlocks hrest
      exact (tries_resumeApply hw₂ hlist (List.mem_of_find?_eq_some hfind) hw₃ hend).after hw₄
    | none =>
      rcases ends_look_bind hrest with ⟨e, rfl, hw'⟩ | ⟨n₃, found, w₃, hw₃, hfound, hrest⟩
      · exact tries_failed hw₂ hw'
      have hw₃ : R w w₃ := trans_of R hw₂ hw₃
      cases found with
      | none => exact tries_ended (.ok .idle) trivial hw₃ hrest
      | some t =>
        simp only at hrest
        split at hrest
        · obtain ⟨n₄, w₄, w₅, hw₄, hend, hw₅⟩ := ends_withLock hlocks hrest
          exact (tries_dispatchExclusive (trans_of R hw₃ hw₄) hend).after hw₅
        · exact .task (.next w₃ hw₃ hfound (refl w₃)) hrest (refl w')

/-! ## Whole attempts -/

/-- A guarded attempt has an answer as long as it can be made again. -/
theorem choice_guarded {p : Fallible DispatchError DispatchOutcome}
    (hp : ∀ n r w₁, Ends R n p.run w r w₁ → Tries R cfg process workspace w₀ w₁ r)
    (he : Ends R n (guarded cfg workspace p).run w r w') : Choice R cfg process workspace w₀ w' r := by
  rcases he.bind with ⟨m, rfl, hpart⟩ | ⟨n₁, n₂, ending, w₁, -, hpart, hrest⟩
  · obtain ⟨_, hr, -⟩ := hpart.attempt
    cases hr
  obtain ⟨r', hr, hend⟩ := hpart.attempt
  cases hr
  have htries := hp n₁ ending w₁ hend
  cases ending with
  | error m =>
    rcases ends_schedule_bind hrest with ⟨n₃, w₂, notBefore, hw₂, hafter, hrest⟩ | ⟨w₂, hw₂, hnone, rfl, hw'⟩
    · obtain ⟨-, rfl, hw'⟩ := ends_done hrest
      cases htries with
      | task hc he hw₁ => exact .crashed hc he (trans_of R hw₁ hw₂) hafter hw'
    · cases htries with
      | task hc he hw₁ => exact .lost hc he (trans_of R hw₁ hw₂) hnone hw'
  | ok result =>
    obtain ⟨-, rfl, hw'⟩ := ends_done hrest
    cases htries.after hw' with
    | nothing hr hw => exact .nothing hr hw
    | task hc he hw => exact .task hc he hw

theorem choice_tryDispatch (hlocks : ∀ w locks, R w { w with locks })
    (he : Ends R n (tryDispatch cfg process workspace).run w r w') : Choice R cfg process workspace w w' r :=
  choice_guarded (fun _ _ _ h => tries_dispatchNext hlocks h) he

theorem ends_confirmedTask {task : UInt64} {r : Except String (Except DispatchError Task)}
    (he : Ends R n (confirmedTask workspace task).run w r w') :
    R w w' ∧ ((∃ e, r = .ok (.error e)) ∨ ∃ t w₁, r = .ok (.ok t) ∧ R w w₁ ∧ w₁.store.task? task = .ok (some t) ∧
      refusal workspace task t = none ∧ R w₁ w') := by
  rw [confirmedTask_eq] at he
  rcases ends_look_bind he with ⟨e, rfl, hw'⟩ | ⟨n₁, found, w₁, hw₁, hfound, hrest⟩
  · exact ⟨hw', .inl ⟨e, rfl⟩⟩
  cases found with
  | none =>
    obtain ⟨-, rfl, hw'⟩ := ends_done hrest
    exact ⟨trans_of R hw₁ hw', .inl ⟨_, rfl⟩⟩
  | some t =>
    simp only at hrest
    cases hrefused : refusal workspace task t with
    | some e =>
      rw [hrefused] at hrest
      obtain ⟨-, rfl, hw'⟩ := ends_done hrest
      exact ⟨trans_of R hw₁ hw', .inl ⟨e, rfl⟩⟩
    | none =>
      rw [hrefused] at hrest
      obtain ⟨-, rfl, hw'⟩ := ends_done hrest
      exact ⟨trans_of R hw₁ hw', .inr ⟨t, w₁, rfl, hw₁, hfound, hrefused, hw'⟩⟩

theorem Choice.after (h : Choice R cfg process workspace w₀ w r) (hw : R w w') :
    Choice R cfg process workspace w₀ w' r := by
  cases h with
  | nothing hr h => exact .nothing hr (trans_of R h hw)
  | task hc he h => exact .task hc he (trans_of R h hw)
  | crashed hc he h hafter h' => exact .crashed hc he h hafter (trans_of R h' hw)
  | lost hc he h hnone h' => exact .lost hc he h hnone (trans_of R h' hw)

theorem choice_executeConfirmedApply {task : UInt64} (hlocks : ∀ w locks, R w { w with locks })
    (he : Ends R n (executeConfirmedApply cfg process workspace task).run w r w') :
    Choice R cfg process workspace w w' r := by
  rcases ends_bind he with ⟨m, -, hconf⟩ | ⟨e, rfl, hconf⟩ | ⟨n₁, n₂, t, w₁, -, hconf, hrest⟩
  · obtain ⟨-, ⟨_, hr⟩ | ⟨_, _, hr, -⟩⟩ := ends_confirmedTask hconf <;> cases hr
  · exact .nothing trivial (ends_confirmedTask hconf).1
  obtain ⟨hw₁, ⟨_, hr⟩ | ⟨_, w₂, hr, hw₂, hfound, hrefusal, hw₂₁⟩⟩ := ends_confirmedTask hconf <;> cases hr
  rcases ends_look_bind hrest with ⟨e, rfl, hw'⟩ | ⟨n₃, onHold, w₃, hw₃, -, hrest⟩
  · exact .nothing trivial (trans_of R hw₁ hw')
  have hw₃ : R w₂ w₃ := trans_of R hw₂₁ hw₃
  cases onHold with
  | true =>
    obtain ⟨-, rfl, hw'⟩ := ends_done hrest
    have hidle : Idles (.ok .idle) := trivial
    exact .nothing hidle (trans_of R (trans_of R hw₂ hw₃) hw')
  | false =>
    obtain ⟨n₄, w₄, w₅, hw₄, hend, hw₅⟩ := ends_withLock hlocks hrest
    have hchosen : Chosen R workspace w t w₄ := .confirmed w₂ task hw₂ hfound hrefusal (trans_of R hw₃ hw₄)
    exact (choice_guarded (fun _ _ w₆ h => .task hchosen h (refl w₆)) hend).after hw₅

end Dispatch

end TaskFleet
