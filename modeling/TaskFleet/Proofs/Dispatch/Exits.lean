/-
  TaskFleet.Proofs.Dispatch.Exits — the ways out of an attempt on a task, and what each leaves of the
  task's row.

  An attempt claims its task, sends it and settles the claim, or takes back what it did and has the
  workspace queued again. The way on which the task is sent is a parameter.
  - `RowIs`: a store is as another one was, but for the row of one task.
  - `Over`, `Again`: the answers of an attempt, each with the row that it leaves.
  - `Exits`, `exits_dispatchTaskBy`: a whole attempt on a task, when nobody else writes to the rows.
-/

import TaskFleet.Proofs.Dispatch.Choice
import TaskFleet.Proofs.Store.Transactions

namespace TaskFleet

/-! ## What is left alone -/

/-- The rows of the tasks stay as they are. -/
def SameRows (w w' : World) : Prop := w'.store.tasks = w.store.tasks

instance : IsPreorder World SameRows where
  refl _ := rfl
  trans _ _ _ h h' := h'.trans h

/-- Nothing changed but the agents and their mailboxes. -/
def OnlyAgents (w w' : World) : Prop := ∃ registry, w' = { w with registry }

instance : IsPreorder World OnlyAgents where
  refl w := ⟨w.registry, rfl⟩
  trans _ _ _ h h' := by
    obtain ⟨_, rfl⟩ := h
    obtain ⟨registry, rfl⟩ := h'
    exact ⟨registry, rfl⟩

theorem Agent.onlyAgents_sendTask (process : Nat) (agent : String) (m : AgentMessage) :
    (sendTask process agent m).run.Steps OnlyAgents := steps_sendTask (fun _ registry => ⟨registry, rfl⟩) process agent m

/-! ## One row -/

namespace Store

variable {s s' s'' : Store} {t u u' : Task} {id : UInt64}

/-- The rows are as they were, but for that of one task, which is this one. -/
structure RowIs (u : Task) (s s' : Store) : Prop where
  row : s'.Holds u
  rows : ∀ key, key ≠ u.key → s'.tasks.get? key = s.tasks.get? key

theorem RowIs.refl (h : s.Holds t) : RowIs t s s := ⟨h, fun _ _ => rfl⟩

theorem RowIs.congr (h : RowIs u s s') (hrows : s''.tasks = s'.tasks) : RowIs u s s'' :=
  ⟨(Holds.congr hrows).2 h.row, fun key hkey => hrows ▸ h.rows key hkey⟩

theorem Holds.task? (h : s.Holds t) : s.task? t.id = .ok (some t) := task?_eq_some_iff.2 h

/-- The row is written under the ID of its task. -/
theorem RowIs.insert (h : RowIs u s s') (hu : u.id = id) (hid : u'.id = id) :
    RowIs u' s { s' with tasks := s'.tasks.insert (taskKey id) (.record u') } := by
  have hkey : u'.key = u.key := by unfold Task.key; rw [hu, hid]
  refine ⟨?_, fun key hne => ?_⟩
  · unfold Holds Task.key
    rw [hid]
    exact Table.get?_insert_self _ _ _
  · have hne' : taskKey id ≠ key := fun he => hne (by rw [← he, ← hid]; rfl)
    show (s'.tasks.insert _ _).get? key = _
    rw [Table.get?_insert_of_ne _ _ hne']
    exact h.rows key (hkey ▸ hne)

/-- A change of the row that succeeds. -/
theorem RowIs.updateTask (h : RowIs u s s') {change : Task → Except StoreError Task} (hu : u.id = id)
    (hc : change u = .ok u') (hid : u'.id = id) :
    ∃ s'', s'.updateTask id change = .ok (u', s'') ∧ RowIs u' s s'' :=
  ⟨_, updateTask_ok_iff.2 ⟨u, hu ▸ h.row.task?, hc, rfl⟩, h.insert hu hid⟩

/-- The row was this one before. -/
theorem RowIs.get? (h : RowIs t s s') (ht : s.Holds t) (key : String) : s'.tasks.get? key = s.tasks.get? key := by
  by_cases hkey : key = t.key
  · rw [hkey, ht]
    exact h.row
  · exact h.rows key hkey

end Store

namespace Dispatch

open Fallible Program Store

variable {cfg : Settings} {send : Channel} {process n : Nat} {R T : World → World → Prop} {w w₁ w' : World} {t u u' : Task}
  {agent : Option String} {reason : RetryReason} {delay : Duration} {α β : Type}

/-! ## The answers -/

/-- The row of a task that this dispatcher claims now. -/
def claimedRow (cfg : Settings) (t : Task) (agent : Option String) (now : UInt64) : Task :=
  taken t (claimRequest cfg t now) (Task.start t.stageOnStart agent now)

/-- The answers of an attempt that is over, each with the row that it leaves. -/
inductive Over (cfg : Settings) (t : Task) : DispatchOutcome → Task → Prop
  | skipped : Over cfg t (.skipped t.id) t
  | started (agent : Option String) (now : UInt64) :
      Over cfg t (.started t.id agent) ((claimedRow cfg t agent now).settle cfg.holder)

/-- The reasons to make another attempt, each with the delay before it and the row that this one
    leaves. -/
inductive Again (cfg : Settings) (t : Task) : RetryReason → Duration → Task → Prop
  | noPool : Again cfg t .noPool cfg.dispatch.noPoolDelay t
  | noAgents : Again cfg t .noConnectedAgents cfg.dispatch.noAgentsDelay t
  | noSlot : Again cfg t .noFreeSlot (cfg.dispatch.backoff.delay t.retryCount) t.countRetry
  | noAgent : Again cfg t .noEligibleAgent (cfg.dispatch.backoff.delay t.retryCount) t.countRetry
  | notClaimed : Again cfg t .persistFailed (cfg.dispatch.backoff.delay t.retryCount) t.countRetry
  | notSent : Again cfg t .sendFailed (cfg.dispatch.backoff.delay t.retryCount)
      { t with agent := none, lease := none }.countRetry

theorem Again.id (h : Again cfg t reason delay u) : u.id = t.id := by cases h <;> rfl

theorem Over.id {o : DispatchOutcome} (h : Over cfg t o u) : u.id = t.id := by cases h <;> rfl

/-- A claim that is rolled back leaves the row that was claimed, without an agent and a lease. -/
theorem rollBack_claimedRow (hmove : t.status.canMove .running = true) (now : UInt64) :
    Task.rollBack t (claimedRow cfg t agent now) = .ok { t with agent := none, lease := none } := by
  have hback : TaskStatus.canMove .running t.status = true := by
    cases hs : t.status with
    | running => rw [hs] at hmove; cases hmove
    | _ => rfl
  exact map_move_ok_iff.2 ⟨hback, rfl⟩

/-! ## What an attempt has done so far -/

/-- The relation does not look at what an attempt changes before it has the workspace queued. -/
structure Blind (T : World → World → Prop) : Prop where
  store : ∀ w store, T w { w with store }
  pods : ∀ w capacity, T w { w with capacity }
  agents : ∀ w registry, T w { w with registry }
  jobs : ∀ w job, T w (w.spawn job)

/-- The relation that tells nothing. -/
def Anyhow (_ _ : World) : Prop := True

instance : IsPreorder World Anyhow where
  refl _ := trivial
  trans _ _ _ _ _ := trivial

theorem blind_anyhow : Blind Anyhow := ⟨fun _ _ => trivial, fun _ _ => trivial, fun _ _ => trivial, fun _ _ => trivial⟩

/-- The rows are left alone, and `T` holds. -/
def Spares (T : World → World → Prop) (w w' : World) : Prop := SameRows w w' ∧ T w w'

theorem Blind.onlyPods (hT : Blind T) {p : Program World α} (hp : p.Steps OnlyPods) : p.Steps (Spares T) :=
  hp.mono fun w w' h => by
    obtain ⟨capacity, rfl⟩ := h
    exact ⟨rfl, hT.pods w capacity⟩

theorem Blind.onlyAgents (hT : Blind T) {p : Program World α} (hp : p.Steps OnlyAgents) : p.Steps (Spares T) :=
  hp.mono fun w w' h => by
    obtain ⟨registry, rfl⟩ := h
    exact ⟨rfl, hT.agents w registry⟩

theorem Blind.spawn (hT : Blind T) (job : Job) : (Program.modify (·.spawn job)).Steps (Spares T) :=
  Program.steps_modify fun w => ⟨rfl, hT.jobs w job⟩

variable [IsPreorder World R] [IsPreorder World T]

instance : IsPreorder World (Spares T) where
  refl w := ⟨refl w, refl w⟩
  trans _ _ _ h h' := ⟨trans_of SameRows h.1 h'.1, trans_of T h.2 h'.2⟩

/-- So far the rows are as they were but for this one, and `T` holds. -/
structure SoFar (T : World → World → Prop) (u : Task) (w w' : World) : Prop where
  row : RowIs u w.store w'.store
  rest : T w w'

theorem SoFar.begin (ht : w.store.Holds t) : SoFar T t w w := ⟨.refl ht, refl w⟩

theorem SoFar.spares (h : SoFar T u w w₁) (hs : Spares T w₁ w') : SoFar T u w w' :=
  ⟨h.row.congr hs.1, trans_of T h.rest hs.2⟩

/-- How an attempt on a task ends: it crashes, with a row of the task still there; or it is over; or
    the last thing that it does is to have the workspace queued again, for a time that there is. -/
inductive Exits (R T : World → World → Prop) (cfg : Settings) (t : Task) (w w' : World) : Except String DispatchOutcome → Prop
  | crashed {u : Task} {m : String} : u.id = t.id → SoFar T u w w' → Exits R T cfg t w w' (.error m)
  | ended {u : Task} {o : DispatchOutcome} : Over cfg t o u → SoFar T u w w' → Exits R T cfg t w w' (.ok o)
  | again {u : Task} {reason : RetryReason} {delay : Duration} {w₁ : World} {notBefore : UInt64} :
      Again cfg t reason delay u → SoFar T u w w₁ → w₁.after? delay = some notBefore →
      R (w₁.scheduleAt t.workspace notBefore) w' → Exits R T cfg t w w' (.ok (.retry t.id delay reason))

/-! ## Parts of an attempt -/

section

variable {r : Except String DispatchOutcome} (hR : ∀ w w', R w w' → Spares T w w')

include hR

/-- A first part that leaves the rows alone. -/
theorem exits_bind {p : Program World α} {k : α → Program World DispatchOutcome} (hp : p.Steps (Spares T))
    (h : SoFar T u w w₁) (hid : u.id = t.id) (he : Ends R n (p >>= k) w₁ r w')
    (hk : ∀ n a w₂, SoFar T u w w₂ → Ends R n (k a) w₂ r w' → Exits R T cfg t w w' r) : Exits R T cfg t w w' r := by
  rcases he.bind with ⟨m, rfl, hfirst⟩ | ⟨n₁, n₂, a, w₂, -, hfirst, hrest⟩
  · exact .crashed hid (h.spares (hp.ends hfirst hR))
  · exact hk n₂ a w₂ (h.spares (hp.ends hfirst hR)) hrest

theorem exits_done {o : DispatchOutcome} (h : SoFar T u w w₁) (ho : Over cfg t o u)
    (he : Ends R n (Program.done o) w₁ r w') : Exits R T cfg t w w' r := by
  obtain ⟨-, rfl, hw'⟩ := ends_done he
  exact .ended ho (h.spares (hR _ _ hw'))

/-- A change of the row. -/
theorem ends_update_bind (hT : Blind T) {k : Unit → Program World β} {r : Except String β} (h : SoFar T u w w₁)
    {change : Task → Except StoreError Task} (he : Ends R n (tryUpdate t.id change >>= k) w₁ r w') (hid : u.id = t.id)
    (hc : change u = .ok u') (hid' : u'.id = t.id) :
    ∃ n' w₂, SoFar T u' w w₂ ∧ Ends R n' (k ()) w₂ r w' := by
  have he : Ends R n (transact (·.updateTask t.id change) >>= fun _ => k ()) w₁ r w' := he
  obtain ⟨n', w₂, hw₂, hrest⟩ := ends_transact_bind he
  have h₂ := h.spares (hR _ _ hw₂)
  obtain ⟨s, hok, hrow⟩ := h₂.row.updateTask hid hc hid'
  rcases hrest with ⟨_, s', hok', hrest⟩ | ⟨e, herr, -⟩
  · cases hok.symm.trans hok'
    exact ⟨n', { w₂ with store := s }, ⟨hrow, trans_of T h₂.rest (hT.store w₂ s)⟩, hrest⟩
  · cases hok.symm.trans herr

/-- A claim that crashes or is turned away leaves the row alone, and one that succeeds takes it. -/
theorem ends_claim_bind (hT : Blind T) {k : Except StoreError (Option Task) → Program World β} {r : Except String β}
    (h : SoFar T t w w₁) (he : Ends R n (claim cfg t agent >>= k) w₁ r w') :
    (∃ m, r = .error m ∧ SoFar T t w w') ∨ ∃ n' answer w₂, Ends R n' (k answer) w₂ r w' ∧
      ((∀ c, answer ≠ .ok (some c)) ∧ SoFar T t w w₂ ∨
        ∃ now, t.status.canMove .running = true ∧ (∃ c, answer = .ok (some c)) ∧
          SoFar T (claimedRow cfg t agent now) w w₂) := by
  unfold claim at he
  simp only [LawfulMonad.bind_assoc, pure_bind] at he
  obtain ⟨n₁, w₂, -, hw₂, he⟩ := he.get_bind
  obtain ⟨n₂, w₃, hw₃, he⟩ := ends_claimTask_bind he
  have h₃ := (h.spares (hR _ _ hw₂)).spares (hR _ _ hw₃)
  rcases he with ⟨c, s, hclaim, he⟩ | ⟨e, he⟩ | ⟨s, hclaim, hr, hw'⟩
  · refine .inr ⟨n₂, _, _, he, ?_⟩
    rcases Store.claimTask_cases hclaim with ⟨hno, rfl⟩ | ⟨u, hu, -, hclaimable, rfl, rfl⟩
    · refine .inl ⟨fun claimed hc => ?_, h₃⟩
      cases c with
      | claimed u => exact hno u rfl
      | _ => cases hc
    · cases h₃.row.row.task?.symm.trans hu
      refine .inr ⟨w₂.now, (hclaimable rfl).movable, ⟨_, rfl⟩, h₃.row.insert rfl rfl, ?_⟩
      exact trans_of T h₃.rest (hT.store w₃ _)
  · exact .inr ⟨n₂, .error e, w₃, he, .inl ⟨fun c hc => by (cases hc), h₃⟩⟩
  · rcases Store.claimTask_cases hclaim with ⟨-, rfl⟩ | ⟨_, _, _, _, hc, _⟩
    · exact .inl ⟨_, hr, h₃.spares (hR _ _ hw')⟩
    · cases hc

/-! ## The ways out -/

theorem exits_retryAfter (h : SoFar T u w w₁) (ha : Again cfg t reason delay u)
    (he : Ends R n (retryAfter t delay reason) w₁ r w') : Exits R T cfg t w w' r := by
  rcases ends_schedule_bind he with ⟨n', w₂, notBefore, hw₂, hafter, hend⟩ | ⟨w₂, hw₂, -, rfl, hw'⟩
  · obtain ⟨-, rfl, hw'⟩ := ends_done hend
    exact .again ha (h.spares (hR _ _ hw₂)) hafter hw'
  · exact .crashed ha.id ((h.spares (hR _ _ hw₂)).spares (hR _ _ hw'))

theorem exits_retryWithBackoff (hT : Blind T) (h : SoFar T u w w₁) (hid : u.id = t.id)
    (ha : Again cfg t reason (cfg.dispatch.backoff.delay t.retryCount) u.countRetry)
    (he : Ends R n (retryWithBackoff cfg t reason) w₁ r w') : Exits R T cfg t w w' r := by
  obtain ⟨n', w₂, h₂, hend⟩ := ends_update_bind hR hT h he hid rfl hid
  exact exits_retryAfter hR h₂ ha hend

theorem exits_settled (hT : Blind T) {now : UInt64} (h : SoFar T (claimedRow cfg t agent now) w w₁)
    (he : Ends R n (settle cfg t.id >>= fun _ => pure (.started t.id agent)) w₁ r w') : Exits R T cfg t w w' r := by
  obtain ⟨n', w₂, h₂, hend⟩ := ends_update_bind hR hT h he rfl rfl rfl
  exact exits_done hR h₂ (.started agent now) hend

theorem exits_rolledBack (hT : Blind T) {now : UInt64} (hmove : t.status.canMove .running = true)
    (h : SoFar T (claimedRow cfg t agent now) w w₁)
    (he : Ends R n (rollBack t >>= fun _ => retryWithBackoff cfg t .sendFailed) w₁ r w') : Exits R T cfg t w w' r := by
  obtain ⟨n', w₂, h₂, hend⟩ := ends_update_bind hR hT h he rfl (rollBack_claimedRow hmove now) rfl
  exact exits_retryWithBackoff hR hT h₂ rfl .notSent hend

theorem exits_startLocal (hT : Blind T) (h : SoFar T t w w₁) (he : Ends R n (startLocal cfg t) w₁ r w') :
    Exits R T cfg t w w' r := by
  rcases ends_claim_bind hR hT h he with
    ⟨m, rfl, h'⟩ | ⟨n₁, answer, w₂, he, ⟨hno, h₂⟩ | ⟨now, -, ⟨c, rfl⟩, h₂⟩⟩
  · exact .crashed rfl h'
  · match answer with
    | .ok (some c) => exact absurd rfl (hno c)
    | .error e => exact exits_retryWithBackoff hR hT h₂ rfl .notClaimed he
    | .ok none => exact exits_done hR h₂ .skipped he
  · obtain ⟨n₂, w₃, h₃, he⟩ := ends_update_bind hR hT h₂ he rfl rfl rfl
    exact exits_bind hR (hT.spawn _) h₃ rfl he fun n _ w₄ h₄ he => exits_done hR h₄ (.started none now) he

section

variable (hT : Blind T) (hsend : ∀ agent m, (send agent m).run.Steps OnlyAgents)

include hT hsend

theorem exits_handOverBy {target : Target} (h : SoFar T t w w₁) (he : Ends R n (handOverBy send cfg t target) w₁ r w') :
    Exits R T cfg t w w' r := by
  have hrelease : (release target.place).Steps (Spares T) := hT.onlyPods (onlyPods_release _)
  rcases ends_claim_bind hR hT h he with
    ⟨m, rfl, h'⟩ | ⟨n₁, answer, w₂, he, ⟨hno, h₂⟩ | ⟨now, hmove, ⟨c, rfl⟩, h₂⟩⟩
  · exact .crashed rfl h'
  · match answer with
    | .ok (some c) => exact absurd rfl (hno c)
    | .error e =>
      exact exits_bind hR hrelease h₂ rfl he fun n _ w₃ h₃ he => exits_retryWithBackoff hR hT h₃ rfl .notClaimed he
    | .ok none => exact exits_bind hR hrelease h₂ rfl he fun n _ w₃ h₃ he => exits_done hR h₃ .skipped he
  · refine exits_bind hR (hT.onlyAgents (hsend _ _)) h₂ rfl he fun n sent w₃ h₃ he => ?_
    cases sent with
    | error e =>
      exact exits_bind hR hrelease h₃ rfl he fun n _ w₄ h₄ he => exits_rolledBack hR hT hmove h₄ he
    | ok =>
      obtain ⟨agent, place⟩ := target
      cases place with
      | none => exact exits_settled hR hT h₃ he
      | some p =>
        refine exits_bind hR (hT.onlyPods (onlyPods_onCapacity _)) h₃ rfl he fun n _ w₄ h₄ he => ?_
        exact exits_settled hR hT h₄ he

theorem exits_pushToPoolBy {pool : String} {onPods : Bool} {place : Option Placement} (h : SoFar T t w w₁)
    (he : Ends R n (pushToPoolBy send cfg t pool onPods place) w₁ r w') : Exits R T cfg t w w' r := by
  refine exits_bind hR (Agent.steps_connected fun w => refl w) h rfl he fun n connected w₂ h₂ he => ?_
  split at he
  · refine exits_bind hR (hT.onlyPods (onlyPods_release _)) h₂ rfl he fun n _ w₃ h₃ he => ?_
    split at he
    · exact exits_bind hR (hT.spawn _) h₃ rfl he fun n _ w₄ h₄ he => exits_retryAfter hR h₄ .noAgents he
    · exact exits_retryAfter hR h₃ .noAgents he
  · refine exits_bind hR (hT.onlyPods (onlyPods_findTarget _ _ _ _)) h₂ rfl he fun n found w₃ h₃ he => ?_
    cases found with
    | none => exact exits_retryWithBackoff hR hT h₃ rfl .noAgent he
    | some target => exact exits_handOverBy hR hT hsend h₃ he

theorem exits_pushToAgentBy {ws : Workspace} (h : SoFar T t w w₁) (he : Ends R n (pushToAgentBy send cfg t ws) w₁ r w') :
    Exits R T cfg t w w' r := by
  unfold pushToAgentBy at he
  split at he
  · exact exits_retryAfter hR h .noPool he
  · split at he
    · refine exits_bind hR (hT.onlyPods (onlyPods_findSlot _)) h rfl he fun n place w₂ h₂ he => ?_
      cases place with
      | none => exact exits_retryWithBackoff hR hT h₂ rfl .noSlot he
      | some p => exact exits_pushToPoolBy hR hT hsend h₂ he
    · exact exits_pushToPoolBy hR hT hsend h he

/-- An attempt on a task that the store holds is refused before it has done anything, or takes one of
    the ways out. -/
theorem exits_dispatchTaskBy (ht : w.store.Holds t) {r : Except String (Except DispatchError DispatchOutcome)}
    (he : Ends R n (dispatchTaskBy send cfg t).run w r w') :
    (∃ e, r = .ok (.error e) ∧ Spares T w w') ∨ ∃ r', r = r'.map .ok ∧ Exits R T cfg t w w' r' := by
  unfold dispatchTaskBy at he
  split at he
  · obtain ⟨-, rfl, hw'⟩ := ends_done he
    exact .inl ⟨_, rfl, hR _ _ hw'⟩
  · rcases ends_look_bind he with ⟨e, rfl, hw'⟩ | ⟨n₁, found, w₁, hw₁, -, he⟩
    · exact .inl ⟨e, rfl, hR _ _ hw'⟩
    cases found with
    | none =>
      obtain ⟨-, rfl, hw'⟩ := ends_done he
      exact .inl ⟨_, rfl, trans_of (Spares T) (hR _ _ hw₁) (hR _ _ hw')⟩
    | some ws =>
      have h₁ : SoFar T t w w₁ := (SoFar.begin ht).spares (hR _ _ hw₁)
      simp only at he
      split at he
      · obtain ⟨r', rfl, hlocal⟩ := ends_always he
        exact .inr ⟨r', rfl, exits_startLocal hR hT h₁ hlocal⟩
      · obtain ⟨r', rfl, hpush⟩ := ends_always he
        exact .inr ⟨r', rfl, exits_pushToAgentBy hR hT hsend h₁ hpush⟩

end

end

end Dispatch

end TaskFleet
