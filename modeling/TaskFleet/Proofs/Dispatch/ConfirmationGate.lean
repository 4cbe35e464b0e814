/-
  TaskFleet.Proofs.Dispatch.ConfirmationGate — nothing is applied that nobody confirmed.

  Attempts, completions, sweeps and start-ups of any number of orchestrators interleave with
  each other, with operators and with whoever else changes rows. An attempt checks the
  confirmation on the row it saw and claims the row as it is by then, so the gate holds
  because a confirmation is never undone and a claim repeats the status that was seen.
  - `steps_tidy`, `steps_sendTask`: steps that keep every row's ID and confirmation, and what
    they send.
  - `ensures_claim`, `safe_handOver`, `safe_startLocal`: an attempt's own claim allows what it
    hands over.
  - `hand_overs_are_confirmed`: every apply was confirmed before, every plan was claimed from
    pending, and an apply that may not start is refused with nothing changed.
-/

import TaskFleet.Proofs.Dispatch.History
import TaskFleet.Proofs.Dispatch.Writes
import TaskFleet.Proofs.Store.Queries

namespace TaskFleet.Gate

open Fallible Dispatch Discipline

variable {cfg : Settings} {i : Nat} {c : Scene World (List GateEvent)} {messages : List AgentMessage} {tasks : List Task}
  {s s' : Store} {t t' : Task} {w w' : World} {α : Type}

/-! ## Harmless transactions -/

theorem Kept.refl (hs : s.Keyed) : Kept s s := ⟨hs, fun t' ht => ⟨t', ht, rfl, rfl⟩⟩

theorem Kept.setTask (hs : s.Keyed) (ht : s.Holds t) (hid : t'.id = t.id) (hc : t'.confirmedBy = t.confirmedBy) :
    Kept s (s.setTask t') := by
  refine ⟨hs.setTask t', fun u hu => ?_⟩
  rcases Store.holds_setTask.1 hu with rfl | ⟨hu, -⟩
  · exact ⟨t, ht, hid, hc⟩
  · exact ⟨u, hu, rfl, rfl⟩

theorem kept_updateTask {id : UInt64} {change : Task → Except StoreError Task} (hs : s.Keyed)
    (hchange : ∀ t t', change t = .ok t' → t'.id = t.id ∧ t'.confirmedBy = t.confirmedBy)
    (h : s.updateTask id change = .ok (t', s')) : Kept s s' := by
  obtain ⟨t, ht, _, hch, hset⟩ := hs.of_updateTask h
  obtain ⟨hid, hconf⟩ := hchange t t' hch
  rw [hset hid]
  exact .setTask hs ht hid hconf

theorem kept_claimTask {id : UInt64} {r : ClaimRequest} {edit : Task → Task} {answer : Claim} (hs : s.Keyed)
    (hedit : ∀ t, (edit t).id = t.id ∧ (edit t).confirmedBy = t.confirmedBy)
    (h : s.claimTask id r edit = .ok (answer, s')) : Kept s s' := by
  rcases hs.claimTask_cases h with ⟨-, rfl⟩ | ⟨t, ht, rfl, -, -, rfl⟩
  · exact .refl hs
  · obtain ⟨row, hrow⟩ : ∃ row, row = Store.taken t r edit := ⟨_, rfl⟩
    obtain ⟨hid, hconf⟩ := hedit { t with status := .running, lease := r.lease? }
    have hrid : row.id = t.id := by rw [hrow]; exact hid
    have hrconf : row.confirmedBy = t.confirmedBy := by rw [hrow]; exact hconf
    rw [← hrow, Store.insert_eq_setTask hrid]
    exact .setTask hs ht hrid hrconf

/-! ## Harmless programs -/

theorem within_of_eq (hs : w'.store.tasks = w.store.tasks) (hr : w'.registry = w.registry)
    (hj : w'.spawned = w.spawned) : Within messages tasks w w' := by
  have hkept : w.store.Keyed → Kept w.store w'.store := fun hk =>
    ⟨hk.congr hs, fun t ht => ⟨t, (Store.Holds.congr hs).1 ht, rfl, rfl⟩⟩
  refine ⟨hkept, fun m hm => ?_, fun t ht => ?_⟩
  · rw [hr, deliveriesBetween_eq_nil fun _ => rfl] at hm
    cases hm
  · rw [hj] at ht
    exact .inl ht

theorem within_refl : Within messages tasks w w := within_of_eq rfl rfl rfl

theorem within_store (hk : w.store.Keyed → Kept w.store s') : Within messages tasks w { w with store := s' } := by
  refine ⟨hk, fun m hm => ?_, fun t ht => .inl ht⟩
  rw [deliveriesBetween_eq_nil fun _ => rfl] at hm
  cases hm

theorem within_spawn {job : Job} (hj : ∀ t, job = .runLocal t → t ∈ tasks) : Within messages tasks w (w.spawn job) := by
  refine ⟨.refl, fun m hm => ?_, fun t ht => ?_⟩
  · have hnil : deliveriesBetween w.registry (w.spawn job).registry = [] := deliveriesBetween_eq_nil fun _ => rfl
    rw [hnil] at hm
    cases hm
  · rcases List.mem_append.1 ht with ht | ht
    · exact .inl ht
    · exact .inr (hj t (List.mem_singleton.1 ht).symm)

/-- What happens beside the tasks sends and asks for nothing. -/
theorem steps_aside {p : Program World α} (hp : p.Steps Aside) : p.Steps (Within messages tasks) :=
  hp.mono fun _ _ h => within_of_eq h.rows h.registry h.spawned

theorem kept_taskWrite (hs : s.Keyed) (h : Store.TaskWrite s s') : Kept s s' := by
  cases h with
  | untouched hrows => exact ⟨hs.congr hrows, fun t ht => ⟨t, (Store.Holds.congr hrows).1 ht, rfl, rfl⟩⟩
  | change id change hchange h =>
    exact kept_updateTask hs (fun t t' hc => ⟨(hchange t t' hc).id, (hchange t t' hc).confirmedBy⟩) h
  | claim id r edit hedit h => exact kept_claimTask hs (fun t => ⟨(hedit t).1, (hedit t).2.2⟩) h

/-- A tidy step sends nothing and asks for nothing. -/
theorem steps_tidy {p : Program World α} (hp : p.Steps Tidy) : p.Steps (Within messages tasks) := by
  refine hp.mono fun w w' h => ⟨fun hs => kept_taskWrite hs h.rows, fun m hm => ?_, fun t ht => .inl (h.jobs t ht)⟩
  rw [h.registry, deliveriesBetween_eq_nil fun _ => rfl] at hm
  cases hm

/-! ## Sending -/

theorem within_modifyMailbox {b : Nat} {f : Mailbox → Mailbox}
    (hf : ∀ m ∈ (f (w.registry.mailbox b)).messages.drop (w.registry.mailbox b).messages.length, m ∈ messages) :
    Within messages tasks w { w with registry := w.registry.modifyMailbox b f } := by
  refine ⟨.refl, fun m hm => ?_, fun t ht => .inl ht⟩
  obtain ⟨b', hm⟩ := mem_deliveriesBetween hm
  rcases mailbox_modifyMailbox w.registry b b' f with he | ⟨rfl, he⟩
  · rw [he, List.drop_length] at hm
    cases hm
  · rw [he] at hm
    exact hf m hm

theorem steps_sendTask (agent : String) (m : AgentMessage) :
    (Agent.sendTask i agent m).run.Steps (Within [m] tasks) := by
  refine steps_bind (steps_always (steps_aside (steps_read _))) fun fault => ?_
  cases fault with
  | some reason => trivial
  | none =>
    refine steps_bind (steps_always (steps_aside (steps_read _))) fun connection => ?_
    cases connection with
    | none => trivial
    | some conn =>
      refine steps_bind (steps_always (Program.steps_modify fun w => ?_)) fun _ => ?_
      · refine within_modifyMailbox fun m' hm' => ?_
        simp at hm'
      refine steps_bind (steps_always (Program.steps_waitFor _)) fun _ => ?_
      refine steps_bind (steps_always (Program.steps_apply fun w => ?_)) fun delivered => ?_
      · exact within_modifyMailbox (drop_deliver _ _ m)
      cases delivered with
      | true => trivial
      | false =>
        refine steps_bind (steps_always (Program.steps_modify fun w => ?_)) fun _ => trivial
        refine ⟨.refl, fun m' hm' => ?_, fun t ht => .inl ht⟩
        obtain ⟨b, hm'⟩ := mem_deliveriesBetween hm'
        simp [Registry.disconnect, Registry.mailbox] at hm'

/-! ## An attempt -/

/-- What an attempt knows of a task that it may start: the apply is confirmed if it is due. -/
def Startable (history : List GateEvent) (t : Task) : Prop := t.status = .applyPending → Confirmed history t.id

/-- What an attempt knows of a row that it claimed. -/
structure ClaimedBy (process : Nat) (history : List GateEvent) (seen claimed : Task) : Prop where
  id : claimed.id = seen.id
  stage : claimed.stage = some seen.stageOnStart
  event : .claimed process claimed seen.status ∈ history
  source : seen.status = .pending ∨ seen.status = .applyPending

theorem Startable.mono {h h' : List GateEvent} (hs : Startable h t) (hp : h <+: h') : Startable h' t :=
  fun ha => (hs ha).mono hp

theorem ClaimedBy.mono {h h' : List GateEvent} (hc : ClaimedBy i h t t') (hp : h <+: h') : ClaimedBy i h' t t' :=
  ⟨hc.id, hc.stage, hp.subset hc.event, hc.source⟩

/-- A transaction is seen by the rows that it starts. -/
theorem ensures_transact {f : Store → Except StoreError (α × Store)}
    {Q : Except String (Except StoreError α) → Scene World (List GateEvent) → Prop}
    (hf : ∀ s a s', s.Keyed → f s = .ok (a, s') → Kept s s')
    (hfail : ∀ e d, c.memory <+: d.memory → Q (.ok (.error e)) d)
    (hok : ∀ s a s' d, s.Keyed → f s = .ok (a, s') → c.memory <+: d.memory →
      (∀ p ∈ claimsBetween s s', .claimed i p.1 p.2 ∈ d.memory) → Q (.ok (.ok a)) d) :
    gate.Ensures i (Program.transact f) Q c := by
  refine ensures_apply fun d hcd hi => ?_
  refine ⟨keeps_of_within hi (?_ : Within [] [] _ _) (by simp) (by simp), fun e hde _ => ?_⟩
  · cases hr : f d.state.store with
    | ok r => exact within_store fun hk => hf _ r.1 r.2 hk hr
    | error e => exact within_refl
  have hce : c.memory <+: e.memory := (hcd.trans prefix_observe).trans hde
  cases hr : f d.state.store with
  | error err => exact hfail err e hce
  | ok r =>
    refine hok d.state.store r.1 r.2 e hi.keyed hr hce fun p hp => hde.subset ?_
    have hmem : ∀ w', w'.store = r.2 → .claimed i p.1 p.2 ∈ observe i d.state w' d.memory := by
      intro w' hw'
      unfold observe
      rw [hw']
      exact List.mem_append_left _ (List.mem_append_right _ (List.mem_map_of_mem hp))
    exact hmem _ (by simp only [hr])

/-- A claim that succeeds is seen, with the status that the attempt saw before. -/
theorem ensures_claim (seen : Task) (agent : Option String) :
    gate.Ensures i (claim cfg seen agent) (fun r d => c.memory <+: d.memory ∧
      ∀ claimed, r = .ok (.ok (some claimed)) → ClaimedBy i d.memory seen claimed) c := by
  refine .bind (ensures_get fun d hcd _ e hde _ => .bind ?_)
  have hce : c.memory <+: e.memory := hcd.trans (prefix_observe.trans hde)
  refine ensures_claimTask (ensures_transact (fun s a s' hk h => ?_) ?_ ?_) fun m f hi h => ?_
  · refine kept_claimTask hk ?_ h
    exact fun t => ⟨rfl, rfl⟩
  · intro err f hef g hfg _
    exact ⟨(hce.trans hef).trans hfg, fun claimed h => by cases h⟩
  · intro s answer s' f hk h hef hseen g hfg _
    refine ⟨(hce.trans hef).trans hfg, fun claimed hclaimed => ?_⟩
    rcases hk.claimTask_cases h with ⟨hno, -⟩ | ⟨t, ht, hid, hcl, rfl, rfl⟩
    · cases answer with
      | claimed t => exact absurd rfl (hno t)
      | _ => cases hclaimed
    · -- the row is seen to start, in the status in which the claim had to find it
      obtain ⟨row, hrow⟩ : ∃ row, row = Store.taken t (claimRequest cfg seen d.state.now)
        (Task.start seen.stageOnStart agent d.state.now) := ⟨_, rfl⟩
      rw [← hrow] at hclaimed hseen
      have hrid : row.id = t.id := by rw [hrow]; rfl
      have hrun : row.status = .running := by rw [hrow]; rfl
      have hstatus : t.status = seen.status := hcl.expected
      have hheld : Store.Holds { s with tasks := s.tasks.insert (taskKey seen.id) (.record row) } row := by
        unfold Store.Holds Task.key
        rw [hrid, hid, Table.get?_insert_self]
      have hsource : t.status = .pending ∨ t.status = .applyPending := by
        have hm := hcl.movable
        cases hst : t.status <;> rw [hst] at hm <;> simp [TaskStatus.canMove] at hm ⊢
      have hidle : t.status ≠ .running := by
        rcases hsource with h | h <;> rw [h] <;> decide
      have hevent := hseen _ (mem_claimsBetween hk hheld ht hrid.symm hrun hidle)
      cases hclaimed
      refine ⟨hrid.trans hid, by rw [hrow]; rfl, ?_, hstatus ▸ hsource⟩
      rw [← hstatus]
      exact hfg.subset hevent
  · exact ⟨(h f (List.prefix_refl _) hi).1, fun _ hno => by cases hno⟩

/-- The claim allows the message that tells the agent what to do. -/
theorem ClaimedBy.delivered {h : List GateEvent} (hc : ClaimedBy i h t t') (hs : Startable h t) :
    Allowed h (.delivered i ⟨t.id, t.workspace, actionFor t⟩) := by
  unfold Allowed actionFor
  by_cases ha : t.status = .applyPending
  · rw [if_pos ha]
    exact ⟨hs ha, t', hc.id, ha ▸ hc.event⟩
  · rw [if_neg ha]
    have hp : t.status = .pending := hc.source.resolve_right ha
    exact ⟨t', hc.id, hp ▸ hc.event⟩

/-- The claim allows the work on this machine, which goes by the stage of the claimed row. -/
theorem ClaimedBy.carriedOut {h : List GateEvent} (hc : ClaimedBy i h t t') (hs : Startable h t) :
    Allowed h (.carriedOut t') := by
  show Justified h t'.id (fun source => ∃ process, .claimed process t' source ∈ h) (localAction t')
  unfold localAction
  rw [hc.stage, hc.id]
  unfold Task.stageOnStart
  by_cases ha : t.status = .applyPending
  · rw [if_pos ha, if_pos rfl]
    exact ⟨hs ha, i, ha ▸ hc.event⟩
  · rw [if_neg ha, if_neg (by decide)]
    have hp : t.status = .pending := hc.source.resolve_right ha
    exact ⟨i, hp ▸ hc.event⟩

/-- A process keeps to the discipline, and the history that was known goes on. -/
def Safe (i : Nat) (h : List GateEvent) (p : Program World α) (c : Scene World (List GateEvent)) : Prop :=
  gate.Ensures i p (fun _ d => h <+: d.memory) c

variable {h h' : List GateEvent} {β ε : Type}

theorem Safe.shrink {p : Program World α} (hp : Safe i h' p c) (hh : h <+: h') : Safe i h p c :=
  hp.mono fun _ _ _ hd => hh.trans hd

theorem Safe.bind {p : Program World α} {k : α → Program World β} (hp : Safe i h p c)
    (hk : ∀ a d, h <+: d.memory → Safe i h (k a) d) : Safe i h (p >>= k) c := by
  refine Ensures.bind (hp.mono fun r d _ hd => ?_)
  cases r with
  | ok a => exact hk a d hd
  | error m => exact hd

theorem Safe.bind_run {p : Fallible ε α} {k : α → Fallible ε β} (hp : Safe i h p.run c)
    (hk : ∀ a d, h <+: d.memory → Safe i h (k a).run d) : Safe i h (p >>= k).run c := by
  refine Ensures.bind_run (hp.mono fun r d _ hd => ?_)
  match r with
  | .ok (.ok a) => exact hk a d hd
  | .ok (.error e) => exact hd
  | .error m => exact hd

theorem Safe.always {p : Program World α} (hp : Safe i h p c) : Safe i h (Fallible.always p : Fallible ε α).run c :=
  Ensures.always hp

theorem safe_of_steps {p : Program World α} (hp : p.Steps (Within [] [])) (hh : h <+: c.memory) : Safe i h p c :=
  (ensures_of_within hp (fun _ hm => by cases hm) (fun _ ht => by cases ht)).mono fun _ _ _ hd => hh.trans hd

theorem Safe.withLock {p : Program World α} {workspace : String} (hh : h <+: c.memory)
    (hp : ∀ d, h <+: d.memory → Safe i h p d) : Safe i h (Program.withLock i workspace p) c := by
  refine Safe.bind (safe_of_steps (steps_aside (steps_requestLock i workspace)) hh) fun _ d hd => ?_
  refine Ensures.andFinally ((hp d hd).mono fun r e _ he => ?_)
  have hrelease : Safe i h (Program.modify fun w => { w with locks := w.locks.release workspace i }) e :=
    safe_of_steps (steps_aside (steps_unlock i workspace)) he
  refine hrelease.mono fun u f _ hf => ?_
  cases u <;> exact hf

/-! ## What an attempt hands over -/

theorem safe_sendTask (agent : String) {m : AgentMessage} (ha : Allowed h (.delivered i m)) (hh : h <+: c.memory) :
    Safe i h (Agent.sendTask i agent m).run c := by
  have hsend : gate.Ensures i (Agent.sendTask i agent m).run (fun _ d => c.memory <+: d.memory) c := by
    refine ensures_of_within (steps_sendTask agent m) (fun m' hm => ?_) (fun t (ht : t ∈ []) => ?_)
    · rw [List.mem_singleton.1 hm]; exact ha.mono hh
    · cases ht
  exact hsend.mono fun _ _ _ hd => hh.trans hd

theorem safe_askFor {claimed : Task} (ha : Allowed h (.carriedOut claimed)) (hh : h <+: c.memory) :
    Safe i h (Program.modify (·.spawn (.runLocal claimed))) c := by
  have hsteps : (Program.modify fun w : World => w.spawn (.runLocal claimed)).Steps (Within [] [claimed]) :=
    Program.steps_modify fun _ => within_spawn fun t ht => by cases ht; exact List.mem_singleton.2 rfl
  have hask := ensures_of_within (i := i) (c := c) hsteps (fun _ hm => by cases hm) fun t ht => by
    rw [List.mem_singleton.1 ht]; exact ha.mono hh
  exact hask.mono fun _ _ _ hd => hh.trans hd

theorem safe_handOver (hs : Startable h t) (hh : h <+: c.memory) (target : Target) :
    Safe i h (handOver cfg i t target) c := by
  refine Ensures.bind ((ensures_claim t (some target.agent)).mono fun r d _ hr => ?_)
  obtain ⟨hcd, hclaim⟩ := hr
  have hd := hh.trans hcd
  match r with
  | .error m => exact hd
  | .ok (.error e) => exact safe_of_steps (.bind (steps_aside (steps_release _)) fun _ => steps_tidy (tidy_retryWithBackoff _ _)) hd
  | .ok (.ok none) => exact safe_of_steps (.bind (steps_aside (steps_release _)) fun _ => Program.steps_pure _) hd
  | .ok (.ok (some claimed)) =>
    have hallowed := (hclaim claimed rfl).delivered (hs.mono hd)
    refine Safe.shrink ?_ hd
    refine Safe.bind (safe_sendTask target.agent hallowed (List.prefix_refl _)) fun r' e he => ?_
    cases r' with
    | ok u =>
      have hend : ∀ o : DispatchOutcome, (settle cfg t.id >>= fun _ => pure o).Steps (Within [] []) := fun _ =>
        .bind (steps_tidy (tidy_settle _)) fun _ => Program.steps_pure _
      cases target.place with
      | none => exact safe_of_steps (hend _) he
      | some p => exact safe_of_steps (.bind (steps_aside (steps_onCapacity _)) fun _ => hend _) he
    | error err =>
      refine safe_of_steps ?_ he
      exact .bind (steps_aside (steps_release _)) fun _ => .bind (steps_tidy (tidy_rollBack t)) fun _ => steps_tidy (tidy_retryWithBackoff _ _)

theorem safe_startLocal (hs : Startable h t) (hh : h <+: c.memory) : Safe i h (startLocal cfg t) c := by
  refine Ensures.bind ((ensures_claim t none).mono fun r d _ hr => ?_)
  obtain ⟨hcd, hclaim⟩ := hr
  have hd := hh.trans hcd
  match r with
  | .error m => exact hd
  | .ok (.error e) => exact safe_of_steps (steps_tidy (tidy_retryWithBackoff _ _)) hd
  | .ok (.ok none) => exact safe_of_steps (Program.steps_pure _) hd
  | .ok (.ok (some claimed)) =>
    have hallowed := (hclaim claimed rfl).carriedOut (hs.mono hd)
    refine Safe.shrink ?_ hd
    refine Safe.bind (safe_of_steps (steps_tidy (tidy_settle _)) (List.prefix_refl _)) fun _ e he => ?_
    refine Safe.bind (safe_askFor hallowed he) fun _ f hf => ?_
    exact safe_of_steps (Program.steps_pure _) hf

theorem safe_pushToPool (hs : Startable h t) (hh : h <+: c.memory) (pool : String) (onPods : Bool)
    (place : Option Placement) : Safe i h (pushToPool cfg i t pool onPods place) c := by
  refine Safe.bind (safe_of_steps (Agent.steps_connected fun _ => within_refl) hh) fun connected d hd => ?_
  split
  · refine safe_of_steps (.bind (steps_aside (steps_release _)) fun _ => ?_) hd
    have hretry : (retryAfter t cfg.dispatch.noAgentsDelay .noConnectedAgents).Steps (Within [] []) :=
      steps_aside (steps_retryAfter _ _ _)
    split
    · exact .bind (Program.steps_modify fun _ => within_spawn fun t ht => by cases ht) fun _ => hretry
    · exact hretry
  · refine Safe.bind (safe_of_steps (steps_aside (steps_findTarget _ _ _ _)) hd) fun target e he => ?_
    cases target with
    | none => exact safe_of_steps (steps_tidy (tidy_retryWithBackoff _ _)) he
    | some target => exact safe_handOver hs he target

theorem safe_pushToAgent (hs : Startable h t) (hh : h <+: c.memory) (w : Workspace) :
    Safe i h (pushToAgent cfg i t w) c := by
  unfold pushToAgent pushToAgentBy
  cases w.pool with
  | none => exact safe_of_steps (steps_aside (steps_retryAfter _ _ _)) hh
  | some pool =>
    simp only
    split
    · refine Safe.bind (safe_of_steps (steps_aside (steps_findSlot pool)) hh) fun place d hd => ?_
      cases place with
      | none => exact safe_of_steps (steps_tidy (tidy_retryWithBackoff _ _)) hd
      | some place => exact safe_pushToPool hs hd pool true (some place)
    · exact safe_pushToPool hs hh pool false none

/-! ## Choosing a task -/

/-- What is known of a row that was read: if it says that it was confirmed, it was. -/
def Known (h : List GateEvent) (t : Task) : Prop := t.isApplyConfirmed = true → Confirmed h t.id

theorem Known.mono (hk : Known h t) (hp : h <+: h') : Known h' t := fun hc => (hk hc).mono hp

/-- A read of the store that finds a task finds what is known of it. -/
theorem safe_look_task {f : Store → Except StoreError (Option Task)} {k : Option Task → Fallible DispatchError β}
    (hf : ∀ s t, s.Keyed → f s = .ok (some t) → s.Holds t) (hh : h <+: c.memory)
    (hk : ∀ found h' d, h <+: h' → h' <+: d.memory → (∀ t, found = some t → Known h' t) → Safe i h' (k found).run d) :
    Safe i h (Dispatch.look f >>= k).run c := by
  refine Ensures.bind_run ?_
  refine Ensures.bind (ensures_get fun d hcd hi e hae _ => ?_)
  have hhd := hh.trans hcd
  have hde : d.memory <+: e.memory := prefix_observe.trans hae
  cases hr : f d.state.store with
  | error err =>
    refine ensures_pure fun g heg _ => ?_
    exact (hhd.trans hde).trans heg
  | ok found =>
    refine ensures_pure fun g heg _ => ?_
    refine (hk found d.memory g hhd (hde.trans heg) fun t ht => ?_).shrink hhd
    subst ht
    exact fun hc => hi.confirmed t (hf _ _ hi.keyed hr) hc

theorem safe_look {γ : Type} (f : Store → Except StoreError γ) (hh : h <+: c.memory) :
    Safe i h (Dispatch.look f).run c :=
  safe_of_steps (steps_aside (steps_look f)) hh

theorem safe_dispatchTask (hk : Known h t) (hh : h <+: c.memory) : Safe i h (dispatchTask cfg i t).run c := by
  unfold dispatchTask dispatchTaskBy
  split
  · exact safe_of_steps (Program.steps_pure _) hh
  · next hgate =>
    -- past the gate, an apply that is due was confirmed
    have hs : Startable h t := fun ha => hk (by simpa [ha] using hgate)
    refine Safe.bind_run (safe_look _ hh) fun found d hd => ?_
    cases found with
    | none => exact safe_of_steps (Program.steps_pure _) hd
    | some w =>
      simp only
      split
      · exact Safe.always (safe_startLocal hs hd)
      · exact Safe.always (safe_pushToAgent hs hd w)

theorem safe_resumeApply (seen : Task) (hh : h <+: c.memory) : Safe i h (resumeApply cfg i seen).run c := by
  refine safe_look_task (fun s t hs ht => (hs.task?_iff.1 ht).1) hh fun found h' d hh' hd hknown => ?_
  cases found with
  | none => exact safe_of_steps (Program.steps_pure _) hd
  | some current =>
    simp only
    split
    · exact safe_dispatchTask (hknown _ rfl) hd
    · exact safe_of_steps (Program.steps_pure _) hd

theorem safe_dispatchExclusive (workspace : String) (hh : h <+: c.memory) :
    Safe i h (dispatchExclusive cfg i workspace).run c := by
  refine safe_look_task (fun s t hs ht => (Store.nextTask_holds hs ht).1) hh fun found h' d hh' hd hknown => ?_
  cases found with
  | none => exact safe_of_steps (Program.steps_pure _) hd
  | some t => exact safe_dispatchTask (hknown _ rfl) hd

theorem safe_dispatchNext (workspace : String) (hh : h <+: c.memory) :
    Safe i h (dispatchNext cfg i workspace).run c := by
  refine Safe.bind_run (safe_look _ hh) fun onHold d hd => ?_
  cases onHold with
  | true => exact safe_of_steps (Program.steps_pure _) hd
  | false =>
    refine Safe.bind_run (safe_look _ hd) fun resumable e he => ?_
    cases resumable with
    | some seen => exact Safe.withLock he fun f hf => safe_resumeApply seen hf
    | none =>
      refine safe_look_task (fun s t hs ht => (Store.nextTask_holds hs ht).1) he fun found h' f hh' hf hknown => ?_
      cases found with
      | none => exact safe_of_steps (Program.steps_pure _) hf
      | some t =>
        simp only
        split
        · exact Safe.withLock hf fun g hg => safe_dispatchExclusive workspace hg
        · exact safe_dispatchTask (hknown _ rfl) hf

theorem safe_guarded {p : Fallible DispatchError DispatchOutcome} (workspace : String) (hp : Safe i h p.run c) :
    Safe i h (guarded cfg workspace p).run c := by
  refine Safe.bind (Ensures.attempt (hp.mono fun _ _ _ hd => hd)) fun r d hd => ?_
  cases r with
  | ok result => exact safe_of_steps (Program.steps_pure _) hd
  | error m =>
    exact safe_of_steps (.bind (steps_aside (steps_schedule _ _)) fun _ => Program.steps_pure _) hd

theorem safe_tryDispatch (workspace : String) (hh : h <+: c.memory) : Safe i h (tryDispatch cfg i workspace).run c :=
  safe_guarded workspace (safe_dispatchNext workspace hh)

theorem safe_executeConfirmedApply (workspace : String) (task : UInt64) (hh : h <+: c.memory) :
    Safe i h (executeConfirmedApply cfg i workspace task).run c := by
  unfold executeConfirmedApply executeConfirmedApplyBy
  rw [confirmedTask_eq, bind_assoc]
  refine safe_look_task (fun s t hs ht => (hs.task?_iff.1 ht).1) hh fun found h' d _ hd hknown => ?_
  cases found with
  | none => exact safe_of_steps (Program.steps_pure _) hd
  | some t =>
    simp only
    cases refusal workspace task t with
    | some e => exact safe_of_steps (Program.steps_pure _) hd
    | none =>
      simp only [pure_bind]
      refine Safe.bind_run (safe_look _ hd) fun onHold e he => ?_
      cases onHold with
      | true => exact safe_of_steps (Program.steps_pure _) he
      | false =>
        refine Safe.withLock he fun f hf => ?_
        exact safe_guarded workspace (safe_dispatchTask (hknown t rfl) hf)

/-! ## Runs -/

/-- A change of a row that keeps its ID and its confirmation, or fails. -/
def KeepsRow (change : Task → Except StoreError Task) : Prop :=
  ∀ t t', change t = .ok t' → t'.id = t.id ∧ t'.confirmedBy = t.confirmedBy

/-- What happens beside the processes: operators submit and confirm, agents, commands and
    other orchestrators change and claim rows, and everything but the rows may change at any
    time, as long as nobody but a process asks for work on this machine. -/
inductive OutsideGate (c : Scene World (List GateEvent)) : Scene World (List GateEvent) → Prop
  | create {t' : Task} {s' : Store} (t : Task) : t.status = .pending → t.confirmedBy = none →
      c.state.store.createTask t = some (t', s') → OutsideGate c ⟨{ c.state with store := s' }, c.memory⟩
  | confirm {t' : Task} {s' : Store} (task : UInt64) (user : String) (now : UInt64) :
      c.state.store.confirmApply task user now = .ok (t', s') →
      OutsideGate c ⟨{ c.state with store := s' }, c.memory ++ [.confirmed task user]⟩
  | change {t' : Task} {s' : Store} (task : UInt64) (change : Task → Except StoreError Task) : KeepsRow change →
      c.state.store.updateTask task change = .ok (t', s') → OutsideGate c ⟨{ c.state with store := s' }, c.memory⟩
  | claim {answer : Claim} {s' : Store} (task : UInt64) (r : ClaimRequest) (edit : Task → Task) :
      (∀ t, (edit t).id = t.id ∧ (edit t).confirmedBy = t.confirmedBy) →
      c.state.store.claimTask task r edit = .ok (answer, s') → OutsideGate c ⟨{ c.state with store := s' }, c.memory⟩
  | surroundings (w : World) : w.store.tasks = c.state.store.tasks →
      (∀ t, .runLocal t ∈ w.spawned → .runLocal t ∈ c.state.spawned) → OutsideGate c ⟨w, c.memory⟩

/-- The processes that begin, each with settings of its own; work on this machine begins
    only where it was asked for. -/
inductive BeginsGated (c : Scene World (List GateEvent)) (process : Nat) :
    Program World Unit → Scene World (List GateEvent) → Prop
  | dispatch (cfg : Settings) (workspace : String) :
      BeginsGated c process (ignoring (tryDispatch cfg process workspace)) c
  | apply (cfg : Settings) (workspace : String) (task : UInt64) :
      BeginsGated c process (ignoring (executeConfirmedApply cfg process workspace task)) c
  | completed (task : UInt64) : BeginsGated c process (ignoring (onTaskCompleted task)) c
  | sweep (now : UInt64) : BeginsGated c process (ignoring (Recovery.sweep now)) c
  | recover : BeginsGated c process (ignoring Recovery.recover) c
  | runLocal (cfg : Settings) (start : CommandSpec → Task → AgentAction → ProgramEnd) (t : Task) :
      .runLocal t ∈ c.state.spawned →
      BeginsGated c process (runLocal cfg start t)
        ⟨{ c.state with spawned := c.state.spawned.erase (.runLocal t) }, c.memory ++ [.carriedOut t]⟩

theorem Inv.congr {d : Scene World (List GateEvent)} (hi : Inv c) (hrows : d.state.store.tasks = c.state.store.tasks)
    (hjobs : ∀ t, .runLocal t ∈ d.state.spawned → .runLocal t ∈ c.state.spawned) {l : List GateEvent}
    (hm : d.memory = c.memory ++ l) (hl : ∀ e ∈ l, Allowed c.memory e) : Inv d := by
  have hp : c.memory <+: d.memory := by rw [hm]; exact List.prefix_append _ _
  refine ⟨hi.keyed.congr hrows, fun t ht hc => ?_, fun t ht => (hi.jobs t (hjobs t ht)).mono hp, ?_⟩
  · exact (hi.confirmed t ((Store.Holds.congr hrows).1 ht) hc).mono hp
  · rw [hm]; exact hi.sound.append hl

theorem Inv.kept (hi : Inv c) (hk : Kept c.state.store s') : Inv ⟨{ c.state with store := s' }, c.memory⟩ := by
  refine ⟨hk.keyed, fun t' ht' hc => ?_, hi.jobs, hi.sound⟩
  obtain ⟨t, ht, hid, hby⟩ := hk.rows t' ht'
  have hc' : t.isApplyConfirmed = true := by unfold Task.isApplyConfirmed at hc ⊢; rwa [← hby]
  exact hid ▸ hi.confirmed t ht hc'

/-- A confirmed row is of a task that an operator has just confirmed, or was confirmed before. -/
theorem Inv.confirm (hi : Inv c) {task : UInt64} {user : String} {now : UInt64}
    (h : c.state.store.confirmApply task user now = .ok (t', s')) :
    Inv ⟨{ c.state with store := s' }, c.memory ++ [.confirmed task user]⟩ := by
  obtain ⟨t, _, rfl, _, rfl, rfl⟩ := hi.keyed.of_confirmApply h
  have hp : c.memory <+: c.memory ++ [.confirmed t.id user] := List.prefix_append _ _
  refine ⟨hi.keyed.setTask _, fun u hu hc => ?_, fun u hu => (hi.jobs u hu).mono hp, hi.sound.snoc trivial⟩
  rcases Store.holds_setTask.1 hu with rfl | ⟨hu, -⟩
  · have hne : user ≠ "" := by simpa [Task.isApplyConfirmed] using hc
    exact ⟨user, hne, List.mem_append_right _ (List.mem_singleton.2 rfl)⟩
  · exact (hi.confirmed u hu hc).mono hp

theorem Inv.create (hi : Inv c) (hc : t.confirmedBy = none) (h : c.state.store.createTask t = some (t', s')) :
    Inv ⟨{ c.state with store := s' }, c.memory⟩ := by
  obtain ⟨-, rfl, rfl⟩ := Store.createTask_cases h
  have hkeyed : Store.Keyed { c.state.store with lastTaskId := c.state.store.lastTaskId + 1 } := hi.keyed.congr rfl
  refine ⟨hkeyed.setTask { t with id := c.state.store.lastTaskId + 1 }, fun u hu hconf => ?_, hi.jobs, hi.sound⟩
  rcases Store.holds_setTask.1 hu with rfl | ⟨hu, -⟩
  · simp [Task.isApplyConfirmed, hc] at hconf
  · exact hi.confirmed u hu hconf

theorem OutsideGate.keeps {d : Scene World (List GateEvent)} (hi : Inv c) (h : OutsideGate c d) :
    Inv d ∧ c.memory <+: d.memory := by
  cases h with
  | create t _ hc h => exact ⟨hi.create hc h, List.prefix_refl _⟩
  | confirm task user now h => exact ⟨hi.confirm h, List.prefix_append _ _⟩
  | change task change hchange h => exact ⟨hi.kept (kept_updateTask hi.keyed hchange h), List.prefix_refl _⟩
  | claim task r edit hedit h => exact ⟨hi.kept (kept_claimTask hi.keyed hedit h), List.prefix_refl _⟩
  | surroundings w hrows hjobs =>
    refine ⟨hi.congr hrows hjobs (List.append_nil _).symm fun e he => ?_, List.prefix_refl _⟩
    cases he

theorem Safe.ignoring {p : Fallible ε α} (hp : Safe i h p.run c) : Safe i h (Fallible.ignoring p) c :=
  Safe.bind hp fun _ _ hd => safe_of_steps (Program.steps_pure _) hd

theorem BeginsGated.keeps {p : Program World Unit} {d : Scene World (List GateEvent)} (hi : Inv c)
    (h : BeginsGated c i p d) :
    gate.Keeps i c d ∧ Safe i d.memory p d := by
  have hsame : gate.Keeps i c c := ⟨hi, fun _ _ => List.prefix_refl _⟩
  cases h with
  | dispatch cfg workspace => exact ⟨hsame, (safe_tryDispatch workspace (List.prefix_refl _)).ignoring⟩
  | apply cfg workspace task => exact ⟨hsame, (safe_executeConfirmedApply workspace task (List.prefix_refl _)).ignoring⟩
  | completed task => exact ⟨hsame, (safe_of_steps (steps_tidy (tidy_onTaskCompleted task)) (List.prefix_refl _)).ignoring⟩
  | sweep now => exact ⟨hsame, (safe_of_steps (steps_tidy (tidy_sweep now)) (List.prefix_refl _)).ignoring⟩
  | recover => exact ⟨hsame, (safe_of_steps (steps_tidy tidy_recover) (List.prefix_refl _)).ignoring⟩
  | runLocal cfg start t hjob =>
    refine ⟨⟨hi.congr rfl (fun u hu => List.mem_of_mem_erase hu) rfl fun e he => ?_, fun _ _ => List.prefix_append _ _⟩,
      safe_of_steps (steps_tidy (tidy_runLocal start)) (List.prefix_refl _)⟩
    rw [List.mem_singleton.1 he]
    exact hi.jobs t hjob

theorem keeping {w : World} (hs : w.store = {}) (hj : w.spawned = []) :
    gate.Keeping OutsideGate BeginsGated ⟨w, []⟩ fun _ _ _ => True where
  first := by
    refine ⟨?_, ?_, ?_, .nil⟩
    · show w.store.Keyed
      rw [hs]; exact Store.keyed_empty
    · intro t ht
      have ht : w.store.Holds t := ht
      rw [hs] at ht
      cases ht
    · intro t ht
      have ht : .runLocal t ∈ w.spawned := ht
      rw [hj] at ht
      cases ht
  outside := fun c d hi h => ⟨(h.keeps hi).1, fun _ => (h.keeps hi).2⟩
  begins := fun c i p d hi h => ⟨(h.keeps hi).1, (h.keeps hi).2.mono fun _ _ _ _ => trivial⟩

/-- In every run, each apply that was handed over was confirmed before by an operator with a
    name and claimed by the same attempt while it waited for that, and each plan was claimed
    by the same attempt while it was pending. An apply that may not start is refused for its
    own reason, and nothing is changed. -/
theorem hand_overs_are_confirmed :
    (∀ (w : World) (c : Scene World (List GateEvent)) (crew : List (Program World Unit)),
      w.store = {} → w.spawned = [] → gate.Run OutsideGate BeginsGated ⟨w, []⟩ c crew →
      ∀ before e after, c.memory = before ++ e :: after → Allowed before e) ∧
    (∀ (cfg : Settings) (process : Nat) (workspace : String) (task : UInt64) (w : World),
      (w.store.task? task = .ok none →
        (executeConfirmedApply cfg process workspace task).run.run w = (.finished (.error (.taskNotFound task)), w)) ∧
      ∀ t, w.store.task? task = .ok (some t) →
        (t.workspace ≠ workspace →
          (executeConfirmedApply cfg process workspace task).run.run w =
            (.finished (.error (.workspaceMismatch task workspace t.workspace)), w)) ∧
        (t.workspace = workspace → t.status ≠ .applyPending →
          (executeConfirmedApply cfg process workspace task).run.run w =
            (.finished (.error (.notApplyPending task t.status)), w)) ∧
        (t.workspace = workspace → t.status = .applyPending → t.isApplyConfirmed = false →
          (executeConfirmedApply cfg process workspace task).run.run w =
            (.finished (.error (.unconfirmedApply task)), w))) := by
  refine ⟨fun w c crew hs hj hrun before e after he => ?_, fun cfg process workspace task w => ⟨fun hnone => ?_, ?_⟩⟩
  · exact (hrun.sound (keeping hs hj)).1.sound.allowed he
  · exact run_executeConfirmedApply_missing hnone
  intro t ht
  refine ⟨fun hws => ?_, fun hws hst => ?_, fun hws hst hc => ?_⟩
  · exact run_executeConfirmedApply_refused ht (by simp [refusal, hws])
  · exact run_executeConfirmedApply_refused ht (by simp [refusal, hws, hst])
  · exact run_executeConfirmedApply_refused ht (by simp [refusal, hws, hst, hc])

/-! ## One confirmed apply -/

/-- A task that waits for its apply on this machine. -/
def oneApplyDue : Store :=
  let s := ({} : Store).putWorkspace { id := "ws", mode := .onHost }
  (s.addTask (.submitted "ws" .planAndApply 0 .manual) 1).2.setTask
    { Task.submitted "ws" .planAndApply 0 .manual with id := 1, status := .applyPending }

/-- An operator confirmed it. -/
def oneApplyConfirmed : Store :=
  oneApplyDue.setTask { Task.submitted "ws" .planAndApply 0 .manual with
    id := 1, status := .applyPending, confirmedBy := some "alice", confirmedAt := some 0 }

theorem run_oneApplyConfirmed :
    gate.Run OutsideGate BeginsGated ⟨{ clock := 0 }, []⟩
      ⟨{ clock := 0, store := oneApplyConfirmed }, [.confirmed 1 "alice"]⟩ [] := by
  have hstart : gate.Run OutsideGate BeginsGated ⟨{ clock := 0 }, []⟩ ⟨{ clock := 0 }, []⟩ [] := .start
  have hwork := hstart.outside (.surroundings
    { clock := 0, store := ({} : Store).putWorkspace { id := "ws", mode := .onHost } } rfl fun _ h => h)
  have hcreated := hwork.outside (.create (.submitted "ws" .planAndApply 0 .manual) rfl rfl rfl)
  have hdue := hcreated.outside (.change 1 (fun t => .ok { t with status := .applyPending })
    (fun t t' h => by cases h; exact ⟨rfl, rfl⟩) rfl)
  exact hdue.outside (.confirm 1 "alice" 0 rfl)

theorem hand_overs_are_confirmed_one_apply :
    ∃ c crew before t, gate.Run OutsideGate BeginsGated ⟨{ clock := 0 }, []⟩ c crew ∧
      c.memory = before ++ [.carriedOut t] ∧
      localAction t = .apply ∧ Allowed before (.carriedOut t) ∧
      (executeConfirmedApply { holder := "a" } 0 "ws" 2).run.run c.state = (.finished (.error (.taskNotFound 2)), c.state) := by
  have hbegun := run_oneApplyConfirmed.begins (.apply { holder := "a" } "ws" 1)
  obtain ⟨before, hended⟩ := hbegun.alone (i := 0) rfl rfl
  have hcarried := hended.begins
    (.runLocal { holder := "a" } (fun _ _ _ => .ended (.code 0) []) _ (List.mem_singleton.2 rfl))
  refine ⟨_, _, before, _, hcarried, rfl, by decide, ?_, ?_⟩
  · exact hand_overs_are_confirmed.1 _ _ _ rfl rfl hcarried before _ [] rfl
  · exact (hand_overs_are_confirmed.2 { holder := "a" } 0 "ws" 2 _).1 rfl

end TaskFleet.Gate
