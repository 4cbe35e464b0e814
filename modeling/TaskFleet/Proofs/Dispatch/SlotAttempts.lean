/-
  TaskFleet.Proofs.Dispatch.SlotAttempts — attempts from the lock to the slot and back.

  - `leads_release`, `leads_findSlot`, `leads_claim`: the steps of an attempt with its slot.
  - `leads_handOver` … `leads_pushToAgent`: an attempt that ends as started has launched the
    task with a slot, or the task's workspace needs none.
  - `leads_withLock`, `leads_tryDispatch`, `leads_executeConfirmedApply`: the same for whole
    attempts. An apply that is resumed is read again under the lock; one that is executed is
    not, and relies only on its row going on.
-/

import TaskFleet.Proofs.Dispatch.SlotRules
import TaskFleet.Proofs.Store.Queries
import TaskFleet.Proofs.Store.RowChanges

namespace TaskFleet.Tenure

open Fallible Dispatch Discipline

variable {A : Roles} {cfg : Settings} {i j : Nat} {c d : Moment} {h h' : History} {t t' seen : Task}
  {w w' : World} {x : Spot} {task : UInt64} {p : Option Nat} {α β ε : Type} {Q : α → Moment → Prop}
  {F : Moment → Prop}

/-! ## Taking and giving back a slot -/

variable {place : Option Placement}

theorem Hand.rely (hc : Hand A i t place c) (hr : (tenure A).Rely i c d) : Hand A i t place d :=
  (steady_hand A i t place).rely c d hc hr

theorem Hand.empty (hc : Hand A i t place c) : Hand A i t none c := ⟨hc.1, fun p hp => by cases hp⟩

theorem leads_release (hc : Hand A i t place c) : (tenure A).Leads i (release place) (fun _ d => Hand A i t none d) c := by
  cases place with
  | none => exact leads_pure fun d hr => hc.rely hr
  | some p =>
    refine .bind (R := fun _ d => Hand A i t none d) ?_ fun _ d hd => leads_pure fun e hr => hd.rely hr
    refine leads_onCapacity (steady_hand A i t (some p)) hc (fun d a capacity hi hd hr => ?_) fun _ e he => he.empty
    obtain ⟨capacity', hr', heq⟩ := map_eq_ok_iff.1 hr
    cases heq
    have hcleared := Capacity.release_ok (y := p.spot) hi.order hr'
    have hproper : Proper A (some i) d.memory d.state { d.state with capacity } := by
      refine proper_capacity hi.sane hcleared.order fun x task hbefore hafter => ?_
      by_cases hx : x = p.spot
      · subst hx
        exact (hd.2 p rfl).excused hi hd.1 hbefore
      · rw [hcleared.others x hx] at hafter
        exact absurd hbefore hafter
    refine ⟨hproper, fun e hr => Hand.rely (c := next i d _) ?_ hr⟩
    exact ⟨hd.1.step hproper rfl, fun p hp => by cases hp⟩

/-- Binding an idle slot is a way of taking it. -/
theorem leads_allocate {f : Capacity → UInt64 → Except CapacityError (Placement × Capacity)} (hc : Hand A i t none c)
    (hf : ∀ before now p after, before.Order → f before now = .ok (p, after) →
      Capacity.Bound before after p.spot t.id) :
    (tenure A).Leads i (Program.onCapacity f) (fun r d => Hand A i t r.toOption d) c := by
  refine leads_onCapacity (steady_hand A i t none) hc (fun d p capacity hi hd hr => ?_) fun _ e he => he
  have hbound := hf _ _ p capacity hi.order hr
  have hown := (quiet_bound fun _ => hbound).own (i := i) hi
  refine ⟨hown.proper, fun e hr => Hand.rely (c := next i d _) ⟨?_, fun q hq => ?_⟩ hr⟩
  · exact ((steady_hand A i t none).own d _ hi hd hown).1
  · cases hq
    refine ⟨d.memory, ⟨some i, d.state, { d.state with capacity }⟩, [], rfl,
      ⟨rfl, hbound.here, .inl ⟨?_, hbound.here⟩⟩, ?_⟩
    · rw [hbound.free]; simp
    · intro e' he'; cases he'

theorem leads_findSlot (hc : Hand A i t none c) (pool : String) :
    (tenure A).Leads i (findSlot cfg t pool) (fun place d => Hand A i t place d) c := by
  refine .bind (R := fun place d => Hand A i t place d) ?_ fun held d hd => ?_
  · refine Ensures.mono (ensures_get (Q := fun r d => ∀ place, r = .ok place → Hand A i t place d)
      fun d hr hi e hde _ place hplace => ?_) fun _ _ _ hd => hd
    cases hplace
    refine Hand.rely (c := next i d d.state) ?_ hde
    have hd : Hand A i t none d := hc.rely hr
    have hnext : Hand A i t none (next i d d.state) := (steady_hand A i t none).own d _ hi hd (ownStep_refl hi)
    refine ⟨hnext.1, fun p hp => ?_⟩
    -- a slot that is found is that of an exclusive task, whose lock the attempt has
    split at hp
    · next hst =>
      obtain ⟨t', ht', hgoes⟩ := hd.1.row
      have hex := hd.1.waiting hst
      refine ⟨d.memory, ⟨some i, d.state, d.state⟩, [], rfl, ⟨rfl, ?_, .inr ⟨t', ht', hgoes.id, ?_, ?_⟩⟩, ?_⟩
      · exact Capacity.taskAt_of_placementOf? hi.order.named hp
      · rw [hgoes.kind]; exact hex
      · rw [hgoes.workspace]; exact hd.1.lock hex
      · intro e' he'; cases he'
    · cases hp
  · cases held with
    | some p => exact leads_pure fun e hr => hd.rely hr
    | none =>
      refine .bind (leads_allocate hd fun _ _ _ _ ho h => Capacity.allocate_ok ho h) fun r d hd => ?_
      exact leads_pure fun e hr => hd.rely hr

theorem leads_allocateOnFirst (hc : Hand A i t none c) (agents : List String) :
    (tenure A).Leads i (allocateOnFirst t agents) (fun r d => Hand A i t (r.map (·.2)) d) c := by
  induction agents generalizing c with
  | nil => exact leads_pure fun d hr => hc.rely hr
  | cons agent rest ih =>
    refine .bind (leads_allocate hc fun _ _ _ _ ho h => Capacity.allocateOnAgent_ok ho h) fun r d hd => ?_
    cases r with
    | ok p => exact leads_pure fun e hr => hd.rely hr
    | error e => exact ih hd

/-- Looking for an agent; on pods, the agent that is found comes with a slot. -/
theorem leads_findTarget (hc : Hand A i t place c) (pool : String) (onPods : Bool) (connected : List String)
    (hplace : onPods = true → place.isSome = true) :
    (tenure A).Leads i (findTarget t pool onPods place connected) (fun target d => Hand A i t (target.bind (·.place)) d ∧
      ∀ found, target = some found → onPods = true → found.place.isSome = true) c := by
  unfold findTarget
  split
  · refine leads_pure fun d hr => ⟨hc.rely hr, fun found hfound => ?_⟩
    cases hfound
    exact hplace
  · refine .bind (leads_release hc) fun _ d hd => ?_
    refine .bind (leads_quiet (Agent.steps_candidates quiet_refl pool t.kind) (steady_hand A i t none) hd) fun candidates e he => ?_
    split
    · refine .bind (leads_allocateOnFirst he candidates) fun r f hf => ?_
      refine leads_pure fun g hr => ⟨?_, fun found hfound _ => ?_⟩
      · cases r with
        | none => exact hf.rely hr
        | some r => exact hf.rely hr
      · obtain ⟨r', _, rfl⟩ := Option.map_eq_some_iff.1 hfound
        rfl
    · next hno =>
      refine leads_pure fun f hr => ⟨?_, fun found _ honPods => absurd honPods hno⟩
      cases candidates with
      | nil => exact he.rely hr
      | cons a l => exact he.rely hr

/-! ## Starting a task and taking that back -/

theorem continues_of_tame (h : t.Tame t') : t.Continues t' := by
  refine ⟨h.id, h.workspace, h.kind, fun hover => ?_⟩
  rcases h.move with hsame | hmove
  · rw [hsame]; exact hover
  · have hnone := TaskStatus.canMove_of_terminal hover t'.status
    exact absurd hmove (by simp [TaskStatus.Move, hnone])

theorem ownStep_setTask (hi : Inv A c) {u u' : Task} (hu : c.state.store.Holds u) (hgoes : u.Continues u')
    (hwaiting : u'.status = .applyPending → u'.kind.isExclusive = true)
    (hstarts : u'.status = .running → u'.kind.isExclusive = true → u.status = .running ∨
      c.state.locks.holds u'.workspace i = true) :
    OwnStep A i c { c.state with store := c.state.store.setTask u' } where
  proper := by
    refine proper_setTask hi.sane hu hgoes hwaiting fun hrun hex => ?_
    rcases hstarts hrun hex with hrun | hlock
    · exact .inl hrun
    · exact .inr ⟨i, rfl, hlock⟩
  locks := rfl
  keeps := fun _ _ htask => htask

/-- A claim of an exclusive task comes from the process that has the lock. -/
theorem ownStep_claim (hi : Inv A c) (hw : AtWork A i t c) {r : ClaimRequest} {edit : Task → Task} {answer : Claim}
    {s' : Store} (hedit : ∀ u, (edit u).id = u.id ∧ (edit u).workspace = u.workspace ∧ (edit u).kind = u.kind ∧
      (edit u).status = u.status)
    (h : c.state.store.claimTask t.id r edit = .ok (answer, s')) : OwnStep A i c { c.state with store := s' } := by
  rcases hi.keyed.claimTask_cases h with ⟨-, rfl⟩ | ⟨u, hu, huid, hcl, -, rfl⟩
  · exact ownStep_refl hi
  · obtain ⟨hid, hws, hkind, hstatus⟩ := hedit { u with status := .running, lease := r.lease? }
    obtain ⟨row, hrow⟩ : ∃ row, row = Store.taken u r edit := ⟨_, rfl⟩
    have hid : row.id = u.id := by rw [hrow]; exact hid
    have hws : row.workspace = u.workspace := by rw [hrow]; exact hws
    have hkind : row.kind = u.kind := by rw [hrow]; exact hkind
    have hstatus : row.status = .running := by rw [hrow]; exact hstatus
    rw [← hrow, Store.insert_eq_setTask (hid.trans huid)]
    have hactive : u.status.isTerminal = true → row.status.isTerminal = true := by
      intro hover
      have hmove := hcl.movable
      rw [TaskStatus.canMove_of_terminal hover] at hmove
      cases hmove
    refine ownStep_setTask hi hu ⟨hid, hws, hkind, hactive⟩ (fun hst => ?_) fun _ hex => .inr ?_
    · rw [hstatus] at hst; cases hst
    · -- the row is that of the attempt's task
      obtain ⟨t', ht', hgoes⟩ := hw.row
      have hsame : t' = u := Store.holds_inj ht' hu (hgoes.id.trans huid.symm)
      subst hsame
      rw [hws, hgoes.workspace]
      rw [hkind, hgoes.kind] at hex
      exact hw.lock hex

/-- A claim that is granted starts the task. -/
theorem starts_claim (hi : Inv A c) {r : ClaimRequest} {edit : Task → Task} {row : Task} {store : Store}
    (hedit : ∀ u, (edit u).id = u.id ∧ (edit u).status = u.status)
    (h : c.state.store.claimTask t.id r edit = .ok (.claimed row, store)) :
    Step.Starts ⟨p, c.state, { c.state with store }⟩ t.id := by
  rcases hi.keyed.claimTask_cases h with ⟨hno, -⟩ | ⟨u, hu, huid, hcl, hrow, rfl⟩
  · exact absurd rfl (hno row)
  · obtain ⟨row', hrow'⟩ : ∃ row', row' = Store.taken u r edit := ⟨_, rfl⟩
    have hid : row'.id = u.id := by rw [hrow']; exact (hedit _).1
    have hstatus : row'.status = .running := by rw [hrow']; exact (hedit _).2
    refine ⟨?_, ?_⟩
    · rintro ⟨u', hu', huid', hrun⟩
      have hsame : u' = u := Store.holds_inj hu' hu (huid'.trans huid.symm)
      have hmove := hcl.movable
      rw [← hsame, hrun] at hmove
      cases hmove
    · rw [← hrow', Store.insert_eq_setTask (hid.trans huid)]
      exact ⟨row', Store.holds_setTask.2 (.inl rfl), hid.trans huid, hstatus⟩

/-- A claim that is granted comes from a process that has its slot by then. -/
theorem leads_claim (hF : Steady A i F) (hc : F c) (hhand : ∀ d, F d → Hand A i t place d) (agent : Option String) :
    (tenure A).Leads i (claim cfg t agent) (fun r d => F d ∧
      ∀ row, r = .ok (some row) → ∀ p, place = some p → Launched i p.spot t.id d.memory) c := by
  refine .bind (leads_quiet (steps_read _) hF hc) fun now d hd => ?_
  refine .bind (R := fun r d => F d ∧
    ∀ row, r = .ok (.claimed row) → ∀ p, place = some p → Launched i p.spot t.id d.memory) ?_ fun r e he => ?_
  · refine leads_claimTask (leads_transact hF hd
      (fun e answer store hi he hr => ⟨?_, fun f hf hef => ⟨hf, fun row hrow p hp => ?_⟩⟩)
      fun err f hf => ⟨hf, fun row hrow => by cases hrow⟩)
    · refine ownStep_claim hi (hhand e he).1 ?_ hr
      exact fun u => ⟨rfl, rfl, rfl, rfl⟩
    · cases hrow
      refine (lasting_launched i p.spot t.id).steady.rely (next i e { e.state with store }) f ?_ hef
      refine ⟨e.memory, _, [], rfl, rfl, starts_claim hi ?_ hr, (hhand e he).2 p hp, fun e' he' _ hfrees => ?_⟩
      · exact fun u => ⟨rfl, rfl⟩
      · rw [List.mem_singleton.1 he'] at hfrees
        exact hfrees.2 hfrees.1
  · refine leads_pure fun f hr => ⟨hF.rely e f he.1 hr, fun row hrow p hp => ?_⟩
    refine (lasting_launched i p.spot t.id).steady.rely e f ?_ hr
    match r with
    | .ok (.claimed row') => exact he.2 row' rfl p hp

/-- A claim is taken back to a status in which only exclusive tasks wait for an apply. -/
theorem ownStep_rollBack (hi : Inv A c) (hw : AtWork A i t c) {s' : Store}
    (h : c.state.store.updateTask t.id (Task.rollBack t) = .ok (t', s')) :
    OwnStep A i c { c.state with store := s' } := by
  obtain ⟨u, hu, huid, hch, hset⟩ := hi.keyed.of_updateTask h
  have hgoes := continues_of_tame (Task.tame_rollBack hch)
  rw [hset hgoes.id]
  unfold Task.rollBack at hch
  split at hch
  · have hsame : u = t' := Except.ok.inj hch
    rw [← hsame] at hgoes ⊢
    exact ownStep_setTask hi hu hgoes (hi.waiting u hu) fun hrun _ => .inl hrun
  · next hrun =>
    obtain ⟨-, rfl⟩ := Store.map_move_ok_iff.1 hch
    refine ownStep_setTask hi hu hgoes (fun hst => ?_) fun _ _ => .inl (Classical.not_not.1 hrun)
    obtain ⟨v, hv, hvgoes⟩ := hw.row
    have hsame : v = u := Store.holds_inj hv hu (hvgoes.id.trans huid.symm)
    subst hsame
    rw [hgoes.kind, hvgoes.kind]
    exact hw.waiting hst

theorem leads_rollBack (hc : Hand A i t place c) : (tenure A).Leads i (rollBack t) (fun _ d => Hand A i t place d) c := by
  refine .bind (R := fun _ d => Hand A i t place d) ?_ fun _ d hd => leads_pure fun e hr => hd.rely hr
  refine leads_transact (steady_hand A i t place) hc (fun d _ _ hi hd hr => ?_) fun _ _ he => he
  exact ⟨ownStep_rollBack hi hd.1 hr, fun e he _ => he⟩

/-! ## What an attempt ends with -/

/-- The process looked when the task's workspace did not run on pods. -/
def OffPods (h : History) (i : Nat) (task : UInt64) : Prop :=
  ∃ e ∈ h, e.process = some i ∧ ∃ t ws, e.before.store.Holds t ∧ t.id = task ∧
    e.before.store.workspace? t.workspace = .ok (some ws) ∧ ws.mode ≠ .kubernetes

/-- An attempt that started a task on an agent of a pod has a slot for it. -/
def Outcome (i : Nat) (o : DispatchOutcome) (c : Moment) : Prop :=
  ∀ task agent, o = .started task (some agent) → OffPods c.memory i task ∨ ∃ x, Launched i x task c.memory

theorem OffPods.mono (ho : OffPods h i task) (hp : h <+: h') : OffPods h' i task := by
  obtain ⟨e, he, hrest⟩ := ho
  exact ⟨e, hp.subset he, hrest⟩

theorem steady_offPods (i : Nat) (task : UInt64) : Steady A i fun c => OffPods c.memory i task where
  rely := fun _ _ hc hr => hc.mono (prefix_of_rely hr)
  own := fun _ _ _ hc _ => hc.mono (List.prefix_append _ _)

theorem Outcome.rely {o : DispatchOutcome} (ho : Outcome i o c) (hr : (tenure A).Rely i c d) : Outcome i o d := by
  intro task agent h
  rcases ho task agent h with hoff | ⟨x, hlaunched⟩
  · exact .inl (hoff.mono (prefix_of_rely hr))
  · exact .inr ⟨x, (lasting_launched i x task).steady.rely c d hlaunched hr⟩

theorem leads_outcome {o : DispatchOutcome} (ho : ∀ task agent, o ≠ .started task (some agent)) :
    (tenure A).Leads i (pure o) (Outcome i) c := leads_pure fun _ _ task agent h => absurd h (ho task agent)

theorem leads_retryAfter (seen : Task) (delay : Duration) (reason : RetryReason) :
    (tenure A).Leads i (retryAfter seen delay reason) (Outcome i) c :=
  .bind (leads_quiet (steps_schedule _ _) (steady_true A i) trivial) fun _ _ _ =>
    leads_outcome fun _ _ h => by cases h

theorem leads_retryWithBackoff (seen : Task) (reason : RetryReason) :
    (tenure A).Leads i (retryWithBackoff cfg seen reason) (Outcome i) c := by
  refine .bind (R := fun _ _ => True) (leads_quiet ?_ (steady_true A i) trivial) fun _ _ _ => leads_retryAfter _ _ _
  refine steps_tryUpdate fun t t' h => ?_
  cases h
  exact ⟨⟨rfl, rfl, rfl, fun ht => ht⟩, rfl⟩

/-! ## Attempts -/

/-- An attempt that has settled where the task goes: it has a slot, or the task needs none. -/
def Placed (A : Roles) (i : Nat) (t : Task) (place : Option Placement) (c : Moment) : Prop :=
  Hand A i t place c ∧ (place = none → OffPods c.memory i t.id)

/-- An attempt that has started the task, with its slot. -/
def Underway (A : Roles) (i : Nat) (t : Task) (place : Option Placement) (c : Moment) : Prop :=
  Placed A i t place c ∧ ∀ p, place = some p → Launched i p.spot t.id c.memory

theorem steady_placed (A : Roles) (i : Nat) (t : Task) (place : Option Placement) :
    Steady A i (Placed A i t place) :=
  (steady_hand A i t place).and (steady_offPods i t.id).imp

theorem steady_underway (A : Roles) (i : Nat) (t : Task) (place : Option Placement) :
    Steady A i (Underway A i t place) :=
  (steady_placed A i t place).and (.all fun p => .imp (lasting_launched i p.spot t.id).steady)

theorem outcome_of_underway {agent : Option String} (hc : Underway A i t place c) :
    Outcome i (.started t.id agent) c := by
  intro task agent' h
  cases h
  cases place with
  | none => exact .inl (hc.1.2 rfl)
  | some p => exact .inr ⟨p.spot, hc.2 p rfl⟩

theorem leads_handOver {target : Target} (hc : Placed A i t target.place c) :
    (tenure A).Leads i (handOver cfg i t target) (Outcome i) c := by
  have hsteady := steady_placed A i t target.place
  refine .bind (leads_claim hsteady hc (fun _ hd => hd.1) (some target.agent)) fun r d hd => ?_
  obtain ⟨hplaced, hlaunched⟩ := hd
  match r with
  | .error e => exact .bind (leads_release hplaced.1) fun _ _ _ => leads_retryWithBackoff _ _
  | .ok none => exact .bind (leads_release hplaced.1) fun _ _ _ => leads_outcome fun _ _ h => by cases h
  | .ok (some claimed) =>
    have hsteady := steady_underway A i t target.place
    have hunderway : Underway A i t target.place d := ⟨hplaced, hlaunched claimed rfl⟩
    refine .bind (leads_quiet (steps_sendTask _ _ _) hsteady hunderway) fun sent e he => ?_
    have hend : ∀ f, Underway A i t target.place f →
        (tenure A).Leads i (do settle cfg t.id; return .started t.id (some target.agent)) (Outcome i) f := by
      intro f hf
      refine .bind (leads_quiet (steps_settle _) hsteady hf) fun _ g hg => ?_
      exact leads_pure fun g' hr => (outcome_of_underway hg).rely hr
    match sent with
    | .ok () =>
      cases hplace : target.place with
      | none => exact hend e he
      | some p => exact .bind (leads_quiet (steps_markRunning p) hsteady he) fun _ f hf => hend f hf
    | .error err =>
      refine .bind (leads_release he.1.1) fun _ f hf => ?_
      exact .bind (leads_rollBack hf) fun _ _ _ => leads_retryWithBackoff _ _

theorem leads_startLocal (hc : AtWork A i t c) : (tenure A).Leads i (startLocal cfg t) (Outcome i) c := by
  have hhand : Hand A i t none c := ⟨hc, fun p hp => by cases hp⟩
  refine .bind (leads_claim (steady_hand A i t none) hhand (fun _ hd => hd) none) fun r d _ => ?_
  match r with
  | .error e => exact leads_retryWithBackoff _ _
  | .ok none => exact leads_outcome fun _ _ h => by cases h
  | .ok (some claimed) =>
    refine .bind (leads_quiet (steps_settle _) (steady_true A i) trivial) fun _ e _ => ?_
    refine .bind (leads_quiet (steps_same fun _ => ⟨rfl, .refl, rfl⟩) (steady_true A i) trivial) fun _ f _ => ?_
    exact leads_outcome fun _ _ h => by cases h

theorem leads_pushToPool (hc : Hand A i t place c) (pool : String) (onPods : Bool)
    (hplace : onPods = true → place.isSome = true) (hoff : onPods = false → OffPods c.memory i t.id) :
    (tenure A).Leads i (pushToPool cfg i t pool onPods place) (Outcome i) c := by
  have hsteady := (steady_hand A i t place).and ((steady_offPods i t.id).imp (P := onPods = false))
  refine .bind (leads_quiet (Agent.steps_connected quiet_refl) hsteady ⟨hc, hoff⟩) fun connected d hd => ?_
  split
  · refine .bind (leads_release hd.1) fun _ e _ => ?_
    split
    · exact .bind (leads_quiet (steps_same fun _ => ⟨rfl, .refl, rfl⟩) (steady_true A i) trivial) fun _ _ _ =>
        leads_retryAfter _ _ _
    · exact leads_retryAfter _ _ _
  · refine .bind (leads_grows (leads_findTarget hd.1 pool onPods connected hplace)) fun target e he => ?_
    obtain ⟨⟨hhand, honPods⟩, hgrows⟩ := he
    cases target with
    | none => exact leads_retryWithBackoff _ _
    | some target =>
      refine leads_handOver ⟨hhand, fun hnone => ?_⟩
      cases hon : onPods with
      | true =>
        have hsome := honPods target rfl hon
        rw [hnone] at hsome
        cases hsome
      | false => exact (hd.2 hon).mono hgrows

theorem leads_pushToAgent (hc : AtWork A i t c) {ws : Workspace}
    (hoff : ws.mode ≠ .kubernetes → OffPods c.memory i t.id) : (tenure A).Leads i (pushToAgent cfg i t ws) (Outcome i) c := by
  have hhand : Hand A i t none c := ⟨hc, fun p hp => by cases hp⟩
  unfold pushToAgent pushToAgentBy
  cases ws.pool with
  | none => exact leads_retryAfter _ _ _
  | some pool =>
    simp only
    split
    · refine .bind (leads_findSlot hhand pool) fun place d hd => ?_
      cases place with
      | none => exact leads_retryWithBackoff _ _
      | some place => exact leads_pushToPool hd pool true (fun _ => rfl) fun h => by cases h
    · next hmode => exact leads_pushToPool hhand pool false (fun h => by cases h) fun _ => hoff hmode

/-! ## Choosing a task -/

def Result (i : Nat) (r : Except DispatchError DispatchOutcome) (c : Moment) : Prop :=
  ∀ o, r = .ok o → Outcome i o c

theorem result_error {e : DispatchError} : Result i (.error e) c := fun _ h => by cases h

theorem leads_throw {e : DispatchError} :
    (tenure A).Leads i (throw e : Fallible DispatchError DispatchOutcome).run (Result i) c :=
  leads_pure fun _ _ => result_error

theorem leads_ended {o : DispatchOutcome} (ho : ∀ task agent, o ≠ .started task (some agent)) :
    (tenure A).Leads i (pure o : Fallible DispatchError DispatchOutcome).run (Result i) c :=
  leads_pure fun _ _ _ h task agent ho' => absurd (Except.ok.inj h ▸ ho') (ho task agent)

/-- A look at the store is a step of its own, which changes nothing. -/
theorem leads_read {γ : Type} {f : Store → Except StoreError γ} {k : γ → Fallible DispatchError β}
    {Q : Except DispatchError β → Moment → Prop} (hF : Steady A i F) (hc : F c) (herror : ∀ e d, Q (.error e) d)
    (hk : ∀ d a, Inv A d → F (next i d d.state) → f d.state.store = .ok a →
      (tenure A).Leads i (k a).run Q (next i d d.state)) :
    (tenure A).Leads i (look f >>= k).run Q c := by
  refine Ensures.bind_run (Ensures.bind (ensures_get fun d hr hi e hde _ => ?_))
  have hnext : F (next i d d.state) := hF.own d d.state hi (hF.rely c d hc hr) (ownStep_refl hi)
  cases hres : f d.state.store with
  | error err => exact ensures_pure fun g _ _ b hb => by cases hb; exact herror _ g
  | ok a =>
    refine ensures_pure fun g heg _ => ?_
    exact (hk d a hi hnext hres).rely ((tenure A).rely_trans i (next i d d.state) e g hde heg)

theorem leads_look {γ : Type} {f : Store → Except StoreError γ} {k : γ → Fallible DispatchError DispatchOutcome}
    (hF : Steady A i F) (hc : F c)
    (hk : ∀ d a, Inv A d → F (next i d d.state) → f d.state.store = .ok a →
      (tenure A).Leads i (k a).run (Result i) (next i d d.state)) :
    (tenure A).Leads i (look f >>= k).run (Result i) c := leads_read hF hc (fun _ _ => result_error) hk

theorem leads_dispatchTask (hc : AtWork A i t c) : (tenure A).Leads i (dispatchTask cfg i t).run (Result i) c := by
  unfold dispatchTask dispatchTaskBy
  split
  · exact leads_throw
  · refine leads_look (steady_atWork A i t) hc fun d found hi hd hfound => ?_
    cases found with
    | none => exact leads_throw
    | some ws =>
      simp only
      split
      · exact Leads.always ((leads_startLocal hd).mono fun o d ho o' h => by cases h; exact ho)
      · refine Leads.always ((leads_pushToAgent hd fun hmode => ?_).mono fun o d ho o' h => by cases h; exact ho)
        obtain ⟨t', ht', hgoes⟩ := hd.row
        have hlast : (⟨some i, d.state, d.state⟩ : Step World) ∈ (next i d d.state).memory :=
          List.mem_append_right _ (List.mem_singleton.2 rfl)
        refine ⟨_, hlast, rfl, t', ws, ht', hgoes.id, ?_, hmode⟩
        rw [hgoes.workspace]
        exact hfound

/-! ## Under a lock -/

theorem holds_request {l : Locks} {workspace : String} (h : l.holds workspace j = true) (workspace' : String)
    (i : Nat) : (l.request workspace' i).holds workspace j = true := by
  unfold Locks.holds Locks.line at h ⊢
  unfold Locks.request Locks.line
  simp only [Table.get?_insert]
  split
  · next hsame =>
    rw [hsame]
    rw [beq_iff_eq] at h ⊢
    simp [h]
  · exact h

theorem holds_release {l : Locks} {workspace : String} (h : l.holds workspace j = true) (workspace' : String)
    (hij : i ≠ j) : (l.release workspace' i).holds workspace j = true := by
  unfold Locks.holds Locks.line at h ⊢
  unfold Locks.release
  simp only [Table.get?_modify]
  split
  · rw [beq_iff_eq] at h ⊢
    cases hl : l.lines.get? workspace with
    | none => rw [hl] at h; cases h
    | some line =>
      rw [hl] at h
      cases line with
      | nil => cases h
      | cons a rest =>
        have haj : a = j := by simpa using h
        rw [haj]
        simp [Ne.symm hij]
  · exact h

/-- Only the locks change, and nobody else's are taken. -/
theorem proper_locks (hs : Sane w) {locks : Locks}
    (hl : ∀ workspace j, p ≠ some j → w.locks.holds workspace j = true → locks.holds workspace j = true) :
    Proper A p h w { w with locks } where
  keyed := hs.keyed
  waiting := hs.waiting
  rows := fun t ht => ⟨t, ht, .refl t⟩
  order := hs.order
  starts := fun t ht hrun _ hno => absurd ⟨t, ht, rfl, hrun⟩ hno
  locks := hl
  frees := fun _ _ hf => absurd hf.1 hf.2

/-- A fact about the rows, which goes on to hold as the rows go on. -/
def RowFact (F : Moment → Prop) : Prop :=
  ∀ c d, F c → (∀ t, c.state.store.Holds t → ∃ t', d.state.store.Holds t' ∧ t.Continues t') → F d

theorem Result.append {r : Except DispatchError DispatchOutcome} (hr : Result i r c)
    (hkeeps : ∀ x task, c.state.capacity.taskAt x = some task → w'.capacity.taskAt x = some task) :
    Result i r (next i c w') := by
  intro o ho task agent hstarted
  rcases hr o ho task agent hstarted with hoff | ⟨x, hlaunched⟩
  · exact .inl (hoff.mono (List.prefix_append _ _))
  · refine .inr ⟨x, lasting_launched i x task _ _ hlaunched fun e he _ hfrees => ?_⟩
    rw [List.mem_singleton.1 he] at hfrees
    exact hfrees.2 (hkeeps _ _ hfrees.1)

theorem Result.rely {r : Except DispatchError DispatchOutcome} (hc : Result i r c) (hr : (tenure A).Rely i c d) :
    Result i r d := fun o ho => (hc o ho).rely hr

/-- What is done under a lock may count on the lock. -/
theorem leads_withLock {p : Program World (Except DispatchError DispatchOutcome)} {workspace : String}
    (hF : RowFact F) (hc : F c) (hp : ∀ d, F d → d.state.locks.holds workspace i = true → (tenure A).Leads i p (Result i) d) :
    (tenure A).Leads i (Program.withLock i workspace p) (Result i) c := by
  refine .bind (R := fun _ d => F d ∧ d.state.locks.holds workspace i = true) ?_ fun _ d hd => ?_
  · refine Ensures.bind (ensures_modify fun d hr hi => ?_)
    have hproper : Proper A (some i) d.memory d.state { d.state with locks := d.state.locks.request workspace i } :=
      proper_locks hi.sane fun _ _ _ hlock => holds_request hlock workspace i
    refine ⟨keeps_of_proper hi hproper, fun e hde _ => ?_⟩
    refine ensures_waitFor fun f hef _ hready g hfg _ _ _ => ⟨?_, lock_of_rely hfg hready⟩
    have hd : F d := hF c d hc fun t ht => rows_of_rely hr ht
    have hg : (tenure A).Rely i (next i d { d.state with locks := d.state.locks.request workspace i }) g :=
      (tenure A).rely_trans i _ e g hde ((tenure A).rely_trans i e f g hef hfg)
    exact hF d g hd fun t ht => rows_of_rely hg ht
  · refine Ensures.andFinally (Ensures.mono (hp d hd.1 hd.2) fun r e _ he => ?_)
    refine ensures_modify fun f hef hi => ?_
    have hproper : Proper A (some i) f.memory f.state { f.state with locks := f.state.locks.release workspace i } :=
      proper_locks hi.sane fun _ j hj hlock => holds_release hlock workspace fun hij => hj (by rw [hij])
    refine ⟨keeps_of_proper hi hproper, fun g hfg _ => ?_⟩
    intro a ha
    have hf : Result i a f := (he a ha).rely hef
    have hlast : Result i a (next i f { f.state with locks := f.state.locks.release workspace i }) :=
      hf.append fun _ _ htask => htask
    exact hlast.rely hfg

theorem leads_guarded {p : Fallible DispatchError DispatchOutcome} (workspace : String)
    (hp : (tenure A).Leads i p.run (Result i) c) : (tenure A).Leads i (guarded cfg workspace p).run (Result i) c := by
  refine .bind (R := fun r d => ∀ a, r = .ok a → Result i a d) (Ensures.attempt ?_) fun r d hd => ?_
  · exact Ensures.mono hp fun r d _ hr b hb a ha => hr a (by cases hb; exact ha)
  · cases r with
    | ok result => exact leads_pure fun e hr => (hd result rfl).rely hr
    | error m =>
      refine .bind (leads_quiet (steps_schedule _ _) (steady_true A i) trivial) fun _ _ _ => ?_
      exact leads_pure fun _ _ => result_error

/-! ## Whole attempts -/

/-- A task that is read and does not run may be worked on, if its workspace's lock is there
    where it is needed. -/
theorem AtWork.of_read (hi : Inv A d) (ht : d.state.store.Holds t) (hidle : t.status ≠ .running)
    (hlock : t.kind.isExclusive = true → d.state.locks.holds t.workspace i = true) :
    AtWork A i t (next i d d.state) where
  row := ⟨t, ht, .refl t⟩
  lock := hlock
  waiting := hi.waiting t ht
  onTime := by
    right
    intro hex
    refine ⟨d.memory, _, [], rfl, ?_, fun e he => ?_⟩
    · rintro ⟨u, hu, hid, hrun⟩
      have hsame : u = t := Store.holds_inj hu ht hid
      exact hidle (hsame ▸ hrun)
    · rw [List.mem_singleton.1 he]
      exact hlock hex

/-- A task that was read goes on to have a row. -/
theorem rowFact_continues (t : Task) : RowFact fun c => ∃ t', c.state.store.Holds t' ∧ t.Continues t' := by
  intro c d hc hrows
  obtain ⟨t', ht', hgoes⟩ := hc
  obtain ⟨t'', ht'', hgoes'⟩ := hrows t' ht'
  exact ⟨t'', ht'', hgoes.trans hgoes'⟩

theorem steady_row (i : Nat) (t : Task) : Steady A i fun c => ∃ t', c.state.store.Holds t' ∧ t.Continues t' where
  rely := fun c d hc hr => rowFact_continues t c d hc fun _ ht => rows_of_rely hr ht
  own := fun c w' _ hc hstep => rowFact_continues t c ⟨w', _⟩ hc hstep.proper.rows

theorem steady_lock (i : Nat) (workspace : String) : Steady A i fun c => c.state.locks.holds workspace i = true where
  rely := fun _ _ hc hr => lock_of_rely hr hc
  own := fun _ _ _ hc hstep => hstep.locks ▸ hc

/-- An apply that was seen to be due is read again under the lock. -/
theorem leads_resumeApply (hrow : ∃ t, c.state.store.Holds t ∧ seen.Continues t)
    (hlock : c.state.locks.holds seen.workspace i = true) : (tenure A).Leads i (resumeApply cfg i seen).run (Result i) c := by
  have hsteady : Steady A i _ := (steady_row i seen).and (steady_lock i seen.workspace)
  refine leads_look hsteady ⟨hrow, hlock⟩ fun d found hi hd hfound => ?_
  cases found with
  | none => exact leads_ended fun _ _ h => by cases h
  | some current =>
    simp only
    split
    · next hdue =>
      obtain ⟨hcurrent, hid⟩ := hi.keyed.task?_iff.1 hfound
      obtain ⟨⟨t, ht, hgoes⟩, hheld⟩ := hd
      have hsame : t = current := Store.holds_inj ht hcurrent (hgoes.id.trans hid.symm)
      subst hsame
      have hidle : t.status ≠ .running := by rw [hdue]; decide
      exact leads_dispatchTask (.of_read hi ht hidle fun _ => hgoes.workspace ▸ hheld)
    · exact leads_ended fun _ _ h => by cases h

theorem leads_dispatchExclusive {workspace : String} (hc : c.state.locks.holds workspace i = true) :
    (tenure A).Leads i (dispatchExclusive cfg i workspace).run (Result i) c := by
  refine leads_look (steady_lock i workspace) hc fun d found hi hd hfound => ?_
  cases found with
  | none => exact leads_ended fun _ _ h => by cases h
  | some t =>
    obtain ⟨ht, hws, hpending⟩ := Store.nextTask_holds hi.keyed hfound
    have hidle : t.status ≠ .running := by rw [hpending]; decide
    exact leads_dispatchTask (.of_read hi ht hidle fun _ => hws ▸ hd)

theorem leads_dispatchNext (workspace : String) : (tenure A).Leads i (dispatchNext cfg i workspace).run (Result i) c := by
  refine leads_look (steady_true A i) trivial fun d onHold _ _ _ => ?_
  cases onHold with
  | true => exact leads_ended fun _ _ h => by cases h
  | false =>
    refine leads_look (steady_true A i) trivial fun e resumable hi _ hresumable => ?_
    cases resumable with
    | some seen =>
      -- the apply that is due was read without the lock, so it is read again under it
      obtain ⟨ts, hts, hfind⟩ := map_eq_ok_iff.1 hresumable
      obtain ⟨hseen, hkeep⟩ := (Store.mem_tasksWhere hi.keyed hts).1 (List.mem_of_find?_eq_some hfind)
      have hws : seen.workspace = workspace := by simpa using hkeep
      have hrow : ∃ t', (next i e e.state).state.store.Holds t' ∧ seen.Continues t' := ⟨seen, hseen, .refl seen⟩
      refine leads_withLock (rowFact_continues seen) hrow fun f hf hlock => ?_
      exact leads_resumeApply hf (hws ▸ hlock)
    | none =>
      refine leads_look (steady_true A i) trivial fun f found hi _ hfound => ?_
      cases found with
      | none => exact leads_ended fun _ _ h => by cases h
      | some t =>
        obtain ⟨ht, -, hpending⟩ := Store.nextTask_holds hi.keyed hfound
        simp only
        split
        · have hnone : RowFact fun _ => True := fun _ _ _ _ => trivial
          exact leads_withLock hnone trivial fun g _ hlock => leads_dispatchExclusive hlock
        · next hshared =>
          have hidle : t.status ≠ .running := by rw [hpending]; decide
          exact leads_dispatchTask (.of_read hi ht hidle fun hex => absurd hex hshared)

theorem leads_tryDispatch (workspace : String) : (tenure A).Leads i (tryDispatch cfg i workspace).run (Result i) c :=
  leads_guarded workspace (leads_dispatchNext workspace)

/-- A confirmed apply is started under the lock as it was read without it. -/
theorem leads_executeConfirmedApply (hA : A.applies i) (workspace : String) (task : UInt64) :
    (tenure A).Leads i (executeConfirmedApply cfg i workspace task).run (Result i) c := by
  unfold executeConfirmedApply executeConfirmedApplyBy
  rw [confirmedTask_eq, bind_assoc]
  refine leads_look (steady_true A i) trivial fun d found hi _ hfound => ?_
  cases found with
  | none => exact leads_throw
  | some t =>
    obtain ⟨ht, -⟩ := hi.keyed.task?_iff.1 hfound
    simp only
    cases hrefusal : refusal workspace task t with
    | some e => exact leads_throw
    | none =>
      have hws : t.workspace = workspace := workspace_of_refusal hrefusal
      have hrow : ∃ t', (next i d d.state).state.store.Holds t' ∧ t.Continues t' := ⟨t, ht, .refl t⟩
      simp only [pure_bind]
      refine leads_look (steady_row i t) hrow fun e onHold _ he _ => ?_
      cases onHold with
      | true => exact leads_ended fun _ _ h => by cases h
      | false =>
        refine leads_withLock (rowFact_continues t) he fun f hf hlock => ?_
        exact leads_guarded workspace (leads_dispatchTask ⟨hf, fun _ => hws ▸ hlock, hi.waiting t ht, .inl hA⟩)

end TaskFleet.Tenure
