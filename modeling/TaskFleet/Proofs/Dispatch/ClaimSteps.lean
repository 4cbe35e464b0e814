/-
  TaskFleet.Proofs.Dispatch.ClaimSteps — the steps of an attempt as turns of the tasks.

  What a process does to a row is seen by the row before and after; what it hands over is seen
  by the messages in the mailboxes and by the jobs that are new.
  - `seen`: the events of one step.
  - `Goes`: a step is a turn of one task and leaves the others alone. `Inv.goes` and `Goes.follows`
    are what it keeps, for the whole scene and for every other process.
  - `Calm`: a step that no task notices.
  - `leads_claim`, `leads_sendTask`, `leads_askFor`, `leads_settle`, `leads_rollBack`: what an
    attempt may count on before and after each of its steps.
-/

import TaskFleet.Proofs.Dispatch.ClaimHistory
import TaskFleet.Proofs.Dispatch.Reads

namespace TaskFleet.Claims

open Fallible Dispatch

variable {S : Nat → Prop} {i j : Nat} {p : Option Nat} {s s' : Store} {t t' : Task} {task : UInt64} {w w' : World}

/-! ## The status of a task -/

def statusOf (s : Store) (task : UInt64) : Option TaskStatus :=
  match s.tasks.get? (taskKey task) with
  | some (.record t) => some t.status
  | _ => none

theorem statusOf_of_holds (ht : s.Holds t) : statusOf s t.id = some t.status := by
  have hrow : s.tasks.get? (taskKey t.id) = some (.record t) := ht
  simp [statusOf, hrow]

theorem statusOf_congr (h : s'.tasks = s.tasks) : statusOf s' task = statusOf s task := by
  unfold statusOf
  rw [h]

theorem statusOf_setTask_self : statusOf (s.setTask t) t.id = some t.status :=
  statusOf_of_holds (Store.holds_setTask.2 (.inl rfl))

theorem statusOf_setTask_of_ne (h : task ≠ t.id) : statusOf (s.setTask t) task = statusOf s task := by
  have hk : taskKey t.id ≠ taskKey task := fun he => h (taskKey_inj.1 he).symm
  unfold statusOf Store.setTask Task.key
  rw [Table.get?_insert_of_ne _ _ hk]

/-! ## What is seen of a step -/

/-- What a process is seen to do to a row. -/
def rowEvents (i : Nat) (t t' : Task) : History :=
  if t.status ≠ .running ∧ t'.status = .running then [.claimed i t'.id t.status]
  else if t.status = .running ∧ Waits t'.status then [.putBack (some i) t'.id]
  else if t' ≠ t ∧ t'.status = t.status ∧ t'.retryCount = 0 then [.settled i t'.id]
  else []

def storeEvents (i : Nat) (s s' : Store) : History :=
  s'.tasks.rows.flatMap fun p =>
    match s.tasks.get? p.1, p.2 with
    | some (.record t), .record t' => rowEvents i t t'
    | _, _ => []

/-- The tasks to be carried out on this machine. -/
def jobEvents (i : Nat) (jobs : List Job) : History :=
  jobs.flatMap fun job =>
    match job with
    | .runLocal t => [.handedOver i t.id (localAction t)]
    | _ => []

/-- What a process is seen to do in one step. -/
def seen (i : Nat) (w w' : World) : History :=
  storeEvents i w.store w'.store ++
    ((Gate.deliveriesBetween w.registry w'.registry).map fun m => .handedOver i m.task m.action) ++
    jobEvents i (w'.spawned.drop w.spawned.length)

theorem flatMap_of_unique {α β : Type} {l : List α} {f : α → List β} {a : α} (hl : l.Nodup) (ha : a ∈ l)
    (hf : ∀ b ∈ l, b ≠ a → f b = []) : l.flatMap f = f a := by
  induction l with
  | nil => cases ha
  | cons b l ih =>
    obtain ⟨hb, hl⟩ := List.nodup_cons.1 hl
    rw [List.flatMap_cons]
    rcases List.mem_cons.1 ha with rfl | ha
    · have hrest : l.flatMap f = [] := by
        refine List.flatMap_eq_nil_iff.2 fun b hbl => hf b (List.mem_cons_of_mem _ hbl) ?_
        rintro rfl
        exact hb hbl
      rw [hrest, List.append_nil]
    · have hne : b ≠ a := by
        rintro rfl
        exact hb ha
      rw [hf b List.mem_cons_self hne, List.nil_append]
      exact ih hl ha fun b' hb' => hf b' (List.mem_cons_of_mem _ hb')

theorem rowEvents_self : rowEvents i t t = [] := by
  unfold rowEvents
  split
  · next h => exact absurd h.2 h.1
  · split
    · next h => rw [h.1] at h; simp [Waits] at h
    · simp

theorem storeEvents_congr (hk : s.Keyed) (h : s'.tasks = s.tasks) : storeEvents i s s' = [] := by
  unfold storeEvents
  rw [h, List.flatMap_eq_nil_iff]
  rintro ⟨k, row⟩ hrow
  obtain ⟨t, rfl, rfl⟩ := Store.keyed_rows hk hrow
  rw [Table.mem_rows_iff.1 hrow]
  exact rowEvents_self

theorem storeEvents_setTask (hk : s.Keyed) (ht : s.Holds t) (hid : t'.id = t.id) :
    storeEvents i s (s.setTask t') = rowEvents i t t' := by
  have hmem : (t'.key, Row.record t') ∈ (s.setTask t').tasks.rows :=
    Table.mem_rows_iff.2 (Store.holds_setTask.2 (.inl rfl))
  have hbefore : s.tasks.get? t'.key = some (.record t) := by
    unfold Task.key
    rw [hid]
    exact ht
  have hnodup : (s.setTask t').tasks.rows.Nodup := by
    refine (s.setTask t').tasks.ascending.imp ?_
    rintro a _ hlt rfl
    exact String.lt_irrefl a.1 hlt
  unfold storeEvents
  rw [flatMap_of_unique hnodup hmem]
  · simp only [hbefore]
  · rintro ⟨k, row⟩ hrow hne
    obtain ⟨u, rfl, rfl⟩ := Store.keyed_rows (hk.setTask t') hrow
    rcases Store.holds_setTask.1 (Table.mem_rows_iff.1 hrow) with rfl | ⟨hu, -⟩
    · exact absurd rfl hne
    · have hu : s.tasks.get? u.key = some (.record u) := hu
      simp only [hu]
      exact rowEvents_self

theorem seen_store : seen i w { w with store := s' } = storeEvents i w.store s' := by
  have hnone : Gate.deliveriesBetween w.registry w.registry = [] := Gate.deliveriesBetween_eq_nil fun _ => rfl
  simp [seen, hnone, jobEvents]

theorem seen_registry (hk : w.store.Keyed) {r : Registry} :
    seen i w { w with registry := r } =
      (Gate.deliveriesBetween w.registry r).map fun m => .handedOver i m.task m.action := by
  simp [seen, storeEvents_congr hk rfl, jobEvents]

theorem seen_spawn (hk : w.store.Keyed) {job : Job} : seen i w (w.spawn job) = jobEvents i [job] := by
  have hnone : Gate.deliveriesBetween w.registry w.registry = [] := Gate.deliveriesBetween_eq_nil fun _ => rfl
  simp [seen, World.spawn, storeEvents_congr hk rfl, hnone]

theorem seen_aside (hk : w.store.Keyed) (h : Aside w w') : seen i w w' = [] := by
  have hnone : Gate.deliveriesBetween w.registry w.registry = [] := Gate.deliveriesBetween_eq_nil fun _ => rfl
  simp [seen, storeEvents_congr hk h.rows, h.registry, h.spawned, hnone, jobEvents]

/-- A delivery to a mailbox that is read brings one message. -/
theorem deliveriesBetween_deliver {r : Registry} {b : Nat} {m : AgentMessage} (hopen : (r.mailbox b).closed = false) :
    Gate.deliveriesBetween r (r.modifyMailbox b fun _ => ((r.mailbox b).deliver i m).2) = [m] := by
  have hlt : b < r.mailboxes.length := by
    rcases Nat.lt_or_ge b r.mailboxes.length with hlt | hge
    · exact hlt
    · unfold Registry.mailbox at hopen
      rw [List.getElem?_eq_none hge] at hopen
      cases hopen
  unfold Gate.deliveriesBetween
  rw [flatMap_of_unique List.nodup_range (a := b)]
  · unfold Registry.mailbox Registry.modifyMailbox at *
    simp [List.getElem?_eq_getElem hlt, Mailbox.deliver] at hopen ⊢
    simp [hopen]
  · simp [Registry.modifyMailbox, hlt]
  · intro b' _ hne
    rcases Gate.mailbox_modifyMailbox r b b' (fun _ => ((r.mailbox b).deliver i m).2) with he | ⟨he, -⟩
    · rw [he, List.drop_length]
    · exact absurd he hne

/-! ## The discipline -/

structure Inv (S : Nat → Prop) (c : Scene World History) : Prop where
  keyed : c.state.store.Keyed
  sound : ClaimsAllowed S c.memory
  fine : ∀ task, Fine S c.memory task (statusOf c.state.store task)

/-- An attempt has claimed the task and may count on that, or was robbed of it. -/
def HeldAt (S : Nat → Prop) (c : Scene World History) (i : Nat) (task : UInt64) (source : TaskStatus) (sent : Bool) :
    Prop := Held S c.memory i task source sent (statusOf c.state.store task)

/-- Each process relies on the claims it holds, and on history not being rewritten. -/
def Follows (S : Nat → Prop) (i : Nat) (c d : Scene World History) : Prop :=
  c.memory <+: d.memory ∧ ∀ task source sent, HeldAt S c i task source sent → HeldAt S d i task source sent

variable {c d e : Scene World History}

theorem Follows.refl (S : Nat → Prop) (i : Nat) (c : Scene World History) : Follows S i c c :=
  ⟨List.prefix_refl _, fun _ _ _ h => h⟩

theorem Follows.trans (h : Follows S i c d) (h' : Follows S i d e) : Follows S i c e :=
  ⟨h.1.trans h'.1, fun task source sent hc => h'.2 task source sent (h.2 task source sent hc)⟩

theorem seen_self (hk : w.store.Keyed) : seen i w w = [] := seen_aside hk (aside_refl w)

/-- The scene after a step of a process. -/
def next (i : Nat) (c : Scene World History) (w' : World) : Scene World History :=
  ⟨w', c.memory ++ seen i c.state w'⟩

theorem next_self (hi : Inv S c) : next i c c.state = c := by
  unfold next
  rw [seen_self hi.keyed, List.append_nil]

/-- The rules of claims; the processes of `S` sweep. -/
def claims (S : Nat → Prop) : Discipline World History where
  observe i w w' h := h ++ seen i w w'
  Inv := Inv S
  Rely := Follows S
  idle := by
    intro i c hi
    have hsame : (⟨c.state, c.memory ++ seen i c.state c.state⟩ : Scene World History) = c := next_self hi
    rw [hsame]
    exact ⟨hi, fun j => .refl S j c⟩
  rely_refl := Follows.refl S
  rely_trans _ _ _ _ := .trans

/-! ## One step, one turn -/

/-- A step is a turn of one task, and the others stay as they are. -/
structure Goes (S : Nat → Prop) (p : Option Nat) (c d : Scene World History) (task : UInt64) : Prop where
  keyed : d.state.store.Keyed
  turn : ∃ l, d.memory = c.memory ++ l ∧
    Turn S p c.memory task (statusOf c.state.store task) l (statusOf d.state.store task)
  others : ∀ u, u ≠ task → statusOf d.state.store u = statusOf c.state.store u

theorem Inv.goes (hi : Inv S c) (hg : Goes S p c d task) : Inv S d := by
  obtain ⟨l, hl, ht⟩ := hg.turn
  refine ⟨hg.keyed, ?_, fun u => ?_⟩
  · rw [hl]
    rcases ht.event with rfl | ⟨e, rfl, -⟩
    · rw [List.append_nil]
      exact hi.sound
    · exact hi.sound.snoc (ht.allowed (hi.fine task) e (List.mem_singleton.2 rfl))
  · by_cases hu : u = task
    · subst hu
      rw [hl]
      exact ht.fine (hi.fine u)
    · rw [hg.others u hu]
      rcases ht.snoc hl with hm | ⟨e, hm, he⟩
      · rw [hm]; exact hi.fine u
      · rw [hm]; exact (hi.fine u).other fun h => hu (h.symm.trans he)

/-- What an attempt holds of another task is not touched. -/
theorem Goes.held_of_ne (hg : Goes S p c d task) {u : UInt64} (hu : u ≠ task) {source : TaskStatus} {sent : Bool}
    (hh : HeldAt S c i u source sent) : HeldAt S d i u source sent := by
  obtain ⟨l, hl, ht⟩ := hg.turn
  unfold HeldAt at hh ⊢
  rw [hg.others u hu]
  rcases ht.snoc hl with hm | ⟨e, hm, he⟩
  · rw [hm]; exact hh
  · rw [hm]; exact hh.other fun h => hu (h.symm.trans he)

theorem Goes.grows (hg : Goes S p c d task) : c.memory <+: d.memory := by
  obtain ⟨l, hl, -⟩ := hg.turn
  rw [hl]
  exact List.prefix_append _ _

theorem Goes.follows (hg : Goes S p c d task) (hp : p ≠ some i) : Follows S i c d := by
  refine ⟨hg.grows, fun u source sent hh => ?_⟩
  by_cases hu : u = task
  · subst hu
    obtain ⟨l, hl, ht⟩ := hg.turn
    unfold HeldAt at hh ⊢
    rw [hl]
    exact ht.held hp hh
  · exact hg.held_of_ne hu hh

theorem keeps_of_goes (hi : Inv S d) (hg : Goes S (some i) d (next i d w') task) :
    Inv S (next i d w') ∧ ∀ j, j ≠ i → Follows S j d (next i d w') :=
  ⟨hi.goes hg, fun _ hj => hg.follows fun h => hj (Option.some.inj h).symm⟩

/-- A row was written, and the task had its turn. -/
theorem goes_setTask (hi : Inv S d) (ht : d.state.store.Holds t) (hid : t'.id = t.id)
    (hturn : Turn S (some i) d.memory t.id (some t.status) (rowEvents i t t') (some t'.status)) :
    Goes S (some i) d (next i d { d.state with store := d.state.store.setTask t' }) t.id where
  keyed := hi.keyed.setTask t'
  turn := by
    refine ⟨_, rfl, ?_⟩
    have hafter : statusOf (d.state.store.setTask t') t.id = some t'.status := hid ▸ statusOf_setTask_self
    rw [seen_store, storeEvents_setTask hi.keyed ht hid, statusOf_of_holds ht]
    show Turn S (some i) d.memory t.id (some t.status) (rowEvents i t t') (statusOf (d.state.store.setTask t') t.id)
    rw [hafter]
    exact hturn
  others := fun u hu => statusOf_setTask_of_ne (hid ▸ hu)

/-! ## Steps that no task notices -/

/-- No status changes, and nothing is seen. -/
structure Calm (w w' : World) : Prop where
  keyed : w'.store.Keyed
  status : ∀ task, statusOf w'.store task = statusOf w.store task
  unseen : ∀ i, seen i w w' = []

/-- Calm where the rows are in order. -/
def Unnoticed (w w' : World) : Prop := w.store.Keyed → Calm w w'

theorem unnoticed_of_aside (h : Aside w w') : Unnoticed w w' := fun hk =>
  ⟨hk.congr h.rows, fun _ => statusOf_congr h.rows, fun _ => seen_aside hk h⟩

theorem steps_aside {α : Type} {q : Program World α} (hq : q.Steps Aside) : q.Steps Unnoticed :=
  hq.mono fun _ _ => unnoticed_of_aside

theorem unnoticed_registry {r : Registry} (h : ∀ b, (r.mailbox b).messages = (w.registry.mailbox b).messages) :
    Unnoticed w { w with registry := r } := fun hk =>
  ⟨hk, fun _ => rfl, fun i => by rw [seen_registry hk, Gate.deliveriesBetween_eq_nil h, List.map_nil]⟩

theorem unnoticed_modifyMailbox {b : Nat} {f : Mailbox → Mailbox}
    (hf : (f (w.registry.mailbox b)).messages = (w.registry.mailbox b).messages) :
    Unnoticed w { w with registry := w.registry.modifyMailbox b f } := by
  refine unnoticed_registry fun b' => ?_
  rcases Gate.mailbox_modifyMailbox w.registry b b' f with he | ⟨rfl, he⟩
  · rw [he]
  · rw [he, hf]

theorem unnoticed_spawn {job : Job} (h : ∀ t, job ≠ .runLocal t) : Unnoticed w (w.spawn job) := by
  refine fun hk => ⟨hk, fun _ => rfl, fun i => ?_⟩
  rw [seen_spawn hk]
  cases job with
  | runLocal t => exact absurd rfl (h t)
  | _ => rfl

theorem Calm.goes (hc : Calm d.state w') (p : Option Nat) (task : UInt64) : Goes S p d (next i d w') task where
  keyed := hc.keyed
  turn := by
    refine ⟨[], by rw [next, hc.unseen], ?_⟩
    show Turn S p d.memory task _ [] (statusOf w'.store task)
    rw [hc.status]
    exact .rest _
  others := fun u _ => hc.status u

theorem Calm.follows (hc : Calm d.state w') : Follows S j d (next i d w') := by
  refine ⟨(hc.goes (S := S) none 0).grows, fun u source sent hh => ?_⟩
  unfold HeldAt next at *
  rw [hc.unseen, List.append_nil, hc.status]
  exact hh

/-! ## What an attempt may count on -/

variable {α β : Type} {cfg : Settings} {Q : α → Scene World History → Prop} {source : TaskStatus} {sent : Bool}

/-- One step of a process, which is the turn of some task. -/
theorem leads_step {f : World → α × World}
    (h : ∀ d, Follows S i c d → Inv S d → (∃ task, Goes S (some i) d (next i d (f d.state).2) task) ∧
      ∀ e, Follows S i (next i d (f d.state).2) e → Q (f d.state).1 e) :
    (claims S).Leads i (Program.apply f) Q c := by
  refine Discipline.ensures_apply fun d hcd hi => ?_
  obtain ⟨⟨task, hg⟩, hq⟩ := h d hcd hi
  refine ⟨keeps_of_goes hi hg, fun e hde _ a ha => ?_⟩
  cases ha
  exact hq e hde

/-- A process whose steps go unnoticed keeps all that it holds. -/
theorem leads_calm {q : Program World α} (hq : q.Steps Unnoticed) :
    (claims S).Leads i q (fun _ d => Follows S i c d) c := by
  have hsteps := Discipline.Ensures.of_steps (D := claims S) (i := i) (F := Follows S i c) hq
    (fun d e hd hr => hd.trans hr) (fun d act hi hd hu => ?_) (Follows.refl S i c)
  · exact hsteps.mono fun _ _ _ hd _ _ => hd
  · have hcalm := hu hi.keyed
    exact ⟨keeps_of_goes hi (hcalm.goes (some i) 0), hd.trans hcalm.follows⟩

theorem leads_holding {q : Program World α} (hq : q.Steps Unnoticed) (hh : HeldAt S c i task source sent) :
    (claims S).Leads i q (fun _ d => HeldAt S d i task source sent) c :=
  (leads_calm hq).mono fun _ _ hd => hd.2 _ _ _ hh

/-- A transaction, which changes nothing where it fails. -/
theorem leads_transact {f : Store → Except StoreError (α × Store)} {Q : Except StoreError α → Scene World History → Prop}
    (herror : ∀ err d, Follows S i c d → Q (.error err) d)
    (hok : ∀ d a s', Follows S i c d → Inv S d → f d.state.store = .ok (a, s') →
      (∃ task, Goes S (some i) d (next i d { d.state with store := s' }) task) ∧
        ∀ e, Follows S i (next i d { d.state with store := s' }) e → Q (.ok a) e) :
    (claims S).Leads i (Program.transact f) Q c := by
  refine leads_step fun d hcd hi => ?_
  cases hr : f d.state.store with
  | ok r => exact hok d r.1 r.2 hcd hi hr
  | error err =>
    have hcalm : Calm d.state d.state := unnoticed_of_aside (aside_refl _) hi.keyed
    exact ⟨⟨0, hcalm.goes (some i) 0⟩, fun e hde => herror err e (hcd.trans (hcalm.follows.trans hde))⟩

/-! ## Claiming -/

theorem rowEvents_start (hidle : t.status ≠ .running) (hrun : t'.status = .running) :
    rowEvents i t t' = [.claimed i t'.id t.status] := if_pos ⟨hidle, hrun⟩

/-- A claim that succeeds is the attempt's own, and of a task that waited. -/
theorem leads_claim (seen : Task) (agent : Option String) :
    (claims S).Leads i (claim cfg seen agent) (fun r d => ∀ row, r = .ok (some row) →
      Waits seen.status ∧ row.id = seen.id ∧ row.stage = some seen.stageOnStart ∧
        HeldAt S d i seen.id seen.status false) c := by
  refine .bind (leads_calm (steps_aside (steps_read _))) fun now d _ => ?_
  refine .bind (Discipline.leads_claimTask (Q := fun r d => ∀ row, r = .ok (.claimed row) →
    Waits seen.status ∧ row.id = seen.id ∧ row.stage = some seen.stageOnStart ∧
      HeldAt S d i seen.id seen.status false) (leads_transact (fun _ _ _ _ h => by cases h) ?_)) fun r d hd => ?_
  · intro d answer s' _ hi h
    rcases hi.keyed.claimTask_cases h with ⟨hno, rfl⟩ | ⟨t, ht, hid, hcl, rfl, rfl⟩
    · have hcalm : Calm d.state d.state := unnoticed_of_aside (aside_refl _) hi.keyed
      exact ⟨⟨0, hcalm.goes (some i) 0⟩, fun e _ row hrow => absurd (Except.ok.inj hrow) (hno row)⟩
    · obtain ⟨row, hrow⟩ : ∃ row, row = Store.taken t (claimRequest cfg seen now)
        (Task.start seen.stageOnStart agent now) := ⟨_, rfl⟩
      have hrid : row.id = t.id := by rw [hrow]; rfl
      have hrun : row.status = .running := by rw [hrow]; rfl
      have hstatus : t.status = seen.status := hcl.expected
      have hwaits : Waits t.status := by
        have hm := hcl.movable
        cases hst : t.status <;> rw [hst] at hm <;> simp [TaskStatus.canMove, Waits] at hm ⊢
      have hidle : t.status ≠ .running := by
        rcases hwaits with h | h <;> rw [h] <;> decide
      have hevents : rowEvents i t row = [.claimed i t.id t.status] := by rw [rowEvents_start hidle hrun, hrid]
      rw [← hrow, Store.insert_eq_setTask (hrid.trans hid)]
      have hgoes : Goes S (some i) d (next i d { d.state with store := d.state.store.setTask row }) t.id := by
        refine goes_setTask hi ht hrid ?_
        rw [hevents, hrun]
        exact .claimed i t.status rfl hwaits
      refine ⟨⟨t.id, hgoes⟩, fun e hde row' hrow' => ?_⟩
      cases hrow'
      refine ⟨hstatus ▸ hwaits, hrid.trans hid, by rw [hrow]; rfl, hde.2 _ _ _ ?_⟩
      -- in the scene right after the claim, it is the last event
      have hafter : statusOf (d.state.store.setTask row) t.id = some .running := by
        rw [← hrid, statusOf_setTask_self, hrun]
      unfold HeldAt next
      rw [← hid, ← hstatus, seen_store, storeEvents_setTask hi.keyed ht hrid, hevents]
      show Held S _ i t.id t.status false (statusOf (d.state.store.setTask row) t.id)
      rw [hafter]
      exact held_of_claim
  · refine Discipline.leads_pure fun e hde row hrow => ?_
    obtain ⟨answer, rfl, hanswer⟩ := map_eq_ok_iff.1 hrow
    cases answer with
    | claimed t =>
      cases hanswer
      obtain ⟨hw, hid, hstage, hh⟩ := hd row rfl
      exact ⟨hw, hid, hstage, hde.2 _ _ _ hh⟩
    | _ => cases hanswer

/-! ## Handing over -/

/-- A task that the attempt holds was handed over. -/
theorem goes_handOver (hi : Inv S d) (hw : Waits source) (hh : HeldAt S d i task source false)
    (hrows : w'.store.tasks = d.state.store.tasks) (hseen : seen i d.state w' = [.handedOver i task (actionOf source)]) :
    Goes S (some i) d (next i d w') task where
  keyed := hi.keyed.congr hrows
  turn := by
    refine ⟨_, rfl, ?_⟩
    show Turn S (some i) d.memory task _ _ (statusOf w'.store task)
    rw [hseen, statusOf_congr hrows]
    exact .handedOver i source _ rfl hw hh
  others := fun u _ => statusOf_congr hrows

/-- From then on it counts as sent. -/
theorem heldAt_handOver (hh : HeldAt S d i task source false) (hrows : w'.store.tasks = d.state.store.tasks)
    (hseen : seen i d.state w' = [.handedOver i task (actionOf source)]) :
    HeldAt S (next i d w') i task source true ∧ .handedOver i task (actionOf source) ∈ (next i d w').memory := by
  refine ⟨?_, by simp [next, hseen]⟩
  unfold HeldAt next at *
  rw [hseen, statusOf_congr hrows]
  exact hh.handOver

/-- What a delivery leaves: the task is held as one that was sent, or as one that was not. -/
def Delivered (S : Nat → Prop) (i : Nat) (m : AgentMessage) (source : TaskStatus) (done : Bool)
    (c : Scene World History) : Prop :=
  HeldAt S c i m.task source done ∧ (done = true → .handedOver i m.task m.action ∈ c.memory)

variable {m : AgentMessage} {done : Bool}

theorem Delivered.follows (hc : Delivered S i m source done c) (h : Follows S i c d) : Delivered S i m source done d :=
  ⟨h.2 _ _ _ hc.1, fun hdone => h.1.subset (hc.2 hdone)⟩

theorem delivered_of_held (hh : HeldAt S c i m.task source false) : Delivered S i m source false c :=
  ⟨hh, fun h => by cases h⟩

/-- The mailboxes after a delivery to one of them. -/
def deliver (i : Nat) (m : AgentMessage) (b : Nat) (r : Registry) : Registry :=
  r.modifyMailbox b fun _ => ((r.mailbox b).deliver i m).2

theorem leads_deliver {b : Nat} (hw : Waits source) (hact : m.action = actionOf source)
    (hh : HeldAt S c i m.task source false) :
    (claims S).Leads i (Program.apply fun w =>
        (((w.registry.mailbox b).deliver i m).1, { w with registry := deliver i m b w.registry }))
      (Delivered S i m source) c := by
  refine leads_step fun d hcd hi => ?_
  have hd := hcd.2 _ _ _ hh
  obtain ⟨w', hw'⟩ : ∃ w', w' = { d.state with registry := deliver i m b d.state.registry } := ⟨_, rfl⟩
  simp only [← hw']
  cases hclosed : (d.state.registry.mailbox b).closed with
  | true =>
    have hfail : ((d.state.registry.mailbox b).deliver i m).1 = false := by simp [Mailbox.deliver, hclosed]
    have hcalm : Calm d.state w' := by
      rw [hw', deliver]
      exact unnoticed_modifyMailbox (by simp [Mailbox.deliver, hclosed]) hi.keyed
    rw [hfail]
    exact ⟨⟨0, hcalm.goes (some i) 0⟩, fun e hde => delivered_of_held (hde.2 _ _ _ (hcalm.follows.2 _ _ _ hd))⟩
  | false =>
    have hdone : ((d.state.registry.mailbox b).deliver i m).1 = true := by simp [Mailbox.deliver, hclosed]
    have hrows : w'.store.tasks = d.state.store.tasks := by rw [hw']
    have hseen : seen i d.state w' = [.handedOver i m.task (actionOf source)] := by
      rw [hw', seen_registry hi.keyed, deliver, deliveriesBetween_deliver hclosed, List.map_singleton, hact]
    obtain ⟨hheld, hmem⟩ := heldAt_handOver hd hrows hseen
    rw [hdone]
    exact ⟨⟨m.task, goes_handOver hi hw hd hrows hseen⟩, fun e hde => .follows ⟨hheld, fun _ => hact ▸ hmem⟩ hde⟩

theorem leads_sendTask (agent : String) (hw : Waits source) (hact : m.action = actionOf source)
    (hh : HeldAt S c i m.task source false) :
    (claims S).Leads i (Agent.sendTask i agent m).run (fun r d => Delivered S i m source r.isOk d) c := by
  -- up to the delivery, and after one that failed, the task is held and not sent
  refine .always_bind (leads_holding (steps_aside (steps_read _)) hh) fun fault d hd => ?_
  cases fault with
  | some reason => exact Discipline.leads_pure fun e he => delivered_of_held (he.2 _ _ _ hd)
  | none =>
  refine .always_bind (leads_holding (steps_aside (steps_read _)) hd) fun connection d hd => ?_
  cases connection with
  | none => exact Discipline.leads_pure fun e he => delivered_of_held (he.2 _ _ _ hd)
  | some conn =>
  refine .always_bind (leads_holding (Program.steps_modify fun w => unnoticed_modifyMailbox rfl) hd) fun _ d hd => ?_
  refine .always_bind (leads_holding (Program.steps_waitFor _) hd) fun _ d hd => ?_
  refine .always_bind (leads_deliver (b := conn.mailbox) hw hact hd) fun delivered d hd => ?_
  cases delivered with
  | true => exact Discipline.leads_pure fun e he => hd.follows he
  | false =>
    refine .always_bind (leads_holding (Program.steps_modify fun w => unnoticed_registry fun b => rfl) hd.1) fun _ d hd => ?_
    exact Discipline.leads_pure fun e he => delivered_of_held (he.2 _ _ _ hd)

theorem leads_askFor {row : Task} (hw : Waits source) (hact : localAction row = actionOf source)
    (hh : HeldAt S c i row.id source false) :
    (claims S).Leads i (Program.modify (·.spawn (.runLocal row)))
      (fun _ d => .handedOver i row.id (actionOf source) ∈ d.memory) c := by
  refine leads_step (f := fun w => ((), w.spawn (.runLocal row))) fun d hcd hi => ?_
  have hd := hcd.2 _ _ _ hh
  have hseen : seen i d.state (d.state.spawn (.runLocal row)) = [.handedOver i row.id (actionOf source)] := by
    rw [seen_spawn hi.keyed]
    simp [jobEvents, hact]
  have hrows : (d.state.spawn (.runLocal row)).store.tasks = d.state.store.tasks := rfl
  exact ⟨⟨row.id, goes_handOver hi hw hd hrows hseen⟩, fun e hde => hde.1.subset (heldAt_handOver hd hrows hseen).2⟩

/-! ## Settling, rolling back and counting -/

theorem rowEvents_putBack (hrun : t.status = .running) (hw : Waits t'.status) :
    rowEvents i t t' = [.putBack (some i) t'.id] := by
  unfold rowEvents
  rw [if_neg (fun h => h.1 hrun), if_pos ⟨hrun, hw⟩]

theorem rowEvents_of_same_status (h : t'.status = t.status) :
    rowEvents i t t' = if t' ≠ t ∧ t'.retryCount = 0 then [.settled i t'.id] else [] := by
  unfold rowEvents
  have hstart : ¬(t.status ≠ .running ∧ t'.status = .running) := by
    rw [h]
    exact fun hs => hs.1 hs.2
  have hback : ¬(t.status = .running ∧ Waits t'.status) := by
    rintro ⟨hrun, hw⟩
    rw [h, hrun] at hw
    simp [Waits] at hw
  rw [if_neg hstart, if_neg hback]
  simp only [h, true_and]

/-- A counted retry is at least one. -/
theorem rowEvents_countRetry : rowEvents i t t.countRetry = [] := by
  have hstatus : t.countRetry.status = t.status := rfl
  rw [rowEvents_of_same_status hstatus, if_neg]
  rintro ⟨hne, hzero⟩
  unfold Task.countRetry at hne hzero
  split at hne
  · exact hne rfl
  · next hmax =>
    simp only [if_neg hmax] at hzero
    have hlt := t.retryCount.toNat_lt
    have hsum := congrArg UInt32.toNat hzero
    have hmax' : t.retryCount.toNat ≠ 0xFFFFFFFF := fun h => hmax (UInt32.toNat_inj.1 h)
    simp at hsum
    omega

theorem leads_tryUpdate {change : Task → Except StoreError Task} {Q : Unit → Scene World History → Prop}
    (hsame : ∀ d, Follows S i c d → Q () d)
    (hwrite : ∀ d t t', Follows S i c d → Inv S d → d.state.store.Holds t → t.id = task → change t = .ok t' →
      t'.id = t.id ∧ Turn S (some i) d.memory t.id (some t.status) (rowEvents i t t') (some t'.status) ∧
        ∀ e, Follows S i (next i d { d.state with store := d.state.store.setTask t' }) e → Q () e) :
    (claims S).Leads i (tryUpdate task change) Q c := by
  refine .bind (R := fun _ d => ∀ e, Follows S i d e → Q () e) (leads_transact (fun _ d hd e hde => ?_) ?_) fun r d hd => ?_
  · exact hsame e (hd.trans hde)
  · intro d t' s' hcd hi h
    obtain ⟨t, ht, hid, hch, hset⟩ := hi.keyed.of_updateTask h
    obtain ⟨hrid, hturn, hend⟩ := hwrite d t t' hcd hi ht hid hch
    rw [hset hrid]
    exact ⟨⟨t.id, goes_setTask hi ht hrid hturn⟩, fun e hde f hef => hend f (hde.trans hef)⟩
  · exact Discipline.leads_pure fun e hde => hd e hde

/-- Settling is no news for those who hold claims, the attempt itself included. -/
theorem follows_settle (hi : Inv S d) (ht : d.state.store.Holds t) (hid : t'.id = t.id) (hst : t'.status = t.status)
    (hgoes : Goes S (some i) d (next i d { d.state with store := d.state.store.setTask t' }) t.id) :
    Follows S i d (next i d { d.state with store := d.state.store.setTask t' }) := by
  refine ⟨hgoes.grows, fun u source sent hu => ?_⟩
  by_cases hut : u = t.id
  · subst hut
    have hafter : statusOf (d.state.store.setTask t') t.id = statusOf d.state.store t.id := by
      rw [statusOf_of_holds ht, ← hst, ← hid]
      exact statusOf_setTask_self
    unfold HeldAt next at *
    rw [seen_store, storeEvents_setTask hi.keyed ht hid, rowEvents_of_same_status hst]
    show Held S _ i t.id source sent (statusOf (d.state.store.setTask t') t.id)
    rw [hafter]
    split
    · rw [hid]
      exact hu.settle
    · rwa [List.append_nil]
  · exact hgoes.held_of_ne hut hu

theorem leads_settle (hh : HeldAt S c i task source sent) :
    (claims S).Leads i (settle cfg task) (fun _ d => Follows S i c d) c := by
  refine leads_tryUpdate (fun _ hd => hd) fun d t t' hcd hi ht hid hch => ?_
  obtain ⟨row, hrow⟩ : ∃ row, row = t.settle cfg.holder := ⟨_, rfl⟩
  have hrid : row.id = t.id := by rw [hrow]; rfl
  have hrst : row.status = t.status := by rw [hrow]; rfl
  cases hch
  rw [← hrow]
  have hd := hid ▸ hcd.2 _ _ _ hh
  have hturn : Turn S (some i) d.memory t.id (some t.status) (rowEvents i t row) (some row.status) := by
    rw [rowEvents_of_same_status hrst, hrst, hrid]
    split
    · exact .settled i source sent _ rfl (statusOf_of_holds ht ▸ hd)
    · exact .rest _
  have hfollows := follows_settle hi ht hrid hrst (goes_setTask hi ht hrid hturn)
  exact ⟨hrid, hturn, fun e hde => hcd.trans (hfollows.trans hde)⟩

theorem leads_rollBack {seen : Task} (hw : Waits seen.status) (hh : HeldAt S c i seen.id seen.status false) :
    (claims S).Leads i (rollBack seen) (fun _ _ => True) c := by
  refine leads_tryUpdate (fun _ _ => trivial) fun d t row hcd hi ht hid hch => ?_
  have hd := hid ▸ hcd.2 _ _ _ hh
  unfold HeldAt at hd
  rw [statusOf_of_holds ht] at hd
  unfold Task.rollBack at hch
  split at hch
  · cases hch
    refine ⟨rfl, ?_, fun _ _ => trivial⟩
    rw [rowEvents_self]
    exact .rest _
  · next hrun =>
    have hrun : t.status = .running := Classical.not_not.1 hrun
    obtain ⟨-, hrow⟩ := Store.map_move_ok_iff.1 hch
    have hrid : row.id = t.id := by rw [hrow]
    have hrst : row.status = seen.status := by rw [hrow]
    refine ⟨hrid, ?_, fun _ _ => trivial⟩
    rw [rowEvents_putBack hrun (hrst ▸ hw), hrid, hrst, hrun]
    exact .rolledBack i seen.status rfl hw (hrun ▸ hd)

theorem steps_transact {f : Store → Except StoreError (α × Store)}
    (hf : ∀ w a s', w.store.Keyed → f w.store = .ok (a, s') → Calm w { w with store := s' }) :
    (Program.transact f).Steps Unnoticed := by
  refine Program.steps_apply fun w => ?_
  cases hr : f w.store with
  | ok r => exact fun hk => hf w r.1 r.2 hk hr
  | error err => exact unnoticed_of_aside (aside_refl w)

theorem steps_countRetry (task : UInt64) : (tryUpdate task fun t => .ok t.countRetry).Steps Unnoticed := by
  refine .bind (steps_transact fun w row s' hk h => ?_) fun _ => trivial
  obtain ⟨t, ht, -, hch, hset⟩ := hk.of_updateTask h
  have hrow : row = t.countRetry := (Except.ok.inj hch).symm
  have hrid : row.id = t.id := by rw [hrow]; rfl
  have hrst : row.status = t.status := by rw [hrow]; rfl
  rw [hset hrid]
  refine ⟨hk.setTask row, fun u => ?_, fun i => ?_⟩
  · by_cases hu : u = row.id
    · rw [hu, statusOf_setTask_self, hrst, hrid, statusOf_of_holds ht]
    · exact statusOf_setTask_of_ne hu
  · rw [seen_store, storeEvents_setTask hk ht hrid, hrow, rowEvents_countRetry]

end TaskFleet.Claims
