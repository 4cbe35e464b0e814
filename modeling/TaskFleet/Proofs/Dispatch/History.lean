/-
  TaskFleet.Proofs.Dispatch.History — what is remembered of a run, and which hand-overs its
  memory justifies.

  A history has the confirmations that succeeded, and what each process was seen to do: rows
  that it started and messages that it delivered. Work on this machine is noted when it begins.
  - `Allowed`: an apply needs a confirmation and a claim of a task that waited for it; a plan
    needs a claim of a pending task. The claim is the one of the same attempt.
  - `Inv`: confirmed rows were confirmed, jobs that wait to be carried out are allowed, and so
    was everything that happened.
  - `ensures_of_within`: a process whose steps keep IDs and confirmations, and send and ask
    for nothing that is not allowed, keeps to this discipline.
-/

import TaskFleet.Proofs.Interleaving
import TaskFleet.Proofs.Store.RowChanges
import TaskFleet.Dispatch.Completion

namespace TaskFleet.Gate

inductive GateEvent
  /-- An operator confirmed the apply of a task. -/
  | confirmed (task : UInt64) (user : String)
  /-- A process claimed a task, here as it is in the store since then, that was in this status. -/
  | claimed (process : Nat) (task : Task) (source : TaskStatus)
  /-- A process sent a message to an agent. -/
  | delivered (process : Nat) (message : AgentMessage)
  /-- The work on a claimed task began on this machine. -/
  | carriedOut (task : Task)

/-- Whether an operator who has a name confirmed the apply. -/
def Confirmed (history : List GateEvent) (task : UInt64) : Prop := ∃ user, user ≠ "" ∧ .confirmed task user ∈ history

/-- Whether an action on a task may begin after this history, by the statuses that the claims
    made for it found the task in. -/
def Justified (history : List GateEvent) (task : UInt64) (claimedFrom : TaskStatus → Prop) : AgentAction → Prop
  | .apply => Confirmed history task ∧ claimedFrom .applyPending
  | .plan => claimedFrom .pending

/-- Whether an event may come after this history. -/
def Allowed (history : List GateEvent) : GateEvent → Prop
  | .delivered process m =>
    Justified history m.task (fun source => ∃ t, t.id = m.task ∧ .claimed process t source ∈ history) m.action
  | .carriedOut t => Justified history t.id (fun source => ∃ process, .claimed process t source ∈ history)
    (Dispatch.localAction t)
  | _ => True

/-- Each event was allowed by the events before it. -/
inductive EventsAllowed : List GateEvent → Prop
  | nil : EventsAllowed []
  | snoc {history : List GateEvent} {e : GateEvent} :
      EventsAllowed history → Allowed history e → EventsAllowed (history ++ [e])

variable {h h' l : List GateEvent} {e : GateEvent} {i : Nat} {w w' : World}

theorem Confirmed.mono {task : UInt64} (hc : Confirmed h task) (hp : h <+: h') : Confirmed h' task := by
  obtain ⟨user, hne, hm⟩ := hc
  exact ⟨user, hne, hp.subset hm⟩

theorem Justified.mono {task : UInt64} {claimed claimed' : TaskStatus → Prop} {action : AgentAction}
    (hj : Justified h task claimed action) (hp : h <+: h') (hc : ∀ source, claimed source → claimed' source) :
    Justified h' task claimed' action := by
  cases action with
  | apply => exact ⟨hj.1.mono hp, hc _ hj.2⟩
  | plan => exact hc _ hj

theorem Allowed.mono (ha : Allowed h e) (hp : h <+: h') : Allowed h' e := by
  cases e with
  | confirmed task user => trivial
  | claimed process t source => trivial
  | delivered process m =>
    unfold Allowed at ha ⊢
    refine ha.mono hp fun source hc => ?_
    obtain ⟨t, hid, hm⟩ := hc
    exact ⟨t, hid, hp.subset hm⟩
  | carriedOut t =>
    unfold Allowed at ha ⊢
    refine ha.mono hp fun source hc => ?_
    obtain ⟨process, hm⟩ := hc
    exact ⟨process, hp.subset hm⟩

theorem EventsAllowed.append (hs : EventsAllowed h) (hl : ∀ e ∈ l, Allowed h e) : EventsAllowed (h ++ l) := by
  induction l generalizing h with
  | nil => rw [List.append_nil]; exact hs
  | cons e l ih =>
    have hstep : EventsAllowed (h ++ [e]) := hs.snoc (hl e List.mem_cons_self)
    have hrest := ih hstep fun e' he' => (hl e' (List.mem_cons_of_mem _ he')).mono (List.prefix_append h [e])
    rwa [List.append_assoc, List.singleton_append] at hrest

/-- The events before an event allowed it. -/
theorem EventsAllowed.allowed (hs : EventsAllowed h) {before after : List GateEvent} (he : h = before ++ e :: after) :
    Allowed before e := by
  induction hs generalizing before after with
  | nil => simp at he
  | @snoc history e' _ ha ih =>
    rcases cut_snoc he with ⟨rfl, rfl⟩ | ⟨after', hcut⟩
    · exact ha
    · exact ih hcut

/-! ## What is seen of a step -/

/-- The rows that were started, with the statuses they were in. -/
def claimsBetween (s s' : Store) : List (Task × TaskStatus) :=
  s'.tasks.values.filterMap fun row =>
    match row with
    | .record t =>
      match s.task? t.id with
      | .ok (some u) => if t.status = .running ∧ u.status ≠ .running then some (t, u.status) else none
      | _ => none
    | .unreadable _ => none

/-- The messages that were added to a mailbox. -/
def deliveriesBetween (r r' : Registry) : List AgentMessage :=
  (List.range r'.mailboxes.length).flatMap fun b => (r'.mailbox b).messages.drop (r.mailbox b).messages.length

def observe (process : Nat) (w w' : World) (history : List GateEvent) : List GateEvent :=
  history ++
    ((claimsBetween w.store w'.store).map fun c => .claimed process c.1 c.2) ++
    ((deliveriesBetween w.registry w'.registry).map fun m => .delivered process m)

theorem claimsBetween_same {s : Store} (hs : s.Keyed) : claimsBetween s s = [] := by
  unfold claimsBetween
  rw [List.filterMap_eq_nil_iff]
  intro row hrow
  obtain ⟨k, hk⟩ := Table.mem_values.1 hrow
  obtain ⟨t, rfl, rfl⟩ := hs k row hk
  have htask : s.task? t.id = .ok (some t) := hs.task?_iff.2 ⟨hk, rfl⟩
  simp [htask]

theorem mem_claimsBetween {s s' : Store} {t u : Task} (hs : s.Keyed) (ht : s'.Holds t) (hu : s.Holds u)
    (hid : u.id = t.id) (hrun : t.status = .running) (hidle : u.status ≠ .running) :
    (t, u.status) ∈ claimsBetween s s' := by
  unfold claimsBetween
  rw [List.mem_filterMap]
  refine ⟨.record t, Table.mem_values.2 ⟨t.key, ht⟩, ?_⟩
  have htask : s.task? t.id = .ok (some u) := hs.task?_iff.2 ⟨hu, hid⟩
  simp [htask, hrun, hidle]

theorem deliveriesBetween_eq_nil {r r' : Registry}
    (hm : ∀ b, (r'.mailbox b).messages = (r.mailbox b).messages) : deliveriesBetween r r' = [] := by
  unfold deliveriesBetween
  rw [List.flatMap_eq_nil_iff]
  intro b _
  rw [hm, List.drop_length]

theorem mem_deliveriesBetween {r r' : Registry} {m : AgentMessage} (h : m ∈ deliveriesBetween r r') :
    ∃ b, m ∈ (r'.mailbox b).messages.drop (r.mailbox b).messages.length := by
  unfold deliveriesBetween at h
  obtain ⟨b, _, hm⟩ := List.mem_flatMap.1 h
  exact ⟨b, hm⟩

theorem mailbox_modifyMailbox (r : Registry) (b b' : Nat) (f : Mailbox → Mailbox) :
    (r.modifyMailbox b f).mailbox b' = r.mailbox b' ∨
      (b' = b ∧ (r.modifyMailbox b f).mailbox b' = f (r.mailbox b')) := by
  unfold Registry.mailbox Registry.modifyMailbox
  simp only [List.getElem?_modify]
  by_cases hb : b = b'
  · subst hb
    cases hm : r.mailboxes[b]? with
    | none => left; simp
    | some box => right; simp
  · left; simp [hb]

theorem drop_deliver (b : Mailbox) (process : Nat) (m : AgentMessage) :
    ∀ m' ∈ (b.deliver process m).2.messages.drop b.messages.length, m' ∈ [m] := by
  intro m' hm'
  cases hc : b.closed with
  | true => simp [Mailbox.deliver, hc] at hm'
  | false => simpa [Mailbox.deliver, hc] using hm'

/-! ## The discipline -/

structure Inv (c : Scene World (List GateEvent)) : Prop where
  keyed : c.state.store.Keyed
  confirmed : ∀ t, c.state.store.Holds t → t.isApplyConfirmed = true → Confirmed c.memory t.id
  jobs : ∀ t, .runLocal t ∈ c.state.spawned → Allowed c.memory (.carriedOut t)
  sound : EventsAllowed c.memory

/-- Each process relies on nothing but that history is not rewritten. -/
def gate : Discipline World (List GateEvent) where
  observe := observe
  Inv := Inv
  Rely _ c d := c.memory <+: d.memory
  idle := by
    intro i c hi
    have hsame : observe i c.state c.state c.memory = c.memory := by
      unfold observe
      rw [claimsBetween_same hi.keyed, deliveriesBetween_eq_nil fun _ => rfl]
      simp
    rw [hsame]
    exact ⟨hi, fun _ => List.prefix_refl _⟩
  rely_refl _ _ := List.prefix_refl _
  rely_trans _ _ _ _ := List.IsPrefix.trans

theorem prefix_observe : h <+: observe i w w' h := by
  unfold observe
  rw [List.append_assoc]
  exact List.prefix_append _ _

/-! ## Harmless steps -/

/-- Every row is of a task that was there, confirmed by the same operator. -/
structure Kept (s s' : Store) : Prop where
  keyed : s'.Keyed
  rows : ∀ t', s'.Holds t' → ∃ t, s.Holds t ∧ t'.id = t.id ∧ t'.confirmedBy = t.confirmedBy

/-- A step that keeps the rows, delivers only these messages and asks only for these tasks to
    be carried out. -/
structure Within (messages : List AgentMessage) (tasks : List Task) (w w' : World) : Prop where
  kept : w.store.Keyed → Kept w.store w'.store
  delivered : ∀ m ∈ deliveriesBetween w.registry w'.registry, m ∈ messages
  asked : ∀ t, .runLocal t ∈ w'.spawned → .runLocal t ∈ w.spawned ∨ t ∈ tasks

theorem keeps_of_within {c : Scene World (List GateEvent)} {act : World → World} {messages : List AgentMessage}
    {tasks : List Task} (hi : Inv c) (hw : Within messages tasks c.state (act c.state))
    (hm : ∀ m ∈ messages, Allowed c.memory (.delivered i m)) (ht : ∀ t ∈ tasks, Allowed c.memory (.carriedOut t)) :
    gate.Keeps i c (gate.after i act c) := by
  have hkept := hw.kept hi.keyed
  refine ⟨⟨hkept.keyed, ?_, ?_, ?_⟩, fun j _ => prefix_observe⟩
  · intro t' ht' hconf
    obtain ⟨t, hheld, hid, hby⟩ := hkept.rows t' ht'
    have hconf' : t.isApplyConfirmed = true := by unfold Task.isApplyConfirmed at hconf ⊢; rwa [← hby]
    rw [hid]
    exact (hi.confirmed t hheld hconf').mono prefix_observe
  · intro t hjob
    rcases hw.asked t hjob with hjob | hjob
    · exact (hi.jobs t hjob).mono prefix_observe
    · exact (ht t hjob).mono prefix_observe
  · show EventsAllowed (observe i c.state (act c.state) c.memory)
    unfold observe
    rw [List.append_assoc]
    refine hi.sound.append fun e he => ?_
    rcases List.mem_append.1 he with he | he
    · obtain ⟨p, _, rfl⟩ := List.mem_map.1 he
      trivial
    · obtain ⟨m, hmem, rfl⟩ := List.mem_map.1 he
      exact hm m (hw.delivered m hmem)

theorem ensures_of_within {α : Type} {p : Program World α} {c : Scene World (List GateEvent)}
    {messages : List AgentMessage} {tasks : List Task} (hp : p.Steps (Within messages tasks))
    (hm : ∀ m ∈ messages, Allowed c.memory (.delivered i m)) (ht : ∀ t ∈ tasks, Allowed c.memory (.carriedOut t)) :
    gate.Ensures i p (fun _ d => c.memory <+: d.memory) c := by
  refine .of_steps hp (fun d e hd hr => hd.trans hr) (fun d act hi hd hw => ?_) (List.prefix_refl _)
  refine ⟨keeps_of_within hi hw (fun m hmem => (hm m hmem).mono hd) (fun t hmem => (ht t hmem).mono hd), ?_⟩
  exact hd.trans prefix_observe

end TaskFleet.Gate
