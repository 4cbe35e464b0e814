/-
  TaskFleet.Proofs.Dispatch.ClaimHistory — what is remembered of claims and hand-overs, task by
  task.

  A task waits, is claimed, is handed over by its claimant and moves on, or goes back to wait.
  What keeps two attempts from handing it over twice is the claim, which moves the row; what
  keeps an attempt from undoing somebody else's claim is only that rows stay where they are,
  and a sweep moves them.
  - `hold`: the last claim of a task, and what became of it.
  - `Held`: an attempt has claimed a task and may still count on that, or was robbed of it.
  - `Turn`: all that one step may do to one task. `Turn.allowed`, `Turn.fine` and `Turn.held`
    are what every step keeps: for the history, for the row, and for the other attempts.
-/

import Mathlib.Data.List.Induction
import TaskFleet.Proofs.Store.RowChanges
import TaskFleet.Proofs.Dispatch.History

namespace TaskFleet.Claims

inductive ClaimEvent
  /-- A process claimed a task that was in this status. -/
  | claimed (process : Nat) (task : UInt64) (source : TaskStatus)
  /-- A process handed a task over, to an agent or to be carried out on this machine. -/
  | handedOver (process : Nat) (task : UInt64) (action : AgentAction)
  /-- A running task went back to wait, by the hand of a process or of somebody outside. -/
  | putBack (process : Option Nat) (task : UInt64)
  /-- A process noted on the row of a task that it is on its way. -/
  | settled (process : Nat) (task : UInt64)
  deriving DecidableEq

def ClaimEvent.task : ClaimEvent → UInt64
  | claimed _ task _ | handedOver _ task _ | putBack _ task | settled _ task => task

abbrev History := List ClaimEvent

/-! ## The last claim -/

/-- The last claim of a task. -/
structure Hold where
  process : Nat
  source : TaskStatus
  /-- Whether the claimant handed the task over. -/
  sent : Bool := false
  /-- Whether the task has not gone back to wait. -/
  stands : Bool := true

/-- The last claim of a task after one more event. -/
def Hold.next (task : UInt64) (a : Option Hold) : ClaimEvent → Option Hold
  | .claimed i t source => if t = task then some { process := i, source } else a
  | .handedOver i t _ => if t = task then a.map fun b => { b with sent := b.sent || b.process == i } else a
  | .putBack _ t => if t = task then a.map fun b => { b with stands := false } else a
  | .settled _ _ => a

def hold (h : History) (task : UInt64) : Option Hold := h.foldl (Hold.next task) none

variable {S : Nat → Prop} {h h' l : History} {e : ClaimEvent} {i j : Nat} {p x : Option Nat} {task : UInt64}
  {source : TaskStatus} {action : AgentAction} {sent : Bool} {st st' : Option TaskStatus} {a : Hold}

theorem hold_snoc : hold (h ++ [e]) task = Hold.next task (hold h task) e := by simp [hold]

theorem hold_of_ne (he : e.task ≠ task) : hold (h ++ [e]) task = hold h task := by
  rw [hold_snoc]
  cases e <;> simp only [ClaimEvent.task] at he <;> simp [Hold.next, he]

/-- A last claim is the event's, or it was there before. -/
theorem next_eq_some {b : Option Hold} (ha : Hold.next task b e = some a) :
    e = .claimed a.process task a.source ∨ ∃ b', b = some b' ∧ a.process = b'.process ∧ a.source = b'.source := by
  cases e with
  | claimed i t source =>
    simp only [Hold.next] at ha
    split at ha
    · next ht => cases ha; subst ht; exact .inl rfl
    · exact .inr ⟨a, ha, rfl, rfl⟩
  | handedOver i t action =>
    simp only [Hold.next] at ha
    split at ha
    · obtain ⟨b', hb, rfl⟩ := Option.map_eq_some_iff.1 ha
      exact .inr ⟨b', hb, rfl, rfl⟩
    · exact .inr ⟨a, ha, rfl, rfl⟩
  | putBack x t =>
    simp only [Hold.next] at ha
    split at ha
    · obtain ⟨b', hb, rfl⟩ := Option.map_eq_some_iff.1 ha
      exact .inr ⟨b', hb, rfl, rfl⟩
    · exact .inr ⟨a, ha, rfl, rfl⟩
  | settled i t => exact .inr ⟨a, ha, rfl, rfl⟩

theorem claimed_of_hold (ha : hold h task = some a) : .claimed a.process task a.source ∈ h := by
  induction h using List.reverseRecOn generalizing a with
  | nil => cases ha
  | append_singleton h e ih =>
    rw [hold_snoc] at ha
    rcases next_eq_some ha with rfl | ⟨b, hb, hprocess, hsource⟩
    · exact List.mem_append_right _ (List.mem_singleton.2 rfl)
    · rw [hprocess, hsource]
      exact List.mem_append_left _ (ih hb)

theorem next_ne_none {a : Option Hold} (ha : a ≠ none) : Hold.next task a e ≠ none := by
  obtain ⟨b, rfl⟩ := Option.ne_none_iff_exists'.1 ha
  cases e <;> simp only [Hold.next] <;> (try split) <;> simp

theorem hold_of_claimed (hc : .claimed i task source ∈ h) : hold h task ≠ none := by
  induction h using List.reverseRecOn with
  | nil => cases hc
  | append_singleton h e ih =>
    rw [hold_snoc]
    rcases List.mem_append.1 hc with hm | hm
    · exact next_ne_none (ih hm)
    · cases List.mem_singleton.1 hm
      simp [Hold.next]

/-! ## Whose claim it is -/

/-- A status in which a task may be claimed. -/
def Waits (source : TaskStatus) : Prop := source = .pending ∨ source = .applyPending

instance : DecidablePred Waits := fun _ => inferInstanceAs (Decidable (_ ∨ _))

/-- What the claimant of a task in this status hands it over for. -/
def actionOf (source : TaskStatus) : AgentAction := if source = .applyPending then .apply else .plan

/-- The claim that is recorded on the task is the process's own. -/
def Owns (h : History) (process : Nat) (task : UInt64) : Prop :=
  ∃ a, hold h task = some a ∧ a.process = process ∧ a.stands = true

/-- Since the process claimed it, the task went back to wait by somebody else's hand. -/
def Robbed (h : History) (process : Nat) (task : UInt64) (source : TaskStatus) (who : Option Nat) : Prop :=
  who ≠ some process ∧ ∃ h₁ h₂, h = h₁ ++ .claimed process task source :: h₂ ∧ .putBack who task ∈ h₂

/-- None of the processes `S` that sweep has taken the task back. -/
def Unswept (S : Nat → Prop) (h : History) (task : UInt64) : Prop := ∀ i, S i → .putBack (some i) task ∉ h

theorem Unswept.of_append (hu : Unswept S (h ++ l) task) : Unswept S h task :=
  fun i hi hm => hu i hi (List.mem_append_left _ hm)

theorem Robbed.append (hr : Robbed h i task source x) : Robbed (h ++ l) i task source x := by
  obtain ⟨hne, h₁, h₂, rfl, hm⟩ := hr
  exact ⟨hne, h₁, h₂ ++ l, by simp, List.mem_append_left _ hm⟩

theorem Robbed.claimed (hr : Robbed h i task source x) : .claimed i task source ∈ h := by
  obtain ⟨-, h₁, h₂, rfl, -⟩ := hr
  exact List.mem_append_right _ List.mem_cons_self

/-- Whoever puts a task back robs its claimant. -/
theorem robbed_of_putBack (hc : .claimed i task source ∈ h) (hne : x ≠ some i) :
    Robbed (h ++ [.putBack x task]) i task source x := by
  obtain ⟨h₁, h₂, rfl⟩ := List.append_of_mem hc
  exact ⟨hne, h₁, h₂ ++ [.putBack x task], by simp, List.mem_append_right _ (List.mem_singleton.2 rfl)⟩

/-- The row is running, or the task is over. -/
def IsTaken (st : Option TaskStatus) : Prop := st = some .running ∨ ∃ s, st = some s ∧ s.isTerminal = true

theorem IsTaken.not_waits (ht : IsTaken (some source)) : ¬Waits source := by
  rintro (rfl | rfl) <;> simp [IsTaken, TaskStatus.isTerminal] at ht

/-- The attempt claimed the task and its claim is the last, or it was robbed. Before it has
    handed the task over, only a process can rob it, and a sweep has started that. -/
def Held (S : Nat → Prop) (h : History) (i : Nat) (task : UInt64) (source : TaskStatus) (sent : Bool)
    (st : Option TaskStatus) : Prop :=
  (hold h task = some { process := i, source, sent } ∧ IsTaken st) ∨
    ∃ x, Robbed h i task source x ∧ (sent = false → x ≠ none ∧ ¬Unswept S h task)

theorem Held.claimed (hh : Held S h i task source sent st) : .claimed i task source ∈ h := by
  rcases hh with ⟨ha, -⟩ | ⟨x, hr, -⟩
  · exact claimed_of_hold ha
  · exact hr.claimed

/-! ## What the history justifies -/

/-- Whether an event may come after this history. -/
def Allowed (S : Nat → Prop) (h : History) : ClaimEvent → Prop
  | .claimed _ _ _ => True
  | .handedOver i task action =>
    (∃ source, Waits source ∧ actionOf source = action ∧ .claimed i task source ∈ h) ∧
      (Unswept S h task → ∀ j, .handedOver j task action ∉ h)
  | .putBack none _ => True
  | .putBack (some i) task =>
    S i ∨ Owns h i task ∨ ∃ source j, Robbed h i task source (some j) ∧ ¬Unswept S h task
  | .settled i task => Owns h i task ∨ ∃ source x, Robbed h i task source x

/-- Each event was allowed by the events before it. -/
inductive ClaimsAllowed (S : Nat → Prop) : History → Prop
  | nil : ClaimsAllowed S []
  | snoc {h : History} {e : ClaimEvent} : ClaimsAllowed S h → Allowed S h e → ClaimsAllowed S (h ++ [e])

theorem ClaimsAllowed.allowed (hs : ClaimsAllowed S h) {before after : History} (he : h = before ++ e :: after) :
    Allowed S before e := by
  induction hs generalizing before after with
  | nil => simp at he
  | @snoc history e' _ ha ih =>
    rcases cut_snoc he with ⟨rfl, rfl⟩ | ⟨after', hcut⟩
    · exact ha
    · exact ih hcut

/-! ## What the row tells -/

/-- What the status of a task's row says of its hand-overs. -/
structure Fine (S : Nat → Prop) (h : History) (task : UInt64) (st : Option TaskStatus) : Prop where
  known : hold h task ≠ none → st ≠ none
  claimed : ∀ j action, .handedOver j task action ∈ h → hold h task ≠ none
  pending : st = some .pending → Unswept S h task → ∀ j action, .handedOver j task action ∉ h
  waiting : st = some .applyPending → Unswept S h task → ∀ j, .handedOver j task .apply ∉ h
  planning : ∀ a, hold h task = some a → a.source = .pending → Unswept S h task → ∀ j, .handedOver j task .apply ∉ h
  unsent : ∀ a, hold h task = some a → a.sent = false → Unswept S h task →
    ∀ j, .handedOver j task (actionOf a.source) ∉ h

theorem fine_nil : Fine S [] task st := by
  constructor <;> simp [hold]

/-- A hand-over after one more event that is none is a hand-over before. -/
theorem handedOver_of_snoc (he : ∀ j action, e ≠ .handedOver j task action)
    (hm : .handedOver j task action ∈ h ++ [e]) : .handedOver j task action ∈ h := by
  rcases List.mem_append.1 hm with hm | hm
  · exact hm
  · exact absurd (List.mem_singleton.1 hm).symm (he j action)

/-- An event that neither hands the task over nor changes the last claim does not matter. -/
theorem Fine.unheard (hf : Fine S h task st) (he : ∀ j action, e ≠ .handedOver j task action)
    (hhold : hold (h ++ [e]) task = hold h task) : Fine S (h ++ [e]) task st := by
  have hmem : ∀ {j action}, .handedOver j task action ∈ h ++ [e] → .handedOver j task action ∈ h :=
    fun hm => handedOver_of_snoc he hm
  constructor
  · rw [hhold]; exact hf.known
  · rw [hhold]; exact fun j action hm => hf.claimed j action (hmem hm)
  · exact fun hst hu j action hm => hf.pending hst hu.of_append j action (hmem hm)
  · exact fun hst hu j hm => hf.waiting hst hu.of_append j (hmem hm)
  · rw [hhold]; exact fun a ha hs hu j hm => hf.planning a ha hs hu.of_append j (hmem hm)
  · rw [hhold]; exact fun a ha hs hu j hm => hf.unsent a ha hs hu.of_append j (hmem hm)

theorem Held.unheard (hh : Held S h i task source sent st) (hhold : hold (h ++ [e]) task = hold h task) :
    Held S (h ++ [e]) i task source sent st := by
  rcases hh with ⟨ha, ht⟩ | ⟨x, hr, hx⟩
  · exact .inl ⟨hhold.trans ha, ht⟩
  · exact .inr ⟨x, hr.append, fun hs => ⟨(hx hs).1, fun hu => (hx hs).2 hu.of_append⟩⟩

theorem Fine.other (hf : Fine S h task st) (he : e.task ≠ task) : Fine S (h ++ [e]) task st :=
  hf.unheard (by rintro j action rfl; exact he rfl) (hold_of_ne he)

theorem Held.other (hh : Held S h i task source sent st) (he : e.task ≠ task) :
    Held S (h ++ [e]) i task source sent st := hh.unheard (hold_of_ne he)

/-! ## Steps -/

/-- What one step of a process, or of somebody outside, may do to a task: the status of its
    row before and after, and what is seen of it. -/
inductive Turn (S : Nat → Prop) (p : Option Nat) (h : History) (task : UInt64) :
    Option TaskStatus → History → Option TaskStatus → Prop
  | rest (st : Option TaskStatus) : Turn S p h task st [] st
  | created : Turn S p h task none [] (some .pending)
  | moved : Turn S p h task (some .pending) [] (some .applyPending)
  | ended (st : Option TaskStatus) (s : TaskStatus) : st ≠ none → s.isTerminal = true → Turn S p h task st [] (some s)
  | planned : p = none → (∀ a, hold h task = some a → a.source = .pending ∧ a.sent = true) →
      Turn S p h task (some .running) [.putBack none task] (some .applyPending)
  | claimed (i : Nat) (s : TaskStatus) : p = some i → Waits s →
      Turn S p h task (some s) [.claimed i task s] (some .running)
  | handedOver (i : Nat) (s : TaskStatus) (st : Option TaskStatus) : p = some i → Waits s →
      Held S h i task s false st → Turn S p h task st [.handedOver i task (actionOf s)] st
  | settled (i : Nat) (s : TaskStatus) (sent : Bool) (st : Option TaskStatus) : p = some i →
      Held S h i task s sent st → Turn S p h task st [.settled i task] st
  | rolledBack (i : Nat) (s : TaskStatus) : p = some i → Waits s → Held S h i task s false (some .running) →
      Turn S p h task (some .running) [.putBack (some i) task] (some s)
  | swept (i : Nat) (s : TaskStatus) : p = some i → S i → Waits s →
      Turn S p h task (some .running) [.putBack (some i) task] (some s)

/-- A step is seen as one event of the task at most. -/
theorem Turn.event (ht : Turn S p h task st l st') : l = [] ∨ ∃ e, l = [e] ∧ e.task = task := by
  cases ht with
  | rest => exact .inl rfl
  | created => exact .inl rfl
  | moved => exact .inl rfl
  | ended => exact .inl rfl
  | planned => exact .inr ⟨_, rfl, rfl⟩
  | claimed i s => exact .inr ⟨_, rfl, rfl⟩
  | handedOver i s st => exact .inr ⟨_, rfl, rfl⟩
  | settled i s sent st => exact .inr ⟨_, rfl, rfl⟩
  | rolledBack i s => exact .inr ⟨_, rfl, rfl⟩
  | swept i s => exact .inr ⟨_, rfl, rfl⟩

theorem Turn.snoc (ht : Turn S p h task st l st') (hl : h' = h ++ l) : h' = h ∨ ∃ e, h' = h ++ [e] ∧ e.task = task := by
  rcases ht.event with rfl | ⟨e, rfl, he⟩
  · exact .inl (hl.trans (List.append_nil _))
  · exact .inr ⟨e, hl, he⟩

theorem Held.ownsOrRobbed (hh : Held S h i task source sent st) :
    Owns h i task ∨ ∃ source x, Robbed h i task source x := by
  rcases hh with ⟨ha, -⟩ | ⟨x, hr, -⟩
  · exact .inl ⟨_, ha, rfl, rfl⟩
  · exact .inr ⟨source, x, hr⟩

/-- Every event that a step is seen as was allowed. -/
theorem Turn.allowed (ht : Turn S p h task st l st') (hf : Fine S h task st) : ∀ e ∈ l, Allowed S h e := by
  intro e he
  cases ht with
  | rest => cases he
  | created => cases he
  | moved => cases he
  | ended => cases he
  | planned => cases List.mem_singleton.1 he; trivial
  | claimed i s => cases List.mem_singleton.1 he; trivial
  | handedOver i s _ hi hs hh =>
    cases List.mem_singleton.1 he
    refine ⟨⟨s, hs, rfl, hh.claimed⟩, fun hu j => ?_⟩
    rcases hh with ⟨ha, -⟩ | ⟨x, -, hx⟩
    · exact hf.unsent _ ha rfl hu j
    · exact absurd hu (hx rfl).2
  | settled i s sent _ hi hh => cases List.mem_singleton.1 he; exact hh.ownsOrRobbed
  | rolledBack i s hi hs hh =>
    cases List.mem_singleton.1 he
    rcases hh with ⟨ha, -⟩ | ⟨x, hr, hx⟩
    · exact .inr (.inl ⟨_, ha, rfl, rfl⟩)
    · obtain ⟨j, rfl⟩ := Option.ne_none_iff_exists'.1 (hx rfl).1
      exact .inr (.inr ⟨s, j, hr, (hx rfl).2⟩)
  | swept i s hi hS => cases List.mem_singleton.1 he; exact .inl hS

/-- The row went back to wait, and nothing was handed over that would be again. -/
theorem Fine.putBack (hf : Fine S h task st) {s : TaskStatus}
    (hpending : s = .pending → Unswept S (h ++ [.putBack x task]) task → ∀ j action, .handedOver j task action ∉ h)
    (hwaiting : s = .applyPending → Unswept S (h ++ [.putBack x task]) task → ∀ j, .handedOver j task .apply ∉ h) :
    Fine S (h ++ [.putBack x task]) task (some s) := by
  have hmem : ∀ {j action}, .handedOver j task action ∈ h ++ [.putBack x task] → .handedOver j task action ∈ h :=
    fun hm => handedOver_of_snoc (by simp) hm
  have hhold : hold (h ++ [.putBack x task]) task = (hold h task).map fun b => { b with stands := false } := by
    rw [hold_snoc]
    simp [Hold.next]
  constructor
  · simp
  · rw [hhold]
    intro j action hm he
    exact hf.claimed j action (hmem hm) (Option.map_eq_none_iff.1 he)
  · rintro he hu j action hm
    cases he
    exact hpending rfl hu j action (hmem hm)
  · rintro he hu j hm
    cases he
    exact hwaiting rfl hu j (hmem hm)
  · rw [hhold]
    intro a ha hs hu j hm
    obtain ⟨b, hb, rfl⟩ := Option.map_eq_some_iff.1 ha
    exact hf.planning b hb hs hu.of_append j (hmem hm)
  · rw [hhold]
    intro a ha hs hu j hm
    obtain ⟨b, hb, rfl⟩ := Option.map_eq_some_iff.1 ha
    exact hf.unsent b hb hs hu.of_append j (hmem hm)

/-- A claim finds nothing handed over that its claimant would hand over. -/
theorem Fine.of_claim {s : TaskStatus} (hf : Fine S h task (some s)) (hs : Waits s) :
    Fine S (h ++ [.claimed i task s]) task (some .running) := by
  have hmem : ∀ {j action}, .handedOver j task action ∈ h ++ [.claimed i task s] → .handedOver j task action ∈ h :=
    fun hm => handedOver_of_snoc (by simp) hm
  have hhold : hold (h ++ [.claimed i task s]) task = some { process := i, source := s } := by
    rw [hold_snoc]
    simp [Hold.next]
  refine ⟨by simp, fun _ _ _ => by simp [hhold], by simp, by simp, ?_, ?_⟩
  · rw [hhold]
    rintro _ ⟨⟩ hplan hu j hm
    exact hf.pending (by rw [← hplan]) hu.of_append j _ (hmem hm)
  · rw [hhold]
    rintro _ ⟨⟩ - hu j hm
    rcases hs with rfl | rfl
    · exact hf.pending rfl hu.of_append j _ (hmem hm)
    · exact hf.waiting rfl hu.of_append j (hmem hm)

/-- A claimant hands the task over, once it is its own. -/
theorem Fine.handOver {s : TaskStatus} (hf : Fine S h task st) (hs : Waits s) (hh : Held S h i task s false st) :
    Fine S (h ++ [.handedOver i task (actionOf s)]) task st := by
  have hhold : hold (h ++ [.handedOver i task (actionOf s)]) task =
      (hold h task).map fun b => { b with sent := b.sent || b.process == i } := by
    rw [hold_snoc]
    simp [Hold.next]
  -- after a sweep there is nothing to show; else the last claim is the claimant's
  have hcase : ∀ hu : Unswept S (h ++ [.handedOver i task (actionOf s)]) task,
      hold h task = some { process := i, source := s } ∧ IsTaken st := by
    intro hu
    rcases hh with hown | ⟨x, -, hx⟩
    · exact hown
    · exact absurd hu.of_append (hx rfl).2
  have hwaits : ∀ s', st = some s' → Waits s' → ¬Unswept S (h ++ [.handedOver i task (actionOf s)]) task := by
    rintro s' rfl hs' hu
    exact (hcase hu).2.not_waits hs'
  have hclaimed := hold_of_claimed hh.claimed
  refine ⟨fun _ => hf.known hclaimed, fun _ _ _ => ?_, fun he hu => absurd hu (hwaits _ he (.inl rfl)),
    fun he hu => absurd hu (hwaits _ he (.inr rfl)), ?_, ?_⟩
  · rw [hhold]
    exact fun he => hclaimed (Option.map_eq_none_iff.1 he)
  · intro a ha hplan hu j hm
    rw [hhold, (hcase hu).1] at ha
    cases ha
    have hplan : s = .pending := hplan
    rcases List.mem_append.1 hm with hm | hm
    · exact hf.planning _ (hcase hu).1 hplan hu.of_append j hm
    · have hact := List.mem_singleton.1 hm
      subst hplan
      cases hact
  · intro a ha hsent hu
    rw [hhold, (hcase hu).1] at ha
    cases ha
    simp at hsent

/-- What a step keeps for the task's row. -/
theorem Turn.fine (ht : Turn S p h task st l st') (hf : Fine S h task st) : Fine S (h ++ l) task st' := by
  cases ht with
  | rest => rwa [List.append_nil]
  | created =>
    have hnone : ∀ j action, .handedOver j task action ∉ h := fun j action hm => hf.known (hf.claimed j action hm) rfl
    rw [List.append_nil]
    exact ⟨fun _ => by simp, hf.claimed, fun _ _ => hnone, fun _ _ j => hnone j _,
      fun _ _ _ _ j => hnone j _, fun _ _ _ _ j => hnone j _⟩
  | moved =>
    rw [List.append_nil]
    exact ⟨fun _ => by simp, hf.claimed, by simp, fun _ hu j => hf.pending rfl hu j _, hf.planning, hf.unsent⟩
  | ended st s hst hs =>
    rw [List.append_nil]
    have hne : ∀ {s' : TaskStatus}, s'.isTerminal = false → some s ≠ some s' := by
      rintro s' hs' he
      cases he
      rw [hs] at hs'
      cases hs'
    exact ⟨fun _ => by simp, hf.claimed, fun he => absurd he (hne rfl), fun he => absurd he (hne rfl), hf.planning,
      hf.unsent⟩
  | planned _ hplan =>
    refine hf.putBack (fun he => by cases he) fun _ hu j hm => ?_
    obtain ⟨a, ha⟩ := Option.ne_none_iff_exists'.1 (hf.claimed j _ hm)
    exact hf.planning a ha (hplan a ha).1 hu.of_append j hm
  | claimed i s _ hs => exact hf.of_claim hs
  | handedOver i s _ _ hs hh => exact hf.handOver hs hh
  | settled i s sent _ _ hh => exact hf.unheard (by simp) hold_snoc
  | rolledBack i s _ hs hh =>
    -- the claim was the claimant's own and nothing was sent, or a sweep has been there
    have hown : ∀ hu : Unswept S (h ++ [.putBack (some i) task]) task, hold h task = some { process := i, source := s } := by
      intro hu
      rcases hh with hown | ⟨x, -, hx⟩
      · exact hown.1
      · exact absurd hu.of_append (hx rfl).2
    refine hf.putBack (fun he hu j action hm => ?_) fun he hu j hm => ?_
    · cases action with
      | plan => exact hf.unsent _ (hown hu) rfl hu.of_append j (by rw [he]; exact hm)
      | apply => exact hf.planning _ (hown hu) he hu.of_append j hm
    · exact hf.unsent _ (hown hu) rfl hu.of_append j (by rw [he]; exact hm)
  | swept i s _ hS hs =>
    have hswept : ¬Unswept S (h ++ [.putBack (some i) task]) task := fun hu => hu i hS (by simp)
    exact hf.putBack (fun _ hu => absurd hu hswept) fun _ hu => absurd hu hswept

/-- What a step of anybody else leaves to an attempt: its claim stands, or it was robbed. -/
theorem Turn.held (ht : Turn S p h task st l st') (hp : p ≠ some i) (hh : Held S h i task source sent st) :
    Held S (h ++ l) i task source sent st' := by
  rcases hh with ⟨ha, htaken⟩ | ⟨x, hr, hx⟩
  · have hrobbed : ∀ {y : Option Nat} {s : TaskStatus}, y ≠ some i →
        (sent = false → y ≠ none ∧ ¬Unswept S (h ++ [.putBack y task]) task) →
        Held S (h ++ [.putBack y task]) i task source sent (some s) :=
      fun hne hy => .inr ⟨_, robbed_of_putBack (claimed_of_hold ha) hne, hy⟩
    cases ht with
    | rest => rw [List.append_nil]; exact .inl ⟨ha, htaken⟩
    | created => simp [IsTaken] at htaken
    | moved => exact absurd (.inl rfl) htaken.not_waits
    | ended st s _ hs => rw [List.append_nil]; exact .inl ⟨ha, .inr ⟨s, rfl, hs⟩⟩
    | planned _ hplan =>
      have hsent : sent = true := (hplan _ ha).2
      exact hrobbed (by simp) fun hs => by rw [hsent] at hs; cases hs
    | claimed j s _ hs => exact absurd hs htaken.not_waits
    | handedOver j s _ hj =>
      have hne : i ≠ j := fun he => hp (he ▸ hj)
      refine .inl ⟨?_, htaken⟩
      rw [hold_snoc]
      simp [Hold.next, ha, hne]
    | settled j s sent' _ hj => exact .inl ⟨hold_snoc.trans ha, htaken⟩
    | rolledBack j s hj hs hh =>
      have hne : i ≠ j := fun he => hp (he ▸ hj)
      refine hrobbed (by simpa using hne.symm) fun _ => ⟨by simp, fun hu => ?_⟩
      rcases hh with ⟨hb, -⟩ | ⟨y, -, hy⟩
      · rw [ha] at hb
        cases hb
        exact hne rfl
      · exact (hy rfl).2 hu.of_append
    | swept j s hj hS hs =>
      have hne : i ≠ j := fun he => hp (he ▸ hj)
      exact hrobbed (by simpa using hne.symm) fun _ => ⟨by simp, fun hu => hu j hS (by simp)⟩
  · exact .inr ⟨x, hr.append, fun hs => ⟨(hx hs).1, fun hu => (hx hs).2 hu.of_append⟩⟩

/-! ## An attempt's own steps -/

/-- A claim is the attempt's own from its first moment. -/
theorem held_of_claim : Held S (h ++ [.claimed i task source]) i task source false (some .running) := by
  refine .inl ⟨?_, .inl rfl⟩
  rw [hold_snoc]
  simp [Hold.next]

theorem Held.handOver (hh : Held S h i task source sent st) :
    Held S (h ++ [.handedOver i task action]) i task source true st := by
  rcases hh with ⟨ha, htaken⟩ | ⟨x, hr, -⟩
  · refine .inl ⟨?_, htaken⟩
    rw [hold_snoc]
    simp [Hold.next, ha]
  · exact .inr ⟨x, hr.append, fun hs => by cases hs⟩

theorem Held.settle (hh : Held S h i task source sent st) :
    Held S (h ++ [.settled i task]) i task source sent st := hh.unheard hold_snoc

end TaskFleet.Claims
