/-
  TaskFleet.Proofs.Service.QueueEvents — what happens around a queue, as events.

  A run of the queue's driver and its workers is remembered as events: what is queued, what is
  taken out, and which worker handles what. Most of them are read off the queue and the line
  before and after a step.
  - `dueTime`, `popped`, `handled`, `inProgress`: what the events say.
  - `seen`: what the queue and the line show of a step; `dueTime_seen`: that accounts for every
    change of the queue.
-/

import TaskFleet.Service
import Mathlib.Data.List.Basic

namespace TaskFleet.Service

/-! ## What happens -/

/-- What happens around a queue. -/
inductive QueueEvent where
  /-- A workspace is queued for a time. -/
  | asked (workspace : String) (notBefore : UInt64)
  /-- A workspace is taken out of the queue, at a reading of the clock. -/
  | popped (workspace : String) (deadline reading : UInt64)
  /-- A worker begins to handle a workspace. -/
  | called (worker : Nat) (workspace : String)
  /-- A worker is done with the workspace. -/
  | returned (worker : Nat)
  deriving DecidableEq

/-- The earlier of the time at which a workspace is due and one more that is asked for. -/
def sooner (due : Option UInt64) (notBefore : UInt64) : UInt64 :=
  match due with
  | some current => if notBefore < current then notBefore else current
  | none => notBefore

/-- When a workspace is due, after one more event. -/
def QueueEvent.due (workspace : String) (due : Option UInt64) : QueueEvent → Option UInt64
  | .asked name notBefore => if name = workspace then some (sooner due notBefore) else due
  | .popped name _ _ => if name = workspace then none else due
  | _ => due

/-- When a workspace is due, if anything: at the earliest of the times asked for since it was last
    taken out. -/
def dueTime (q : RetryQueue) (h : List QueueEvent) (workspace : String) : Option UInt64 :=
  h.foldl (QueueEvent.due workspace) (q.deadline? workspace)

/-- The workspaces that were taken out of the queue. -/
def popped (h : List QueueEvent) : List String :=
  h.filterMap fun
    | .popped ws _ _ => some ws
    | _ => none

/-- The workspaces that were handed to a handler. -/
def handled (h : List QueueEvent) : List String :=
  h.filterMap fun
    | .called _ ws => some ws
    | _ => none

/-- The workers that are handling a workspace, after one more event. -/
def QueueEvent.busy (l : List Nat) : QueueEvent → List Nat
  | .called worker _ => worker :: l
  | .returned worker => l.filter (· != worker)
  | _ => l

/-- The calls of the handler that have not returned, by their workers. -/
def inProgress (h : List QueueEvent) : List Nat := h.foldl QueueEvent.busy []

/-! ## What is seen of a step -/

variable {shift : Nat} {q q' q₀ : RetryQueue} {w w' : World} {ws : String} {h : List QueueEvent} {i : Nat}
  {l : List String}

/-- The rows of a queue that another does not have any more. -/
def takenOut (q q' : RetryQueue) : Table UInt64 := q.deadlines.filter fun ws _ => (q'.deadline? ws).isNone

/-- The rows of a queue that are new, or earlier than before. -/
def brought (q q' : RetryQueue) : Table UInt64 := q'.deadlines.filter fun ws d => q.deadline? ws != some d

/-- The workspaces that have been taken from the line. -/
def takenOver (w w' : World) (shift : Nat) : List String :=
  (w'.shift shift).line.handled.drop (w.shift shift).line.handled.length

variable (shift) in
/-- What is seen of a step. -/
def seen (i : Nat) (w w' : World) : List QueueEvent :=
  (takenOut w.queue w'.queue).rows.map (fun r => .popped r.1 r.2 w.clock) ++
    ((brought w.queue w'.queue).rows.map (fun r => .asked r.1 r.2) ++ (takenOver w w' shift).map (.called i))

/-- Workspaces are only brought into the queue, or forward. -/
def Brings (q q' : RetryQueue) : Prop :=
  ∀ ws d, q.deadline? ws = some d → ∃ d', q'.deadline? ws = some d' ∧ ¬d < d'

theorem brings_refl (q : RetryQueue) : Brings q q := fun _ d h => ⟨d, h, UInt64.lt_irrefl d⟩

theorem brings_schedule (q : RetryQueue) (workspace : String) (notBefore : UInt64) :
    Brings q (q.schedule workspace notBefore).2 := by
  intro ws d hd
  rw [RetryQueue.deadline?_schedule]
  by_cases he : workspace = ws
  · subst he
    rw [if_pos rfl, hd]
    refine ⟨_, rfl, ?_⟩
    simp only
    split
    · next hlt => exact UInt64.lt_asymm hlt
    · exact UInt64.lt_irrefl d
  · rw [if_neg he]
    exact ⟨d, hd, UInt64.lt_irrefl d⟩

/-! ## The views -/

@[simp] theorem dueTime_append (h h' : List QueueEvent) :
    dueTime q (h ++ h') ws = h'.foldl (QueueEvent.due ws) (dueTime q h ws) := List.foldl_append

@[simp] theorem popped_append (h h' : List QueueEvent) : popped (h ++ h') = popped h ++ popped h' := List.filterMap_append

@[simp] theorem handled_append (h h' : List QueueEvent) :
    handled (h ++ h') = handled h ++ handled h' := List.filterMap_append

@[simp] theorem inProgress_append (h h' : List QueueEvent) :
    inProgress (h ++ h') = h'.foldl QueueEvent.busy (inProgress h) := List.foldl_append

/-- One event per row of a table: a workspace's time changes as its own row says. -/
theorem due_rows {f : String × UInt64 → QueueEvent} (touch : UInt64 → Option UInt64 → Option UInt64)
    (hf : ∀ r due, (f r).due ws due = if r.1 = ws then touch r.2 due else due) (t : Table UInt64) (due : Option UInt64) :
    (t.rows.map f).foldl (QueueEvent.due ws) due =
      match t.get? ws with
      | some d => touch d due
      | none => due := by
  obtain ⟨rows, hrows⟩ := t
  show _ = match Table.findRow ws rows with
    | some d => touch d due
    | none => due
  induction rows generalizing due with
  | nil => rfl
  | cons r rows ih =>
    obtain ⟨hr, hrest⟩ := List.pairwise_cons.1 hrows
    rw [List.map_cons, List.foldl_cons, hf]
    refine (ih _ hrest).trans ?_
    by_cases he : r.1 = ws
    · -- no later row has the key
      rw [Table.findRow_eq_none_of_lt fun p hp => he ▸ hr p hp]
      simp [Table.findRow, he]
    · simp [Table.findRow, he]

theorem get?_takenOut (q q' : RetryQueue) (ws : String) :
    (takenOut q q').get? ws = if (q'.deadline? ws).isNone then q.deadline? ws else none := by
  rw [takenOut, Table.get?_filter]
  show (q.deadline? ws).filter _ = _
  cases q.deadline? ws <;> cases q'.deadline? ws <;> rfl

theorem get?_brought (q q' : RetryQueue) (ws : String) :
    (brought q q').get? ws = if q.deadline? ws = q'.deadline? ws then none else q'.deadline? ws := by
  rw [brought, Table.get?_filter]
  show (q'.deadline? ws).filter _ = _
  cases q'.deadline? ws with
  | none => split <;> rfl
  | some d => by_cases he : q.deadline? ws = some d <;> simp [Option.filter, he]

/-- What is seen of a queue that lost rows, or brought rows in or forward, accounts for the change. -/
theorem dueTime_seen (hq : dueTime q₀ h ws = w.queue.deadline? ws)
    (hbrings : ∀ d d', w.queue.deadline? ws = some d → w'.queue.deadline? ws = some d' → ¬d < d') :
    dueTime q₀ (h ++ seen shift i w w') ws = w'.queue.deadline? ws := by
  have hcalled : ∀ (names : List String) due, (names.map (QueueEvent.called i)).foldl (QueueEvent.due ws) due = due := by
    intro names
    induction names with
    | nil => exact fun _ => rfl
    | cons name names ih => exact ih
  rw [dueTime_append, seen, List.foldl_append, List.foldl_append, hcalled, hq,
    due_rows (fun d due => some (sooner due d)) (fun _ _ => rfl),
    due_rows (fun _ _ => none) (fun _ _ => rfl), get?_takenOut, get?_brought]
  cases hd : w.queue.deadline? ws with
  | none => cases w'.queue.deadline? ws <;> simp [sooner]
  | some d =>
    cases hd' : w'.queue.deadline? ws with
    | none => simp
    | some d' =>
      have hnot := hbrings d d' hd hd'
      by_cases he : d = d'
      · simp [he]
      · have hlt : d' < d := by
          rcases UInt64.lt_or_lt_of_ne he with h | h
          · exact absurd h hnot
          · exact h
        simp [he, sooner, hlt]

/-! ## What is seen of each kind of step -/

theorem popped_seen : popped (seen shift i w w') = (takenOut w.queue w'.queue).keys := by
  simp [popped, seen, Table.keys, List.filterMap_append]

theorem handled_seen : handled (seen shift i w w') = takenOver w w' shift := by
  simp [handled, seen, List.filterMap_append]

theorem busy_seen (l : List Nat) :
    (seen shift i w w').foldl QueueEvent.busy l = (takenOver w w' shift).foldl (fun l _ => i :: l) l := by
  have hpopped : ∀ rows : List (String × UInt64),
      (rows.map fun r => QueueEvent.popped r.1 r.2 w.clock).foldl QueueEvent.busy l = l := by
    intro rows
    induction rows with
    | nil => rfl
    | cons r rows ih => exact ih
  have hasked : ∀ rows : List (String × UInt64),
      (rows.map fun r => QueueEvent.asked r.1 r.2).foldl QueueEvent.busy l = l := by
    intro rows
    induction rows with
    | nil => rfl
    | cons r rows ih => exact ih
  rw [seen, List.foldl_append, List.foldl_append, hpopped, hasked, List.foldl_map]
  rfl

theorem mem_popped_seen {d reading : UInt64} (h : .popped ws d reading ∈ seen shift i w w') :
    (takenOut w.queue w'.queue).get? ws = some d ∧ reading = w.clock := by
  simp only [seen, List.mem_append, List.mem_map] at h
  rcases h with ⟨r, hr, he⟩ | ⟨r, -, he⟩ | ⟨r, -, he⟩
  · cases he
    exact ⟨Table.mem_rows_iff.1 hr, rfl⟩
  · cases he
  · cases he

theorem takenOut_of_brings (h : Brings q q') : (takenOut q q').keys = [] := by
  have hrows : (takenOut q q').rows = [] := by
    refine List.eq_nil_iff_forall_not_mem.2 fun r hr => ?_
    have hget := Table.mem_rows_iff.1 hr
    rw [get?_takenOut] at hget
    cases hd : q.deadline? r.1 with
    | none => simp [hd] at hget
    | some d =>
      obtain ⟨d', hd', -⟩ := h _ d hd
      simp [hd'] at hget
  rw [Table.keys, hrows]
  rfl

theorem deadline?_popDue (q : RetryQueue) (now : UInt64) (ws : String) :
    (q.popDue now).2.deadline? ws = (q.deadline? ws).filter fun d => now < d := Table.get?_filter _ _ ws

theorem takenOut_popDue (q : RetryQueue) (now : UInt64) :
    takenOut q (q.popDue now).2 = q.deadlines.filter fun _ d => d ≤ now := by
  have hkeep : ∀ r ∈ q.deadlines.rows, ((q.popDue now).2.deadline? r.1).isNone = decide (r.2 ≤ now) := by
    intro r hr
    have hget : q.deadlines.get? r.1 = some r.2 := Table.mem_rows_iff.1 hr
    rw [deadline?_popDue, RetryQueue.deadline?, hget]
    by_cases hlt : now < r.2
    · simp [Option.filter, hlt, UInt64.not_le.2 hlt]
    · simp [Option.filter, hlt, UInt64.not_lt.1 hlt]
  unfold takenOut Table.filter
  congr 1
  exact List.filter_congr hkeep

end TaskFleet.Service
