/-
  TaskFleet.Proofs.Service.QueueDriver — the queue's driver and its workers, taken together.

  The driver takes out of the queue what is due and puts it into a line, from which the workers
  take it. While they do so, anybody may queue workspaces, the clocks go as they like, and the
  word to stop comes at any time or is overlooked for a while.
  - `Owed`: what was taken out is handled, in the line, or in the driver's hands. The driver's
    steps (`Driving.step`) and the workers' steps (`Inv.editLine`) keep to that.
  - `queue_loses_nothing`: when driver and workers have ended, what was handled is what was
    taken out, each as often.
-/

import Mathlib.Data.List.Perm.Subperm
import TaskFleet.Proofs.Dispatch.AttemptSteps
import TaskFleet.Proofs.Service.QueueEvents
import TaskFleet.Proofs.Turns

namespace TaskFleet.Service

open Fallible

variable {shift : Nat} {q q' q₀ : RetryQueue} {w w' : World} {ws : String} {h : List QueueEvent} {i : Nat}
  {l : List String}

/-! ## What everybody keeps to -/

variable {process : Nat → Nat} {c d : Scene World (List QueueEvent)} {n : Nat}

variable (shift) in
/-- The line of the shift. -/
def lineOf (c : Scene World (List QueueEvent)) : WorkerLine := (c.state.shift shift).line

variable (shift) in
/-- What was taken out of the queue has been handled, is in the line, or is in the driver's
    hands. -/
def Owed (c : Scene World (List QueueEvent)) (l : List String) : Prop :=
  (popped c.memory).Perm (handled c.memory ++ (lineOf shift c).items ++ l)

variable (shift) in
/-- Nothing is in the line, and nothing will be. -/
def Drained (c : Scene World (List QueueEvent)) : Prop := (lineOf shift c).closed = true ∧ (lineOf shift c).items = []

/-- The queue is as the events say, and so is the line once it is closed. -/
structure Inv (shift : Nat) (q₀ : RetryQueue) (n : Nat) (c : Scene World (List QueueEvent)) : Prop where
  opened : shift < c.state.shifts.length
  due : ∀ ws, dueTime q₀ c.memory ws = c.state.queue.deadline? ws
  onTime : ∀ ws d reading, .popped ws d reading ∈ c.memory → d ≤ reading
  closed : (lineOf shift c).closed = true → Owed shift c []
  distinct : (inProgress c.memory).Nodup
  workers : ∀ i ∈ inProgress c.memory, 1 ≤ i ∧ i ≤ n

variable (shift) in
/-- Whether a worker may take from the line. -/
def HasTurn (worker : Nat) (c : Scene World (List QueueEvent)) : Prop := (lineOf shift c).hasTurn worker = true

/-- What the driver, and each worker, relies on about the others. -/
def Rely (shift : Nat) (process : Nat → Nat) (i : Nat) (c d : Scene World (List QueueEvent)) : Prop :=
  match i with
  | 0 => (lineOf shift d).closed = (lineOf shift c).closed ∧ ∀ l, Owed shift c l → Owed shift d l
  | k + 1 => (k + 1 ∈ inProgress d.memory ↔ k + 1 ∈ inProgress c.memory) ∧
      (HasTurn shift (process k) c → HasTurn shift (process k) d) ∧ (Drained shift c → Drained shift d)

/-- The line, and what the events say of it, stay as they are. -/
structure SameLine (shift : Nat) (c d : Scene World (List QueueEvent)) : Prop where
  line : lineOf shift d = lineOf shift c
  popped : popped d.memory = popped c.memory
  handled : handled d.memory = handled c.memory
  busy : inProgress d.memory = inProgress c.memory

theorem SameLine.owed (h : SameLine shift c d) (ho : Owed shift c l) : Owed shift d l := by
  unfold Owed at *
  rwa [h.line, h.popped, h.handled]

theorem SameLine.rely (h : SameLine shift c d) (i : Nat) : Rely shift process i c d := by
  cases i with
  | zero => exact ⟨by rw [h.line], fun l => h.owed⟩
  | succ k =>
    refine ⟨by rw [h.busy], fun hturn => ?_, fun hdrained => ?_⟩
    · unfold HasTurn at *
      rwa [h.line]
    · unfold Drained at *
      rwa [h.line]

theorem rely_refl (i : Nat) (c : Scene World (List QueueEvent)) : Rely shift process i c c :=
  SameLine.rely ⟨rfl, rfl, rfl, rfl⟩ i

theorem rely_trans (i : Nat) (c d e : Scene World (List QueueEvent)) (h : Rely shift process i c d)
    (h' : Rely shift process i d e) : Rely shift process i c e := by
  cases i with
  | zero => exact ⟨h'.1.trans h.1, fun l hl => h'.2 l (h.2 l hl)⟩
  | succ k => exact ⟨h'.1.trans h.1, fun hl => h'.2.1 (h.2.1 hl), fun hl => h'.2.2 (h.2.2 hl)⟩

/-- A step that leaves the line alone, and only brings workspaces into the queue or forward. -/
structure Serves (shift : Nat) (w w' : World) : Prop where
  line : (w'.shift shift).line = (w.shift shift).line
  opened : shift < w.shifts.length → shift < w'.shifts.length
  queue : Brings w.queue w'.queue

/-- The scene after a step. -/
def seenStep (shift i : Nat) (c : Scene World (List QueueEvent)) (w' : World) : Scene World (List QueueEvent) :=
  ⟨w', c.memory ++ seen shift i c.state w'⟩

theorem takenOver_of_line (h : (w'.shift shift).line.handled = (w.shift shift).line.handled) : takenOver w w' shift = [] := by
  rw [takenOver, h, List.drop_length]

theorem Serves.sameLine {w' : World} (h : Serves shift c.state w') (i : Nat) : SameLine shift c (seenStep shift i c w') := by
  have htaken : takenOver c.state w' shift = [] := takenOver_of_line (by rw [h.line])
  refine ⟨h.line, ?_, ?_, ?_⟩
  · rw [seenStep, popped_append, popped_seen, takenOut_of_brings h.queue, List.append_nil]
  · rw [seenStep, handled_append, handled_seen, htaken, List.append_nil]
  · rw [seenStep, inProgress_append, busy_seen, htaken]
    rfl

theorem Inv.due_seen {w' : World} (hc : Inv shift q₀ n c)
    (hbrings : ∀ ws d d', c.state.queue.deadline? ws = some d → w'.queue.deadline? ws = some d' → ¬d < d') (ws : String) :
    dueTime q₀ (seenStep shift i c w').memory ws = w'.queue.deadline? ws :=
  dueTime_seen (hc.due ws) (hbrings ws)

theorem Inv.onTime_seen {w' : World} (hc : Inv shift q₀ n c)
    (htaken : ∀ ws d, (takenOut c.state.queue w'.queue).get? ws = some d → d ≤ c.state.clock) (ws : String)
    (d reading : UInt64) (h : .popped ws d reading ∈ (seenStep shift i c w').memory) : d ≤ reading := by
  rcases List.mem_append.1 h with h | h
  · exact hc.onTime ws d reading h
  · obtain ⟨hget, rfl⟩ := mem_popped_seen h
    exact htaken ws d hget

theorem Brings.later (h : Brings q q') (ws : String) (d d' : UInt64) (hd : q.deadline? ws = some d)
    (hd' : q'.deadline? ws = some d') : ¬d < d' := by
  obtain ⟨e, he, hle⟩ := h ws d hd
  cases hd'.symm.trans he
  exact hle

theorem Brings.not_takenOut (h : Brings q q') (ws : String) (d : UInt64) : (takenOut q q').get? ws ≠ some d := by
  intro hget
  have hmem : ws ∈ (takenOut q q').keys := List.mem_map.2 ⟨(ws, d), Table.mem_rows_iff.2 hget, rfl⟩
  rw [takenOut_of_brings h] at hmem
  cases hmem

theorem Inv.serves {w' : World} (hc : Inv shift q₀ n c) (h : Serves shift c.state w') (i : Nat) :
    Inv shift q₀ n (seenStep shift i c w') := by
  have hsame := h.sameLine i
  refine ⟨h.opened hc.opened, hc.due_seen h.queue.later, hc.onTime_seen fun ws d hget => ?_, ?_, ?_, ?_⟩
  · exact absurd hget (h.queue.not_takenOut ws d)
  · rw [hsame.line]
    exact fun hclosed => hsame.owed (hc.closed hclosed)
  · rw [hsame.busy]
    exact hc.distinct
  · rw [hsame.busy]
    exact hc.workers

theorem serves_same (hline : (w'.shift shift).line = (w.shift shift).line) (hopened : w'.shifts.length = w.shifts.length)
    (hqueue : w'.queue = w.queue) : Serves shift w w' :=
  ⟨hline, fun h => hopened ▸ h, hqueue ▸ brings_refl w.queue⟩

theorem serves_refl (w : World) : Serves shift w w := serves_same rfl rfl rfl

/-- What the driver and its workers keep to. -/
def queueing (shift : Nat) (q₀ : RetryQueue) (process : Nat → Nat) (n : Nat) : Discipline World (List QueueEvent) where
  observe := fun i w w' h => h ++ seen shift i w w'
  Inv := Inv shift q₀ n
  Rely := Rely shift process
  idle i c hc := ⟨hc.serves (serves_refl c.state) i, fun j => ((serves_refl c.state).sameLine i).rely j⟩
  rely_refl := rely_refl
  rely_trans := rely_trans

theorem owed_seenStep {w' : World} : Owed shift (seenStep shift i c w') l ↔
    (popped c.memory ++ (takenOut c.state.queue w'.queue).keys).Perm
      (handled c.memory ++ takenOver c.state w' shift ++ (w'.shift shift).line.items ++ l) := by
  rw [Owed, seenStep, popped_append, handled_append, popped_seen, handled_seen]
  rfl

theorem busy_seenStep {w' : World} (h : takenOver c.state w' shift = []) :
    inProgress (seenStep shift i c w').memory = inProgress c.memory := by
  rw [seenStep, inProgress_append, busy_seen, h]
  rfl

/-! ## The driver -/

/-- The driver goes on, and has so much in its hands. -/
def Driving (shift : Nat) (l : List String) (c : Scene World (List QueueEvent)) : Prop :=
  (lineOf shift c).closed = false ∧ Owed shift c l

theorem SameLine.driving (h : SameLine shift c d) (hd : Driving shift l c) : Driving shift l d :=
  ⟨h.line ▸ hd.1, h.owed hd.2⟩

theorem stable_driving (l : List String) : (queueing shift q₀ process n).Stable 0 (Driving shift l) :=
  fun _ _ h hr => ⟨hr.1.trans h.1, hr.2 l h.2⟩

/-- A step of the driver: what it takes out is due, and the line only gets longer. -/
structure Drives (shift : Nat) (w w' : World) : Prop where
  opened : shift < w.shifts.length → shift < w'.shifts.length
  later : ∀ ws d d', w.queue.deadline? ws = some d → w'.queue.deadline? ws = some d' → ¬d < d'
  due : ∀ ws d, (takenOut w.queue w'.queue).get? ws = some d → d ≤ w.clock
  line : ∃ more closed, (w'.shift shift).line =
    { (w.shift shift).line with items := (w.shift shift).line.items ++ more, closed }

theorem hasTurn_append {line : WorkerLine} {worker : Nat} {more : List String} {closed : Bool}
    (hopen : line.closed = false) (h : line.hasTurn worker = true) :
    { line with items := line.items ++ more, closed := closed }.hasTurn worker = true := by
  simp only [WorkerLine.hasTurn, hopen, Bool.or_false, Bool.and_eq_true] at h ⊢
  refine ⟨h.1, ?_⟩
  cases hitems : line.items with
  | nil => simp [hitems] at h
  | cons ws rest => simp

variable (process) in
theorem Driving.step {w' : World} (l' : List String) (h : Driving shift l c) (hi : Inv shift q₀ n c)
    (hw : Drives shift c.state w')
    (howed : (popped c.memory ++ (takenOut c.state.queue w'.queue).keys).Perm
      (handled c.memory ++ (w'.shift shift).line.items ++ l'))
    (hclosed : (w'.shift shift).line.closed = true → l' = []) :
    (queueing shift q₀ process n).Keeps 0 c (seenStep shift 0 c w') ∧ Owed shift (seenStep shift 0 c w') l' := by
  obtain ⟨more, closed, hline⟩ := hw.line
  have htaken : takenOver c.state w' shift = [] := takenOver_of_line (by rw [hline])
  have hbusy := busy_seenStep (i := 0) htaken
  have howed' : Owed shift (seenStep shift 0 c w') l' := by
    rw [owed_seenStep, htaken, List.append_nil]
    exact howed
  refine ⟨⟨⟨hw.opened hi.opened, hi.due_seen hw.later, hi.onTime_seen hw.due, fun hend => ?_, ?_, ?_⟩, fun j hj => ?_⟩, howed'⟩
  · exact hclosed hend ▸ howed'
  · rw [hbusy]
    exact hi.distinct
  · rw [hbusy]
    exact hi.workers
  · cases j with
    | zero => exact absurd rfl hj
    | succ k =>
      refine ⟨by rw [hbusy], fun hturn => ?_, fun hdrained => ?_⟩
      · show (w'.shift shift).line.hasTurn (process k) = true
        rw [hline]
        exact hasTurn_append h.1 hturn
      · exact absurd hdrained.1 (by rw [h.1]; decide)

/-- What the driver does beside its own work. -/
theorem Driving.serves {w' : World} (h : Driving shift l c) (hi : Inv shift q₀ n c) (hw : Serves shift c.state w') :
    (queueing shift q₀ process n).Keeps 0 c (seenStep shift 0 c w') ∧ Driving shift l (seenStep shift 0 c w') := by
  have hsame := hw.sameLine 0
  exact ⟨⟨hi.serves hw 0, fun j _ => hsame.rely j⟩, hsame.driving h⟩

theorem due_perm (q : RetryQueue) (now : UInt64) : (q.popDue now).1.Perm (takenOut q (q.popDue now).2).keys := by
  rw [takenOut_popDue]
  exact (sortBy_perm _ _).map _

theorem drives_popDue (w : World) : Drives shift w { w with queue := (w.queue.popDue w.clock).2 } where
  opened h := h
  later ws d d' hd hd' := by
    have hkept := (deadline?_popDue w.queue w.clock ws).symm.trans hd'
    rw [hd] at hkept
    cases (Option.filter_eq_some_iff.1 hkept).1
    exact UInt64.lt_irrefl d
  due ws d hget := by
    rw [takenOut_popDue, Table.get?_filter] at hget
    exact of_decide_eq_true (Option.filter_eq_some_iff.1 hget).2
  line := ⟨[], _, by rw [List.append_nil]; rfl⟩

theorem leads_takeDue (h : Driving shift [] c) :
    (queueing shift q₀ process n).Leads 0 takeDue (Driving shift) c := by
  refine Discipline.leads_apply (stable_driving []) stable_driving (fun c hi h => ?_) h
  have hold := h.2
  rw [Owed, List.append_nil] at hold
  obtain ⟨hkeeps, howed⟩ := h.step process (c.state.queue.popDue c.state.clock).1 hi (drives_popDue c.state)
    (hold.append (due_perm _ _).symm) fun hclosed => absurd hclosed (Bool.eq_false_iff.1 h.1)
  exact ⟨hkeeps, h.1, howed⟩

theorem shift_modifyShift {f : Shift → Shift} (h : shift < w.shifts.length) :
    (w.modifyShift shift f).shift shift = f (w.shift shift) := by
  simp [World.shift, World.modifyShift, h]

variable (process) in
/-- The driver puts some of what it has in its hands into the line, or closes it. -/
theorem Driving.edit {f : Shift → Shift} (more l' : List String) (closed : Bool) (h : Driving shift (more ++ l') c)
    (hi : Inv shift q₀ n c)
    (hf : (f (c.state.shift shift)).line = { lineOf shift c with items := (lineOf shift c).items ++ more, closed })
    (hclosed : closed = true → l' = []) :
    (queueing shift q₀ process n).Keeps 0 c (seenStep shift 0 c (c.state.modifyShift shift f)) ∧
      (lineOf shift (seenStep shift 0 c (c.state.modifyShift shift f))).closed = closed ∧
      Owed shift (seenStep shift 0 c (c.state.modifyShift shift f)) l' := by
  have hline := (shift_modifyShift (f := f) hi.opened ▸ hf :
    ((c.state.modifyShift shift f).shift shift).line = _)
  have hdrives : Drives shift c.state (c.state.modifyShift shift f) := by
    refine ⟨fun hw => by simpa [World.modifyShift] using hw, (brings_refl c.state.queue).later, fun ws d hget => ?_, ?_⟩
    · exact absurd hget ((brings_refl c.state.queue).not_takenOut ws d)
    · exact ⟨more, closed, hline⟩
  have hnone : (takenOut c.state.queue (c.state.modifyShift shift f).queue).keys = [] :=
    takenOut_of_brings (brings_refl c.state.queue)
  have howed := h.2
  rw [Owed, ← List.append_assoc] at howed
  obtain ⟨hkeeps, howed⟩ := h.step process l' hi hdrives
    (by
      rw [hnone, List.append_nil, hline, ← List.append_assoc]
      exact howed)
    (by
      rw [hline]
      exact hclosed)
  exact ⟨hkeeps, congrArg WorkerLine.closed hline, howed⟩

theorem leads_handOver (name : String) (rest : List String) (h : Driving shift (name :: rest) c) :
    (queueing shift q₀ process n).Leads 0 (handOver shift name) (fun _ => Driving shift rest) c := by
  refine Discipline.Leads.bind (Discipline.leads_waitFor (stable_driving _) (stable_driving _) (fun _ _ h _ => h) h)
    fun _ c h => Discipline.leads_modify (stable_driving _) (stable_driving _) (fun c hi h => ?_) h
  have hopen := h.1
  obtain ⟨hkeeps, hclosed, howed⟩ := Driving.edit process [name] rest (lineOf shift c).closed
    (f := fun s => { s with line.items := s.line.items ++ [name] }) h hi rfl fun hclosed => by rw [hopen] at hclosed; cases hclosed
  exact ⟨hkeeps, hclosed.trans hopen, howed⟩

theorem leads_handOverAll (names : List String) (h : Driving shift names c) :
    (queueing shift q₀ process n).Leads 0 (Program.forEach (handOver shift) names) (fun _ => Driving shift []) c := by
  induction names generalizing c with
  | nil => exact Discipline.leads_pure fun d hr => stable_driving [] c d h hr
  | cons name names ih => exact (leads_handOver name names h).bind fun _ d hd => ih hd

variable (shift) in
/-- How a turn of the driver ends: with the next one to come, or with the line closed. -/
def DriverOver (more : Bool) (c : Scene World (List QueueEvent)) : Prop :=
  if more then Driving shift [] c else (lineOf shift c).closed = true

theorem stable_driverOver (more : Bool) : (queueing shift q₀ process n).Stable 0 (DriverOver shift more) := by
  intro c d h hr
  cases more with
  | true => exact stable_driving (n := n) [] c d h hr
  | false => exact hr.1.trans h

theorem leads_driverTurn (h : Driving shift [] c) :
    (queueing shift q₀ process n).Leads 0 (driverTurn shift) (DriverOver shift) c := by
  refine (leads_takeDue h).bind fun names c h => (leads_handOverAll names h).bind fun _ c h => ?_
  -- the driver rests
  refine Discipline.Leads.bind (Discipline.leads_get (stable_driving []) (fun _ => stable_driving [])
    (fun c _ h => ((serves_refl c.state).sameLine 0).driving h) h) fun rest c h => ?_
  refine Discipline.Leads.bind (Discipline.leads_apply (Q := fun _ => Driving shift []) (stable_driving [])
    (fun _ => stable_driving []) (fun c hi h => h.serves hi (serves_same rfl rfl rfl)) h) fun deadline c h => ?_
  refine Discipline.Leads.bind (Discipline.leads_waitFor (stable_driving []) (stable_driving []) (fun _ _ h _ => h) h)
    fun _ c h => ?_
  -- it goes on, or closes the line
  refine Discipline.leads_apply (stable_driving []) stable_driverOver (fun c hi h => ?_) h
  by_cases hstop : (c.state.shift shift).stopping = true
  · simp only [Discipline.after, hstop, if_true]
    obtain ⟨hkeeps, hclosed, -⟩ := Driving.edit process [] [] true
      (f := fun s => { s with line.closed := true, services := s.services - 1 }) h hi
      (by rw [List.append_nil]; rfl) fun _ => rfl
    exact ⟨hkeeps, hclosed⟩
  · simp only [Discipline.after, hstop]
    exact h.serves hi (serves_same rfl rfl rfl)

/-! ## The workers -/

/-- A worker that is not handling anything. -/
def Idle (k : Nat) (c : Scene World (List QueueEvent)) : Prop := k + 1 ∉ inProgress c.memory

variable {k : Nat}

theorem stable_idle : (queueing shift q₀ process n).Stable (k + 1) (Idle k) := fun _ _ h hr hb => h (hr.1.1 hb)

/-- What a worker does to the line: it takes something out of it, or nothing. -/
structure Takes (taken : List String) (line line' : WorkerLine) : Prop where
  items : line.items = taken ++ line'.items
  handled : line'.handled = line.handled ++ taken
  closed : line'.closed = line.closed
  atMostOne : taken.length ≤ 1

variable (process) in
/-- A step of an idle worker at the line, which leaves the others' turns alone. -/
theorem Inv.editLine {f : Shift → Shift} (taken : List String) (hi : Inv shift q₀ n c) (hk : k < n) (hidle : Idle k c)
    (hf : Takes taken (lineOf shift c) (f (c.state.shift shift)).line)
    (hturn : ∀ j, j ≠ k → HasTurn shift (process j) c → (f (c.state.shift shift)).line.hasTurn (process j) = true) :
    (queueing shift q₀ process n).Keeps (k + 1) c (seenStep shift (k + 1) c (c.state.modifyShift shift f)) ∧
      inProgress (seenStep shift (k + 1) c (c.state.modifyShift shift f)).memory =
        taken.foldl (fun l _ => (k + 1) :: l) (inProgress c.memory) := by
  generalize hw' : c.state.modifyShift shift f = w'
  have hline : (w'.shift shift).line = (f (c.state.shift shift)).line := hw' ▸ congrArg Shift.line (shift_modifyShift hi.opened)
  have hclosed : (w'.shift shift).line.closed = (lineOf shift c).closed := hline ▸ hf.closed
  have hqueue : w'.queue = c.state.queue := hw' ▸ rfl
  have htaken : takenOver c.state w' shift = taken := by
    rw [takenOver, hline, hf.handled]
    exact List.drop_left
  have hbusy : inProgress (seenStep shift (k + 1) c w').memory = taken.foldl (fun l _ => (k + 1) :: l) (inProgress c.memory) := by
    rw [seenStep, inProgress_append, busy_seen, htaken]
  have hbrings : Brings c.state.queue w'.queue := hqueue ▸ brings_refl _
  have howed : ∀ l, Owed shift c l → Owed shift (seenStep shift (k + 1) c w') l := by
    intro l hl
    rw [owed_seenStep, htaken, takenOut_of_brings hbrings, List.append_nil, hline]
    rw [Owed, hf.items] at hl
    simpa using hl
  -- the worker is the only one whose calls change
  have hothers : ∀ j, j ≠ k → (j + 1 ∈ inProgress (seenStep shift (k + 1) c w').memory ↔ j + 1 ∈ inProgress c.memory) := by
    intro j hj
    rw [hbusy]
    match taken, hf.atMostOne with
    | [], _ => exact Iff.rfl
    | [ws], _ => simp [hj]
  refine ⟨⟨⟨?_, hi.due_seen hbrings.later, hi.onTime_seen fun ws d hget => ?_, fun hend => ?_, ?_, ?_⟩, fun j hj => ?_⟩, hbusy⟩
  · subst hw'
    simpa [seenStep, World.modifyShift] using hi.opened
  · exact absurd hget (hbrings.not_takenOut ws d)
  · exact howed [] (hi.closed (hclosed.symm.trans hend))
  · rw [hbusy]
    match taken, hf.atMostOne with
    | [], _ => exact hi.distinct
    | [ws], _ => exact List.nodup_cons.2 ⟨hidle, hi.distinct⟩
  · intro i hmem
    by_cases he : i = k + 1
    · omega
    · refine hi.workers i ?_
      rw [hbusy] at hmem
      match taken, hf.atMostOne with
      | [], _ => exact hmem
      | [ws], _ => exact (List.mem_cons.1 hmem).resolve_left he
  · cases j with
    | zero => exact ⟨hclosed, howed⟩
    | succ j =>
      have hne : j ≠ k := fun he => hj (congrArg (· + 1) he)
      refine ⟨hothers j hne, fun h => ?_, fun h => ?_⟩
      · show (w'.shift shift).line.hasTurn (process j) = true
        rw [hline]
        exact hturn j hne h
      · have hitems : taken ++ (f (c.state.shift shift)).line.items = [] := hf.items ▸ h.2
        refine ⟨hclosed.trans h.1, ?_⟩
        show (w'.shift shift).line.items = []
        rw [hline]
        exact (List.append_eq_nil_iff.1 hitems).2

/-- How a turn of a worker ends: somehow, or because nothing more is to come. -/
def WorkerOver (shift k : Nat) (more : Bool) (c : Scene World (List QueueEvent)) : Prop :=
  more = false → Idle k c ∧ Drained shift c

theorem stable_workerOver (more : Bool) : (queueing shift q₀ process n).Stable (k + 1) (WorkerOver shift k more) :=
  fun c d h hr hmore => ⟨stable_idle (n := n) c d (h hmore).1 hr, hr.2.2 (h hmore).2⟩

variable (hprocess : Function.Injective process)

theorem takes_of_hasTurn {line : WorkerLine} {worker : Nat} (hturn : line.hasTurn worker = true) :
    Takes (line.take worker).1.toList line (line.take worker).2 ∧
      ((line.take worker).1 = none → line.closed = true ∧ line.items = []) := by
  simp only [WorkerLine.hasTurn, Bool.and_eq_true, Bool.or_eq_true] at hturn
  unfold WorkerLine.take
  cases hitems : line.items with
  | nil =>
    refine ⟨⟨hitems, (List.append_nil _).symm, rfl, Nat.zero_le 1⟩, fun _ => ⟨?_, rfl⟩⟩
    simpa [hitems] using hturn.2
  | cons ws rest => exact ⟨⟨hitems, rfl, rfl, Nat.le_refl 1⟩, fun h => nomatch h⟩

/-- The turn is one worker's. -/
theorem eq_of_hasTurn {line : WorkerLine} {a b : Nat} (ha : line.hasTurn a = true) (hb : line.hasTurn b = true) : a = b := by
  simp only [WorkerLine.hasTurn, Bool.and_eq_true, beq_iff_eq] at ha hb
  exact Option.some.inj (ha.1.symm.trans hb.1)

theorem hasTurn_join {line : WorkerLine} {worker : Nat} (more : Nat) (h : line.hasTurn worker = true) :
    { line with takers := line.takers ++ [more] }.hasTurn worker = true := by
  simp only [WorkerLine.hasTurn, Bool.and_eq_true, beq_iff_eq] at h ⊢
  refine ⟨?_, h.2⟩
  cases htakers : line.takers with
  | nil => simp [htakers] at h
  | cons first rest => simpa [htakers] using h.1

include hprocess in
theorem leads_nextInLine (hk : k < n) (h : Idle k c) :
    (queueing shift q₀ process n).Leads (k + 1) (nextInLine (process k) shift)
      (fun next => WorkerOver shift k next.isSome) c := by
  refine Discipline.Leads.bind (Discipline.leads_modify stable_idle stable_idle (fun c hi h => ?_) h) fun _ c h => ?_
  · -- it gets in line
    obtain ⟨hkeeps, hbusy⟩ := hi.editLine process []
      (f := fun s => { s with line.takers := s.line.takers ++ [process k] }) hk h
      ⟨rfl, (List.append_nil _).symm, rfl, Nat.zero_le 1⟩ fun j _ hturn => hasTurn_join (process k) hturn
    exact ⟨hkeeps, fun hmem => h ((congrArg (k + 1 ∈ ·) hbusy).mp hmem)⟩
  have hstable : (queueing shift q₀ process n).Stable (k + 1) fun c => Idle k c ∧ HasTurn shift (process k) c :=
    fun c d h hr => ⟨stable_idle (n := n) c d h.1 hr, hr.2.1 h.2⟩
  refine Discipline.Leads.bind (Discipline.leads_waitFor stable_idle hstable (fun _ _ h hready => ⟨h, hready⟩) h)
    fun _ c h => Discipline.leads_apply hstable (fun _ => stable_workerOver _) (fun c hi h => ?_) h
  -- it has its turn, which nobody else has
  obtain ⟨htakes, hlast⟩ := takes_of_hasTurn h.2
  obtain ⟨hkeeps, hbusy⟩ := hi.editLine process _
    (f := fun s => { s with line := ((c.state.shift shift).line.take (process k)).2 }) hk h.1 htakes fun j hj hturn =>
      absurd (hprocess (eq_of_hasTurn hturn h.2)) hj
  refine ⟨hkeeps, fun hnone => ?_⟩
  have hnone : ((lineOf shift c).take (process k)).1 = none := by simpa [lineOf] using hnone
  obtain ⟨hclosed, hitems⟩ := hlast hnone
  have hline := congrArg Shift.line (shift_modifyShift
    (f := fun s => { s with line := ((c.state.shift shift).line.take (process k)).2 }) hi.opened)
  rw [hnone] at hbusy htakes
  refine ⟨fun hmem => h.1 ((congrArg (k + 1 ∈ ·) hbusy).mp hmem), ?_, ?_⟩
  · exact (congrArg WorkerLine.closed hline).trans (htakes.closed.trans hclosed)
  · exact (congrArg WorkerLine.items hline).trans (htakes.items.symm.trans hitems)

include hprocess in
theorem leads_workerTurnBy {handle : String → Program World Unit} (hhandle : ∀ ws, (handle ws).Steps (Serves shift))
    (hk : k < n) (h : Idle k c) :
    (queueing shift q₀ process n).Leads (k + 1) (workerTurnBy (process k) shift handle) (WorkerOver shift k) c := by
  refine (leads_nextInLine hprocess hk h).bind fun next c h => ?_
  cases next with
  | none => exact Discipline.leads_pure fun d hr => stable_workerOver (n := n) false c d h hr
  | some ws =>
    refine Discipline.Leads.bind (R := fun _ _ => True) ?_ fun _ c _ => Discipline.leads_pure fun d _ hmore => nomatch hmore
    refine Discipline.Ensures.mono (Discipline.Ensures.of_steps (F := fun _ => True) (hhandle ws) (fun _ _ _ _ => trivial)
      (fun c act hi _ hserves => ?_) trivial) fun _ _ _ _ _ _ => trivial
    exact ⟨⟨hi.serves hserves (k + 1), fun j _ => (hserves.sameLine (k + 1)).rely j⟩, trivial⟩

/-! ## Attempts -/

section

variable {α : Type} {cfg : Settings}

theorem serves_transact {f : Store → Except StoreError (α × Store)} : (Program.transact f).Steps (Serves shift) :=
  Program.steps_transact serves_refl fun _ _ _ _ => serves_same rfl rfl rfl

theorem serves_tryUpdate (id : UInt64) (change : Task → Except StoreError Task) :
    (Dispatch.tryUpdate id change).Steps (Serves shift) := .bind serves_transact fun _ => trivial

theorem serves_scheduleAt (w : World) (workspace : String) (notBefore : UInt64) :
    Serves shift w (w.scheduleAt workspace notBefore) :=
  ⟨rfl, fun h => h, brings_schedule _ _ _⟩

theorem covers_serves (p : Nat) (t : Task) : Dispatch.Covers (Serves shift) cfg p t where
  pods := fun _ _ => serves_same rfl rfl rfl
  claim := fun _ =>
    .bind (Program.steps_get serves_refl _) fun _ => .bind (Program.steps_claimTask serves_transact) fun _ => trivial
  settle := serves_tryUpdate _ _
  rollBack := serves_tryUpdate _ _
  countRetry := serves_tryUpdate _ _
  schedule := fun w notBefore => serves_scheduleAt w _ notBefore
  spawn := fun _ _ => serves_same rfl rfl rfl
  send := Agent.steps_sendTask (fun _ _ => serves_same rfl rfl rfl) p

/-- An attempt to start the next task of a workspace serves as a handler. -/
theorem serves_tryDispatch (p : Nat) (workspace : String) :
    (ignoring (Dispatch.tryDispatch cfg p workspace)).Steps (Serves shift) :=
  steps_ignoring <| Dispatch.CoversLock.tryDispatch (S := Serves shift)
    { refl := serves_refl
      request := fun _ => serves_same rfl rfl rfl
      release := fun _ => serves_same rfl rfl rfl
      schedule := fun w notBefore => serves_scheduleAt w _ notBefore }
    fun t => (covers_serves p t).dispatchTask

end

/-! ## The whole queue -/

/-- A turn of the driver, and one of each worker. -/
def turns (shift workers : Nat) (process : Nat → Nat) (handle : Nat → String → Program World Unit) :
    List (Program World Bool) :=
  driverTurn shift :: (List.range workers).map fun k => workerTurnBy (process k) shift (handle k)

/-- What happens outside: a workspace is queued, or something that leaves the queue and the line
    alone. -/
inductive OutsideQueue (shift : Nat) (c : Scene World (List QueueEvent)) : Scene World (List QueueEvent) → Prop
  | asks (workspace : String) (notBefore : UInt64) :
      OutsideQueue shift c ⟨c.state.scheduleAt workspace notBefore, c.memory ++ [.asked workspace notBefore]⟩
  | surroundings (w' : World) : (w'.shift shift).line = (c.state.shift shift).line →
      w'.shifts.length = c.state.shifts.length → w'.queue = c.state.queue → OutsideQueue shift c ⟨w', c.memory⟩

/-- A worker that begins its next turn is done with the last one's workspace. -/
def noteReturn (i : Nat) (h : List QueueEvent) : List QueueEvent := if i = 0 then h else h ++ [.returned i]

/-- A world in which the services of a queue have just been started. -/
def started (workers : Nat) (w : World) : World := ((openShift >>= fun shift => startQueue shift workers).run w).2

/-- The interleavings of a queue's driver and its workers, from the start of the queue on. -/
def QueueRun (w : World) (workers : Nat) (process : Nat → Nat) (handle : Nat → String → Program World Unit) :
    Scene World (List QueueEvent) → List (Program World Bool) → Prop :=
  (queueing w.shifts.length w.queue process (max workers 1)).Turns
    (turns w.shifts.length (max workers 1) process handle)
    (OutsideQueue w.shifts.length) noteReturn ⟨started workers w, []⟩

section

variable {workers : Nat} {handle : Nat → String → Program World Unit} {crew : List (Program World Bool)}

theorem started_opened (w : World) : w.shifts.length < (started workers w).shifts.length := by
  simp [started, openShift, startQueue, Program.run_bind, World.modifyShift]

theorem started_line (w : World) : ((started workers w).shift w.shifts.length).line = .forWorkers (max workers 1) := by
  simp [started, openShift, startQueue, Program.run_bind, World.modifyShift, World.shift]

theorem outside_keeps (hc : Inv shift q₀ n c) (h : OutsideQueue shift c d) :
    Inv shift q₀ n d ∧ ∀ i, Rely shift process i c d := by
  cases h with
  | asks ws t =>
    have hsame : SameLine shift c ⟨c.state.scheduleAt ws t, c.memory ++ [.asked ws t]⟩ :=
      ⟨rfl, by simp [popped], by simp [handled], by simp [QueueEvent.busy]⟩
    refine ⟨⟨hc.opened, fun name => ?_, fun name deadline reading h => ?_, ?_, ?_, ?_⟩, hsame.rely⟩
    · show dueTime q₀ (c.memory ++ [.asked ws t]) name = (c.state.queue.schedule ws t).2.deadline? name
      rw [dueTime_append, RetryQueue.deadline?_schedule, List.foldl_cons, List.foldl_nil, hc.due]
      show (if ws = name then some (sooner (c.state.queue.deadline? name) t) else c.state.queue.deadline? name) = _
      by_cases he : ws = name
      · rw [if_pos he, if_pos he, he]
        rfl
      · rw [if_neg he, if_neg he]
    · refine hc.onTime name deadline reading ?_
      simpa using h
    · exact fun hclosed => hsame.owed (hc.closed hclosed)
    · rw [hsame.busy]
      exact hc.distinct
    · rw [hsame.busy]
      exact hc.workers
  | surroundings w' hline hopened hqueue =>
    have hsame : SameLine shift c ⟨w', c.memory⟩ := ⟨hline, rfl, rfl, rfl⟩
    refine ⟨⟨hopened ▸ hc.opened, fun ws => hqueue ▸ hc.due ws, hc.onTime, fun hclosed => ?_, hc.distinct, hc.workers⟩, hsame.rely⟩
    exact hsame.owed (hc.closed (by rwa [hsame.line] at hclosed))

/-- What the driver, and each worker, begins its turns with. -/
def Ready (shift : Nat) : Nat → Scene World (List QueueEvent) → Prop
  | 0 => Driving shift []
  | k + 1 => Idle k

/-- How the turns of the driver, and of each worker, end. -/
def Over (shift : Nat) : Nat → Bool → Scene World (List QueueEvent) → Prop
  | 0 => DriverOver shift
  | k + 1 => WorkerOver shift k

theorem turning (workers : Nat) (w : World) (hprocess : Function.Injective process)
    (hhandle : ∀ k ws, (handle k ws).Steps (Serves w.shifts.length)) :
    (queueing w.shifts.length w.queue process (max workers 1)).Turning
      (turns w.shifts.length (max workers 1) process handle)
      (OutsideQueue w.shifts.length) noteReturn ⟨started workers w, []⟩
      (Ready w.shifts.length) (Over w.shifts.length) where
  first := by
    have hline :
        lineOf w.shifts.length (⟨started workers w, []⟩ : Scene World (List QueueEvent)) = .forWorkers (max workers 1) :=
      started_line w
    refine ⟨{ opened := started_opened w, due := fun _ => rfl, onTime := ?_, closed := fun _ => ?_, distinct := .nil, workers := ?_ },
      fun i _ => ?_⟩
    · exact fun _ _ _ h => absurd h List.not_mem_nil
    · unfold Owed
      rw [hline]
      exact .refl []
    · exact fun _ h => absurd h List.not_mem_nil
    · cases i with
      | zero =>
        refine ⟨by rw [hline]; rfl, ?_⟩
        unfold Owed
        rw [hline]
        exact .refl []
      | succ k => exact List.not_mem_nil
  outside c d hc h := outside_keeps hc h
  turn i p c hp hready := by
    cases i with
    | zero =>
      cases hp
      exact leads_driverTurn hready
    | succ k =>
      obtain ⟨j, hj, rfl⟩ : ∃ j, (List.range (max workers 1))[k]? = some j ∧ workerTurnBy (process j) _ (handle j) = p := by
        simpa [turns] using hp
      obtain ⟨hk, rfl⟩ := List.getElem?_eq_some_iff.1 hj
      rw [List.getElem_range]
      exact leads_workerTurnBy hprocess (hhandle k) (by simpa using hk) hready
  again i c _ hc hover := by
    cases i with
    | zero => exact ⟨⟨hc, fun j _ => rely_refl j c⟩, hover⟩
    | succ k =>
      have hbusy : inProgress (noteReturn (k + 1) c.memory) = (inProgress c.memory).filter (· != k + 1) := by
        simp [noteReturn, QueueEvent.busy]
      have howed : ∀ l, Owed w.shifts.length c l → Owed w.shifts.length ⟨c.state, noteReturn (k + 1) c.memory⟩ l := by
        intro l hl
        simpa [Owed, lineOf, noteReturn, popped, handled] using hl
      refine ⟨⟨⟨hc.opened, fun ws => ?_, fun ws deadline reading h => ?_, fun hclosed => howed [] (hc.closed hclosed), ?_, ?_⟩,
        fun j hj => ?_⟩, ?_⟩
      · simpa [noteReturn, QueueEvent.due] using hc.due ws
      · exact hc.onTime ws deadline reading (by simpa [noteReturn] using h)
      · exact hbusy ▸ hc.distinct.filter _
      · exact fun i hi => hc.workers i (List.mem_filter.1 (hbusy ▸ hi)).1
      · cases j with
        | zero => exact ⟨rfl, howed⟩
        | succ j => exact ⟨by simpa [hbusy] using fun _ => hj, id, id⟩
      · simp [Ready, Idle, hbusy]

/-- Every workspace is due as was asked for it since it was last taken out, none is taken out
    before it is due, and there are never more calls of the handler than workers. When the driver
    and all workers have ended, the workspaces that were handled are those that were taken out,
    each as often. -/
theorem queue_loses_nothing {w : World} (hprocess : Function.Injective process)
    (hhandle : ∀ k ws, (handle k ws).Steps (Serves w.shifts.length)) (h : QueueRun w workers process handle c crew) :
    (∀ ws, c.state.queue.deadline? ws = dueTime w.queue c.memory ws) ∧
      (∀ ws deadline reading, .popped ws deadline reading ∈ c.memory → deadline ≤ reading) ∧
      (inProgress c.memory).length ≤ max workers 1 ∧
      ((∀ p ∈ crew, p = .done false) → (handled c.memory).Perm (popped c.memory) ∧ inProgress c.memory = []) := by
  have hturning := turning workers w hprocess hhandle
  have hi : Inv w.shifts.length w.queue (max workers 1) c := (hturning.sound h).1
  refine ⟨fun ws => (hi.due ws).symm, hi.onTime, ?_, fun hend => ?_⟩
  · have hsub : inProgress c.memory ⊆ List.range' 1 (max workers 1) := fun i hmem => by
      have hbounds := hi.workers i hmem
      exact List.mem_range'_1.2 (by omega)
    simpa using (hi.distinct.subperm hsub).length_le
  · -- every member of the crew has had its last turn
    have hlength : crew.length = max workers 1 + 1 := by
      rw [Discipline.Turns.length_eq h]
      simp [turns]
    have hover : ∀ i, i ≤ max workers 1 → Over w.shifts.length i false c := fun i hle => by
      have hlt : i < crew.length := by omega
      exact hturning.ended h (List.getElem?_eq_some_iff.2 ⟨hlt, hend _ (List.getElem_mem hlt)⟩)
    have hclosed : (lineOf w.shifts.length c).closed = true := hover 0 (Nat.zero_le _)
    have hdrained : Drained w.shifts.length c := (hover 1 (Nat.le_max_right _ _) rfl).2
    have howed := hi.closed hclosed
    rw [Owed, hdrained.2, List.append_nil, List.append_nil] at howed
    refine ⟨howed.symm, List.eq_nil_iff_forall_not_mem.2 fun i hmem => ?_⟩
    obtain ⟨hpos, hle⟩ := hi.workers i hmem
    match i, hpos with
    | k + 1, _ => exact (hover (k + 1) hle rfl).1 hmem

end

/-! ## A run -/

/-- A queue that is started with one worker, which tries to start tasks. -/
abbrev OneWorker : Scene World (List QueueEvent) → List (Program World Bool) → Prop :=
  QueueRun { clock := 5 } 1 id fun k ws => ignoring (Dispatch.tryDispatch { holder := "a" } k ws)

/-- One workspace is queued for now, and one for later. -/
def twoAsked : Scene World (List QueueEvent) :=
  ⟨((started 1 { clock := 5 }).scheduleAt "now" 3).scheduleAt "later" 100, [.asked "now" 3, .asked "later" 100]⟩

/-- What is left of a turn, and the scene, after some steps that somebody takes alone. -/
def steps (i n : Nat) (c : Scene World (List QueueEvent)) (p : Program World Bool) :
    Program World Bool × Scene World (List QueueEvent) :=
  (queueing 0 {} id 1).carry i n p c

def firstTurn : Program World Bool × Scene World (List QueueEvent) := steps 0 50 twoAsked (driverTurn 0)

/-- The services are to stop. -/
def stopped : Scene World (List QueueEvent) :=
  ⟨firstTurn.2.state.modifyShift 0 fun s => { s with stopping := true }, firstTurn.2.memory⟩

def lastTurn : Program World Bool × Scene World (List QueueEvent) := steps 0 50 stopped (driverTurn 0)

def handling : Program World Bool × Scene World (List QueueEvent) :=
  steps 1 50 lastTurn.2 (workerTurn { holder := "a" } 0 0)

def lastWork : Program World Bool × Scene World (List QueueEvent) :=
  steps 1 50 ⟨handling.2.state, noteReturn 1 handling.2.memory⟩ (workerTurn { holder := "a" } 0 0)

theorem run_lastWork : OneWorker lastWork.2 [.done false, .done false] := by
  have hstart : OneWorker ⟨started 1 { clock := 5 }, []⟩ [driverTurn 0, workerTurn { holder := "a" } 0 0] := .start
  have hasked := (hstart.outside (.asks "now" 3)).outside (.asks "later" 100)
  have hdriven := hasked.carry (i := 0) (p := driverTurn 0) rfl 50
  have hstopped := hdriven.outside (.surroundings stopped.state rfl rfl rfl)
  have hagain := hstopped.again (i := 0) (p := driverTurn 0) rfl rfl
  have hclosed := hagain.carry (i := 0) (p := driverTurn 0) rfl 50
  have hworked := hclosed.carry (i := 1) (p := workerTurn { holder := "a" } 0 0) rfl 50
  have hnext := hworked.again (i := 1) (p := workerTurn { holder := "a" } 0 0) rfl rfl
  exact hnext.carry (i := 1) (p := workerTurn { holder := "a" } 0 0) rfl 50

theorem queue_loses_nothing_one_worker :
    OneWorker lastWork.2 [.done false, .done false] ∧ popped lastWork.2.memory = ["now"] ∧
      (handled lastWork.2.memory).Perm ["now"] ∧ lastWork.2.state.queue.deadline? "later" = some 100 := by
  obtain ⟨hdue, -, -, hend⟩ := queue_loses_nothing (fun a b h => h) (fun k ws => serves_tryDispatch k ws) run_lastWork
  have hpopped : popped lastWork.2.memory = ["now"] := by rfl
  refine ⟨run_lastWork, hpopped, hpopped ▸ (hend (by simp)).1, (hdue "later").trans ?_⟩
  rfl

end TaskFleet.Service
