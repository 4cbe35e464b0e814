/-
  TaskFleet.Proofs.Queue.EarliestDeadlines — a retry queue holds the earliest times it was asked for.

  What a queue has been called with and has answered is a history. A workspace waits from a call that
  asks for it until an answer says that it is due, and the times it was asked for in between are all
  that counts (`AskedSince`). The queue keeps the least of them.
  - `askedSince_concat`: what one more event does to the times.
  - `pairwise_due`: what is due comes out by time, and by the bytes of the name within one time.
  - `Tracks.call`: one call.
  - `queue_keeps_earliest_deadlines`: every sequence of calls.
-/

import TaskFleet.Queue.Retry
import TaskFleet.Proofs.Text.ByteOrder

namespace TaskFleet.RetryQueue

/-! ## Calls and their history -/

inductive QueueCall
  | schedule (workspace : String) (notBefore : UInt64)
  | popDue (now : UInt64)
  | deadline (workspace : String)
  | nextDeadline
  | size
  | isEmpty
  deriving DecidableEq

inductive QueueAnswer
  | changed (yes : Bool)
  | due (workspaces : List String)
  | time (at? : Option UInt64)
  | number (n : Nat)
  | empty (yes : Bool)
  deriving DecidableEq

/-- A call and its answer. -/
abbrev AnsweredCall := QueueCall × QueueAnswer

variable {q : RetryQueue} {h : List AnsweredCall} {e : AnsweredCall} {c : QueueCall} {ws : String} {t d now : UInt64}

variable (q) in
def call : QueueCall → QueueAnswer × RetryQueue
  | .schedule ws t => (.changed (q.schedule ws t).1, (q.schedule ws t).2)
  | .popDue now => (.due (q.popDue now).1, (q.popDue now).2)
  | .deadline ws => (.time (q.deadline? ws), q)
  | .nextDeadline => (.time q.nextDeadline?, q)
  | .size => (.number q.size, q)
  | .isEmpty => (.empty q.isEmpty, q)

/-- Calls one after the other, with the history they leave. -/
def run (q : RetryQueue) : List QueueCall → List AnsweredCall × RetryQueue
  | [] => ([], q)
  | c :: cs => ((c, (q.call c).1) :: ((q.call c).2.run cs).1, ((q.call c).2.run cs).2)

/-- The workspaces that an event takes out of the queue. -/
def AnsweredCall.names : AnsweredCall → List String
  | (.popDue _, .due names) => names
  | _ => []

/-- A workspace was asked for at a time, and no later answer names it. -/
def AskedSince (h : List AnsweredCall) (ws : String) (t : UInt64) : Prop :=
  ∃ before answer after, h = before ++ (.schedule ws t, answer) :: after ∧ ∀ e ∈ after, ws ∉ AnsweredCall.names e

/-- The least of the times at which a workspace was asked for since it was last taken out. -/
def Earliest (h : List AnsweredCall) (ws : String) (d : UInt64) : Prop :=
  AskedSince h ws d ∧ ∀ t, AskedSince h ws t → d ≤ t

/-- What is to be answered to a call after what has happened so far. -/
def Right (h : List AnsweredCall) : QueueCall → QueueAnswer → Prop
  | .schedule ws t, .changed yes => yes = true ↔ (∀ t', ¬AskedSince h ws t') ∨ ∃ d, Earliest h ws d ∧ t < d
  | .popDue now, .due names =>
    names.Nodup ∧ (∀ ws, ws ∈ names ↔ ∃ d, Earliest h ws d ∧ d ≤ now) ∧
      names.Pairwise fun a b => ∀ d e, Earliest h a d → Earliest h b e →
        d < e ∨ d = e ∧ Text.bytes a < Text.bytes b
  | .deadline ws, .time at? => ∀ d, at? = some d ↔ Earliest h ws d
  | .nextDeadline, .time at? => ∀ d, at? = some d ↔
    (∃ ws, Earliest h ws d) ∧ ∀ ws d', Earliest h ws d' → d ≤ d'
  | .size, .number n =>
    ∃ names : List String, names.Nodup ∧ names.length = n ∧ ∀ ws, ws ∈ names ↔ ∃ t, AskedSince h ws t
  | .isEmpty, .empty yes => yes = true ↔ ∀ ws t, ¬AskedSince h ws t
  | _, _ => False

/-! ## The times asked for -/

@[simp] theorem not_askedSince_nil : ¬AskedSince [] ws t := by
  rintro ⟨before, answer, after, h, -⟩
  cases before <;> cases h

theorem askedSince_concat :
    AskedSince (h ++ [e]) ws t ↔ e.1 = .schedule ws t ∨ AskedSince h ws t ∧ ws ∉ e.names := by
  constructor
  · rintro ⟨before, answer, after, heq, hafter⟩
    rcases List.eq_nil_or_concat after with rfl | ⟨after, last, rfl⟩
    · have hlast := (List.append_inj' heq rfl).2
      exact .inl (by rw [(List.cons.inj hlast).1])
    · rw [List.concat_eq_append, ← List.cons_append, ← List.append_assoc] at heq
      obtain ⟨rfl, hlast⟩ := List.append_inj' heq rfl
      obtain ⟨rfl, -⟩ := List.cons.inj hlast
      exact .inr ⟨⟨before, answer, after, rfl, fun x hx => hafter x (by simp [hx])⟩, hafter e (by simp)⟩
  · rintro (hcall | ⟨⟨before, answer, after, rfl, hafter⟩, hlast⟩)
    · exact ⟨h, e.2, [], by rw [← hcall], by simp⟩
    · refine ⟨before, answer, after ++ [e], by simp, fun x hx => ?_⟩
      rcases List.mem_append.1 hx with hx | hx
      · exact hafter x hx
      · exact (List.mem_singleton.1 hx) ▸ hlast

theorem Earliest.unique {d' : UInt64} (hd : Earliest h ws d) (hd' : Earliest h ws d') : d = d' :=
  UInt64.le_antisymm (hd.2 d' hd'.1) (hd'.2 d hd.1)

/-! ## The queue's rows -/

theorem nodup_keys (deadlines : Table UInt64) : deadlines.keys.Nodup := by
  refine List.pairwise_map.2 (deadlines.ascending.imp fun hlt => ?_)
  intro heq
  exact String.lt_irrefl _ (heq ▸ hlt)

theorem nextDeadline?_eq (q : RetryQueue) : q.nextDeadline? = q.deadlines.values.min? := by
  unfold nextDeadline?
  cases q.deadlines.values with
  | nil => rfl
  | cons d ds =>
    rw [List.foldl_cons, List.min?_cons']
    induction ds generalizing d with
    | nil => rfl
    | cons d' ds ih => exact ih (min d d')

theorem mem_popDue : ws ∈ (q.popDue now).1 ↔ ∃ d, q.deadline? ws = some d ∧ d ≤ now := by
  simp only [popDue, due, List.mem_map, mem_sortBy, List.mem_filter, decide_eq_true_eq]
  constructor
  · rintro ⟨⟨name, d⟩, ⟨hrow, hd⟩, rfl⟩
    exact ⟨d, Table.mem_rows_iff.1 hrow, hd⟩
  · rintro ⟨d, hget, hd⟩
    exact ⟨(ws, d), ⟨Table.mem_rows_iff.2 hget, hd⟩, rfl⟩

theorem deadline?_of_popDue (q : RetryQueue) (now : UInt64) (ws : String) :
    (q.popDue now).2.deadline? ws = if ws ∈ (q.popDue now).1 then none else q.deadline? ws := by
  have hget : (q.popDue now).2.deadline? ws = (q.deadline? ws).filter fun d => now < d := Table.get?_filter _ _ ws
  rw [hget]
  cases hd : q.deadline? ws with
  | none => simp
  | some d =>
    by_cases hlt : now < d
    · have hnot : ws ∉ (q.popDue now).1 := fun hmem => by
        obtain ⟨d', hd', hle⟩ := mem_popDue.1 hmem
        obtain rfl := Option.some.inj (hd.symm.trans hd')
        exact UInt64.not_le.2 hlt hle
      simp [Option.filter, hlt, hnot]
    · have hmem : ws ∈ (q.popDue now).1 := mem_popDue.2 ⟨d, hd, UInt64.not_lt.1 hlt⟩
      simp [Option.filter, hlt, hmem]

/-- What is due is sorted by time alone, and keeps the order of the rows within one time. -/
theorem pairwise_due (q : RetryQueue) (now : UInt64) :
    (q.due now).Pairwise fun a b => a.2 ≤ b.2 ∧ (b.2 ≤ a.2 → a.1 < b.1) := by
  have hrows : (q.deadlines.rows.filter (·.2 ≤ now)).Pairwise (·.1 < ·.1) := q.deadlines.ascending.filter _
  have htotal : ∀ a b : String × UInt64, decide (a.2 ≤ b.2) ∨ decide (b.2 ≤ a.2) := fun a b => by
    simpa using UInt64.le_total a.2 b.2
  have htrans : ∀ a b c : String × UInt64, decide (a.2 ≤ b.2) → decide (b.2 ≤ c.2) → decide (a.2 ≤ c.2) :=
    fun a b c hab hbc => by simpa using UInt64.le_trans (by simpa using hab) (by simpa using hbc)
  simpa [due] using sortBy_stable htotal htrans hrows

/-! ## One call -/

/-- A queue has the least of the times that its history asks for, for each workspace. -/
structure Tracks (h : List AnsweredCall) (q : RetryQueue) : Prop where
  unasked : ∀ ws, q.deadline? ws = none → ∀ t, ¬AskedSince h ws t
  earliest : ∀ ws d, q.deadline? ws = some d → Earliest h ws d

theorem tracks_nil : Tracks [] {} := ⟨fun _ _ _ => not_askedSince_nil, fun _ _ hd => nomatch hd⟩

theorem Tracks.deadline?_eq_none_iff (hq : Tracks h q) : q.deadline? ws = none ↔ ∀ t, ¬AskedSince h ws t := by
  refine ⟨hq.unasked ws, fun hnot => ?_⟩
  cases hd : q.deadline? ws with
  | none => rfl
  | some d => exact absurd (hq.earliest ws d hd).1 (hnot d)

theorem Tracks.deadline?_eq_some_iff (hq : Tracks h q) : q.deadline? ws = some d ↔ Earliest h ws d := by
  refine ⟨hq.earliest ws d, fun hd => ?_⟩
  cases hd' : q.deadline? ws with
  | none => exact absurd hd.1 (hq.unasked ws hd' d)
  | some d' => rw [(hq.earliest ws d' hd').unique hd]

/-- A workspace of which one more event says nothing keeps its deadline. -/
theorem earliest_congr {h' : List AnsweredCall} (hsame : ∀ t, AskedSince h' ws t ↔ AskedSince h ws t) :
    Earliest h' ws d ↔ Earliest h ws d := by
  unfold Earliest
  simp only [hsame]

/-- The least of the times asked for before and one more. -/
theorem earliest_schedule (hd : d = t ∨ AskedSince h ws d) (hle : d ≤ t) (hleast : ∀ t', AskedSince h ws t' → d ≤ t')
    (answer : QueueAnswer) : Earliest (h ++ [(.schedule ws t, answer)]) ws d := by
  have hasked : ∀ t', AskedSince (h ++ [(.schedule ws t, answer)]) ws t' ↔ t = t' ∨ AskedSince h ws t' := fun t' => by
    simp [askedSince_concat, AnsweredCall.names]
  refine ⟨(hasked d).2 (hd.imp_left Eq.symm), fun t' ht' => ?_⟩
  rcases (hasked t').1 ht' with rfl | ht'
  · exact hle
  · exact hleast t' ht'

theorem Tracks.schedule (hq : Tracks h q) (ws : String) (t : UInt64) (answer : QueueAnswer) :
    Tracks (h ++ [(.schedule ws t, answer)]) (q.schedule ws t).2 := by
  have hother : ∀ name, ws ≠ name → (q.schedule ws t).2.deadline? name = q.deadline? name ∧
      ∀ t', AskedSince (h ++ [(.schedule ws t, answer)]) name t' ↔ AskedSince h name t' := fun name hne =>
    ⟨by rw [deadline?_schedule, if_neg hne], fun t' => by simp [askedSince_concat, AnsweredCall.names, hne]⟩
  refine ⟨fun name hnone => ?_, fun name d hsome => ?_⟩
  · by_cases he : ws = name
    · rw [deadline?_schedule, if_pos he] at hnone
      cases hnone
    · obtain ⟨hget, hsame⟩ := hother name he
      intro t'
      rw [hsame]
      exact hq.unasked name (hget ▸ hnone) t'
  · by_cases he : ws = name
    · subst he
      rw [deadline?_schedule, if_pos rfl] at hsome
      obtain rfl := Option.some.inj hsome
      cases hd : q.deadline? ws with
      | none => exact earliest_schedule (.inl rfl) (UInt64.le_refl _) (fun t' ht' => absurd ht' (hq.unasked ws hd t')) _
      | some current =>
        obtain ⟨hcurrent, hleast⟩ := hq.earliest ws current hd
        by_cases hlt : t < current
        · simp only [hlt, if_true]
          exact earliest_schedule (.inl rfl) (UInt64.le_refl _)
            (fun t' ht' => UInt64.le_trans (UInt64.le_of_lt hlt) (hleast t' ht')) _
        · simp only [hlt, if_false]
          exact earliest_schedule (.inr hcurrent) (UInt64.not_lt.1 hlt) hleast _
    · obtain ⟨hget, hsame⟩ := hother name he
      exact (earliest_congr hsame).2 (hq.earliest name d (hget ▸ hsome))

theorem Tracks.popDue (hq : Tracks h q) (now : UInt64) :
    Tracks (h ++ [(.popDue now, .due (q.popDue now).1)]) (q.popDue now).2 := by
  have hasked : ∀ ws t, AskedSince (h ++ [(.popDue now, .due (q.popDue now).1)]) ws t ↔
      AskedSince h ws t ∧ ws ∉ (q.popDue now).1 := fun ws t => by
    simp [askedSince_concat, AnsweredCall.names]
  refine ⟨fun ws hnone t hsince => ?_, fun ws d hsome => ?_⟩
  · obtain ⟨hsince, hnot⟩ := (hasked ws t).1 hsince
    rw [deadline?_of_popDue, if_neg hnot] at hnone
    exact hq.unasked ws hnone t hsince
  · rw [deadline?_of_popDue] at hsome
    split at hsome
    · cases hsome
    · next hnot => exact (earliest_congr fun t => by simp [hasked, hnot]).2 (hq.earliest ws d hsome)

/-- Looking at a queue changes nothing. -/
theorem Tracks.look (hq : Tracks h q) {answer : QueueAnswer} (hcall : ∀ ws t, c ≠ .schedule ws t)
    (hnames : AnsweredCall.names (c, answer) = []) : Tracks (h ++ [(c, answer)]) q := by
  have hasked : ∀ ws t, AskedSince (h ++ [(c, answer)]) ws t ↔ AskedSince h ws t := fun ws t => by
    simp [askedSince_concat, hnames, hcall]
  exact ⟨fun ws hnone t hsince => hq.unasked ws hnone t ((hasked ws t).1 hsince),
    fun ws d hsome => (earliest_congr (hasked ws)).2 (hq.earliest ws d hsome)⟩

theorem Tracks.call (hq : Tracks h q) (c : QueueCall) : Tracks (h ++ [(c, (q.call c).1)]) (q.call c).2 := by
  cases c with
  | schedule ws t => exact hq.schedule ws t _
  | popDue now => exact hq.popDue now
  | deadline ws => exact hq.look (fun _ _ => nofun) rfl
  | nextDeadline => exact hq.look (fun _ _ => nofun) rfl
  | size => exact hq.look (fun _ _ => nofun) rfl
  | isEmpty => exact hq.look (fun _ _ => nofun) rfl

/-! ## One answer -/

theorem Tracks.schedule_right (hq : Tracks h q) (ws : String) (t : UInt64) :
    Right h (.schedule ws t) (.changed (q.schedule ws t).1) := by
  show (q.schedule ws t).1 = true ↔ (∀ t', ¬AskedSince h ws t') ∨ ∃ d, Earliest h ws d ∧ t < d
  rw [← hq.deadline?_eq_none_iff]
  simp only [← hq.deadline?_eq_some_iff]
  unfold RetryQueue.schedule
  cases q.deadline? ws with
  | none => simp
  | some current => by_cases hlt : t < current <;> simp [hlt]

theorem Tracks.popDue_right (hq : Tracks h q) (now : UInt64) : Right h (.popDue now) (.due (q.popDue now).1) := by
  have hrow : ∀ r ∈ q.due now, Earliest h r.1 r.2 := fun r hr =>
    hq.earliest _ _ (Table.mem_rows_iff.1 (List.mem_filter.1 (mem_sortBy.1 hr)).1)
  refine ⟨?_, fun ws => ?_, ?_⟩
  · have hkeys : (q.deadlines.filter fun _ deadline => deadline ≤ now).keys.Nodup := nodup_keys _
    exact ((sortBy_perm _ _).map _).nodup_iff.2 hkeys
  · simp only [← hq.deadline?_eq_some_iff]
    exact mem_popDue
  · refine List.pairwise_map.2 ((q.pairwise_due now).imp_of_mem ?_)
    rintro a b ha hb ⟨hle, hties⟩ d e hd he
    obtain rfl := hd.unique (hrow a ha)
    obtain rfl := he.unique (hrow b hb)
    rcases UInt64.lt_or_eq_of_le hle with hlt | heq
    · exact .inl hlt
    · exact .inr ⟨heq, Text.lt_iff_bytes.1 (hties (heq ▸ UInt64.le_refl _))⟩

theorem Tracks.nextDeadline_right (hq : Tracks h q) : Right h .nextDeadline (.time q.nextDeadline?) := by
  intro d
  simp only [nextDeadline?_eq, List.min?_eq_some_iff, Table.mem_values, ← hq.deadline?_eq_some_iff]
  exact and_congr_right fun _ => ⟨fun hleast ws d' hd' => hleast d' ⟨ws, hd'⟩, fun hleast d' ⟨ws, hd'⟩ => hleast ws d' hd'⟩

/-- The workspaces with a row are those that wait. -/
theorem Tracks.mem_keys_iff (hq : Tracks h q) : ws ∈ q.deadlines.keys ↔ ∃ t, AskedSince h ws t := by
  have hkey : ws ∈ q.deadlines.keys ↔ ∃ d, q.deadline? ws = some d := by
    simp only [Table.keys, List.mem_map, deadline?, ← Table.mem_rows_iff]
    exact ⟨fun ⟨r, hr, heq⟩ => ⟨r.2, heq ▸ hr⟩, fun ⟨d, hd⟩ => ⟨(ws, d), hd, rfl⟩⟩
  rw [hkey, ← Option.ne_none_iff_exists', ne_eq, hq.deadline?_eq_none_iff]
  simp

theorem Tracks.size_right (hq : Tracks h q) : Right h .size (.number q.size) :=
  ⟨q.deadlines.keys, nodup_keys _, List.length_map _, fun _ => hq.mem_keys_iff⟩

theorem Tracks.isEmpty_right (hq : Tracks h q) : Right h .isEmpty (.empty q.isEmpty) := by
  have hempty : q.isEmpty = true ↔ ∀ ws, ws ∉ q.deadlines.keys := by
    rw [RetryQueue.isEmpty, Table.isEmpty, List.isEmpty_iff, ← List.eq_nil_iff_forall_not_mem, Table.keys,
      List.map_eq_nil_iff]
  show q.isEmpty = true ↔ _
  rw [hempty]
  simp [hq.mem_keys_iff]

theorem Tracks.right (hq : Tracks h q) (c : QueueCall) : Right h c (q.call c).1 := by
  cases c with
  | schedule ws t => exact hq.schedule_right ws t
  | popDue now => exact hq.popDue_right now
  | deadline ws => exact fun d => hq.deadline?_eq_some_iff
  | nextDeadline => exact hq.nextDeadline_right
  | size => exact hq.size_right
  | isEmpty => exact hq.isEmpty_right

/-! ## Every sequence of calls -/

theorem Tracks.run (hq : Tracks h q) (calls : List QueueCall) : Tracks (h ++ (q.run calls).1) (q.run calls).2 := by
  induction calls generalizing h q with
  | nil => simpa [RetryQueue.run] using hq
  | cons c cs ih => simpa [RetryQueue.run] using ih (hq.call c)

theorem Tracks.answers (hq : Tracks h q) {calls : List QueueCall} {before after : List AnsweredCall}
    {answer : QueueAnswer}
    (hrun : (q.run calls).1 = before ++ (c, answer) :: after) : Right (h ++ before) c answer := by
  induction calls generalizing h q before with
  | nil => cases before <;> cases hrun
  | cons c' cs ih =>
    cases before with
    | nil =>
      obtain ⟨hevent, -⟩ := List.cons.inj hrun
      obtain ⟨rfl, rfl⟩ := Prod.mk.inj hevent
      simpa using hq.right c'
    | cons first before =>
      obtain ⟨rfl, hrest⟩ := List.cons.inj hrun
      simpa using ih (hq.call c') hrest

theorem map_run (q : RetryQueue) (calls : List QueueCall) : (q.run calls).1.map (·.1) = calls := by
  induction calls generalizing q with
  | nil => rfl
  | cons c cs ih => simp [RetryQueue.run, ih]

/-- What a queue has and has answered, after the calls of a history. -/
structure KeepsEarliest (h : List AnsweredCall) (q : RetryQueue) : Prop where
  deadlines : ∀ ws d, q.deadline? ws = some d ↔ Earliest h ws d
  others : ∀ ws, q.deadline? ws = none ↔ ∀ t, ¬AskedSince h ws t
  answers : ∀ before c answer after, h = before ++ (c, answer) :: after → Right before c answer
  /-- What is answered as due is taken out, and nothing else. -/
  takenOut : ∀ now ws, (q.popDue now).2.deadline? ws = if ws ∈ (q.popDue now).1 then none else q.deadline? ws
  /-- What was asked for waits until it is answered as due. -/
  noneLost : ∀ before ws t answer after, h = before ++ (.schedule ws t, answer) :: after →
    (∃ e ∈ after, ws ∈ AnsweredCall.names e) ∨ ∃ d, q.deadline? ws = some d ∧ d ≤ t
  /-- What is answered as due was asked for, at a time that has come. -/
  noneEarly : ∀ before now names after, h = before ++ (.popDue now, .due names) :: after →
    ∀ ws ∈ names, ∃ t, AskedSince before ws t ∧ t ≤ now

/-- Whatever is called in whatever order, a queue is the map from the workspaces that were asked for since they
    were last answered as due to the least of the times asked for since then, and answers accordingly. -/
theorem queue_keeps_earliest_deadlines (calls : List QueueCall) :
    (run {} calls).1.map (·.1) = calls ∧ KeepsEarliest (run {} calls).1 (run {} calls).2 := by
  have htracks : Tracks (run {} calls).1 (run {} calls).2 := by simpa using tracks_nil.run calls
  have hanswers : ∀ before c answer after, (run {} calls).1 = before ++ (c, answer) :: after →
      Right before c answer := fun before c answer after heq => by simpa using tracks_nil.answers heq
  refine ⟨map_run {} calls, ⟨fun ws d => htracks.deadline?_eq_some_iff, fun ws => htracks.deadline?_eq_none_iff,
    hanswers, fun now ws => deadline?_of_popDue _ now ws, fun before ws t answer after heq => ?_,
    fun before now names after heq ws hmem => ?_⟩⟩
  · by_cases hout : ∃ e ∈ after, ws ∈ AnsweredCall.names e
    · exact .inl hout
    · have hasked : AskedSince (run {} calls).1 ws t :=
        ⟨before, answer, after, heq, fun e he hname => hout ⟨e, he, hname⟩⟩
      obtain ⟨d, hd⟩ := Option.ne_none_iff_exists'.1 fun hnone => htracks.unasked ws hnone t hasked
      exact .inr ⟨d, hd, (htracks.earliest ws d hd).2 t hasked⟩
  · obtain ⟨d, hd, hle⟩ := ((hanswers _ _ _ _ heq).2.1 ws).1 hmem
    exact ⟨d, hd.1, hle⟩

/-- Two workspaces at one time, of which the later one was asked for twice. -/
example : (run {} [.schedule "b" 5, .schedule "a" 7, .schedule "b" 9, .schedule "a" 5, .popDue 4, .popDue 5]).1.map (·.2) =
    [.changed true, .changed true, .changed false, .changed true, .due [], .due ["a", "b"]] := by decide +kernel

end TaskFleet.RetryQueue
