/-
  TaskFleet.Proofs.Queue.ScheduledDelays — how far a delay is kept when a workspace is queued.

  A delay is to be kept in exact arithmetic: whatever the clock shows and however long the delay is,
  the workspace is not to be handed out before both have passed. Clock and deadline are words of 64
  bits of milliseconds. Of a longer delay only the low bits count, so that the deadline is early by the
  rest; a sum that does not fit is no deadline at all, but a crash.
  - `DispatchSection.Produces`: the delays that a configuration can lead to.
  - `after_deadline`: what becomes of a workspace until it is asked for again.
  - `delays_are_kept_where_they_fit`: the deadline, and exactly when it is not early.
  - `long_delay_is_over_at_once`: an accepted configuration with a delay that is not kept.
-/

import TaskFleet.Config.Toml
import TaskFleet.Proofs.Queue.EarliestDeadlines
import TaskFleet.Proofs.Runs

namespace TaskFleet

/-! ## Delays -/

/-- A delay for which a workspace is queued under some configuration. -/
inductive DispatchSection.Produces (c : DispatchSection) : Duration → Prop
  | atOnce : c.Produces .zero
  | noAgents : c.Produces c.settings.noAgentsDelay
  | noPool : c.Produces c.settings.noPoolDelay
  | failures (n : UInt32) : c.Produces (c.settings.backoff.delay n)

namespace Duration

variable {a b d : Duration} {k : UInt32}

/-- The span is a whole number of seconds. -/
def Whole (d : Duration) : Prop := d.nanos % 1000000000 = 0

theorem whole_ofSecs (s : UInt64) : (ofSecs s).Whole := by
  rw [Whole, nanos_ofSecs, Nat.mul_mod_left]

/-- A product that is cut to the largest span is no whole number of seconds, but the cap is shorter then. -/
theorem Whole.least_mul (ha : a.Whole) (hb : b.Whole) (k : UInt32) : ((a.mul k).least b).Whole := by
  have hproduct : a.nanos * k.toNat % 1000000000 = 0 := by
    rw [Nat.mul_mod, ha, Nat.zero_mul, Nat.zero_mod]
  have hcap := b.nanos_le_longest
  unfold Whole at hb ⊢
  rw [nanos_least, nanos_mul]
  omega

/-- Whole seconds are whole milliseconds. -/
theorem Whole.nanos_eq (h : d.Whole) : d.nanos = d.millis * 1000000 := by
  unfold Whole at h
  unfold millis
  omega

end Duration

theorem DispatchSection.Produces.whole {c : DispatchSection} {d : Duration} (h : c.Produces d) : d.Whole := by
  cases h with
  | atOnce => rfl
  | noAgents => exact Duration.whole_ofSecs _
  | noPool => exact Duration.whole_ofSecs _
  | failures n => exact (Duration.whole_ofSecs _).least_mul (Duration.whole_ofSecs _) _

/-! ## Until the workspace is handed out -/

namespace RetryQueue

variable {q : RetryQueue} {calls : List QueueCall} {c : QueueCall} {ws : String} {d d' now : UInt64} {names : List String}

/-- The workspace has no deadline before `d`. -/
def NotBefore (ws : String) (d : UInt64) (q : RetryQueue) : Prop := ∀ d', q.deadline? ws = some d' → d ≤ d'

/-- A call that does not ask for the workspace leaves its deadline, or answers that it has come. -/
theorem deadline?_call (hcall : ∀ t, c ≠ .schedule ws t) :
    (q.call c).2.deadline? ws = q.deadline? ws ∨
      ∃ now, c = .popDue now ∧ ws ∈ (q.popDue now).1 ∧ (q.call c).2.deadline? ws = none := by
  cases c with
  | schedule name t =>
    have hne : name ≠ ws := fun he => hcall t (he ▸ rfl)
    left
    show (q.schedule name t).2.deadline? ws = q.deadline? ws
    rw [deadline?_schedule, if_neg hne]
  | popDue now =>
    by_cases hdue : ws ∈ (q.popDue now).1
    · right
      refine ⟨now, rfl, hdue, ?_⟩
      show (q.popDue now).2.deadline? ws = none
      rw [deadline?_of_popDue, if_pos hdue]
    · left
      show (q.popDue now).2.deadline? ws = q.deadline? ws
      rw [deadline?_of_popDue, if_neg hdue]
  | deadline => exact .inl rfl
  | nextDeadline => exact .inl rfl
  | size => exact .inl rfl
  | isEmpty => exact .inl rfl

theorem NotBefore.call (h : NotBefore ws d q) (hcall : ∀ t, c ≠ .schedule ws t) : NotBefore ws d (q.call c).2 := by
  intro d' hd'
  rcases deadline?_call (q := q) hcall with hsame | ⟨-, -, -, hnone⟩
  · exact h d' (hsame ▸ hd')
  · rw [hnone] at hd'
    cases hd'

/-- A workspace that is not asked for again is not handed out before its deadline. -/
theorem NotBefore.due (h : NotBefore ws d q) (hcalls : ∀ t, .schedule ws t ∉ calls)
    (hevent : (.popDue now, .due names) ∈ (q.run calls).1) (hws : ws ∈ names) : d ≤ now := by
  induction calls generalizing q with
  | nil => cases hevent
  | cons c cs ih =>
    rcases List.mem_cons.1 hevent with heq | hlater
    · obtain ⟨rfl, hanswer⟩ := Prod.mk.inj heq
      obtain ⟨d', hd', hle⟩ := mem_popDue.1 (QueueAnswer.due.inj hanswer ▸ hws)
      exact UInt64.le_trans (h d' hd') hle
    · exact ih (h.call fun t he => hcalls t (he ▸ List.mem_cons_self))
        (fun t hmem => hcalls t (List.mem_cons_of_mem _ hmem)) hlater

/-- It waits for its deadline. -/
theorem deadline?_run (hd : q.deadline? ws = some d) (hcalls : ∀ t, .schedule ws t ∉ calls)
    (hearly : ∀ now, .popDue now ∈ calls → now < d) : (q.run calls).2.deadline? ws = some d := by
  induction calls generalizing q with
  | nil => exact hd
  | cons c cs ih =>
    refine ih ?_ (fun t hmem => hcalls t (List.mem_cons_of_mem _ hmem)) fun now hmem =>
      hearly now (List.mem_cons_of_mem _ hmem)
    rcases deadline?_call (q := q) (c := c) fun t he => hcalls t (he ▸ List.mem_cons_self) with hsame |
      ⟨now, rfl, hdue, -⟩
    · exact hsame.trans hd
    · obtain ⟨d', hd', hle⟩ := mem_popDue.1 hdue
      rw [hd] at hd'
      cases hd'
      exact absurd (hearly now List.mem_cons_self) (UInt64.not_lt.2 hle)

end RetryQueue

/-! ## The deadline -/

namespace World

variable {w : World} {ws : String} {d : Duration}

/-- What a workspace that was queued for some time from now, and is not asked for again, has to wait for. -/
structure WaitsUntil (w w' : World) (ws : String) (d : Duration) (deadline : UInt64) : Prop where
  recorded : w'.queue.deadline? ws = some deadline
  /-- The deadline is early by the whole words in the delay. -/
  early : deadline.toNat + UInt64.size * (d.millis / UInt64.size) = w.clock.toNat + d.millis
  /-- It is not early exactly if the sum of clock and delay fits a word. -/
  kept : w.clock.toNat * 1000000 + d.nanos ≤ deadline.toNat * 1000000 ↔ w.clock.toNat + d.millis < UInt64.size
  /-- The workspace is not handed out before its deadline, whatever else is asked of the queue. -/
  notBefore : ∀ calls now names, (∀ t, .schedule ws t ∉ calls) →
    (.popDue now, .due names) ∈ (w'.queue.run calls).1 → ws ∈ names → deadline ≤ now
  /-- Until somebody looks for what is due at its deadline or later, it waits. -/
  waits : ∀ calls, (∀ t, .schedule ws t ∉ calls) → (∀ now, .popDue now ∈ calls → now < deadline) →
    (w'.queue.run calls).2.deadline? ws = some deadline

theorem deadline?_scheduleAt_new (hnew : w.queue.deadline? ws = none) (t : UInt64) :
    (w.scheduleAt ws t).queue.deadline? ws = some t := by
  show (w.queue.schedule ws t).2.deadline? ws = some t
  rw [RetryQueue.deadline?_schedule, if_pos rfl, hnew]

theorem waitsUntil_scheduleAt (hnew : w.queue.deadline? ws = none) (hd : d.Whole) {deadline : UInt64}
    (hafter : w.after? d = some deadline) : WaitsUntil w (w.scheduleAt ws deadline) ws d deadline := by
  have hsum := w.after?_eq_some_iff.1 hafter
  have hlt : deadline.toNat < UInt64.size := deadline.toNat_lt
  have hdivided := Nat.mod_add_div d.millis UInt64.size
  have hnanos := hd.nanos_eq
  have hrecorded := deadline?_scheduleAt_new hnew deadline
  refine ⟨hrecorded, by omega, ?_, fun calls now names hcalls hevent hws => ?_, fun calls hcalls hearly => ?_⟩
  · have hsize : UInt64.size = 18446744073709551616 := rfl
    rw [hsize] at hsum hdivided ⊢
    omega
  · have hbefore : RetryQueue.NotBefore ws deadline (w.scheduleAt ws deadline).queue := by
      intro d' hd'
      rw [hrecorded] at hd'
      cases hd'
      exact UInt64.le_refl _
    exact hbefore.due hcalls hevent hws
  · exact RetryQueue.deadline?_run hrecorded hcalls hearly

/-- For every clock and every delay that a configuration leads to, of which the low 64 bits of the milliseconds
    count: if their sum with the clock fits 64 bits, a workspace that was not in the queue waits for it. That is the
    sum of clock and delay, exactly if the delay has no higher bits. If it does not fit, the program crashes and
    leaves everything as it is. -/
theorem delays_are_kept_where_they_fit (c : Config) (hd : c.dispatch.Produces d) (w : World)
    (hnew : w.queue.deadline? ws = none) :
    if w.clock.toNat + d.millis % UInt64.size < UInt64.size then
      ∃ w' deadline, (Program.schedule ws d).run w = (.finished (), w') ∧ WaitsUntil w w' ws d deadline
    else (Program.schedule ws d).run w = (.crashed sumTooLarge, w) := by
  split
  · next hfits =>
    have hdeadline : (UInt64.ofNat (w.clock.toNat + d.millis % UInt64.size)).toNat = w.clock.toNat + d.millis % UInt64.size :=
      UInt64.toNat_ofNat_of_lt' hfits
    have hafter := w.after?_eq_some_iff.2 hdeadline
    exact ⟨_, _, Program.run_schedule hafter, waitsUntil_scheduleAt hnew hd.whole hafter⟩
  · next hlong =>
    refine Program.run_schedule_none (Option.eq_none_iff_forall_ne_some.2 fun t ht => hlong ?_)
    rw [← w.after?_eq_some_iff.1 ht]
    exact t.toNat_lt

/-- A day in 2025, with nothing queued. -/
def quiet : World := { clock := 1760000000000 }

theorem delays_are_kept_where_they_fit_no_agents :
    ({} : Config).dispatch.Produces (.ofSecs 15) ∧ quiet.queue.deadline? "ws-1" = none ∧
      ∃ w' deadline, (Program.schedule "ws-1" (.ofSecs 15)).run quiet = (.finished (), w') ∧
        WaitsUntil quiet w' "ws-1" (.ofSecs 15) deadline ∧ deadline = 1760000015000 := by
  have hnew : quiet.queue.deadline? "ws-1" = none := rfl
  have hkept := delays_are_kept_where_they_fit {} .noAgents quiet hnew
  rw [if_pos (by decide +kernel)] at hkept
  obtain ⟨w', deadline, hrun, hwaits⟩ := hkept
  refine ⟨.noAgents, rfl, w', deadline, hrun, hwaits, ?_⟩
  have hearly : deadline.toNat + 0 = 1760000015000 := hwaits.early
  exact UInt64.toNat_inj.1 hearly

/-- A configuration with a delay of more than five hundred million years. -/
def longDelayToml : String := "[dispatch]\nno_agents_delay_secs = 18446744073709552\n"

/-- The configuration is accepted and leads to that delay, but the workspace is handed out 384 milliseconds later. -/
theorem long_delay_is_over_at_once :
    ∃ c d w', Config.ofToml longDelayToml = .ok c ∧ c.dispatch.Produces d ∧ d = .ofSecs 18446744073709552 ∧
      quiet.queue.deadline? "ws-1" = none ∧ (Program.schedule "ws-1" d).run quiet = (.finished (), w') ∧
      w'.queue.deadline? "ws-1" = some 1760000000384 ∧ (w'.queue.popDue 1760000000384).1 = ["ws-1"] ∧
      1760000000384 < quiet.clock.toNat + d.millis := by
  have hread : (Config.ofToml longDelayToml).toOption.map (·.dispatch) = some { noAgentsDelaySecs := 18446744073709552 } := by
    decide +kernel
  obtain ⟨c, haccepted, hdispatch⟩ := Option.map_eq_some_iff.1 hread
  have hdelay : c.dispatch.settings.noAgentsDelay = .ofSecs 18446744073709552 := by rw [hdispatch]; rfl
  have hafter : quiet.after? (.ofSecs 18446744073709552) = some 1760000000384 := by decide +kernel
  refine ⟨c, _, quiet.scheduleAt "ws-1" 1760000000384, ?_, .noAgents, hdelay, rfl, ?_⟩
  · cases hc : Config.ofToml longDelayToml with
    | error e =>
      rw [hc] at haccepted
      cases haccepted
    | ok c' =>
      rw [hc] at haccepted
      cases haccepted
      rfl
  · rw [hdelay]
    exact ⟨Program.run_schedule hafter, by decide +kernel⟩

end World

end TaskFleet
