/-
  TaskFleet.Proofs.Autoscale.RestartTrails — what a restart tracker says along a line of pods.

  A pod that is restarted goes on under the name of its replacement. Its trail is what has happened
  to it under all of its names, from the first call that named it: decisions, restarts and looks, the
  latest first. A pod that is not retained is forgotten, and its trail ends; whatever happens under
  its name later begins a new one. Each restart is to follow a decision that allows it, and a decision
  allows one restart (`Proper`). Then the tracker remembers exactly what the trail says (`remembered`),
  for as many pods side by side as there are, with clocks that may go back.
  - `answers_verdict`: one decision, from the restarts so far.
  - `Tracks.call`: one call.
  - `restarts_follow_the_policy`: every sequence of calls.
-/

import TaskFleet.Autoscale.Restart

namespace TaskFleet.RestartTracker

/-! ## Calls and trails -/

inductive TrackerCall
  | decide (pod : String) (now : UInt64)
  | record (old : String) (new : Option String) (now : UInt64)
  | retain (live : List String)
  | get (pod : String)
  | clear

/-- A call with what it answered. -/
inductive TrackerEvent
  | decided (pod : String) (now : UInt64) (decision : RestartDecision)
  | recorded (old : String) (new : Option String) (now : UInt64) (info : RestartInfo)
  | retained (live : List String)
  | looked (pod : String) (found : Option RestartInfo)
  | cleared

def call (policy : RestartPolicy) (t : RestartTracker) : TrackerCall → TrackerEvent × RestartTracker
  | .decide pod now => (.decided pod now (t.decide policy pod now).1, (t.decide policy pod now).2)
  | .record old new now => (.recorded old new now (t.recordRestart old new now).1, (t.recordRestart old new now).2)
  | .retain live => (.retained live, t.retain live)
  | .get pod => (.looked pod (t.get? pod), t)
  | .clear => (.cleared, clear)

/-- Calls one after the other, with what they answered. -/
def run (policy : RestartPolicy) (t : RestartTracker) : List TrackerCall → List TrackerEvent × RestartTracker
  | [] => ([], t)
  | c :: cs => ((t.call policy c).1 :: (run policy (t.call policy c).2 cs).1, (run policy (t.call policy c).2 cs).2)

/-- What happens to a pod. -/
inductive TrailStep
  | decided (now : UInt64) (decision : RestartDecision)
  | restarted (now : UInt64) (info : RestartInfo)
  | looked (found : Option RestartInfo)

/-- What an event adds to the trails under the names of the pods: a restart takes the trail over to the name of the
    replacement, if there is one. -/
def follow (trails : String → List TrailStep) : TrackerEvent → String → List TrailStep
  | .decided pod now decision, name => if name = pod then .decided now decision :: trails pod else trails name
  | .recorded old new now info, name =>
    if name = new.getD old then .restarted now info :: trails old else if name = old then [] else trails name
  | .retained live, name => if live.contains name then trails name else []
  | .looked pod found, name => if name = pod then .looked found :: trails pod else trails name
  | .cleared, _ => []

/-- What has happened to the pod that has a name now, the latest first. -/
def trail (events : List TrackerEvent) : String → List TrailStep := events.foldl follow fun _ => []

/-! ## What a trail says -/

/-- The times of the restarts, the latest first. -/
def restarts : List TrailStep → List UInt64
  | [] => []
  | .restarted now _ :: past => now :: restarts past
  | .decided _ _ :: past => restarts past
  | .looked _ :: past => restarts past

/-- The attempts of the restarts, the latest first. -/
def attempts : List TrailStep → List Nat
  | [] => []
  | .restarted _ info :: past => info.count.toNat :: attempts past
  | .decided _ _ :: past => attempts past
  | .looked _ :: past => attempts past

/-- The time of the first decision. -/
def firstDecision? : List TrailStep → Option UInt64
  | [] => none
  | .decided now _ :: past => some ((firstDecision? past).getD now)
  | .restarted _ _ :: past => firstDecision? past
  | .looked _ :: past => firstDecision? past

/-- The history of a pod with this past, from its first decision on. -/
def historyFrom (first : UInt64) (past : List TrailStep) : RestartInfo :=
  { count := .ofNat (restarts past).length, lastAt := (restarts past).head?, firstUnhealthyAt := first }

/-- What is to be remembered of a pod. -/
def remembered (past : List TrailStep) : Option RestartInfo := (firstDecision? past).map (historyFrom · past)

/-- A decision to restart. -/
def allows : RestartDecision → Bool
  | .restart _ => true
  | _ => false

/-- A decision at this time has allowed a restart, and nothing was restarted since. -/
def Granted (now : UInt64) : List TrailStep → Prop
  | [] => False
  | .decided t decision :: past => t = now ∧ allows decision ∨ Granted now past
  | .restarted _ _ :: _ => False
  | .looked _ :: past => Granted now past

/-- Every restart follows a decision that allows it. -/
def Proper : List TrailStep → Prop
  | [] => True
  | .decided _ _ :: past => Proper past
  | .restarted now _ :: past => Granted now past ∧ Proper past
  | .looked _ :: past => Proper past

instance decidableGranted (now : UInt64) : (past : List TrailStep) → Decidable (Granted now past)
  | [] => .isFalse id
  | .decided t decision :: past =>
    have := decidableGranted now past
    inferInstanceAs (Decidable (t = now ∧ allows decision ∨ Granted now past))
  | .restarted _ _ :: _ => .isFalse id
  | .looked _ :: past => decidableGranted now past

instance decidableProper : (past : List TrailStep) → Decidable (Proper past)
  | [] => .isTrue trivial
  | .decided _ _ :: past => decidableProper past
  | .restarted now _ :: past =>
    have := decidableProper past
    inferInstanceAs (Decidable (Granted now past ∧ Proper past))
  | .looked _ :: past => decidableProper past

/-- The whole seconds that the policy puts between the latest restart and the next. -/
def wait (policy : RestartPolicy) (past : List TrailStep) : Nat :=
  (policy.backoff (.ofNat (restarts past).length)).secs.toNat

/-- The wait is over, if there is any. -/
def Waited (policy : RestartPolicy) (past : List TrailStep) (now : UInt64) : Prop :=
  ∀ last ∈ (restarts past).head?, wait policy past = 0 ∨ last.toNat + wait policy past ≤ now.toNat

/-- What is to be decided after what has happened so far. A wait that is not over is given as what is missing of it;
    with a clock that is behind the latest restart that is all of it. -/
def Answers (policy : RestartPolicy) (past : List TrailStep) (now : UInt64) : RestartDecision → Prop
  | .restart attempt =>
    attempt.toNat = (restarts past).length + 1 ∧ attempt ≤ policy.maxRestarts ∧ Waited policy past now
  | .backoff remaining =>
    (restarts past).length < policy.maxRestarts.toNat ∧ ∃ last ∈ (restarts past).head?, ∃ missing : UInt64,
      remaining = .ofSecs missing ∧ 0 < missing ∧
        max last.toNat now.toNat + missing.toNat = last.toNat + wait policy past
  | .giveUp count first =>
    count = policy.maxRestarts ∧ count.toNat = (restarts past).length ∧ first = (firstDecision? past).getD now

/-- What a step is to be after what has happened so far. -/
def Right (policy : RestartPolicy) (past : List TrailStep) : TrailStep → Prop
  | .decided now decision => Answers policy past now decision
  | .restarted now info =>
    info.count.toNat = (restarts past).length + 1 ∧ info.count ≤ policy.maxRestarts ∧ Waited policy past now ∧
      info.lastAt = some now ∧ firstDecision? past = some info.firstUnhealthyAt
  | .looked found => found = remembered past

def Lawful (policy : RestartPolicy) (trail : List TrailStep) : Prop :=
  ∀ later step past, trail = later ++ step :: past → Right policy past step

variable {policy : RestartPolicy} {t : RestartTracker} {past : List TrailStep} {step : TrailStep} {now : UInt64}
  {trails : String → List TrailStep} {pod name : String}

theorem lawful_nil : Lawful policy [] := fun later _ _ h => by cases later <;> cases h

theorem lawful_cons : Lawful policy (step :: past) ↔ Right policy past step ∧ Lawful policy past := by
  constructor
  · intro h
    exact ⟨h [] step past rfl, fun later step' past' heq => h (step :: later) step' past' (by rw [heq]; rfl)⟩
  · rintro ⟨hstep, hpast⟩ later step' past' heq
    cases later with
    | nil =>
      obtain ⟨rfl, rfl⟩ := List.cons.inj heq
      exact hstep
    | cons first later => exact hpast later step' past' (List.cons.inj heq).2

theorem Granted.decided (h : Granted now past) : ∃ first, firstDecision? past = some first := by
  induction past with
  | nil => exact h.elim
  | cons step past ih =>
    cases step with
    | decided now' decision => exact ⟨_, rfl⟩
    | restarted now' info => exact h.elim
    | looked found => exact ih h

/-- Nothing is restarted before the first decision. -/
theorem Proper.restarts_eq_nil (h : Proper past) (hnone : firstDecision? past = none) : restarts past = [] := by
  induction past with
  | nil => rfl
  | cons step past ih =>
    cases step with
    | decided now decision => cases hnone
    | restarted now info =>
      obtain ⟨first, hfirst⟩ := h.1.decided
      exact absurd (hfirst.symm.trans hnone) (by simp)
    | looked found => exact ih h hnone

/-- What was granted is allowed: nothing that counts has happened since. -/
theorem Granted.allowed (h : Granted now past) (hlaw : Lawful policy past) :
    (restarts past).length < policy.maxRestarts.toNat ∧ Waited policy past now := by
  induction past with
  | nil => exact h.elim
  | cons step past ih =>
    obtain ⟨hstep, hpast⟩ := lawful_cons.1 hlaw
    cases step with
    | decided now' decision =>
      rcases h with ⟨rfl, hallows⟩ | h
      · cases decision with
        | restart attempt =>
          obtain ⟨hattempt, hmax, hwaited⟩ := hstep
          have hmax' := UInt32.le_iff_toNat_le.1 hmax
          exact ⟨by show (restarts past).length < _; omega, hwaited⟩
        | backoff remaining => cases hallows
        | giveUp count first => cases hallows
      · exact ih h hpast
    | restarted now' info => exact h.elim
    | looked found => exact ih h hpast

theorem Lawful.bounded (h : Lawful policy past) : (restarts past).length ≤ policy.maxRestarts.toNat := by
  induction past with
  | nil => exact Nat.zero_le _
  | cons step past ih =>
    obtain ⟨hstep, hpast⟩ := lawful_cons.1 h
    cases step with
    | decided now decision => exact ih hpast
    | restarted now info =>
      have hmax := UInt32.le_iff_toNat_le.1 hstep.2.1
      have hcount := hstep.1
      show (restarts past).length + 1 ≤ _
      omega
    | looked found => exact ih hpast

theorem Lawful.attempts_eq (h : Lawful policy past) :
    (attempts past).reverse = List.range' 1 (restarts past).length := by
  induction past with
  | nil => rfl
  | cons step past ih =>
    obtain ⟨hstep, hpast⟩ := lawful_cons.1 h
    cases step with
    | decided now decision => exact ih hpast
    | restarted now info =>
      show (info.count.toNat :: attempts past).reverse = List.range' 1 ((restarts past).length + 1)
      rw [List.reverse_cons, ih hpast, List.range'_concat, hstep.1]
      simp [Nat.add_comm]
    | looked found => exact ih hpast

/-! ## One decision -/

/-- What a tracker goes by when it decides, if it remembers what it is to remember. -/
theorem history_eq (hproper : Proper past) (hget : t.get? pod = remembered past) (now : UInt64) :
    t.history pod now = historyFrom ((firstDecision? past).getD now) past := by
  unfold history
  rw [hget, remembered]
  cases hfirst : firstDecision? past with
  | none =>
    rw [historyFrom, hproper.restarts_eq_nil hfirst]
    rfl
  | some first => rfl

theorem toNat_count (hlaw : Lawful policy past) (first : UInt64) :
    (historyFrom first past).count.toNat = (restarts past).length := by
  have hbound := hlaw.bounded
  have hword := policy.maxRestarts.toNat_lt
  rw [historyFrom, UInt32.toNat_ofNat', Nat.mod_eq_of_lt (by omega)]

/-- The next attempt is one more than the restarts so far. -/
theorem next_attempt (hlaw : Lawful policy past) (hless : (restarts past).length < policy.maxRestarts.toNat)
    (first : UInt64) :
    ((historyFrom first past).count + 1).toNat = (restarts past).length + 1 ∧
      (historyFrom first past).count + 1 ≤ policy.maxRestarts := by
  have hword := policy.maxRestarts.toNat_lt
  have hnext : ((historyFrom first past).count + 1).toNat = (restarts past).length + 1 := by
    rw [UInt32.toNat_add, toNat_count hlaw, UInt32.toNat_one, Nat.mod_eq_of_lt (by omega)]
  refine ⟨hnext, ?_⟩
  rw [UInt32.le_iff_toNat_le]
  omega

theorem answers_verdict (hlaw : Lawful policy past) (now : UInt64) :
    Answers policy past now (verdict policy (historyFrom ((firstDecision? past).getD now) past) now) := by
  obtain ⟨h, hh⟩ : ∃ h, h = historyFrom ((firstDecision? past).getD now) past := ⟨_, rfl⟩
  have hcount : h.count.toNat = (restarts past).length := hh ▸ toNat_count hlaw _
  have hlast : h.lastAt = (restarts past).head? := by rw [hh]; rfl
  have hwait : (policy.backoff h.count).secs.toNat = wait policy past := by rw [hh]; rfl
  have hfirst : h.firstUnhealthyAt = (firstDecision? past).getD now := by rw [hh]; rfl
  have hbound := hlaw.bounded
  rw [← hh]
  unfold verdict
  split
  · next hmax =>
    have hall := UInt32.le_iff_toNat_le.1 hmax
    exact ⟨UInt32.toNat_inj.1 (by omega), hcount, hfirst⟩
  · next hmax =>
    have hlt := UInt32.lt_iff_toNat_lt.1 (UInt32.not_le.1 hmax)
    obtain ⟨hnext, hmost⟩ := hh ▸ next_attempt hlaw (by omega) ((firstDecision? past).getD now)
    simp only [hwait, hlast]
    split
    · next last hlast =>
      split
      · next hshort =>
        -- the missing time is less than the wait, which is a word
        have hmissing : (UInt64.ofNat (wait policy past - (now.toNat - last.toNat))).toNat =
            wait policy past - (now.toNat - last.toNat) := by
          have hfits : wait policy past < UInt64.size := UInt64.toNat_lt _
          rw [UInt64.toNat_ofNat', Nat.mod_eq_of_lt]
          exact Nat.lt_of_le_of_lt (Nat.sub_le _ _) hfits
        refine ⟨by omega, last, hlast, _, rfl, ?_, ?_⟩
        · rw [UInt64.lt_iff_toNat_lt, hmissing]
          show 0 < _
          omega
        · rw [hmissing]
          omega
      · next hlong =>
        refine ⟨hnext, hmost, fun last' hlast' => ?_⟩
        obtain rfl := Option.some.inj (hlast.symm.trans hlast')
        omega
    · next hnone =>
      refine ⟨hnext, hmost, fun last hlast' => ?_⟩
      rw [hnone] at hlast'
      cases hlast'

/-! ## One call -/

/-- What is found of a pod is what its trail says, and the trail is lawful, if no restart came without a decision. -/
def Knows (policy : RestartPolicy) (found : Option RestartInfo) (past : List TrailStep) : Prop :=
  Proper past → found = remembered past ∧ Lawful policy past

theorem knows_nil : Knows policy none [] := fun _ => ⟨rfl, lawful_nil⟩

theorem Knows.decided (h : Knows policy (t.get? pod) past) (now : UInt64) :
    Knows policy (some (t.history pod now)) (.decided now (verdict policy (t.history pod now) now) :: past) := by
  intro (hproper : Proper past)
  obtain ⟨hget, hlaw⟩ := h hproper
  rw [history_eq hproper hget]
  exact ⟨rfl, lawful_cons.2 ⟨answers_verdict hlaw now, hlaw⟩⟩

theorem Knows.restarted (h : Knows policy (t.get? pod) past) (new : Option String) (now : UInt64) :
    Knows policy (some (t.recordRestart pod new now).1) (.restarted now (t.recordRestart pod new now).1 :: past) := by
  rintro ⟨hgranted, hproper⟩
  obtain ⟨hget, hlaw⟩ := h hproper
  obtain ⟨hless, hwaited⟩ := hgranted.allowed hlaw
  obtain ⟨first, hfirst⟩ := hgranted.decided
  obtain ⟨hcount, hmost⟩ := next_attempt hlaw hless first
  have hinfo : (t.recordRestart pod new now).1 =
      { historyFrom first past with count := (historyFrom first past).count + 1, lastAt := some now } := by
    show { t.history pod now with count := (t.history pod now).count + 1, lastAt := some now } = _
    rw [history_eq hproper hget, hfirst]
    rfl
  have hnext : (historyFrom first past).count + 1 = .ofNat ((restarts past).length + 1) :=
    (UInt32.ofNat_add _ _).symm
  rw [hinfo]
  refine ⟨?_, lawful_cons.2 ⟨⟨hcount, hmost, hwaited, rfl, hfirst⟩, hlaw⟩⟩
  rw [hnext]
  show _ = (firstDecision? past).map _
  rw [hfirst]
  rfl

theorem Knows.looked {found : Option RestartInfo} (h : Knows policy found past) :
    Knows policy found (.looked found :: past) := fun hproper =>
  ⟨(h hproper).1, lawful_cons.2 ⟨(h hproper).1, (h hproper).2⟩⟩

/-- A tracker knows every trail. -/
def Tracks (policy : RestartPolicy) (trails : String → List TrailStep) (t : RestartTracker) : Prop :=
  ∀ name, Knows policy (t.get? name) (trails name)

theorem Tracks.call (h : Tracks policy trails t) (c : TrackerCall) :
    Tracks policy (follow trails (t.call policy c).1) (t.call policy c).2 := by
  intro name
  cases c with
  | decide pod now =>
    show Knows policy ((t.pods.insert pod (t.history pod now)).get? name) (if name = pod then _ else _)
    by_cases hname : name = pod
    · rw [if_pos hname, hname, Table.get?_insert_self]
      exact (h pod).decided now
    · rw [if_neg hname, Table.get?_insert_of_ne _ _ (Ne.symm hname)]
      exact h name
  | record old new now =>
    show Knows policy (((t.pods.erase old).insert (new.getD old) (t.recordRestart old new now).1).get? name)
      (if name = new.getD old then _ else if name = old then _ else _)
    by_cases hnew : name = new.getD old
    · rw [if_pos hnew, hnew, Table.get?_insert_self]
      exact (h old).restarted new now
    · rw [if_neg hnew, Table.get?_insert_of_ne _ _ (Ne.symm hnew), Table.get?_erase]
      by_cases hold : name = old
      · rw [if_pos hold, if_pos hold.symm]
        exact knows_nil
      · rw [if_neg hold, if_neg (Ne.symm hold)]
        exact h name
  | retain live =>
    show Knows policy ((t.pods.filter fun pod _ => live.contains pod).get? name) (if live.contains name then _ else _)
    rw [Table.get?_filter]
    cases hlive : live.contains name with
    | true =>
      have hkept : (t.pods.get? name).filter (fun _ => true) = t.pods.get? name := by cases t.pods.get? name <;> rfl
      simpa [hkept, get?] using h name
    | false =>
      have hgone : (t.pods.get? name).filter (fun _ => false) = none := by cases t.pods.get? name <;> rfl
      simpa [hgone] using knows_nil
  | get pod =>
    show Knows policy (t.get? name) (if name = pod then _ else _)
    by_cases hname : name = pod
    · rw [if_pos hname, hname]
      exact (h pod).looked
    · rw [if_neg hname]
      exact h name
  | clear => exact knows_nil

/-! ## Every sequence of calls -/

theorem Tracks.run (h : Tracks policy trails t) (calls : List TrackerCall) :
    Tracks policy ((t.run policy calls).1.foldl follow trails) (t.run policy calls).2 := by
  induction calls generalizing trails t with
  | nil => exact h
  | cons c cs ih => exact ih (h.call c)

/-- What holds along a trail: the restarts are the attempts one, two, three and so on, as many as the policy allows
    and no more, each of them and every decision is right after what came before, and once no restart is left every
    decision is to give up. -/
structure Keeps (policy : RestartPolicy) (trail : List TrailStep) : Prop where
  attempts : (attempts trail).reverse = List.range' 1 (restarts trail).length
  bounded : (restarts trail).length ≤ policy.maxRestarts.toNat
  right : ∀ later step past, trail = later ++ step :: past → Right policy past step
  givesUp : ∀ later now decision past, trail = later ++ .decided now decision :: past →
    (restarts past).length = policy.maxRestarts.toNat →
      decision = .giveUp policy.maxRestarts ((firstDecision? past).getD now)

/-- With no restart left, all that can be decided is to give up. -/
theorem Answers.giveUp {decision : RestartDecision} (h : Answers policy past now decision)
    (hall : (restarts past).length = policy.maxRestarts.toNat) :
    decision = .giveUp policy.maxRestarts ((firstDecision? past).getD now) := by
  cases decision with
  | restart attempt =>
    have hmost := UInt32.le_iff_toNat_le.1 h.2.1
    have hattempt := h.1
    omega
  | backoff remaining =>
    have hless := h.1
    omega
  | giveUp count first =>
    obtain ⟨rfl, -, rfl⟩ := h
    rfl

/-- Whatever is called in whatever order and at whatever times, along every pod's names restarts that follow
    decisions keep to the policy, and the tracker remembers what the trail says. Nothing is asked of the other pods,
    nor of the name of a replacement: a trail under a name that is taken over just ends. -/
theorem restarts_follow_the_policy (policy : RestartPolicy) (calls : List TrackerCall) (pod : String)
    (hproper : Proper (trail (run policy {} calls).1 pod)) :
    Keeps policy (trail (run policy {} calls).1 pod) ∧
      (run policy {} calls).2.get? pod = remembered (trail (run policy {} calls).1 pod) := by
  have hstart : Tracks policy (fun _ => []) {} := fun _ => knows_nil
  obtain ⟨hget, hlaw⟩ := hstart.run calls pod hproper
  refine ⟨⟨hlaw.attempts_eq, hlaw.bounded, hlaw, ?_⟩, hget⟩
  intro later now decision past heq hall
  have hright : Right policy past (.decided now decision) := hlaw later _ past heq
  exact hright.giveUp hall

/-- Two pods side by side, of which one is forgotten. The other one is restarted under a new name, has to wait (for
    all of a minute while the clock is behind), and is given up after its second restart, which nothing replaced. -/
def twoPods : List TrackerCall :=
  [.decide "a" 1000, .decide "x" 1000, .record "a" (some "b") 1000, .retain ["b"], .decide "b" 500, .decide "b" 1030,
    .decide "b" 1060, .record "b" none 1060, .get "b", .decide "b" 9000]

def twoRestarts : RestartPolicy := { maxRestarts := 2 }

theorem restarts_follow_the_policy_two_pods :
    Proper (trail (run twoRestarts {} twoPods).1 "b") ∧ Keeps twoRestarts (trail (run twoRestarts {} twoPods).1 "b") ∧
      restarts (trail (run twoRestarts {} twoPods).1 "b") = [1060, 1000] ∧
      (run twoRestarts {} twoPods).2.get? "b" = some ⟨2, some 1060, 1000⟩ := by
  have hproper : Proper (trail (run twoRestarts {} twoPods).1 "b") := by decide +kernel
  obtain ⟨hkeeps, hget⟩ := restarts_follow_the_policy twoRestarts twoPods "b" hproper
  exact ⟨hproper, hkeeps, by decide +kernel, hget.trans (by decide +kernel)⟩

end TaskFleet.RestartTracker
