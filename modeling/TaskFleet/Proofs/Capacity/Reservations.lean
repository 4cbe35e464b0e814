/-
  TaskFleet.Proofs.Capacity.Reservations — slots that are kept for an apply.

  A slot stays reserved for a task whose apply is due while pods are created, deleted and
  reconciled, as long as the cluster lists its pod as not finished, no new pod is given the
  pod's name and the reservation has not run out.
  - `Reservation.Stands`: the slot, its pod and the agent on it.
  - `Reservation.Guarded`: with them, what must hold of the store and of the surroundings.
  - `Honors`: programs that keep a guarded reservation, with what is known of their value.
  - `honors_createPod`, `honors_deletePod`, `honors_reconcile`: the maintenance of pods, of the
    pool of the reservation and of all others.
-/

import TaskFleet.Proofs.Capacity.Maintenance
import TaskFleet.Proofs.Capacity.Upkeep
import TaskFleet.Proofs.Store.Transactions

namespace TaskFleet

namespace Capacity

open Program

/-! ## Names of pods -/

/-- What stands before the last dash, and what after it. -/
theorem eq_of_last_dash {l l' d d' : List Char} (hd : '-' ∉ d) (hd' : '-' ∉ d') (h : l ++ '-' :: d = l' ++ '-' :: d') :
    l = l' ∧ d = d' := by
  rcases List.append_eq_append_iff.1 h with ⟨m, hl, hm⟩ | ⟨m, hl, hm⟩
  · cases m with
    | nil => exact ⟨by simpa using hl.symm, (List.cons.inj hm).2⟩
    | cons a m => exact absurd (by rw [(List.cons.inj hm).2]; simp) hd
  · cases m with
    | nil => exact ⟨by simpa using hl, (List.cons.inj hm).2.symm⟩
    | cons a m => exact absurd (by rw [(List.cons.inj hm).2]; simp) hd'

theorem toList_toString (n : UInt64) : (toString n).toList = Nat.toDigits 10 n.toNat := by
  show (toString n.toNat).toList = _
  rw [Nat.toString_eq_ofList_toDigits, String.toList_ofList]

theorem toDigits_inj {n n' : UInt64} (h : Nat.toDigits 10 n.toNat = Nat.toDigits 10 n'.toNat) : n = n' := by
  have hnats : n.toNat = n'.toNat := by
    rw [← Nat.ofDigitChars_ten_toDigits (n := n.toNat), h, Nat.ofDigitChars_ten_toDigits]
  exact UInt64.toNat_inj.1 hnats

/-- The time and the count can be read off the name: they follow the last two dashes. -/
theorem podName_inj {pool pool' : String} {now now' seq seq' : UInt64} (h : podName pool now seq = podName pool' now' seq') :
    now = now' ∧ seq = seq' := by
  have hdigits : ∀ n : UInt64, '-' ∉ (Nat.toDigits 10 n.toNat) := fun n hmem =>
    absurd (Nat.isDigit_of_mem_toDigits (by omega) (by omega) hmem) (by decide)
  have hlist : ∀ (pool : String) (now seq : UInt64), (podName pool now seq).toList =
      (("runplane-agent-" ++ pool).toList ++ '-' :: Nat.toDigits 10 now.toNat) ++ '-' :: Nat.toDigits 10 seq.toNat := by
    intro pool now seq
    have hdash : (toString "-").toList = ['-'] := rfl
    unfold podName
    simp [toList_toString, hdash]
    rfl
  have hlists := congrArg String.toList h
  rw [hlist, hlist] at hlists
  obtain ⟨hfront, hseq⟩ := eq_of_last_dash (hdigits _) (hdigits _) hlists
  exact ⟨toDigits_inj (eq_of_last_dash (hdigits _) (hdigits _) hfront).2, toDigits_inj hseq⟩

/-- None of the next so many names that are given out from that time on is this one. -/
def NotNext (name : String) (since : UInt64) (n : Nat) (c : Capacity) : Prop :=
  ∀ pool now k, since ≤ now → k < n → podName pool now (c.nameSeq + UInt64.ofNat k) ≠ name

/-- A name that was given out is not given out again: not at a later time, and not at the same
    time before the count overflows. -/
theorem notNext_podName {c : Capacity} {pool : String} {since now seq : UInt64} {n : Nat}
    (h : now < since ∨ seq < c.nameSeq ∧ c.nameSeq.toNat + n ≤ UInt64.size) : NotNext (podName pool now seq) since n c := by
  intro pool' now' k hnow hk hname
  obtain ⟨htime, hcount⟩ := podName_inj hname
  rcases h with hlater | ⟨hseq, hn⟩
  · exact UInt64.not_lt.2 hnow (htime ▸ hlater)
  · have hsize : UInt64.size = 2 ^ 64 := rfl
    rw [← hcount, UInt64.lt_iff_toNat_lt, UInt64.toNat_add, UInt64.toNat_ofNat', Nat.mod_eq_of_lt (by omega : k < 2 ^ 64),
      Nat.mod_eq_of_lt (by omega)] at hseq
    omega

variable {c c' : Capacity} {name : String} {since : UInt64} {n m k : Nat}

theorem NotNext.mono (h : NotNext name since n c) (hmn : m ≤ n) : NotNext name since m c :=
  fun pool now k hnow hk => h pool now k hnow (Nat.lt_of_lt_of_le hk hmn)

theorem NotNext.after (h : NotNext name since (n + m) c) (hk : k ≤ n) (hseq : c'.nameSeq = c.nameSeq + UInt64.ofNat k) :
    NotNext name since m c' := by
  intro pool now j hnow hj
  rw [hseq, UInt64.add_assoc, ← UInt64.ofNat_add]
  exact h pool now (k + j) hnow (by omega)

end Capacity

/-! ## Reservations -/

/-- A slot that is kept for a task: where it is, the pool and the agent of its pod, and since
    when it is kept. -/
structure Reservation where
  task : UInt64
  spot : Spot
  pool : String
  agent : String
  since : UInt64

namespace Reservation

open Capacity Program

variable {v : Reservation} {cfg : CapacitySettings} {c c' : Capacity} {s s' : Slot} {store : Store} {w w' : World}
  {pool : AgentPool} {now : UInt64} {n : Nat} {α β ε : Type}

/-- The slot is reserved for the task, and was not reserved before. -/
structure Keeps (v : Reservation) (s : Slot) : Prop where
  status : s.status = .reserved
  task : s.task = some v.task
  since : v.since ≤ s.updatedAt

/-- The slot is reserved for the task, which is on no other, and its pod is there with its agent. -/
structure Stands (v : Reservation) (c : Capacity) : Prop where
  order : c.Order
  only : ∀ y, c.taskAt y = some v.task → y = v.spot
  slot : ∃ s, c.slotAt v.spot = some s ∧ v.Keeps s
  pod : c.affiliation v.spot.pod = some (some v.agent, v.pool)

/-- The task waits for its apply. -/
def Due (v : Reservation) (store : Store) : Prop := ∃ t, store.task? v.task = .ok (some t) ∧ t.status = .applyPending

/-- The cluster lists the pod as one of its pool that is not finished, and the reservation has
    not run out. -/
structure Watched (v : Reservation) (cfg : CapacitySettings) (w : World) : Prop where
  cluster : ∀ name o, w.cluster.pods.get? name = some o → o.name = name
  listed : ∃ o, w.cluster.pods.get? v.spot.pod = some o ∧ o.pool = v.pool ∧ o.phase.isFinished = false
  begun : v.since ≤ w.now
  inTime : w.now.toNat ≤ v.since.toNat + cfg.reservationTtlSecs.toNat

/-- All that a reservation needs to go on standing. -/
structure Guarded (v : Reservation) (cfg : CapacitySettings) (w : World) : Prop where
  stands : v.Stands w.capacity
  watched : v.Watched cfg w
  keyed : w.store.Keyed
  due : v.Due w.store

/-- The pod is not taken from the cluster, and the reservation does not run out. -/
def Lasts (v : Reservation) (cfg : CapacitySettings) (w w' : World) : Prop := v.Watched cfg w → v.Watched cfg w'

instance : IsPreorder World (v.Lasts cfg) where
  refl _ h := h
  trans _ _ _ h h' hw := h' (h hw)

/-- Others leave the store and the pods alone, and let the reservation last. -/
def Watching (v : Reservation) (cfg : CapacitySettings) (w w' : World) : Prop := Elsewhere w w' ∧ v.Lasts cfg w w'

theorem Watched.elsewhere (h : v.Watched cfg w) (hs : SameSurroundings w w') : v.Watched cfg w' := by
  refine ⟨?_, ?_, ?_, ?_⟩
  · rw [hs.cluster]; exact h.cluster
  · rw [hs.cluster]; exact h.listed
  · unfold World.now; rw [hs.clock]; exact h.begun
  · unfold World.now; rw [hs.clock]; exact h.inTime

instance : IsPreorder World (v.Watching cfg) where
  refl w := ⟨refl w, refl_of (v.Lasts cfg) w⟩
  trans _ _ _ h h' := ⟨trans_of Elsewhere h.1 h'.1, trans_of (v.Lasts cfg) h.2 h'.2⟩

theorem Guarded.after (h : v.Guarded cfg w) (hw : v.Watching cfg w w') : v.Guarded cfg w' where
  stands := hw.1.2 ▸ h.stands
  watched := hw.2 h.watched
  keyed := hw.1.1 ▸ h.keyed
  due := hw.1.1 ▸ h.due

theorem Guarded.pods (h : v.Guarded cfg w) (hc : v.Stands c') : v.Guarded cfg { w with capacity := c' } :=
  ⟨hc, ⟨h.watched.cluster, h.watched.listed, h.watched.begun, h.watched.inTime⟩, h.keyed, h.due⟩

/-! ## Operations on the pods -/

theorem Stands.busy (h : v.Stands c) {q : Pod} (hq : c.pods.get? v.spot.pod = some q) : q.isFullyIdle = false := by
  obtain ⟨s, hs, hkeeps⟩ := h.slot
  unfold slotAt at hs
  rw [hq, Option.bind_some] at hs
  refine Bool.eq_false_iff.2 fun hidle => ?_
  have hslot := List.all_eq_true.1 hidle s (List.mem_of_getElem? hs)
  simp [Slot.isIdle, hkeeps.status] at hslot

/-- Nothing but the slot, its pod and the places of the task matter. -/
theorem Stands.of_vacates (h : v.Stands c) (hv : Vacates c c')
    (hslot : ∀ s, c.slotAt v.spot = some s → v.Keeps s → ∃ s', c'.slotAt v.spot = some s' ∧ v.Keeps s')
    (hpod : c'.affiliation v.spot.pod = c.affiliation v.spot.pod) : v.Stands c' := by
  obtain ⟨horder, htasks⟩ := hv h.order
  refine ⟨horder, fun y hy => ?_, ?_, hpod.trans h.pod⟩
  · rcases htasks y with he | hnone
    · exact h.only y (he ▸ hy)
    · rw [hnone] at hy; cases hy
  · obtain ⟨s, hs, hkeeps⟩ := h.slot
    exact hslot s hs hkeeps

/-- The same for operations that leave the slot as it is. -/
theorem Stands.of_slot (h : v.Stands c) (hv : Vacates c c') (hslot : c'.slotAt v.spot = c.slotAt v.spot)
    (hpod : c'.affiliation v.spot.pod = c.affiliation v.spot.pod) : v.Stands c' :=
  h.of_vacates hv (fun s hs hkeeps => ⟨s, hslot.trans hs, hkeeps⟩) hpod

theorem Stands.modifyPod (h : v.Stands c) (pod : String) {f : Pod → Pod} (hf : ∀ q, (f q).name = q.name ∧ (f q).slots = q.slots)
    (hpod : affiliation { c with pods := c.pods.modify pod f } v.spot.pod = c.affiliation v.spot.pod) :
    v.Stands { c with pods := c.pods.modify pod f } :=
  h.of_slot (SameTasks.vacates fun hc => sameTasks_modifyPod hc pod hf) (slotAt_modifyPod c pod (fun q => (hf q).2) _) hpod

theorem Stands.spendName (h : v.Stands c) : v.Stands { c with nameSeq := c.nameSeq + 1 } :=
  ⟨⟨h.order.named, h.order.idle⟩, h.only, h.slot, h.pod⟩

theorem Stands.insertPod (h : v.Stands c) {q : Pod} (hname : q.name ≠ v.spot.pod) (hblank : q.IsBlank) :
    v.Stands (c.insertPod q) := by
  refine h.of_slot (vacates_insertPod fun s hs => (hblank s hs).2) (slotAt_insertPod_of_ne (Ne.symm hname)) ?_
  unfold affiliation Capacity.insertPod
  rw [Table.get?_insert_of_ne _ _ hname]

/-- The pod is not given up. -/
theorem Stands.ne_of_removeIdle (h : v.Stands c) {pod : String} (hr : c.removeIdle pod = .ok c') : pod ≠ v.spot.pod := by
  obtain ⟨q, hq, hidle, -⟩ := removeIdle_ok_iff.1 hr
  rintro rfl
  rw [h.busy hq] at hidle
  cases hidle

theorem Stands.removeIdle (h : v.Stands c) {pod : String} (hr : c.removeIdle pod = .ok c') : v.Stands c' := by
  have hne := h.ne_of_removeIdle hr
  have hv := (tidies_removeIdle hr).vacates
  obtain ⟨q, -, -, rfl⟩ := removeIdle_ok_iff.1 hr
  refine h.of_slot hv ((slotAt_erase c pod _).trans (if_neg hne)) ?_
  unfold affiliation
  rw [Table.get?_erase, if_neg hne]

theorem Stands.takeOver (h : v.Stands c) (o : ObservedPod) : v.Stands (c.takeOver pool now o) := by
  unfold Capacity.takeOver
  split
  · refine h.modifyPod _ (fun _ => ⟨rfl, rfl⟩) ?_
    exact affiliation_modify c o.name _ (fun p => { p with lastHeartbeat := now }) fun _ => ⟨rfl, rfl⟩
  · next hno =>
    refine h.insertPod ?_ (Pod.isBlank_fresh _ _ _ _ _)
    rintro hname
    have hpod := h.pod
    unfold affiliation at hpod
    rw [← hname] at hpod
    obtain ⟨q, hq, -⟩ := Option.map_eq_some_iff.1 hpod
    exact hno (Option.isSome_iff_exists.2 ⟨q, hq⟩)

/-- The pod stays under management if its pool's list has it as not finished. -/
theorem Stands.takeOverAll (h : v.Stands c) {observed : List ObservedPod}
    (hlisted : pool.id = v.pool → ∃ o ∈ observed, o.name = v.spot.pod ∧ o.phase.isFinished = false) :
    v.Stands (c.takeOverAll pool now observed) := by
  have hfold : ∀ (l : List ObservedPod) (d : Capacity), v.Stands d → v.Stands (l.foldl (Capacity.takeOver · pool now) d) := by
    intro l
    induction l with
    | nil => intro d hd; exact hd
    | cons o l ih => intro d hd; exact ih _ (hd.takeOver o)
  have hall := hfold (observed.filter fun o => !o.phase.isFinished) c h
  obtain ⟨q, hq, haff⟩ := Option.map_eq_some_iff.1 hall.pod
  have hpool : q.pool = v.pool := congrArg Prod.snd haff
  have hkept : (c.takeOverAll pool now observed).pods.get? v.spot.pod = some q := by
    unfold Capacity.takeOverAll
    simp only
    rw [Table.get?_filter, hq]
    refine Option.filter_eq_some_iff.2 ⟨rfl, ?_⟩
    by_cases hown : pool.id = v.pool
    · obtain ⟨o, ho, hname, hphase⟩ := hlisted hown
      refine Bool.or_eq_true_iff.2 (.inr (List.any_eq_true.2 ⟨o, List.mem_filter.2 ⟨ho, by simp [hphase]⟩, by simp [hname]⟩))
    · simp [hpool, Ne.symm hown]
  obtain ⟨s, hs, hkeeps⟩ := hall.slot
  refine h.of_vacates (tidies_takeOverAll c pool now observed).vacates (fun _ _ _ => ⟨s, ?_, hkeeps⟩) ?_
  · unfold slotAt at hs ⊢
    rw [hkept]
    rwa [hq] at hs
  · rw [h.pod]
    unfold affiliation
    rw [hkept]
    exact congrArg some haff

/-- A look at the store finds that the task waits. -/
theorem Keeps.followed (h : v.Keeps s) (hdue : v.Due store) (hf : Followed store now s s') : v.Keeps s' := by
  rcases hf with rfl | ⟨task, t, htask, hfound, rfl⟩
  · exact h
  · rw [h.task] at htask
    cases htask
    obtain ⟨u, hu, hst⟩ := hdue
    rw [hu] at hfound
    cases hfound
    rw [Option.map_some, hst]
    simp only [Slot.followTask, h.status, if_true]
    exact h

theorem Keeps.expire (h : v.Keeps s) {ttl : UInt64} (htime : now.toNat ≤ v.since.toNat + ttl.toNat) : v.Keeps (s.expire ttl now) := by
  have hsince : v.since.toNat ≤ s.updatedAt.toNat := UInt64.le_iff_toNat_le.1 h.since
  unfold Slot.expire
  rw [if_neg (by omega)]
  exact h

theorem Stands.followTasks (h : v.Stands c) (hdue : v.Due store) (pod : String) : v.Stands (c.followTasks store pod now).2 := by
  refine h.of_vacates (tidies_followTasks c store pod now).vacates (fun s hs hkeeps => ?_) ?_
  · rcases slotAt_followTasks c store pod now v.spot with he | ⟨s₀, s', hs₀, hs', hf⟩
    · exact ⟨s, he.trans hs, hkeeps⟩
    · rw [hs] at hs₀
      cases hs₀
      exact ⟨s', hs', hkeeps.followed hdue hf⟩
  · unfold Capacity.followTasks
    cases c.pods.get? pod with
    | none => rfl
    | some q =>
      exact affiliation_modify c pod _ (fun p => { p with slots := (Slot.followTasks store now q.slots).2 }) fun _ => ⟨rfl, rfl⟩

theorem Stands.expireReservations (h : v.Stands c) (id : String)
    (htime : now.toNat ≤ v.since.toNat + cfg.reservationTtlSecs.toNat) : v.Stands (c.expireReservations cfg id now) := by
  refine h.of_vacates (tidies_expireReservations c cfg id now).vacates (fun s hs hkeeps => ?_) ?_
  · rcases slotAt_expireReservations c cfg id now v.spot with he | he
    · exact ⟨s, he.trans hs, hkeeps⟩
    · exact ⟨_, he.trans (by rw [hs]; rfl), hkeeps.expire htime⟩
  · unfold affiliation Capacity.expireReservations
    rw [Table.get?_mapValues]
    cases c.pods.get? v.spot.pod with
    | none => rfl
    | some q =>
      simp only [Option.map_some]
      split <;> rfl

/-- Writing a slot does not move pods. -/
theorem Stands.modifySlot (h : v.Stands c) {y : Spot} {f : Slot → Slot} (hv : Vacates c (c.modifySlot y.pod y.slot f))
    (hf : y = v.spot → ∀ s, v.Keeps s → v.Keeps (f s)) : v.Stands (c.modifySlot y.pod y.slot f) := by
  refine h.of_vacates hv (fun s hs hkeeps => ?_) (affiliation_modify c y.pod _ (·.modifySlot y.slot f) fun _ => ⟨rfl, rfl⟩)
  rw [slotAt_modifySlot]
  split
  · next hy => exact ⟨f s, by rw [hs]; rfl, hf hy.symm s hkeeps⟩
  · exact ⟨s, hs, hkeeps⟩

/-- The task that is found on the slot is the one for which it is kept. -/
theorem Stands.task_of_placement (h : v.Stands c) {task : UInt64} {p : Placement} (hp : c.placementOf? task = some p)
    (hspot : p.spot = v.spot) : task = v.task := by
  obtain ⟨s, hs, hkeeps⟩ := h.slot
  have htask := taskAt_of_placementOf? h.order.named hp
  unfold taskAt at htask
  rw [hspot, hs, Option.bind_some, hkeeps.task] at htask
  exact (Option.some.inj htask).symm

theorem Stands.reserve (h : v.Stands c) {task : UInt64} {p : Placement} (hp : c.placementOf? task = some p)
    (hr : c.reserve p.pod p.slot task now = .ok c') (hnow : v.since ≤ now) : v.Stands c' := by
  have hv : Vacates c c' := SameTasks.vacates fun hc => reserve_ok hc (y := p.spot) (taskAt_of_placementOf? hc.named hp) hr
  rw [setSlot_ok (y := p.spot) hr] at hv ⊢
  refine h.modifySlot (y := p.spot) hv fun hspot s hkeeps => ⟨rfl, ?_, hnow⟩
  exact congrArg some (h.task_of_placement hp hspot)

theorem Stands.release (h : v.Stands c) {task : UInt64} (hne : task ≠ v.task) {p : Placement}
    (hp : c.placementOf? task = some p) (hr : c.release p.pod p.slot now = .ok c') : v.Stands c' := by
  have hv := (tidies_release (y := p.spot) hr).vacates
  rw [setSlot_ok (y := p.spot) hr] at hv ⊢
  exact h.modifySlot (y := p.spot) hv fun hspot _ _ => absurd (h.task_of_placement hp hspot) hne

/-! ## Programs -/

/-- The program leaves a guarded reservation guarded and gives out no more names than it takes
    steps; its value, if it ends with one, is as told. -/
def Honors (v : Reservation) (cfg : CapacitySettings) (p : Program World α) (Q : α → Prop) : Prop :=
  ∀ n w r w', v.Guarded cfg w → NotNext v.spot.pod v.since n w.capacity → Ends (v.Watching cfg) n p w r w' →
    v.Guarded cfg w' ∧ (∃ k ≤ n, w'.capacity.nameSeq = w.capacity.nameSeq + UInt64.ofNat k) ∧ ∀ a, r = .ok a → Q a

theorem Honors.mono {p : Program World α} {Q Q' : α → Prop} (h : v.Honors cfg p Q) (hle : ∀ a, Q a → Q' a) :
    v.Honors cfg p Q' := by
  intro n w r w' hg hn he
  obtain ⟨hg', hnames, hQ⟩ := h n w r w' hg hn he
  exact ⟨hg', hnames, fun a ha => hle a (hQ a ha)⟩

theorem Honors.any {p : Program World α} {Q : α → Prop} (h : v.Honors cfg p Q) : v.Honors cfg p fun _ => True :=
  h.mono fun _ _ => trivial

theorem Honors.bind {p : Program World α} {k : α → Program World β} {Q : α → Prop} {Q' : β → Prop} (hp : v.Honors cfg p Q)
    (hk : ∀ a, Q a → v.Honors cfg (k a) Q') : v.Honors cfg (p >>= k) Q' := by
  intro n w r w' hg hn he
  rcases he.bind with ⟨m, rfl, hend⟩ | ⟨n₁, n₂, a, w₁, rfl, hfirst, hrest⟩
  · obtain ⟨hg', hnames, -⟩ := hp n w _ w' hg hn hend
    exact ⟨hg', hnames, fun a ha => by cases ha⟩
  · obtain ⟨hg₁, ⟨k₁, hk₁, hseq₁⟩, hQ⟩ := hp n₁ w _ w₁ hg (hn.mono (Nat.le_add_right _ _)) hfirst
    obtain ⟨hg', ⟨k₂, hk₂, hseq₂⟩, hQ'⟩ := hk a (hQ a rfl) n₂ w₁ r w' hg₁ (hn.after hk₁ hseq₁) hrest
    exact ⟨hg', ⟨k₁ + k₂, by omega, by rw [hseq₂, hseq₁, UInt64.ofNat_add, UInt64.add_assoc]⟩, hQ'⟩

theorem honors_pure {a : α} {Q : α → Prop} (h : Q a) : v.Honors cfg (pure a) Q := by
  intro n w r w' hg _ he
  obtain ⟨-, rfl, hw⟩ := ends_done he
  exact ⟨hg.after hw, ⟨0, Nat.zero_le n, by rw [hw.1.2]; simp⟩, fun b hb => by cases hb; exact h⟩

theorem Honors.bind_run {p : Fallible ε α} {k : α → Fallible ε β} {Q : α → Prop}
    (hp : v.Honors cfg p.run fun r => ∀ a, r = .ok a → Q a) (hk : ∀ a, Q a → v.Honors cfg (k a).run fun _ => True) :
    v.Honors cfg (p >>= k).run fun _ => True := by
  rw [Fallible.run_bind]
  refine hp.bind fun r hr => ?_
  cases r with
  | ok a => exact hk a (hr a rfl)
  | error e => exact honors_pure trivial

/-- One step that leaves the reservation guarded. -/
theorem honors_step {act : World → World} {g : World → α} {Q : α → Prop}
    (hact : ∀ w, v.Guarded cfg w → NotNext v.spot.pod v.since 1 w.capacity →
      v.Guarded cfg (act w) ∧ (∃ k ≤ 1, (act w).capacity.nameSeq = w.capacity.nameSeq + UInt64.ofNat k) ∧ Q (g w)) :
    v.Honors cfg (.step act fun w => .done (g w)) Q := by
  intro n w r w' hg hn he
  obtain ⟨n', w₁, rfl, hw₁, he⟩ := ends_step he
  obtain ⟨-, rfl, hw'⟩ := ends_done he
  have hn₁ : NotNext v.spot.pod v.since 1 w₁.capacity := by rw [hw₁.1.2]; exact hn.mono (by omega)
  obtain ⟨hg₂, ⟨k, hk, hseq⟩, hQ⟩ := hact w₁ (hg.after hw₁) hn₁
  refine ⟨hg₂.after hw', ⟨k, by omega, ?_⟩, fun a ha => by cases ha; exact hQ⟩
  rw [hw'.1.2, hseq, hw₁.1.2]

/-- A step that leaves a guarded reservation guarded, and gives out no name. -/
def Tame (v : Reservation) (cfg : CapacitySettings) (w w' : World) : Prop :=
  (v.Guarded cfg w → v.Guarded cfg w') ∧ w'.capacity.nameSeq = w.capacity.nameSeq

instance : IsPreorder World (v.Tame cfg) where
  refl _ := ⟨fun h => h, rfl⟩
  trans _ _ _ h h' := ⟨fun hg => h'.1 (h.1 hg), h'.2.trans h.2⟩

theorem honors_of_steps {p : Program World α} (hp : p.Steps (v.Tame cfg)) : v.Honors cfg p fun _ => True := by
  intro n w r w' hg _ he
  obtain ⟨hguard, hseq⟩ := hp.ends he fun _ _ hw => ⟨fun hg => hg.after hw, by rw [hw.1.2]⟩
  exact ⟨hguard hg, ⟨0, Nat.zero_le n, by simp [hseq]⟩, fun _ _ => trivial⟩

theorem composes_honors (v : Reservation) (cfg : CapacitySettings) : Composes fun _ p => v.Honors cfg p fun _ => True where
  pure _ := honors_pure trivial
  bind hp hk := hp.bind fun a _ => hk a

/-- Changes beside the store, the pods, the cluster and the clock. -/
theorem tame_aside (hs : w'.store = w.store) (hc : w'.capacity = w.capacity) (h : SameSurroundings w w') : v.Tame cfg w w' :=
  ⟨fun hg => ⟨hc ▸ hg.stands, hg.watched.elsewhere h, hs ▸ hg.keyed, hs ▸ hg.due⟩, by rw [hc]⟩

theorem steps_read_tame (f : World → α) : (Program.get f).Steps (v.Tame cfg) := Program.steps_get refl f

/-- The slot of a task is found and changed. -/
theorem honors_editSlotOf {task : UInt64} {f : Placement → Capacity → UInt64 → Except CapacityError Capacity}
    (hf : ∀ w p c, v.Guarded cfg w → w.capacity.placementOf? task = some p → f p w.capacity w.now = .ok c →
      v.Stands c ∧ c.nameSeq = w.capacity.nameSeq) : v.Honors cfg (editSlotOf task f).run fun _ => True := by
  intro n w r w' hg _ he
  have hstay : ∀ w', v.Watching cfg w w' → v.Guarded cfg w' ∧
      (∃ k ≤ n, w'.capacity.nameSeq = w.capacity.nameSeq + UInt64.ofNat k) ∧ ∀ a, r = .ok a → True :=
    fun w' hw' => ⟨hg.after hw', ⟨0, Nat.zero_le n, by rw [hw'.1.2]; simp⟩, fun _ _ => trivial⟩
  rcases ends_editSlotOf (fun _ _ h => h.1.2) he with ⟨-, -, hw'⟩ | ⟨p, w₁, hp, hw₁, ⟨c, hc, -, hw'⟩ | ⟨e, -, -, hw'⟩⟩
  · exact hstay w' hw'
  · have hsame : w₁.capacity = w.capacity := hw₁.1.2
    rw [← hsame] at hp hc
    obtain ⟨hstands, hseq⟩ := hf w₁ p c (hg.after hw₁) hp hc
    refine ⟨((hg.after hw₁).pods hstands).after hw', ⟨0, Nat.zero_le n, ?_⟩, fun _ _ => trivial⟩
    rw [hw'.1.2, hseq, hsame]
    simp
  · exact hstay w' (trans_of (v.Watching cfg) hw₁ hw')

/-! ## Calls to the cluster -/

/-- A call that leaves the pod in the cluster. -/
theorem honors_call {f : Cluster → CallAnswer α × Cluster} {Q : α → Prop} (name : String)
    (hf : ∀ w, v.Guarded cfg w →
      v.Watched cfg { w with cluster := (f w.cluster).2 } ∧ ∀ a, (f w.cluster).1 = .ok a → Q a) :
    v.Honors cfg (call cfg name f).run fun r => ∀ a, r = .ok a → Q a := by
  unfold call
  rw [Fallible.run_always_bind]
  have hcall : v.Honors cfg (Program.apply fun w => ((f w.cluster).1, { w with cluster := (f w.cluster).2 }))
      fun answer => ∀ a, answer = .ok a → Q a := by
    refine honors_step fun w hg _ => ?_
    obtain ⟨hwatched, hQ⟩ := hf w hg
    exact ⟨⟨hg.stands, hwatched, hg.keyed, hg.due⟩, ⟨0, by omega, by simp⟩, hQ⟩
  refine hcall.bind fun answer hanswer => ?_
  cases answer with
  | ok a => exact honors_pure fun b hb => by cases hb; exact hanswer a rfl
  | refused reason => exact honors_pure fun b hb => by cases hb
  | unanswered =>
    have hsleep : (Program.sleep cfg.backendTimeout).Steps (v.Tame cfg) :=
      .bind (Program.steps_apply fun _ => tame_aside rfl rfl ⟨rfl, rfl⟩) fun _ => Program.steps_waitFor _
    show v.Honors cfg (Fallible.always (Program.sleep cfg.backendTimeout) >>= fun _ =>
      (throw (CapacityError.timeout name) : Fallible CapacityError α)).run fun r => ∀ a, r = .ok a → Q a
    rw [Fallible.run_always_bind]
    exact (honors_of_steps hsleep).bind fun _ _ => honors_pure fun b hb => by cases hb

theorem Watched.create (h : v.Watched cfg w) (id : String) {pod : String} (createdAt : UInt64) (hne : pod ≠ v.spot.pod) :
    v.Watched cfg { w with cluster := (w.cluster.create id pod createdAt).2 } := by
  have hinsert : v.Watched cfg { w with cluster := w.cluster.insert { name := pod, pool := id, phase := .running, createdAt } } := by
    refine ⟨fun name o ho => ?_, ?_, h.begun, h.inTime⟩
    · unfold Cluster.insert at ho
      rw [Table.get?_insert] at ho
      split at ho
      · next hname => cases ho; exact hname
      · exact h.cluster name o ho
    · obtain ⟨o, ho, hpool, hphase⟩ := h.listed
      exact ⟨o, (Table.get?_insert_of_ne _ _ hne).trans ho, hpool, hphase⟩
  unfold Cluster.create Cluster.faulty
  split
  · split
    · exact h
    · exact hinsert
  · exact h
  · exact h

theorem Watched.delete (h : v.Watched cfg w) {pod : String} (hne : pod ≠ v.spot.pod) :
    v.Watched cfg { w with cluster := (w.cluster.delete pod).2 } := by
  have hremove : v.Watched cfg { w with cluster := w.cluster.remove pod } := by
    refine ⟨fun name o ho => ?_, ?_, h.begun, h.inTime⟩
    · unfold Cluster.remove at ho
      rw [Table.get?_erase] at ho
      split at ho
      · cases ho
      · exact h.cluster name o ho
    · obtain ⟨o, ho, hpool, hphase⟩ := h.listed
      exact ⟨o, by rw [← ho]; exact (Table.get?_erase _ _ _).trans (if_neg hne), hpool, hphase⟩
  unfold Cluster.delete Cluster.faulty
  split
  · exact hremove
  · exact h
  · exact h

/-- The list of a pool has the pod as not finished if it is the pod's pool, and never as
    finished. -/
structure Lists (v : Reservation) (pool : String) (observed : List ObservedPod) : Prop where
  own : pool = v.pool → ∃ o ∈ observed, o.name = v.spot.pod ∧ o.phase.isFinished = false
  finished : ∀ o ∈ observed, o.phase.isFinished = true → o.name ≠ v.spot.pod

theorem Watched.lists (h : v.Watched cfg w) {id : String} {observed : List ObservedPod} (hl : w.cluster.list id = .ok observed) :
    v.Lists id observed := by
  unfold Cluster.list Cluster.faulty at hl
  split at hl
  · cases hl
    obtain ⟨o, ho, hpool, hphase⟩ := h.listed
    refine ⟨fun hown => ⟨o, List.mem_filter.2 ⟨Table.mem_values.2 ⟨_, ho⟩, by simp [hpool, hown]⟩, h.cluster _ o ho, hphase⟩,
      fun o' ho' hfinished hname => ?_⟩
    obtain ⟨name, hget⟩ := Table.mem_values.1 (List.mem_filter.1 ho').1
    rw [← h.cluster name o' hget, hname, ho] at hget
    cases hget
    rw [hphase] at hfinished
    cases hfinished
  · cases hl
  · cases hl

/-! ## Creating and deleting pods -/

theorem honors_createPod (pool : AgentPool) : v.Honors cfg (createPod cfg pool).run fun _ => True := by
  unfold createPod
  rw [Fallible.run_always_bind]
  have hname : v.Honors cfg (Program.apply fun w : World =>
      (((w.capacity.nextName pool.id w.now).1, w.now), { w with capacity := (w.capacity.nextName pool.id w.now).2 }))
      fun r => r.1 ≠ v.spot.pod := by
    refine honors_step fun w hg hn => ⟨hg.pods hg.stands.spendName, ⟨1, Nat.le_refl 1, rfl⟩, fun he => ?_⟩
    have hcount : w.capacity.nameSeq + UInt64.ofNat 0 = w.capacity.nameSeq := by simp
    exact hn pool.id w.now 0 hg.watched.begun Nat.one_pos ((congrArg (podName pool.id w.now) hcount).trans he)
  refine hname.bind fun r hne => ?_
  obtain ⟨name, now⟩ := r
  refine (honors_call (Q := fun _ => True) "create_pod" fun w hg => ⟨hg.watched.create pool.id now hne, fun _ _ => trivial⟩).bind_run
    fun _ _ => ?_
  rw [Fallible.run_always_bind]
  have hinsert : v.Honors cfg (Program.modify fun w : World =>
      { w with capacity := w.capacity.insertPod (.fresh name pool.id pool.slotsPerPod now now) }) fun _ => True :=
    honors_step fun w hg _ => ⟨hg.pods (hg.stands.insertPod hne (Pod.isBlank_fresh _ _ _ _ _)), ⟨0, by omega, by simp [insertPod]⟩,
      trivial⟩
  exact hinsert.bind fun _ _ => honors_pure trivial

theorem honors_delete {pod : String} (hne : pod ≠ v.spot.pod) :
    v.Honors cfg (call cfg "delete_pod" (·.delete pod)).run fun _ => True :=
  (honors_call (Q := fun _ => True) "delete_pod" fun _ hg => ⟨hg.watched.delete hne, fun _ _ => trivial⟩).any

theorem honors_deletePod (pod : String) : v.Honors cfg (deletePod cfg pod).run fun _ => True := by
  have hremove : v.Honors cfg (Program.editCapacity fun c _ => c.removeIdle pod) fun r => ∀ u, r = .ok u → pod ≠ v.spot.pod := by
    refine honors_step fun w hg _ => ?_
    cases hr : w.capacity.removeIdle pod with
    | ok c =>
      simp only [hr, Except.map]
      refine ⟨hg.pods (hg.stands.removeIdle hr), ⟨0, by omega, ?_⟩, fun _ _ => hg.stands.ne_of_removeIdle hr⟩
      obtain ⟨q, -, -, rfl⟩ := removeIdle_ok_iff.1 hr
      simp
    | error e =>
      simp only [hr, Except.map]
      exact ⟨hg, ⟨0, by omega, by simp⟩, fun u hu => by cases hu⟩
  exact Honors.bind_run (p := Fallible.ofResult _) hremove fun _ hne => honors_delete hne

/-! ## Reconciliation -/

theorem honors_syncPods (pool : AgentPool) : v.Honors cfg (syncPods cfg pool).run fun _ => True := by
  have hC := composes_honors v cfg
  unfold syncPods
  refine (honors_call (Q := v.Lists pool.id) "list_pods" fun w hg => ⟨hg.watched, fun _ hl => hg.watched.lists hl⟩).bind_run
    fun observed hlists => ?_
  rw [Fallible.run_always_bind]
  have htake : v.Honors cfg (Program.modify fun w : World =>
      { w with capacity := w.capacity.takeOverAll pool w.now observed }) fun _ => True :=
    honors_step fun w hg _ => ⟨hg.pods (hg.stands.takeOverAll hlists.own), ⟨0, by omega, by simp [nameSeq_takeOverAll]⟩, trivial⟩
  refine htake.bind fun _ _ => hC.always ?_
  have hfinished : ∀ pod ∈ (observed.filter (·.phase.isFinished)).map (·.name), pod ≠ v.spot.pod := by
    intro pod hpod
    obtain ⟨o, ho, rfl⟩ := List.mem_map.1 hpod
    obtain ⟨ho, hphase⟩ := List.mem_filter.1 ho
    exact hlists.finished o ho hphase
  generalize (observed.filter (·.phase.isFinished)).map (·.name) = finished at hfinished ⊢
  induction finished with
  | nil => exact honors_pure trivial
  | cons pod rest ih =>
    refine (hC.ignoring (honors_delete (hfinished pod List.mem_cons_self))).bind fun _ _ => ?_
    exact ih fun pod' hpod' => hfinished pod' (List.mem_cons_of_mem _ hpod')

theorem steps_followTasksOn_tame (pods : List String) : (followTasksOn pods).run.Steps (v.Tame cfg) := by
  induction pods with
  | nil => exact Program.steps_pure _
  | cons pod rest ih =>
    refine Fallible.steps_bind (Program.steps_apply fun w => ?_) fun _ => ih
    exact ⟨fun hg => hg.pods (hg.stands.followTasks hg.due pod), nameSeq_followTasks _ _ _⟩

/-- Reconciliation finds the pod in its pool's list and the task waiting for its apply. -/
theorem honors_reconcile (pool : AgentPool) : v.Honors cfg (reconcile cfg pool).run fun _ => True := by
  have hC := composes_honors v cfg
  refine hC.bind_run (honors_syncPods pool) fun _ => honors_of_steps ?_
  refine Fallible.steps_bind (Fallible.steps_always (steps_read_tame _)) fun pods => ?_
  refine Fallible.steps_bind (Fallible.steps_always (Fallible.steps_ignoring (steps_followTasksOn_tame pods))) fun _ => ?_
  refine Fallible.steps_always (Program.steps_modify fun w => ⟨fun hg => ?_, rfl⟩)
  exact hg.pods (hg.stands.expireReservations pool.id hg.watched.inTime)

end Reservation

end TaskFleet
