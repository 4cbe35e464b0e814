/-
  TaskFleet.Proofs.Capacity.ExclusiveSlots — one exclusive task on each pod, beside any number of others.

  Only admission looks at the other slots of a pod. Everything that writes a slot later finds it by
  its place or by its task: marking it, keeping it for an apply, clearing it, and all that
  maintenance does. None of these makes a second holder, because nothing is on an idle slot and a
  task that is kept has been an exclusive one from the start. Keeping a slot is two steps, and the
  slot may be given away between them; here the two are taken at once.
  - `Serving`, `ServingRun`: the calls that the orchestrator makes, and their runs.
  - `SingleHolder`: what each step of these calls keeps; `SingleHolder.step`.
  - `Pod.TakesOn`: shared tasks fill idle slots; `ServingRun.takesOn`, as many as there are.
  - `one_exclusive_task_per_pod`: the pods in every run of the calls.
-/

import TaskFleet.Proofs.Capacity.PoolCalls
import Mathlib.Data.Fintype.EquivFin

namespace TaskFleet

/-! ## Slots of one pod -/

namespace Slot

variable {kept : UInt64 → Prop} {s s' : Slot}

/-- Nothing is on the slot while it is idle, and a task that is kept is on it as an exclusive one. -/
structure Agrees (kept : UInt64 → Prop) (s : Slot) : Prop where
  idle : s.isIdle = true → s.task = none ∧ s.kind = none
  kept : ∀ task, s.task = some task → kept task → s.kind = some .planAndApply

theorem agrees_empty (index : Nat) (now : UInt64) : Agrees kept { index, updatedAt := now } :=
  ⟨fun _ => ⟨rfl, rfl⟩, nofun⟩

theorem agrees_bind (s : Slot) {task : UInt64} {kind : TaskKind} (h : kept task → kind = .planAndApply) (now : UInt64) :
    (s.bind .reserved task kind now).Agrees kept where
  idle := nofun
  kept := by
    intro other hother hkept
    cases hother
    exact congrArg some (h hkept)

theorem Agrees.markRunning (h : s.Agrees kept) (now : UInt64) : (s.markRunning now).Agrees kept := ⟨nofun, h.kept⟩

theorem Agrees.tidied (h : s.Agrees kept) (ht : s.Tidied s') : s'.Agrees kept := by
  cases ht with
  | same => exact h
  | cleared now => exact agrees_empty s.index now
  | kept now => exact ⟨nofun, h.kept⟩

/-- A slot with anything on it is not idle. -/
theorem Agrees.busy (h : s.Agrees kept) (hs : s.task ≠ none ∨ s.kind ≠ none) : s.isIdle = false := by
  cases hidle : s.isIdle with
  | false => rfl
  | true =>
    obtain ⟨htask, hkind⟩ := h.idle hidle
    rcases hs with hs | hs
    · exact absurd htask hs
    · exact absurd hkind hs

theorem holdsExclusive_iff : s.holdsExclusive = true ↔ s.isIdle = false ∧ s.kind = some .planAndApply := by
  unfold holdsExclusive
  simp

/-- A kept task has an exclusive slot. -/
theorem Agrees.holdsExclusive {task : UInt64} (h : s.Agrees kept) (htask : s.task = some task) (hkept : kept task) :
    s.holdsExclusive = true :=
  holdsExclusive_iff.2 ⟨h.busy (.inl (by rw [htask]; nofun)), h.kept task htask hkept⟩

/-- Marking a slot makes no holder: an idle one has no kind. -/
theorem Agrees.holdsExclusive_of_markRunning {now : UInt64} (h : s.Agrees kept)
    (hs : (s.markRunning now).holdsExclusive = true) : s.holdsExclusive = true := by
  have hkind : s.kind = some .planAndApply := (holdsExclusive_iff.1 hs).2
  exact holdsExclusive_iff.2 ⟨h.busy (.inr (by rw [hkind]; nofun)), hkind⟩

/-- Nor does tidying up: what is kept for its task was not idle. -/
theorem Agrees.holdsExclusive_of_tidied (h : s.Agrees kept) (ht : s.Tidied s') (hs : s'.holdsExclusive = true) :
    s.holdsExclusive = true := by
  cases ht with
  | same => exact hs
  | cleared now => cases hs
  | kept now hbound => exact holdsExclusive_iff.2 ⟨h.busy (.inl hbound), (holdsExclusive_iff.1 hs).2⟩

end Slot

/-! ## Tasks on one pod -/

/-- The task has the slot, and is of this kind. -/
def Slot.carries (s : Slot) (t : UInt64 × TaskKind) : Bool := !s.isIdle && s.task == some t.1 && s.kind == some t.2

/-- These tasks were put on idle slots of the pod, one on each, and nothing else changed on its slots. -/
structure Pod.TakesOn (p p' : Pod) (work : List (UInt64 × TaskKind)) : Prop where
  taken : ∀ (i : Nat) (s : Slot), p.slots[i]? = some s → s.isIdle = false → p'.slots[i]? = some s
  placed : ∀ t, p'.slots.countP (·.carries t) = p.slots.countP (·.carries t) + work.count t
  idle : p'.slots.countP (·.isIdle) + work.length = p.slots.countP (·.isIdle)

namespace Pod

variable {p p' p'' : Pod} {work work' : List (UInt64 × TaskKind)} {task now : UInt64} {kind : TaskKind}

theorem takesOn_nil {p p' : Pod} (h : p'.slots = p.slots) : p.TakesOn p' [] where
  taken i s hs _ := h ▸ hs
  placed t := by rw [h]; rfl
  idle := by rw [h]; rfl

theorem TakesOn.trans (h : p.TakesOn p' work) (h' : p'.TakesOn p'' work') : p.TakesOn p'' (work ++ work') where
  taken i s hs hbusy := h'.taken i s (h.taken i s hs hbusy) hbusy
  placed t := by rw [h'.placed, h.placed, List.count_append, Nat.add_assoc]
  idle := by
    rw [List.length_append, ← h.idle, ← h'.idle]
    omega

theorem takesOn_bind {i : Nat} {s : Slot} (hs : p.slots[i]? = some s) (hidle : s.isIdle = true) (t : UInt64 × TaskKind)
    (now : UInt64) : p.TakesOn (p.modifySlot i (·.bind .reserved t.1 t.2 now)) [t] := by
  obtain ⟨hlt, hget⟩ := List.getElem?_eq_some_iff.1 hs
  have hslots : (p.modifySlot i (·.bind .reserved t.1 t.2 now)).slots = p.slots.set i (s.bind .reserved t.1 t.2 now) := by
    unfold modifySlot
    simp only
    rw [List.modify_eq_set, hs]
    rfl
  have hcarries : ∀ u, s.carries u = false := by
    intro u
    unfold Slot.carries
    rw [hidle]
    rfl
  have hbound : ∀ u, (s.bind .reserved t.1 t.2 now).carries u = (t == u) := by
    intro u
    obtain ⟨a, k⟩ := t
    obtain ⟨b, l⟩ := u
    rfl
  constructor
  · intro j s' hs' hbusy
    rw [hslots, List.getElem?_set_ne, hs']
    rintro rfl
    rw [hs] at hs'
    cases hs'
    rw [hidle] at hbusy
    cases hbusy
  · intro u
    rw [hslots, List.countP_set hlt, hget, hcarries, hbound, List.count_singleton]
    rfl
  · have hpos : 0 < p.slots.countP (·.isIdle) := List.countP_pos_iff.2 ⟨s, List.mem_of_getElem? hs, hidle⟩
    have hbusy : (s.bind .reserved t.1 t.2 now).isIdle = false := rfl
    rw [hslots, List.countP_set hlt, hget, hidle, hbusy]
    simp only [if_true, List.length_singleton]
    simp
    omega

/-- A task that is not exclusive may have any idle slot. -/
theorem freeSlot?_of_idle (hkind : kind ≠ .planAndApply) (hidle : 0 < p.slots.countP (·.isIdle)) :
    ∃ i, p.freeSlot? kind = some i := by
  obtain ⟨s, hs, hsidle⟩ := List.countP_pos_iff.1 hidle
  unfold freeSlot?
  rw [if_neg fun h => hkind h.1]
  refine Option.isSome_iff_exists.1 ?_
  rw [List.findIdx?_isSome]
  exact List.any_eq_true.2 ⟨s, hs, hsidle⟩

end Pod

theorem countP_le_one {α : Type} {q : α → Bool} {l : List α}
    (h : ∀ (i j : Nat) (a b : α), l[i]? = some a → l[j]? = some b → q a = true → q b = true → i = j) : l.countP q ≤ 1 := by
  induction l with
  | nil => simp
  | cons a rest ih =>
    have hrest : rest.countP q ≤ 1 := ih fun i j b b' hb hb' hq hq' => by
      have := h (i + 1) (j + 1) b b' hb hb' hq hq'
      omega
    by_cases ha : q a = true
    · have hnone : rest.countP q = 0 := by
        refine List.countP_eq_zero.2 fun b hb hq => ?_
        obtain ⟨j, hj⟩ := List.mem_iff_getElem?.1 hb
        cases h 0 (j + 1) a b rfl hj ha hq
      rw [List.countP_cons_of_pos ha, hnone]
    · rw [List.countP_cons_of_neg ha]
      exact hrest

namespace Capacity

variable {c c' : Capacity} {x y : Spot} {kept : UInt64 → Prop} {call : PoolCall} {task now : UInt64} {kind : TaskKind}

/-! ## The calls of the orchestrator -/

/-- The calls that the orchestrator makes, one apart. It binds slots by allocation only, and some
    tasks are allocated as exclusive ones only. -/
def Serving (kept : UInt64 → Prop) : PoolCall → Prop
  | .assign .. | .reserve .. | .reserveTask .. => False
  | .allocate _ task kind | .allocateOnAgent _ task kind => kept task → kind = .planAndApply
  | _ => True

/-- The slot of such a task is kept for its apply, by a call during which nobody else takes a step. -/
def KeptAtOnce (kept : UInt64 → Prop) (c d : Scene World (List (Step World))) : Prop :=
  (∃ task, kept task ∧ (Fallible.ignoring (reserveTask task)).run c.state = (.finished (), d.state)) ∧
    d.memory = c.memory ++ [⟨none, c.state, d.state⟩]

/-- Runs of the calls of the orchestrator: all of them take their steps in any order, but a slot is
    found and kept for its task at once. -/
abbrev ServingRun (kept : UInt64 → Prop) (first : World) (c : Scene World (List (Step World)))
    (crew : List (Program World Unit)) : Prop :=
  CallRun (fun c d => PodsStay c d ∨ KeptAtOnce kept c d) (Serving kept) first c crew

/-! ## One holder on each pod -/

/-- An exclusive task has the slot. -/
def HeldAt (c : Capacity) (x : Spot) : Prop := ∃ s, c.slotAt x = some s ∧ s.holdsExclusive = true

structure SingleHolder (kept : UInt64 → Prop) (c : Capacity) : Prop where
  slots : ∀ x s, c.slotAt x = some s → s.Agrees kept
  holder : ∀ x y, c.HeldAt x → c.HeldAt y → x.pod = y.pod → x = y

/-- A step that makes no new holder. -/
theorem SingleHolder.of_held (h : SingleHolder kept c) (hslots : ∀ x s, c'.slotAt x = some s → s.Agrees kept)
    (hheld : ∀ x, c'.HeldAt x → c.HeldAt x) : SingleHolder kept c' :=
  ⟨hslots, fun x y hx hy => h.holder x y (hheld x hx) (hheld y hy)⟩

theorem SingleHolder.tidies (h : SingleHolder kept c) (ht : Tidies c c') : SingleHolder kept c' := by
  refine h.of_held (fun x s' hs' => ?_) fun x ⟨s', hs', hexclusive⟩ => ?_
  · rcases ht.slotAt hs' with ⟨since, rfl⟩ | ⟨s, hs, htidied⟩
    · exact Slot.agrees_empty x.slot since
    · exact (h.slots x s hs).tidied htidied
  · rcases ht.slotAt hs' with ⟨since, rfl⟩ | ⟨s, hs, htidied⟩
    · cases hexclusive
    · exact ⟨s, hs, (h.slots x s hs).holdsExclusive_of_tidied htidied hexclusive⟩

/-- Writing one slot, after which it has no exclusive task unless it had one or its pod had none. -/
theorem SingleHolder.modifySlot {f : Slot → Slot} (h : SingleHolder kept c)
    (hagrees : ∀ s, c.slotAt y = some s → (f s).Agrees kept)
    (hheld : ∀ s, c.slotAt y = some s → (f s).holdsExclusive = true →
      s.holdsExclusive = true ∨ ∀ x, x.pod = y.pod → ¬c.HeldAt x) : SingleHolder kept (c.modifySlot y.pod y.slot f) := by
  -- what is held after the write was held before, or is the written slot of a pod without holders
  have hbefore : ∀ x, (c.modifySlot y.pod y.slot f).HeldAt x →
      c.HeldAt x ∨ (x = y ∧ ∀ z, z.pod = y.pod → ¬c.HeldAt z) := by
    rintro x ⟨s', hs', hexclusive⟩
    rw [slotAt_modifySlot] at hs'
    split at hs'
    · next hx =>
      subst hx
      obtain ⟨s, hs, rfl⟩ := Option.map_eq_some_iff.1 hs'
      rcases hheld s hs hexclusive with hsame | hnone
      · exact .inl ⟨s, hs, hsame⟩
      · exact .inr ⟨rfl, hnone⟩
    · exact .inl ⟨s', hs', hexclusive⟩
  refine ⟨fun x s' hs' => ?_, fun x z hx hz hpod => ?_⟩
  · rw [slotAt_modifySlot] at hs'
    split at hs'
    · next hx =>
      obtain ⟨s, hs, rfl⟩ := Option.map_eq_some_iff.1 hs'
      exact hagrees s (hx ▸ hs)
    · exact h.slots x s' hs'
  · rcases hbefore x hx with hx₀ | ⟨hxy, hnone⟩ <;> rcases hbefore z hz with hz₀ | ⟨hzy, hnone'⟩
    · exact h.holder x z hx₀ hz₀ hpod
    · exact absurd hx₀ (hnone' x (hzy ▸ hpod))
    · exact absurd hz₀ (hnone z (hxy ▸ hpod.symm))
    · rw [hxy, hzy]

/-- A pod has a slot free for an exclusive task only if no other exclusive task is on it. -/
theorem not_heldAt_of_freeSlot? {p : Pod} {i : Nat} (hp : c.pods.get? y.pod = some p)
    (hfree : p.freeSlot? .planAndApply = some i) (hx : x.pod = y.pod) : ¬c.HeldAt x := by
  rintro ⟨s, hs, hexclusive⟩
  unfold slotAt at hs
  rw [hx, hp] at hs
  have hany : p.slots.any (·.holdsExclusive) = true := List.any_eq_true.2 ⟨s, List.mem_of_getElem? hs, hexclusive⟩
  unfold Pod.freeSlot? at hfree
  rw [if_pos ⟨rfl, hany⟩] at hfree
  cases hfree

theorem SingleHolder.bind_free {p : Pod} (h : SingleHolder kept c) (hp : c.pods.get? y.pod = some p)
    (hfree : p.freeSlot? kind = some y.slot) (htask : kept task → kind = .planAndApply) (now : UInt64) :
    SingleHolder kept (c.modifySlot y.pod y.slot (·.bind .reserved task kind now)) := by
  refine h.modifySlot (fun s _ => s.agrees_bind htask now) fun s _ hexclusive => .inr fun x hx => ?_
  obtain rfl : kind = .planAndApply := Option.some.inj (Slot.holdsExclusive_iff.1 hexclusive).2
  exact not_heldAt_of_freeSlot? hp hfree hx

theorem SingleHolder.step (h : SingleHolder kept c) (hcall : Serving kept call) (hstep : PoolStep call c c') :
    SingleHolder kept c' := by
  cases hstep with
  | tidy ht => exact h.tidies ht
  | assign => exact hcall.elim
  | allocate y now hp hfree => exact h.bind_free hp hfree hcall now
  | allocateOnAgent y now hp hfree => exact h.bind_free hp hfree hcall now
  | markRunning now =>
    exact h.modifySlot (fun s hs => (h.slots _ s hs).markRunning now) fun s hs hexclusive =>
      .inl ((h.slots _ s hs).holdsExclusive_of_markRunning hexclusive)
  | reserve => exact hcall.elim
  | reserveTask => exact hcall.elim

/-- A slot that is found and kept at once has its task on it all the time. -/
theorem SingleHolder.keptAtOnce {c d : Scene World (List (Step World))} (h : SingleHolder kept c.state.capacity)
    (hn : c.state.capacity.Named) (hd : KeptAtOnce kept c d) :
    d.state.capacity.Named ∧ SingleHolder kept d.state.capacity := by
  obtain ⟨⟨task, hkept, hrun⟩, -⟩ := hd
  cases hp : c.state.capacity.placementOf? task with
  | none =>
    rw [Fallible.run_ignoring (p := reserveTask task) (run_editSlotOf_none hp)] at hrun
    obtain ⟨-, hd⟩ := Prod.mk.inj hrun
    exact hd ▸ ⟨hn, h⟩
  | some p =>
    rw [Fallible.run_ignoring (run_reserveTask hn hp)] at hrun
    obtain ⟨-, hd⟩ := Prod.mk.inj hrun
    rw [← hd]
    refine ⟨hn.modify _ fun _ => rfl, h.modifySlot (y := p.spot) (fun s _ => s.agrees_bind (fun _ => rfl) _) fun s hs _ => .inl ?_⟩
    have htask := taskAt_of_placementOf? hn hp
    unfold taskAt at htask
    rw [hs] at htask
    exact (h.slots p.spot s hs).holdsExclusive htask hkept

theorem ServingRun.singleHolder {first : World} {c : Scene World (List (Step World))} {crew : List (Program World Unit)}
    (hempty : ∀ name, first.capacity.pods.get? name = none) (hrun : ServingRun kept first c crew) :
    c.state.capacity.Named ∧ SingleHolder kept c.state.capacity := by
  have hidle : ∀ (e : Step World) (l : List (Step World)), e.before.capacity.Named → SingleHolder kept e.before.capacity →
      e.after.capacity = e.before.capacity → SingleHolder kept e.after.capacity := fun _ _ _ h hsame => hsame ▸ h
  refine hrun.invariant (I := fun c _ => SingleHolder kept c) hempty ?_
    (fun call e l hcall _ h hstep => h.step hcall hstep) hidle fun c d hout hn h => ?_
  · refine ⟨fun x s hs => ?_, fun x y ⟨s, hs, _⟩ => ?_⟩
    · rw [slotAt_of_empty hempty] at hs
      cases hs
    · rw [slotAt_of_empty hempty] at hs
      cases hs
  · rcases hout with hstay | hkept
    · exact hstay.keeps (I := fun c _ => SingleHolder kept c) hn h hidle
    · exact h.keptAtOnce hn hkept

/-! ## Sharing a pod -/

variable {name agent : String} {p : Pod} {w first : World} {m : List (Step World)} {crew : List (Program World Unit)}

theorem exists_fresh_agent (c : Capacity) : ∃ agent, ∀ name q, c.pods.get? name = some q → q.agent ≠ some agent := by
  obtain ⟨agent, hagent⟩ := Infinite.exists_notMem_finset (c.pods.values.filterMap (·.agent)).toFinset
  refine ⟨agent, fun name q hq hregistered => hagent ?_⟩
  rw [List.mem_toFinset, List.mem_filterMap]
  exact ⟨q, Table.mem_values.2 ⟨name, hq⟩, hregistered⟩

/-- An agent may register from every pod that there is. -/
theorem ServingRun.hosts (h : ServingRun kept first ⟨w, m⟩ crew) (hn : w.capacity.Named)
    (hp : w.capacity.pods.get? name = some p) : ∃ w' m' crew' agent p', ServingRun kept first ⟨w', m'⟩ crew' ∧
      w'.capacity.Hosts name agent p' ∧ p'.slots = p.slots := by
  obtain ⟨agent, hfresh⟩ := exists_fresh_agent w.capacity
  have hregister : w.capacity.registerAgent name agent w.now = .ok { w.capacity with
      pods := w.capacity.pods.modify name fun p => { p with agent := some agent, lastHeartbeat := w.now } } :=
    registerAgent_ok_iff.2 ⟨⟨p, hp⟩, rfl⟩
  obtain ⟨m', crew', hrun⟩ := h.call {} (.registerAgent name agent) trivial
    (Fallible.run_ignoring (Program.run_editCapacity (f := (·.registerAgent name agent ·)) hregister))
  refine ⟨_, m', crew', agent, { p with agent := some agent, lastHeartbeat := w.now }, hrun, ?_, rfl⟩
  exact hosts_modify (f := fun p => { p with agent := some agent, lastHeartbeat := w.now }) hp (hn name p hp) rfl
    fun other q hq hagent => absurd hagent (hfresh other q hq)

/-- The slot of a task is found and kept, while nobody else takes a step. -/
theorem ServingRun.keep {w' : World} (h : ServingRun kept first ⟨w, m⟩ crew) (hkept : kept task)
    (hrun : (Fallible.ignoring (reserveTask task)).run w = (.finished (), w')) :
    ∃ m', ServingRun kept first ⟨w', m'⟩ crew :=
  ⟨m ++ [⟨none, w, w'⟩], h.outside (.inr ⟨⟨task, hkept, hrun⟩, rfl⟩)⟩

/-- One task after the other is put on the pod of an agent, as long as there are idle slots. -/
theorem ServingRun.takesOn (h : ServingRun kept first ⟨w, m⟩ crew) (hhosts : w.capacity.Hosts name agent p)
    (work : List (UInt64 × TaskKind)) (hwork : ∀ t ∈ work, ¬kept t.1 ∧ t.2 ≠ .planAndApply)
    (hroom : work.length ≤ p.slots.countP (·.isIdle)) :
    ∃ w' m' crew' p', ServingRun kept first ⟨w', m'⟩ crew' ∧ w'.capacity.Hosts name agent p' ∧
      p.TakesOn p' work := by
  -- the pod changes with each task, but it stays the one that the agent is found on
  induction work generalizing w m crew p with
  | nil => exact ⟨w, m, crew, p, h, hhosts, Pod.takesOn_nil rfl⟩
  | cons t rest ih =>
    obtain ⟨hkept, hkind⟩ := hwork t List.mem_cons_self
    rw [List.length_cons] at hroom
    obtain ⟨i, hi⟩ := p.freeSlot?_of_idle hkind (by omega)
    obtain ⟨s, hs, hidle⟩ := getElem?_of_freeSlot? hi
    have hallocate : w.capacity.allocateOnAgent agent t.1 t.2 w.now =
        .ok (⟨name, i, some agent⟩, w.capacity.modifySlot name i (·.bind .reserved t.1 t.2 w.now)) := by
      unfold allocateOnAgent
      rw [hhosts.podOfAgent?]
      simp only [hi, hhosts.named]
    have hfirst := Pod.takesOn_bind hs hidle t w.now
    have hrun : ((PoolCall.allocateOnAgent agent t.1 t.2).program {}).run w =
        (.finished (), { w with capacity := w.capacity.modifySlot name i (·.bind .reserved t.1 t.2 w.now) }) :=
      Fallible.run_ignoring (Program.run_onCapacity (f := (·.allocateOnAgent agent t.1 t.2 ·)) hallocate)
    obtain ⟨m₁, crew₁, hone⟩ := h.call {} (.allocateOnAgent agent t.1 t.2) (fun hk => absurd hk hkept) hrun
    have hleft : rest.length ≤ (p.modifySlot i (·.bind .reserved t.1 t.2 w.now)).slots.countP (·.isIdle) := by
      have := hfirst.idle
      rw [List.length_singleton] at this
      omega
    obtain ⟨w', m', crew', p', hrest, hhosts', htakes⟩ :=
      ih hone (hhosts.modifySlot i _) (fun u hu => hwork u (List.mem_cons_of_mem t hu)) hleft
    exact ⟨w', m', crew', p', hrest, hhosts', hfirst.trans htakes⟩

/-! ## The pods in every run -/

/-- In every run of the calls of the orchestrator from a pool without pods, in whatever order they
    take their steps as long as a slot is found and kept for its task at once, and whatever the
    cluster and the store say: each pod has at most one slot that is taken by an exclusive task. All
    the slots that are idle on it may be given to tasks that are not exclusive: there is a run that
    ends with any such tasks on them, and the other slots as they are. -/
theorem one_exclusive_task_per_pod {c : Scene World (List (Step World))}
    (hempty : ∀ name, first.capacity.pods.get? name = none) (hrun : ServingRun kept first c crew)
    (hp : c.state.capacity.pods.get? name = some p) :
    p.slots.countP (·.holdsExclusive) ≤ 1 ∧
    ∀ work : List (UInt64 × TaskKind), (∀ t ∈ work, ¬kept t.1 ∧ t.2 ≠ .planAndApply) →
      work.length ≤ p.slots.countP (·.isIdle) →
      ∃ c' crew' p', ServingRun kept first c' crew' ∧ c'.state.capacity.pods.get? name = some p' ∧
        p.TakesOn p' work := by
  obtain ⟨w, m⟩ := c
  obtain ⟨hn, hsingle⟩ := hrun.singleHolder hempty
  refine ⟨countP_le_one fun i j a b ha hb hexclusive hexclusive' => ?_, fun work hwork hroom => ?_⟩
  · have hheld : ∀ (k : Nat) (s : Slot), p.slots[k]? = some s → s.holdsExclusive = true → w.capacity.HeldAt ⟨name, k⟩ := by
      intro k s hs hexclusive
      refine ⟨s, ?_, hexclusive⟩
      unfold slotAt
      rw [hp]
      exact hs
    exact congrArg Spot.slot (hsingle.holder ⟨name, i⟩ ⟨name, j⟩ (hheld i a ha hexclusive) (hheld j b hb hexclusive') rfl)
  · obtain ⟨w₁, m₁, crew₁, agent, p₁, hregistered, hhosts, hslots⟩ := hrun.hosts hn hp
    rw [← hslots] at hroom
    obtain ⟨w', m', crew', p', hend, hhosts', htakes⟩ := hregistered.takesOn hhosts work hwork hroom
    exact ⟨⟨w', m'⟩, crew', p', hend, hhosts'.held, (Pod.takesOn_nil hslots).trans htakes⟩

/-- A pool whose pods have three slots. -/
def threeSlotPool : AgentPool := { id := "pool", kind := .kubernetes, minReplicas := 0, maxReplicas := 1, slotsPerPod := 3 }

/-- A pod was created, a slot of it given to an exclusive task and kept for the apply of that task. -/
def applyKept : World :=
  (((PoolCall.reserveTask 1).program {}).run (((PoolCall.allocate "pool" 1 .planAndApply).program {}).run
    (((PoolCall.createPod threeSlotPool).program {}).run { clock := 0 }).2).2).2

/-- The exclusive task keeps its slot, as the only one of its kind, when a plan and a drift check
    come to share its pod. -/
theorem one_exclusive_task_per_pod_apply_kept :
    ∃ c crew p, ServingRun (· = 1) { clock := 0 } c crew ∧
      c.state.capacity.pods.get? "runplane-agent-pool-0-0" = some p ∧ p.slots.countP (·.holdsExclusive) ≤ 1 ∧
      p.slots.countP (·.carries (1, .planAndApply)) = 1 ∧ p.slots.countP (·.carries (2, .plan)) = 1 ∧
      p.slots.countP (·.carries (3, .driftCheck)) = 1 := by
  have hstart : ServingRun (· = 1) { clock := 0 } ⟨{ clock := 0 }, []⟩ [] := .start
  obtain ⟨m₁, crew₁, hcreated⟩ := hstart.call {} (.createPod threeSlotPool) trivial rfl
  obtain ⟨m₂, crew₂, hallocated⟩ := hcreated.call {} (.allocate "pool" 1 .planAndApply) (fun _ => rfl) rfl
  have hexempt : (1 : UInt64) = 1 := rfl
  obtain ⟨m₃, hkept⟩ : ∃ m, ServingRun (· = 1) { clock := 0 } ⟨applyKept, m⟩ crew₂ :=
    ServingRun.keep hallocated hexempt rfl
  have hpod : applyKept.capacity.pods.get? "runplane-agent-pool-0-0" = some _ := rfl
  obtain ⟨-, hshare⟩ := one_exclusive_task_per_pod (fun _ => rfl) hkept hpod
  obtain ⟨c, crew, p, hrun, hp, htakes⟩ := hshare [(2, .plan), (3, .driftCheck)] (by decide) (by decide)
  obtain ⟨hone, -⟩ := one_exclusive_task_per_pod (fun _ => rfl) hrun hp
  exact ⟨c, crew, p, hrun, hp, hone, htakes.placed _, htakes.placed _, htakes.placed _⟩

end Capacity

end TaskFleet
