/-
  TaskFleet.Proofs.Turns — services, which take one turn after the other.

  A service begins its next turn when the last one has said that there is another. Between two
  steps of its turn, and between two turns, others take steps of their own.
  - `Turns`: the interleavings of a crew of services.
  - `Turning.sound`: if every turn keeps to a discipline, then so do the services, and how a turn
    ended is true from then on until the next begins.
-/

import TaskFleet.Proofs.Interleaving

namespace TaskFleet.Discipline

variable {σ η : Type} {D : Discipline σ η} {turns : List (Program σ Bool)} {outside : Scene σ η → Scene σ η → Prop}
  {note : Nat → η → η} {first c d : Scene σ η} {crew : List (Program σ Bool)} {i : Nat} {p : Program σ Bool}

variable (D) in
/-- The interleavings of a crew, of which each member takes its turn again and again: something
    outside changes the scene, a member takes a step, or it begins another turn, of which a note
    is taken. -/
inductive Turns (turns : List (Program σ Bool)) (outside : Scene σ η → Scene σ η → Prop) (note : Nat → η → η)
    (first : Scene σ η) : Scene σ η → List (Program σ Bool) → Prop
  | start : Turns turns outside note first first turns
  | outside {c d : Scene σ η} {crew : List (Program σ Bool)} : Turns turns outside note first c crew → outside c d →
      Turns turns outside note first d crew
  | moves {c : Scene σ η} {crew : List (Program σ Bool)} {i : Nat} {p p' : Program σ Bool} {s' : σ} :
      Turns turns outside note first c crew → crew[i]? = some p → Program.Moves p c.state p' s' →
      Turns turns outside note first ⟨s', D.observe i c.state s' c.memory⟩ (crew.set i p')
  | again {c : Scene σ η} {crew : List (Program σ Bool)} {i : Nat} {p : Program σ Bool} :
      Turns turns outside note first c crew → crew[i]? = some (.done true) → turns[i]? = some p →
      Turns turns outside note first ⟨c.state, note i c.memory⟩ (crew.set i p)

/-- The turns of a crew keep to the discipline: each begins in a scene that is ready for it, and
    one that ends with another to come leads to such a scene. -/
structure Turning (D : Discipline σ η) (turns : List (Program σ Bool)) (outside : Scene σ η → Scene σ η → Prop)
    (note : Nat → η → η) (first : Scene σ η) (ready : Nat → Scene σ η → Prop)
    (afterwards : Nat → Bool → Scene σ η → Prop) : Prop where
  first : D.Inv first ∧ ∀ i, i < turns.length → ready i first
  outside : ∀ c d, D.Inv c → outside c d → D.Inv d ∧ ∀ j, D.Rely j c d
  turn : ∀ i p c, turns[i]? = some p → ready i c → D.Leads i p (afterwards i) c
  again : ∀ i c, i < turns.length → D.Inv c → afterwards i true c →
    D.Keeps i c ⟨c.state, note i c.memory⟩ ∧ ready i ⟨c.state, note i c.memory⟩

/-- While nobody else steps in, a member of the crew takes steps of its turn. -/
theorem Turns.carry (h : D.Turns turns outside note first c crew) (hp : crew[i]? = some p) (n : Nat) :
    D.Turns turns outside note first (D.carry i n p c).2 (crew.set i (D.carry i n p c).1) :=
  carry_of_moves (R := D.Turns turns outside note first) .moves h hp n

theorem Turns.length_eq (h : D.Turns turns outside note first c crew) : crew.length = turns.length := by
  induction h with
  | start => rfl
  | outside _ _ ih => exact ih
  | moves _ _ _ ih => rw [List.length_set, ih]
  | again _ _ _ ih => rw [List.length_set, ih]

namespace Turning

variable {ready : Nat → Scene σ η → Prop} {afterwards : Nat → Bool → Scene σ η → Prop}

theorem sound (hk : D.Turning turns outside note first ready afterwards) (h : D.Turns turns outside note first c crew) :
    D.Inv c ∧ ∀ i p, crew[i]? = some p → D.Leads i p (afterwards i) c := by
  induction h with
  | start =>
    refine ⟨hk.first.1, fun i p hp => hk.turn i p first hp (hk.first.2 i ?_)⟩
    exact (List.getElem?_eq_some_iff.1 hp).1
  | outside _ hout ih =>
    obtain ⟨hinv, hall⟩ := ih
    obtain ⟨hinv', hrely⟩ := hk.outside _ _ hinv hout
    exact ⟨hinv', fun i p hp => (hall i p hp).rely (hrely i)⟩
  | @moves c crew i p p' s' _ hp hmove ih =>
    obtain ⟨hinv, hall⟩ := ih
    obtain ⟨⟨hinv', hrely⟩, hensures⟩ := (hall i p hp).moves hinv hmove
    refine ⟨hinv', fun j q hq => ?_⟩
    by_cases hj : i = j
    · subst hj
      rw [List.getElem?_set_self (List.getElem?_eq_some_iff.1 hp).1] at hq
      cases hq
      exact hensures
    · rw [List.getElem?_set_ne hj] at hq
      exact (hall j q hq).rely (hrely j (Ne.symm hj))
  | @again c crew i p _ hdone hp ih =>
    obtain ⟨hinv, hall⟩ := ih
    have hover : afterwards i true c := hall i _ hdone c (D.rely_refl i c) hinv true rfl
    obtain ⟨⟨hinv', hrely⟩, hready⟩ := hk.again i c (List.getElem?_eq_some_iff.1 hp).1 hinv hover
    refine ⟨hinv', fun j q hq => ?_⟩
    by_cases hj : i = j
    · subst hj
      rw [List.getElem?_set_self (List.getElem?_eq_some_iff.1 hdone).1] at hq
      cases hq
      exact hk.turn i _ _ hp hready
    · rw [List.getElem?_set_ne hj] at hq
      exact (hall j q hq).rely (hrely j (Ne.symm hj))

/-- What a turn led to is true whenever it has ended and no other has begun. -/
theorem ended (hk : D.Turning turns outside note first ready afterwards) (h : D.Turns turns outside note first c crew)
    {more : Bool} (hend : crew[i]? = some (.done more)) : afterwards i more c := by
  obtain ⟨hinv, hall⟩ := hk.sound h
  exact hall i _ hend c (D.rely_refl i c) hinv more rfl

end Turning

end TaskFleet.Discipline
