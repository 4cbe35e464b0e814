/-
  TaskFleet.Sorting — stable insertion sort, for the orders in which listings are answered.

  - `sortBy_perm`: nothing is lost or added.
  - `sortBy_sorted`: for a total, transitive order the result is in order.
  - `sortBy_stable`: and equals stand in the order they came in.
-/

namespace TaskFleet

variable {α : Type}

/-- Puts an element before the first one that it does not come after. -/
def insertBy (before : α → α → Bool) (a : α) : List α → List α
  | [] => [a]
  | b :: r => if before a b then a :: b :: r else b :: insertBy before a r

/-- Sorts by `before`, which says that one element may stand before another; equals keep
    their order. -/
def sortBy (before : α → α → Bool) : List α → List α
  | [] => []
  | a :: r => insertBy before a (sortBy before r)

theorem insertBy_perm (before : α → α → Bool) (a : α) (l : List α) : (insertBy before a l).Perm (a :: l) := by
  induction l with
  | nil => exact .refl _
  | cons b r ih =>
    simp only [insertBy]
    split
    · exact .refl _
    · exact (ih.cons b).trans (.swap a b r)

theorem sortBy_perm (before : α → α → Bool) (l : List α) : (sortBy before l).Perm l := by
  induction l with
  | nil => exact .refl _
  | cons a r ih => exact (insertBy_perm before a _).trans (ih.cons a)

@[simp] theorem mem_sortBy {before : α → α → Bool} {l : List α} {a : α} : a ∈ sortBy before l ↔ a ∈ l :=
  (sortBy_perm before l).mem_iff

@[simp] theorem length_sortBy (before : α → α → Bool) (l : List α) : (sortBy before l).length = l.length :=
  (sortBy_perm before l).length_eq

theorem insertBy_sorted {before : α → α → Bool} (total : ∀ a b, before a b ∨ before b a)
    (trans : ∀ a b c, before a b → before b c → before a c) (a : α) {l : List α}
    (h : l.Pairwise (before · ·)) : (insertBy before a l).Pairwise (before · ·) := by
  induction l with
  | nil => simp [insertBy]
  | cons b r ih =>
    obtain ⟨hb, hr⟩ := List.pairwise_cons.1 h
    simp only [insertBy]
    split
    · next hab =>
      refine List.pairwise_cons.2 ⟨fun c hc => ?_, h⟩
      rcases List.mem_cons.1 hc with rfl | hc
      · exact hab
      · exact trans a b c hab (hb c hc)
    · next hab =>
      refine List.pairwise_cons.2 ⟨fun c hc => ?_, ih hr⟩
      rcases List.mem_cons.1 ((insertBy_perm before a r).mem_iff.1 hc) with rfl | hc
      · exact (total c b).resolve_left hab
      · exact hb c hc

theorem sortBy_sorted {before : α → α → Bool} (total : ∀ a b, before a b ∨ before b a)
    (trans : ∀ a b c, before a b → before b c → before a c) (l : List α) :
    (sortBy before l).Pairwise (before · ·) := by
  induction l with
  | nil => exact .nil
  | cons a r ih => exact insertBy_sorted total trans a ih

/-- Elements that may stand either way round stay in the order they came in. -/
theorem insertBy_stable {before : α → α → Bool} {r : α → α → Prop} (total : ∀ a b, before a b ∨ before b a)
    (trans : ∀ a b c, before a b → before b c → before a c) (a : α) {l : List α} (ha : ∀ b ∈ l, r a b)
    (h : l.Pairwise fun b c => before b c ∧ (before c b → r b c)) :
    (insertBy before a l).Pairwise fun b c => before b c ∧ (before c b → r b c) := by
  induction l with
  | nil => simp [insertBy]
  | cons b l ih =>
    obtain ⟨hb, hl⟩ := List.pairwise_cons.1 h
    simp only [insertBy]
    split
    · next hab =>
      refine List.pairwise_cons.2 ⟨fun c hc => ⟨?_, fun _ => ha c hc⟩, h⟩
      rcases List.mem_cons.1 hc with rfl | hc
      · exact hab
      · exact trans a b c hab (hb c hc).1
    · next hab =>
      refine List.pairwise_cons.2 ⟨fun c hc => ?_, ih (fun c hc => ha c (List.mem_cons_of_mem _ hc)) hl⟩
      rcases List.mem_cons.1 ((insertBy_perm before a l).mem_iff.1 hc) with rfl | hc
      · exact ⟨(total c b).resolve_left hab, fun hcb => absurd hcb hab⟩
      · exact hb c hc

theorem sortBy_stable {before : α → α → Bool} {r : α → α → Prop} (total : ∀ a b, before a b ∨ before b a)
    (trans : ∀ a b c, before a b → before b c → before a c) {l : List α} (h : l.Pairwise r) :
    (sortBy before l).Pairwise fun a b => before a b ∧ (before b a → r a b) := by
  induction l with
  | nil => exact .nil
  | cons a l ih =>
    obtain ⟨ha, hl⟩ := List.pairwise_cons.1 h
    exact insertBy_stable total trans a (fun b hb => ha b (mem_sortBy.1 hb)) (ih hl)

end TaskFleet
