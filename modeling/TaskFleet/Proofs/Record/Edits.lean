/-
  TaskFleet.Proofs.Record.Edits — records whose text other programs wrote.

  A program that knows more fields writes further keys, at any depth (`Extended`); one that knows
  fewer leaves keys out (`without`). The fields that both know are still there, each as often as
  before, with their values or with extended ones.
  - `ExtendedFields.keyCount_eq` / `keyValue?_eq`: what further keys do to the fields.
  - `keyCount_dropFields` / `keyValue?_dropFields`: what leaving keys out does.
  - `Edited`, `Extended.edited`: both together.
-/

import TaskFleet.Record

namespace TaskFleet.Datum

variable {α : Type} {s : Style} {d d' : Datum} {name : String} {known : List (Option String)}
variable {fs fs' : List (Option String × Datum)} {names gone : List String} {f : Fields}

/-! ## Further keys, and keys left out -/

mutual

/-- The second tree is the first with further keys in its records, at any depth. -/
inductive Extended : Datum → Datum → Prop
  | same (d : Datum) : Extended d d
  | list {items items' : List Datum} : ExtendedItems items items' → Extended (.list items) (.list items')
  | record {fs fs' : List (Option String × Datum)} : ExtendedFields (fs.map (·.1)) fs fs' →
      Extended (.record fs) (.record fs')

inductive ExtendedItems : List Datum → List Datum → Prop
  | nil : ExtendedItems [] []
  | cons {d d' : Datum} {ds ds' : List Datum} : Extended d d' → ExtendedItems ds ds' →
      ExtendedItems (d :: ds) (d' :: ds')

/-- The fields in their order, with keys that are not known among them. -/
inductive ExtendedFields : List (Option String) → List (Option String × Datum) → List (Option String × Datum) → Prop
  | nil (known : List (Option String)) : ExtendedFields known [] []
  | field {known : List (Option String)} {d d' : Datum} {fs fs' : List (Option String × Datum)} (k : Option String) :
      Extended d d' → ExtendedFields known fs fs' → ExtendedFields known ((k, d) :: fs) ((k, d') :: fs')
  | added {known : List (Option String)} {fs fs' : List (Option String × Datum)} (k : String) (d : Datum) :
      some k ∉ known → ExtendedFields known fs fs' → ExtendedFields known fs ((some k, d) :: fs')

end

/-- The fields but those under these names. -/
def dropFields (gone : List String) (fs : List (Option String × Datum)) : List (Option String × Datum) :=
  fs.filter fun p => p.1.all (!gone.contains ·)

/-- A record without the fields under these names. -/
def without (gone : List String) : Datum → Datum
  | .record fs => .record (dropFields gone fs)
  | d => d

theorem without_nil (d : Datum) : d.without [] = d := by
  cases d with
  | record fs =>
    rw [without, dropFields, List.filter_eq_self.2]
    rintro ⟨k, v⟩ _
    cases k <;> rfl
  | _ => rfl

theorem ExtendedFields.refl (known : List (Option String)) (fs : List (Option String × Datum)) :
    ExtendedFields known fs fs := by
  induction fs with
  | nil => exact .nil known
  | cons p fs ih => exact .field p.1 (.same p.2) ih

theorem ExtendedItems.refl (ds : List Datum) : ExtendedItems ds ds := by
  induction ds with
  | nil => exact .nil
  | cons d ds ih => exact .cons (.same d) ih

theorem Extended.of_record (h : Extended (.record fs) d') :
    ∃ fs', d' = .record fs' ∧ ExtendedFields (fs.map (·.1)) fs fs' := by
  cases h with
  | same => exact ⟨fs, rfl, .refl _ fs⟩
  | record h => exact ⟨_, rfl, h⟩

theorem Extended.of_list {items : List Datum} (h : Extended (.list items) d') :
    ∃ items', d' = .list items' ∧ ExtendedItems items items' := by
  cases h with
  | same => exact ⟨items, rfl, .refl items⟩
  | list h => exact ⟨_, rfl, h⟩

theorem ExtendedFields.isSome : ∀ {fs fs' : List (Option String × Datum)}, ExtendedFields known fs fs' →
    (∀ p ∈ fs, p.1.isSome = true) → ∀ p ∈ fs', p.1.isSome = true
  | _, _, .nil _, hkeys => hkeys
  | (_, e) :: _, _, .field k _ h, hkeys => by
    have ih := h.isSome fun p hp => hkeys p (List.mem_cons_of_mem _ hp)
    intro p hp
    rcases List.mem_cons.1 hp with rfl | hp
    · exact hkeys (k, e) List.mem_cons_self
    · exact ih p hp
  | _, _, .added k d _ h, hkeys => by
    have ih := h.isSome hkeys
    intro p hp
    rcases List.mem_cons.1 hp with rfl | hp
    · rfl
    · exact ih p hp

theorem ExtendedFields.keyCount_eq (hname : some name ∈ known) : ∀ {fs fs' : List (Option String × Datum)},
    ExtendedFields known fs fs' → keyCount fs' name = keyCount fs name
  | _, _, .nil _ => rfl
  | _, _, .field k _ h => by
    have ih := h.keyCount_eq hname
    unfold keyCount at ih ⊢
    rw [List.countP_cons, List.countP_cons, ih]
  | _, _, .added k d hk h => by
    have hne : k ≠ name := fun e => hk (e ▸ hname)
    have ih := h.keyCount_eq hname
    unfold keyCount at ih ⊢
    rw [List.countP_cons_of_neg (by simpa using hne), ih]

theorem ExtendedFields.keyValue?_eq (hname : some name ∈ known) : ∀ {fs fs' : List (Option String × Datum)},
    ExtendedFields known fs fs' → keyValue? fs name = some d → ∃ d', keyValue? fs' name = some d' ∧ Extended d d'
  | _, _, .nil _, hd => by cases hd
  | (_, e) :: _, (_, e') :: _, .field k he h, hd => by
    have ih := h.keyValue?_eq hname
    unfold keyValue? at ih hd ⊢
    by_cases hk : k = some name
    · subst hk
      simp at hd
      subst hd
      exact ⟨e', by simp, he⟩
    · rw [List.find?_cons_of_neg (by simpa using hk)] at hd ⊢
      exact ih hd
  | _, _, .added k e hk h, hd => by
    have hne : k ≠ name := fun e => hk (e ▸ hname)
    have ih := h.keyValue?_eq hname hd
    unfold keyValue? at ih ⊢
    rw [List.find?_cons_of_neg (by simpa using hne)]
    exact ih

/-! ## The fields of an edited record -/

/-- What is left of a record's fields after an edit. -/
structure Edited (gone : List String) (fs fs' : List (Option String × Datum)) : Prop where
  isSome : ∀ p ∈ fs', p.1.isSome = true
  count : ∀ name, some name ∈ fs.map (·.1) → keyCount fs' name = if name ∈ gone then 0 else keyCount fs name
  value : ∀ name d, keyValue? fs name = some d →
    if name ∈ gone then keyValue? fs' name = none else ∃ d', keyValue? fs' name = some d' ∧ Extended d d'

theorem keyCount_dropFields : keyCount (dropFields gone fs) name = if name ∈ gone then 0 else keyCount fs name := by
  unfold keyCount dropFields
  rw [List.countP_filter]
  split
  · next h =>
    rw [List.countP_eq_zero]
    rintro ⟨k, d⟩ _ hk
    simp at hk
    obtain ⟨rfl, hgone⟩ := hk
    simp [h] at hgone
  · next h =>
    congr 1
    funext p
    by_cases hk : p.1 = some name <;> simp [hk, h]

theorem keyValue?_dropFields :
    keyValue? (dropFields gone fs) name = if name ∈ gone then none else keyValue? fs name := by
  unfold keyValue? dropFields
  rw [List.find?_filter]
  split
  · next h =>
    rw [List.find?_eq_none.2, Option.map_none]
    rintro ⟨k, d⟩ _ hk
    simp at hk
    obtain ⟨hgone, rfl⟩ := hk
    simp [h] at hgone
  · next h =>
    congr 2
    funext p
    by_cases hk : p.1 = some name <;> simp [hk, h]

theorem mem_of_keyValue? (h : keyValue? fs name = some d) : (some name, d) ∈ fs := by
  unfold keyValue? at h
  obtain ⟨⟨k, e⟩, hfind, rfl⟩ := Option.map_eq_some_iff.1 h
  have hk : k = some name := by simpa using List.find?_some hfind
  exact hk ▸ List.mem_of_find?_eq_some hfind

theorem Extended.edited (hkeys : fs.map (·.1) = names.map some) (h : Extended (.record fs) d') (gone : List String) :
    ∃ fs', d'.without gone = .record fs' ∧ Edited gone fs fs' := by
  obtain ⟨fs', rfl, hfs⟩ := h.of_record
  have hsome : ∀ p ∈ fs, p.1.isSome = true := by
    intro p hp
    obtain ⟨name, -, hname⟩ := List.mem_map.1 (hkeys ▸ List.mem_map_of_mem (f := Prod.fst) hp)
    rw [← hname]
    rfl
  refine ⟨dropFields gone fs', rfl, ⟨fun p hp => hfs.isSome hsome p (List.mem_filter.1 hp).1, ?_, ?_⟩⟩
  · intro name hname
    rw [keyCount_dropFields, hfs.keyCount_eq hname]
  · intro name d hd
    rw [keyValue?_dropFields]
    split
    · rfl
    · exact hfs.keyValue?_eq (List.mem_map_of_mem (f := Prod.fst) (mem_of_keyValue? hd)) hd

end TaskFleet.Datum
