/-
  TaskFleet.Table — rows under string keys, in strictly ascending order of the keys.

  Everything the program keeps by name (stored records, pods, connections, deadlines) is a
  table, so every listing comes in key order and two tables with the same rows are equal.
  Keys are ordered by code point, which is also the order of their UTF-8 bytes.
  - `get?_insert` / `get?_erase` / `get?_modify`: what each operation does to the look-up.
  - `mem_rows_iff`: the rows are exactly what the look-up finds.
-/

namespace TaskFleet

/-- Rows under string keys, each key once, keys ascending. -/
structure Table (α : Type) where
  rows : List (String × α)
  ascending : rows.Pairwise (·.1 < ·.1)
  deriving DecidableEq

namespace Table

variable {α β : Type}

instance : Inhabited (Table α) := ⟨⟨[], .nil⟩⟩

def empty : Table α := ⟨[], .nil⟩

instance : EmptyCollection (Table α) := ⟨empty⟩

/-! ## Rows -/

/-- The value in the first row with this key. -/
def findRow (k : String) : List (String × α) → Option α
  | [] => none
  | (k', v) :: r => if k' = k then some v else findRow k r

/-- Puts a row at its place, over the row with the same key if there is one. -/
def insertRow (k : String) (v : α) : List (String × α) → List (String × α)
  | [] => [(k, v)]
  | (k', v') :: r =>
    if k < k' then (k, v) :: (k', v') :: r
    else if k = k' then (k, v) :: r
    else (k', v') :: insertRow k v r

theorem key_of_mem_insertRow {k : String} {v : α} {rows : List (String × α)} {p : String × α}
    (h : p ∈ insertRow k v rows) : p = (k, v) ∨ p ∈ rows := by
  induction rows with
  | nil => simpa [insertRow] using h
  | cons q r ih =>
    obtain ⟨k', v'⟩ := q
    simp only [insertRow] at h
    split at h
    · simpa using h
    · split at h
      · rcases List.mem_cons.1 h with h | h
        · exact .inl h
        · exact .inr (List.mem_cons_of_mem _ h)
      · rcases List.mem_cons.1 h with h | h
        · exact .inr (h ▸ List.mem_cons_self)
        · exact (ih h).imp_right (List.mem_cons_of_mem _)

theorem lt_of_not_lt_of_ne {a b : String} (h : ¬a < b) (hne : a ≠ b) : b < a :=
  Classical.byContradiction fun h' => hne (String.le_antisymm (String.not_lt.1 h') (String.not_lt.1 h))

theorem insertRow_ascending (k : String) (v : α) {rows : List (String × α)}
    (h : rows.Pairwise (·.1 < ·.1)) : (insertRow k v rows).Pairwise (·.1 < ·.1) := by
  induction rows with
  | nil => simp [insertRow]
  | cons q r ih =>
    obtain ⟨k', v'⟩ := q
    obtain ⟨hq, hr⟩ := List.pairwise_cons.1 h
    simp only [insertRow]
    split
    · next hlt =>
      refine List.pairwise_cons.2 ⟨fun p hp => ?_, h⟩
      rcases List.mem_cons.1 hp with rfl | hp
      · exact hlt
      · exact String.lt_trans hlt (hq p hp)
    · next hnlt =>
      split
      · next heq =>
        subst heq
        exact List.pairwise_cons.2 ⟨hq, hr⟩
      · next hne =>
        refine List.pairwise_cons.2 ⟨fun p hp => ?_, ih hr⟩
        rcases key_of_mem_insertRow hp with rfl | hp
        · exact lt_of_not_lt_of_ne hnlt hne
        · exact hq p hp

/-! ## Operations -/

def get? (t : Table α) (k : String) : Option α := findRow k t.rows

instance : GetElem? (Table α) String α (fun t k => (t.get? k).isSome) where
  getElem t k h := (t.get? k).get h
  getElem? t k := t.get? k

def contains (t : Table α) (k : String) : Bool := (t.get? k).isSome

/-- Puts `v` under `k`, over what was there. -/
def insert (t : Table α) (k : String) (v : α) : Table α :=
  ⟨insertRow k v t.rows, insertRow_ascending k v t.ascending⟩

def filter (t : Table α) (keep : String → α → Bool) : Table α :=
  ⟨t.rows.filter fun p => keep p.1 p.2, t.ascending.sublist List.filter_sublist⟩

def erase (t : Table α) (k : String) : Table α := t.filter fun k' _ => k' != k

/-- Changes every value, keeping the keys. -/
def mapValues (t : Table α) (f : String → α → β) : Table β :=
  ⟨t.rows.map fun p => (p.1, f p.1 p.2), by
    rw [List.pairwise_map]; exact t.ascending⟩

/-- Changes the value under `k`, if there is one. -/
def modify (t : Table α) (k : String) (f : α → α) : Table α :=
  t.mapValues fun k' v => if k' = k then f v else v

def keys (t : Table α) : List String := t.rows.map (·.1)

def values (t : Table α) : List α := t.rows.map (·.2)

def size (t : Table α) : Nat := t.rows.length

def isEmpty (t : Table α) : Bool := t.rows.isEmpty

def ofList (rows : List (String × α)) : Table α := rows.foldl (fun t p => t.insert p.1 p.2) empty

/-! ## The look-up view -/

theorem findRow_insertRow (k k' : String) (v : α) {rows : List (String × α)}
    (h : rows.Pairwise (·.1 < ·.1)) :
    findRow k' (insertRow k v rows) = if k = k' then some v else findRow k' rows := by
  induction rows with
  | nil => simp [insertRow, findRow]
  | cons q r ih =>
    obtain ⟨k₁, v₁⟩ := q
    obtain ⟨hq, hr⟩ := List.pairwise_cons.1 h
    simp only [insertRow]
    split
    · simp [findRow]
    · split
      · next heq => subst heq; by_cases e : k = k' <;> simp [findRow, e]
      · next hne =>
        simp only [findRow, ih hr]
        by_cases e : k₁ = k' <;> simp [e]
        intro h'; exact absurd (h'.trans e.symm) hne

@[simp] theorem get?_empty (k : String) : (empty : Table α).get? k = none := rfl

theorem get?_insert (t : Table α) (k k' : String) (v : α) :
    (t.insert k v).get? k' = if k = k' then some v else t.get? k' :=
  findRow_insertRow k k' v t.ascending

@[simp] theorem get?_insert_self (t : Table α) (k : String) (v : α) : (t.insert k v).get? k = some v := by
  simp [get?_insert]

theorem get?_insert_of_ne (t : Table α) {k k' : String} (v : α) (h : k ≠ k') :
    (t.insert k v).get? k' = t.get? k' := by simp [get?_insert, h]

theorem findRow_eq_none_of_lt {k : String} {rows : List (String × α)}
    (h : ∀ p ∈ rows, k < p.1) : findRow k rows = none := by
  induction rows with
  | nil => rfl
  | cons q r ih =>
    have hq := h q List.mem_cons_self
    have : q.1 ≠ k := fun e => String.lt_irrefl k (e ▸ hq)
    simp [findRow, this, ih fun p hp => h p (List.mem_cons_of_mem _ hp)]

theorem findRow_filter (keep : String → α → Bool) (k : String) {rows : List (String × α)}
    (h : rows.Pairwise (·.1 < ·.1)) :
    findRow k (rows.filter fun p => keep p.1 p.2) = (findRow k rows).filter (keep k) := by
  induction rows with
  | nil => rfl
  | cons q r ih =>
    obtain ⟨k₁, v₁⟩ := q
    obtain ⟨hq, hr⟩ := List.pairwise_cons.1 h
    by_cases e : k₁ = k
    · subst e
      have hnone : findRow k₁ r = none := findRow_eq_none_of_lt hq
      by_cases hk : keep k₁ v₁
      · simp [hk, findRow, Option.filter]
      · simp [hk, findRow, ih hr, hnone, Option.filter]
    · by_cases hk : keep k₁ v₁ <;> simp [hk, findRow, e, ih hr]

theorem get?_filter (t : Table α) (keep : String → α → Bool) (k : String) :
    (t.filter keep).get? k = (t.get? k).filter (keep k) :=
  findRow_filter keep k t.ascending

theorem get?_erase (t : Table α) (k k' : String) :
    (t.erase k).get? k' = if k = k' then none else t.get? k' := by
  rw [erase, get?_filter]
  by_cases e : k = k'
  · subst e; cases t.get? k <;> simp [Option.filter]
  · have : k' ≠ k := fun h => e h.symm
    cases t.get? k' <;> simp [Option.filter, e, this]

theorem findRow_mapValues (f : String → α → β) (k : String) (rows : List (String × α)) :
    findRow k (rows.map fun p => (p.1, f p.1 p.2)) = (findRow k rows).map (f k) := by
  induction rows with
  | nil => rfl
  | cons q r ih =>
    by_cases e : q.1 = k
    · subst e; simp [findRow]
    · simp [findRow, e, ih]

theorem get?_mapValues (t : Table α) (f : String → α → β) (k : String) :
    (t.mapValues f).get? k = (t.get? k).map (f k) := findRow_mapValues f k t.rows

theorem get?_modify (t : Table α) (k k' : String) (f : α → α) :
    (t.modify k f).get? k' = if k = k' then (t.get? k').map f else t.get? k' := by
  rw [modify, get?_mapValues]
  by_cases e : k = k'
  · subst e; cases t.get? k <;> simp
  · have : k' ≠ k := fun h => e h.symm
    cases t.get? k' <;> simp [e, this]

theorem mem_rows_of_findRow {k : String} {v : α} {rows : List (String × α)}
    (h : findRow k rows = some v) : (k, v) ∈ rows := by
  induction rows with
  | nil => simp [findRow] at h
  | cons q r ih =>
    obtain ⟨k₁, v₁⟩ := q
    simp only [findRow] at h
    split at h
    · next e => subst e; cases h; exact List.mem_cons_self
    · exact List.mem_cons_of_mem _ (ih h)

theorem findRow_of_mem_rows {k : String} {v : α} {rows : List (String × α)}
    (h : rows.Pairwise (·.1 < ·.1)) (hm : (k, v) ∈ rows) : findRow k rows = some v := by
  induction rows with
  | nil => cases hm
  | cons q r ih =>
    obtain ⟨hq, hr⟩ := List.pairwise_cons.1 h
    rcases List.mem_cons.1 hm with hm | hm
    · simp [findRow, ← hm]
    · have hne : q.1 ≠ k := fun e => String.lt_irrefl k (e ▸ hq (k, v) hm)
      simp [findRow, hne, ih hr hm]

/-- A row is in the table exactly when its key finds it. -/
theorem mem_rows_iff {t : Table α} {k : String} {v : α} : (k, v) ∈ t.rows ↔ t.get? k = some v :=
  ⟨findRow_of_mem_rows t.ascending, mem_rows_of_findRow⟩

theorem mem_values {t : Table α} {v : α} : v ∈ t.values ↔ ∃ k, t.get? k = some v := by
  unfold values
  rw [List.mem_map]
  constructor
  · rintro ⟨⟨k, v⟩, hm, rfl⟩
    exact ⟨k, mem_rows_iff.1 hm⟩
  · rintro ⟨k, h⟩
    exact ⟨(k, v), mem_rows_iff.2 h, rfl⟩

end Table

end TaskFleet
