/-
  TaskFleet.Proofs.Toml.Ranges — every whole number that a TOML text says fits 64 bits with a sign.

  A number is checked where it is read. What is built from values that were read holds no other
  numbers, so the check carries over to lists, to tables in one line and to the whole tree (`RowsFit`).
  - `fits_read`: values, elements and members, by induction on the fuel.
  - `changeAt_keeps`: a change at a path keeps what the change itself keeps.
  - `fits_of_parse?`: the whole text.
-/

import TaskFleet.Proofs.Toml.Tables
import TaskFleet.Toml.Printer

namespace TaskFleet.Toml

variable {cs r : List Char} {d : Datum} {items : List Datum} {rows rows' : Rows} {key : String} {n : Node} {path : List String}
  {fuel depth : Nat} {t t' : Draft}

theorem fitsAll_iff : fitsAll items = true ↔ ∀ d ∈ items, fits d = true := by
  induction items with
  | nil => simp [fitsAll]
  | cons d items ih => rw [fitsAll, Bool.and_eq_true, ih, List.forall_mem_cons]

theorem fitsFields_iff {fields : List (Option String × Datum)} : fitsFields fields = true ↔ ∀ f ∈ fields, fits f.2 = true := by
  induction fields with
  | nil => simp [fitsFields]
  | cons f fields ih => rw [fitsFields, Bool.and_eq_true, ih, List.forall_mem_cons]

/-! ## Single values -/

theorem fits_of_inRange? {m : Int} (h : inRange? m = some d) : fits d = true := by
  have hd := h
  unfold inRange? at h
  split at h
  · cases h
    rw [fits, hd]
    rfl
  · cases h

theorem fits_of_whole? (h : whole? cs = some (d, r)) : fits d = true := by
  have hbased : ∀ {base : Nat} {cs : List Char}, based? base cs = some (d, r) → fits d = true := by
    intro base cs h
    obtain ⟨⟨ds, r'⟩, -, h⟩ := Option.bind_eq_some_iff.1 h
    obtain ⟨d', hd, h⟩ := Option.bind_eq_some_iff.1 h
    cases h
    exact fits_of_inRange? hd
  unfold whole? at h
  split at h
  · exact hbased h
  · exact hbased h
  · exact hbased h
  · obtain ⟨⟨ds, r'⟩, -, h⟩ := Option.bind_eq_some_iff.1 h
    obtain ⟨d', hd, h⟩ := Option.bind_eq_some_iff.1 h
    cases h
    exact fits_of_inRange? hd

theorem fits_of_decimal? (h : decimal? cs = some (d, r)) : fits d = true := by
  unfold decimal? at h
  generalize sign cs = p at h
  obtain ⟨⟨ds, r'⟩, -, h⟩ := Option.bind_eq_some_iff.1 h
  obtain ⟨⟨⟨fs, e⟩, r''⟩, -, h⟩ := Option.bind_eq_some_iff.1 h
  dsimp only at h
  split at h
  · cases h
  · cases h
    rfl

theorem fits_of_special? (h : special? cs = some (d, r)) : fits d = true := by
  unfold special? at h
  dsimp only at h
  split at h <;> cases h <;> rfl

theorem fits_of_scalarValue? (h : scalarValue? cs = some (d, r)) : fits d = true := by
  unfold scalarValue? at h
  split at h
  · cases h
    rfl
  · cases h
    rfl
  · simp only [Option.orElse_eq_orElse, Option.orElse_eq_or, Option.or_eq_some_iff] at h
    rcases h with h | ⟨-, h | ⟨-, h | ⟨-, h⟩⟩⟩
    · obtain ⟨r', -, h⟩ := Option.map_eq_some_iff.1 h
      cases h
      rfl
    · exact fits_of_decimal? h
    · exact fits_of_special? h
    · exact fits_of_whole? h

/-! ## Tables -/

/-- Every number below the keys of a table fits. -/
def RowsFit (rows : Rows) : Prop := ∀ p ∈ rows, fits p.2.toDatum = true

theorem rowsFit_iff : fits (.record (Rows.toFields rows)) = true ↔ RowsFit rows := by
  rw [fits, fitsFields_iff, toFields_eq, List.forall_mem_map]
  rfl

theorem fits_table {origin : Origin} : fits (Node.table origin rows).toDatum = true ↔ RowsFit rows := rowsFit_iff

theorem fits_tables {items : List Rows} : fits (Node.tables items).toDatum = true ↔ ∀ rows ∈ items, RowsFit rows := by
  rw [Node.toDatum, fits, fitsAll_iff, toRecords_eq, List.forall_mem_map]
  simp only [rowsFit_iff]

theorem rowsFit_nil : RowsFit [] := nofun

theorem RowsFit.put (h : RowsFit rows) (hn : fits n.toDatum = true) : RowsFit (rows.put key n) := by
  intro p hp
  unfold Rows.put at hp
  split at hp
  · obtain ⟨q, hq, rfl⟩ := List.mem_map.1 hp
    split
    · exact hn
    · exact h q hq
  · rcases List.mem_append.1 hp with hp | hp
    · exact h p hp
    · rw [List.mem_singleton.1 hp]
      exact hn

theorem RowsFit.lookup (h : RowsFit rows) (hn : rows.lookup key = some n) : fits n.toDatum = true := by
  obtain ⟨before, behind, rfl, -⟩ := List.lookup_eq_some_iff.1 hn
  exact h (key, n) (by simp)

/-- The change brings in no number that does not fit. -/
def Keeps (change : Rows → Option Rows) : Prop := ∀ rows rows', RowsFit rows → change rows = some rows' → RowsFit rows'

variable {change : Rows → Option Rows}

theorem changeLast_keeps {items items' : List Rows} (hkeeps : Keeps change) (hitems : ∀ rows ∈ items, RowsFit rows)
    (h : Rows.changeLast change items = some items') : ∀ rows ∈ items', RowsFit rows := by
  obtain ⟨last, hlast, h⟩ := Option.bind_eq_some_iff.1 h
  obtain ⟨last', hchange, h⟩ := Option.bind_eq_some_iff.1 h
  cases h
  intro rows hrows
  rcases List.mem_append.1 hrows with hrows | hrows
  · exact hitems rows (List.dropLast_subset _ hrows)
  · rw [List.mem_singleton.1 hrows]
    exact hkeeps _ _ (hitems last (List.mem_of_getLast? hlast)) hchange

theorem changeAt_keeps (hkeeps : Keeps change) (path : List String) : Keeps (Rows.changeAt path change) := by
  induction path with
  | nil => exact hkeeps
  | cons key path ih =>
    intro rows rows' hrows h
    unfold Rows.changeAt at h
    split at h
    · obtain ⟨sub, hsub, rfl⟩ := Option.map_eq_some_iff.1 h
      exact hrows.put (fits_table.2 (ih _ _ rowsFit_nil hsub))
    · cases h
    · next hlookup =>
      obtain ⟨sub, hsub, rfl⟩ := Option.map_eq_some_iff.1 h
      exact hrows.put (fits_table.2 (ih _ _ (fits_table.1 (hrows.lookup hlookup)) hsub))
    · next hlookup =>
      obtain ⟨items, hitems, rfl⟩ := Option.map_eq_some_iff.1 h
      exact hrows.put (fits_tables.2 (changeLast_keeps ih (fits_tables.1 (hrows.lookup hlookup)) hitems))

theorem defineTable_keeps (key : String) : Keeps (Rows.defineTable key) := by
  intro rows rows' hrows h
  unfold Rows.defineTable at h
  split at h
  · cases h
    exact hrows.put (fits_table.2 rowsFit_nil)
  · next hlookup =>
    cases h
    exact hrows.put (fits_table.2 (fits_table.1 (hrows.lookup hlookup)))
  · cases h

theorem addTable_keeps (key : String) : Keeps (Rows.addTable key) := by
  intro rows rows' hrows h
  unfold Rows.addTable at h
  split at h
  · cases h
    exact hrows.put (fits_tables.2 (by simpa using rowsFit_nil))
  · next hlookup =>
    cases h
    refine hrows.put (fits_tables.2 fun rows hmem => ?_)
    rcases List.mem_append.1 hmem with hmem | hmem
    · exact fits_tables.1 (hrows.lookup hlookup) rows hmem
    · rw [List.mem_singleton.1 hmem]
      exact rowsFit_nil
  · cases h

theorem setDotted_keeps (hd : fits d = true) (key : String) (path : List String) : Keeps (Rows.setDotted key d path) := by
  induction path with
  | nil =>
    intro rows rows' hrows h
    unfold Rows.setDotted Rows.setNew at h
    split at h
    · cases h
      exact hrows.put hd
    · cases h
  | cons part path ih =>
    intro rows rows' hrows h
    unfold Rows.setDotted at h
    split at h
    · obtain ⟨sub, hsub, rfl⟩ := Option.map_eq_some_iff.1 h
      exact hrows.put (fits_table.2 (ih _ _ rowsFit_nil hsub))
    · cases h
    · next hlookup =>
      split at h
      · cases h
      · obtain ⟨sub, hsub, rfl⟩ := Option.map_eq_some_iff.1 h
        exact hrows.put (fits_table.2 (ih _ _ (fits_table.1 (hrows.lookup hlookup)) hsub))
    · next hlookup =>
      split at h
      · cases h
      · obtain ⟨items, hitems, rfl⟩ := Option.map_eq_some_iff.1 h
        exact hrows.put (fits_tables.2 (changeLast_keeps ih (fits_tables.1 (hrows.lookup hlookup)) hitems))

/-! ## Values -/

/-- What the three readers of values return holds only numbers that fit. -/
structure ReadsFit (fuel : Nat) : Prop where
  value : ∀ {depth cs d r}, value? fuel depth cs = some (d, r) → fits d = true
  items : ∀ {depth cs items r}, items? fuel depth cs = some (items, r) → ∀ d ∈ items, fits d = true
  members : ∀ {depth rows cs rows' r}, RowsFit rows → members? fuel depth rows cs = some (rows', r) → RowsFit rows'

theorem fits_value (ih : ReadsFit fuel) (h : value? (fuel + 1) depth cs = some (d, r)) : fits d = true := by
  unfold value? at h
  split at h
  · simp only [Option.bind_eq_bind] at h
    split at h
    · cases h
    · obtain ⟨⟨items, r'⟩, hitems, h⟩ := Option.bind_eq_some_iff.1 h
      cases h
      exact fitsAll_iff.2 (ih.items hitems)
  · simp only [Option.bind_eq_bind] at h
    split at h
    · cases h
    · split at h
      · cases h
        rfl
      · obtain ⟨⟨rows, r'⟩, hmembers, h⟩ := Option.bind_eq_some_iff.1 h
        cases h
        exact rowsFit_iff.2 (ih.members rowsFit_nil hmembers)
  · obtain ⟨⟨s, r'⟩, -, h⟩ := Option.map_eq_some_iff.1 h
    cases h
    rfl
  · obtain ⟨⟨s, r'⟩, -, h⟩ := Option.map_eq_some_iff.1 h
    cases h
    rfl
  · exact fits_of_scalarValue? h

theorem fits_items (ih : ReadsFit fuel) (h : items? (fuel + 1) depth cs = some (items, r)) : ∀ d ∈ items, fits d = true := by
  unfold items? at h
  split at h
  · cases h
    exact nofun
  · obtain ⟨⟨d, r'⟩, hvalue, h⟩ := Option.bind_eq_some_iff.1 h
    have hd := ih.value hvalue
    dsimp only at h
    split at h
    · cases h
      simpa using hd
    · obtain ⟨⟨ds, r''⟩, hitems, h⟩ := Option.bind_eq_some_iff.1 h
      cases h
      exact List.forall_mem_cons.2 ⟨hd, ih.items hitems⟩
    · cases h

theorem fits_members (ih : ReadsFit fuel) (hrows : RowsFit rows) (h : members? (fuel + 1) depth rows cs = some (rows', r)) :
    RowsFit rows' := by
  unfold members? at h
  obtain ⟨⟨⟨path, key⟩, r₁⟩, -, h⟩ := Option.bind_eq_some_iff.1 h
  obtain ⟨r₂, -, h⟩ := Option.bind_eq_some_iff.1 h
  obtain ⟨⟨d, r₃⟩, hvalue, h⟩ := Option.bind_eq_some_iff.1 h
  obtain ⟨rows₁, hset, h⟩ := Option.bind_eq_some_iff.1 h
  have hrows₁ := setDotted_keeps (ih.value hvalue) key path rows rows₁ hrows hset
  split at h
  · cases h
    exact hrows₁
  · exact ih.members hrows₁ h
  · cases h

theorem fits_read (fuel : Nat) : ReadsFit fuel := by
  induction fuel with
  | zero => exact ⟨nofun, nofun, fun _ => nofun⟩
  | succ fuel ih => exact ⟨fits_value ih, fits_items ih, fits_members ih⟩

/-! ## Whole texts -/

theorem fits_statement (hroot : RowsFit t.root) (h : t.statement? cs = some (t', r)) : RowsFit t'.root := by
  unfold Draft.statement? at h
  split at h
  · obtain ⟨⟨⟨path, key⟩, r₁⟩, -, h⟩ := Option.bind_eq_some_iff.1 h
    obtain ⟨r₂, -, h⟩ := Option.bind_eq_some_iff.1 h
    obtain ⟨r₃, -, h⟩ := Option.bind_eq_some_iff.1 h
    obtain ⟨root, hchange, h⟩ := Option.bind_eq_some_iff.1 h
    cases h
    exact changeAt_keeps (addTable_keeps key) path _ _ hroot hchange
  · obtain ⟨⟨⟨path, key⟩, r₁⟩, -, h⟩ := Option.bind_eq_some_iff.1 h
    obtain ⟨r₂, -, h⟩ := Option.bind_eq_some_iff.1 h
    obtain ⟨root, hchange, h⟩ := Option.bind_eq_some_iff.1 h
    cases h
    exact changeAt_keeps (defineTable_keeps key) path _ _ hroot hchange
  · obtain ⟨⟨⟨path, key⟩, r₁⟩, -, h⟩ := Option.bind_eq_some_iff.1 h
    obtain ⟨r₂, -, h⟩ := Option.bind_eq_some_iff.1 h
    obtain ⟨⟨d, r₃⟩, hvalue, h⟩ := Option.bind_eq_some_iff.1 h
    obtain ⟨root, hchange, h⟩ := Option.bind_eq_some_iff.1 h
    cases h
    exact changeAt_keeps (setDotted_keeps ((fits_read _).value hvalue) key path) _ _ _ hroot hchange

theorem fits_lines (hroot : RowsFit t.root) (h : Draft.lines? fuel t cs = some t') : RowsFit t'.root := by
  induction fuel generalizing t cs with
  | zero => cases h
  | succ fuel ih =>
    unfold Draft.lines? at h
    split at h
    · cases h
      exact hroot
    · split at h
      · exact ih hroot h
      · obtain ⟨⟨t₁, r₁⟩, hstatement, h⟩ := Option.bind_eq_some_iff.1 h
        obtain ⟨r₂, -, h⟩ := Option.bind_eq_some_iff.1 h
        exact ih (fits_statement hroot hstatement) h

/-- Every number of a text that reads fits 64 bits with a sign. -/
theorem fits_of_parse? {text : String} (h : parse? text = some d) : fits d = true := by
  obtain ⟨t, ht, rfl⟩ := Option.map_eq_some_iff.1 h
  exact rowsFit_iff.2 (fits_lines rowsFit_nil ht)

end TaskFleet.Toml
