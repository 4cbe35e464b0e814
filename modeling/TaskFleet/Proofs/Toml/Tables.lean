/-
  TaskFleet.Proofs.Toml.Tables — what a change at a path does to the tree of a TOML text.

  A header or a value changes one table and leaves the rest of the tree alone. `Spot` says so: from a
  path a tree is seen as the rows of one table and as a way to put other rows there. Statements about
  nested tables are then statements about the rows of the innermost one. A table that is only implied
  is a spot before it is there (`Spot.implied`).
-/

import TaskFleet.Toml.Tree

namespace TaskFleet.Toml

variable {rows root sub : Rows} {key : String} {n : Node} {path : List String} {items : List Rows} {origin : Origin}
  {change : Rows → Option Rows} {fill : Rows → Rows}

namespace Rows

/-! ## Rows of one table -/

theorem put_new (h : rows.lookup key = none) (n : Node) : rows.put key n = rows ++ [(key, n)] := by
  rw [put, h]
  rfl

theorem lookup_append_new (h : rows.lookup key = none) (n : Node) : (rows ++ [(key, n)]).lookup key = some n := by
  rw [List.lookup_append, h]
  simp

theorem put_append_new (h : rows.lookup key = none) (n n' : Node) : put (rows ++ [(key, n)]) key n' = rows ++ [(key, n')] := by
  have hsame : rows.map (fun p => if p.1 = key then (key, n') else p) = rows := by
    refine (List.map_congr_left fun p hp => if_neg ?_).trans (List.map_id' rows)
    intro heq
    have hnone := List.lookup_eq_none_iff.1 h p hp
    simp [heq] at hnone
  rw [put, lookup_append_new h, Option.isSome_some, if_pos rfl, List.map_append, hsame]
  simp

theorem changeAt_append (p q : List String) (change : Rows → Option Rows) (rows : Rows) :
    rows.changeAt (p ++ q) change = rows.changeAt p (changeAt q change) := by
  induction p generalizing rows with
  | nil => rfl
  | cons key p ih =>
    have ih' : changeAt (p ++ q) change = changeAt p (changeAt q change) := funext ih
    rw [List.cons_append, changeAt, changeAt, ih']

/-- A table that is named for the first time. -/
theorem changeAt_new (h : rows.lookup key = none) :
    rows.changeAt [key] change = (change []).map fun sub => rows ++ [(key, .table .implied sub)] := by
  rw [changeAt, h]
  change Option.map _ (change []) = _
  simp only [put_new h]

theorem changeAt_table (h : rows.lookup key = none) : changeAt [key] change (rows ++ [(key, .table origin sub)]) =
    (change sub).map fun sub => rows ++ [(key, .table origin sub)] := by
  rw [changeAt, lookup_append_new h]
  change Option.map _ (change sub) = _
  simp only [put_append_new h]

/-- The last table of an array is the one that is meant. -/
theorem changeAt_tables (h : rows.lookup key = none) :
    changeAt [key] change (rows ++ [(key, .tables (items ++ [sub]))]) =
      (change sub).map fun sub => rows ++ [(key, .tables (items ++ [sub]))] := by
  have hlast : changeLast (changeAt [] change) (items ++ [sub]) = (change sub).map fun sub => items ++ [sub] := by
    simp only [changeLast, changeAt, List.getLast?_concat, List.dropLast_concat, Option.bind_eq_bind, Option.bind_some]
    cases change sub <;> rfl
  rw [changeAt, lookup_append_new h]
  simp only [hlast, Option.map_map, put_append_new h, Function.comp_def]

theorem setNew_new (h : rows.lookup key = none) (d : Datum) : rows.setNew key d = some (rows ++ [(key, .value d)]) := by
  rw [setNew, h, put_new h]

theorem defineTable_new (h : rows.lookup key = none) : rows.defineTable key = some (rows ++ [(key, .table .header [])]) := by
  rw [defineTable, h, put_new h]

/-- An array with these tables, of which there may be none yet. -/
def withTables (rows : Rows) (key : String) (items : List Rows) : Rows :=
  if items.isEmpty then rows else rows ++ [(key, .tables items)]

theorem addTable_withTables (h : rows.lookup key = none) :
    (rows.withTables key items).addTable key = some (rows ++ [(key, .tables (items ++ [[]]))]) := by
  cases items with
  | nil =>
    change rows.addTable key = _
    rw [addTable, h, put_new h]
    rfl
  | cons sub items =>
    change addTable key (rows ++ [(key, .tables (sub :: items))]) = _
    rw [addTable, lookup_append_new h]
    simp only [put_append_new h]

end Rows

/-! ## The tree around a table -/

/-- What a path leads to: the rows of a table, and the tree with other rows in their place. -/
structure Spot (root : Rows) (path : List String) (rows : Rows) (fill : Rows → Rows) : Prop where
  change_eq : ∀ change, root.changeAt path change = (change rows).map fill
  refill_eq : ∀ rows change, (fill rows).changeAt path change = (change rows).map fill

namespace Spot

theorem whole (root : Rows) : Spot root [] root id :=
  ⟨fun change => by rw [Option.map_id]; rfl, fun rows change => by rw [Option.map_id]; rfl⟩

/-- After a change the same spot has the new rows. -/
theorem filled (h : Spot root path rows fill) (rows' : Rows) : Spot (fill rows') path rows' fill :=
  ⟨h.refill_eq rows', h.refill_eq⟩

/-- The spot of a table below. -/
theorem below (h : Spot root path rows fill) {wrap : Rows → Rows}
    (hchange : ∀ change, rows.changeAt [key] change = (change sub).map wrap)
    (hrefill : ∀ sub change, (wrap sub).changeAt [key] change = (change sub).map wrap) :
    Spot root (path ++ [key]) sub (fill ∘ wrap) := by
  refine ⟨fun change => ?_, fun sub change => ?_⟩
  · rw [Rows.changeAt_append, h.change_eq, hchange, Option.map_map]
  · rw [Rows.changeAt_append, Function.comp_apply, h.refill_eq, hrefill, Option.map_map]

/-- A table without a header is there as soon as something below it is. -/
theorem implied (h : Spot root path rows fill) (hkey : rows.lookup key = none) :
    Spot root (path ++ [key]) [] (fill ∘ fun sub => rows ++ [(key, .table .implied sub)]) :=
  h.below (fun _ => Rows.changeAt_new hkey) fun _ _ => Rows.changeAt_table hkey

theorem table (h : Spot root path (rows ++ [(key, .table origin sub)]) fill) (hkey : rows.lookup key = none) :
    Spot root (path ++ [key]) sub (fill ∘ fun sub => rows ++ [(key, .table origin sub)]) :=
  h.below (fun _ => Rows.changeAt_table hkey) fun _ _ => Rows.changeAt_table hkey

theorem tables (h : Spot root path (rows ++ [(key, .tables (items ++ [sub]))]) fill) (hkey : rows.lookup key = none) :
    Spot root (path ++ [key]) sub (fill ∘ fun sub => rows ++ [(key, .tables (items ++ [sub]))]) :=
  h.below (fun _ => Rows.changeAt_tables hkey) fun _ _ => Rows.changeAt_tables hkey

end Spot

/-! ## What a tree says -/

theorem toFields_eq (rows : Rows) : Rows.toFields rows = rows.map fun p => (some p.1, p.2.toDatum) := by
  induction rows with
  | nil => rfl
  | cons p rows ih => rw [Rows.toFields, ih, List.map_cons]

theorem toRecords_eq (items : List Rows) : Rows.toRecords items = items.map fun rows => .record (Rows.toFields rows) := by
  induction items with
  | nil => rfl
  | cons rows items ih => rw [Rows.toRecords, ih, List.map_cons]

end TaskFleet.Toml
