/-
  TaskFleet.Proofs.Toml.Documents — a tree of records that is written as a TOML text is read back.

  What comes back is the tree without its nulls and with the plain values of every table in front of
  its tables (`reread`). A tree can be written if its keys are words that occur once, its numbers fit
  64 bits, and it is not too deep (`Writable`).
  - `reads_plain`, `tablesRead`: what the lines of a table and the parts of its tables add to the
    draft, at any place of the tree, by induction on the depth.
  - `parse?_document`: the whole text.
-/

import TaskFleet.Proofs.Toml.Lines
import TaskFleet.Proofs.Toml.Tables

namespace TaskFleet.Toml

/-- The fields of a record as they are written. -/
abbrev Record := List (Option String × Datum)

/-! ## What comes back -/

/-- The fields that take a line of their own. -/
def plainFields (fields : Record) : Record := fields.filter fun f => isPresent f && !isNested f.2

mutual

/-- A tree as its text says it. -/
def reread : Datum → Datum
  | .record fields => .record (plainFields fields ++ rereadNested fields)
  | .list items => .list (if isTables (.list items) then rereadItems items else items)
  | d => d

/-- The tables among some fields. -/
def rereadNested : List (Option String × Datum) → List (Option String × Datum)
  | [] => []
  | (key, d) :: rest => if isNested d then (key, reread d) :: rereadNested rest else rereadNested rest

def rereadItems : List Datum → List Datum
  | [] => []
  | d :: rest => reread d :: rereadItems rest

end

/-- The keys of a record are words, each there once. -/
structure WellKeyed (fields : Record) : Prop where
  word : ∀ f ∈ fields, ∃ key, f.1 = some key ∧ IsWord key
  distinct : (fields.map Prod.fst).Nodup

/-- Trees that a text can hold, at most so many tables deep. -/
inductive Writable : Nat → Datum → Prop
  | null {n : Nat} : Writable n .null
  | flat {n : Nat} {d : Datum} (h : Flat d) : Writable n d
  | table {n : Nat} {fields : Record} (hkeys : WellKeyed fields) (h : ∀ f ∈ fields, Writable n f.2) :
      Writable (n + 1) (.record fields)
  | tables {n : Nat} {records : List Record} (hne : records ≠ []) (hkeys : ∀ fields ∈ records, WellKeyed fields)
      (h : ∀ fields ∈ records, ∀ f ∈ fields, Writable n f.2) : Writable (n + 1) (.list (records.map .record))

variable {fields : Record} {records : List Record} {root rows : Rows} {fill : Rows → Rows} {path : List String} {key : String}
  {n : Nat} {d : Datum}

theorem not_nested_of_flat (h : Flat d) : isNested d = false := by
  cases h with
  | scalar h => cases h <;> rfl
  | @list items h =>
    cases items with
    | nil => rfl
    | cons d items =>
      have hd := h d List.mem_cons_self
      cases hd <;> simp [isNested, isTables, Datum.ofReal, Datum.ofText]

theorem flat_of_plain {f : Option String × Datum} (h : Writable n f.2) (hplain : (isPresent f && !isNested f.2) = true) :
    Flat f.2 := by
  obtain ⟨key, d⟩ := f
  cases h with
  | null => cases hplain
  | flat h => exact h
  | table hkeys h => cases hplain
  | @tables n records hne hkeys h =>
    obtain ⟨fields, records, rfl⟩ := List.exists_cons_of_ne_nil hne
    simp [isNested, isTables] at hplain

/-! ## Plain values -/

/-- A field's line. -/
def fieldLine (f : Option String × Datum) : String := keyText (f.1.getD "") ++ " = " ++ valueText f.2 ++ "\n"

/-- The row of a field with a plain value. -/
def plainRow (f : Option String × Datum) : String × Node := (f.1.getD "", .value f.2)

theorem plainLines_eq (fields : Record) : plainLines fields = String.join ((plainFields fields).map fieldLine) := rfl

/-- Fields that can each have a line under keys that are new to a table. -/
structure Lines (rows : Rows) (fields : Record) : Prop where
  plain : ∀ f ∈ fields, ∃ key, f.1 = some key ∧ IsWord key ∧ Flat f.2 ∧ rows.lookup key = none
  distinct : (fields.map Prod.fst).Nodup

theorem lookup_append_other {rows : Rows} {key other : String} {n : Node} (h : rows.lookup other = none) (hne : other ≠ key) :
    (rows ++ [(key, n)]).lookup other = none := by
  rw [List.lookup_append, h]
  simp [hne]

theorem Lines.tail {f : Option String × Datum} (h : Lines rows (f :: fields)) : Lines (rows ++ [plainRow f]) fields := by
  obtain ⟨hplain, hdistinct⟩ := h
  rw [List.map_cons, List.nodup_cons] at hdistinct
  refine ⟨fun f' hf' => ?_, hdistinct.2⟩
  obtain ⟨key, hkey, -⟩ := hplain f List.mem_cons_self
  obtain ⟨key', hkey', hword, hflat, hnew⟩ := hplain f' (List.mem_cons_of_mem _ hf')
  refine ⟨key', hkey', hword, hflat, lookup_append_other hnew ?_⟩
  intro hsame
  rw [hkey, Option.getD_some] at hsame
  exact hdistinct.1 (List.mem_map.2 ⟨f', hf', by rw [hkey, hkey', hsame]⟩)

theorem reads_plain (h : Spot (fill rows) path rows fill) (hlines : Lines rows fields) :
    Reads (String.join (fields.map fieldLine)).toList ⟨fill rows, path⟩ ⟨fill (rows ++ fields.map plainRow), path⟩ := by
  induction fields generalizing rows with
  | nil =>
    rw [List.map_nil, List.map_nil, List.append_nil]
    exact reads_nil _
  | cons f fields ih =>
    obtain ⟨key, hkey, hword, hflat, hnew⟩ := hlines.plain f List.mem_cons_self
    have hrow : plainRow f = (key, .value f.2) := by rw [plainRow, hkey]; rfl
    have hset : (fill rows).changeAt path (Rows.setNew key f.2) = some (fill (rows ++ [plainRow f])) := by
      rw [h.change_eq, Rows.setNew_new hnew, hrow]
      rfl
    have hline : Reads (fieldLine f).toList ⟨fill rows, path⟩ ⟨fill (rows ++ [plainRow f]), path⟩ := by
      rw [fieldLine, hkey]
      exact reads_pair hword hflat hset
    have htext : (String.join ((f :: fields).map fieldLine)).toList =
        (fieldLine f).toList ++ (String.join (fields.map fieldLine)).toList := by
      simp [String.toList_join]
    have hrows : rows ++ (f :: fields).map plainRow = rows ++ [plainRow f] ++ fields.map plainRow := by simp
    rw [htext, hrows]
    exact hline.append (ih (h.filled _) hlines.tail)

theorem join_eq_empty : plainLines fields = "" ↔ plainFields fields = [] := by
  rw [plainLines_eq]
  constructor
  · intro h
    match hfields : plainFields fields with
    | [] => rfl
    | f :: rest =>
      rw [hfields] at h
      have hnil := congrArg String.toList h
      simp [String.toList_join, fieldLine] at hnil
  · intro h
    rw [h]
    rfl

/-! ## Parts -/

/-- The parts of a text, each behind a blank line. -/
def partsText (parts : List String) : List Char := parts.flatMap fun part => '\n' :: part.toList

@[simp] theorem partsText_append (parts parts' : List String) :
    partsText (parts ++ parts') = partsText parts ++ partsText parts' := List.flatMap_append

theorem toFields_append (rows rows' : Rows) : Rows.toFields (rows ++ rows') = Rows.toFields rows ++ Rows.toFields rows' := by
  rw [toFields_eq, toFields_eq, toFields_eq, List.map_append]

theorem toFields_plainRow (h : ∀ f ∈ fields, ∃ key, f.1 = some key ∧ IsWord key) :
    Rows.toFields (fields.map plainRow) = fields := by
  induction fields with
  | nil => rfl
  | cons f fields ih =>
    obtain ⟨key, d⟩ := f
    obtain ⟨key, rfl, -⟩ := h _ List.mem_cons_self
    rw [List.map_cons, plainRow, Rows.toFields, ih fun f hf => h f (List.mem_cons_of_mem _ hf)]
    rfl

/-- Where in a tree the tables among some fields are to be added. -/
structure Adds (n : Nat) (root : Rows) (path : List String) (rows : Rows) (fill : Rows → Rows) (fields : Record) : Prop where
  spot : Spot root path rows fill
  keyed : WellKeyed fields
  writable : ∀ f ∈ fields, Writable n f.2
  words : ∀ part ∈ path, IsWord part
  depth : path.length + n < depthLimit
  /-- The keys of the tables are new. -/
  fresh : ∀ f ∈ fields, isNested f.2 = true → rows.lookup (f.1.getD "") = none

/-- Tables this deep add their rows to the table they are in; where no table is there yet, one has to come. -/
def TablesRead (n : Nat) : Prop := ∀ root path rows fill fields, Adds n root path rows fill fields →
  (root = fill rows ∨ fields.any (fun f => isNested f.2) = true) → ∀ current, ∃ new current',
    Rows.toFields new = rereadNested fields ∧
      Reads (partsText (fieldParts (pathOf path) fields)) ⟨root, current⟩ ⟨fill (rows ++ new), current'⟩

theorem getD_mem (hkeys : WellKeyed fields) {f f' : Option String × Datum} (hf : f ∈ fields) (hf' : f' ∈ fields)
    (hsame : f.1.getD "" = f'.1.getD "") : f = f' := by
  obtain ⟨key, hkey, -⟩ := hkeys.word f hf
  obtain ⟨key', hkey', -⟩ := hkeys.word f' hf'
  rw [hkey, hkey', Option.getD_some, Option.getD_some] at hsame
  exact List.inj_on_of_nodup_map hkeys.distinct hf hf' (by rw [hkey, hkey', hsame])

/-- Behind its header, or at the top, a table takes its plain values and then its tables. -/
theorem reads_body (ih : TablesRead n) (hspot : Spot root path [] fill) (hroot : root = fill []) (hkeys : WellKeyed fields)
    (hfields : ∀ f ∈ fields, Writable n f.2) (hwords : ∀ part ∈ path, IsWord part) (hdepth : path.length + n < depthLimit) :
    ∃ body current, Rows.toFields body = plainFields fields ++ rereadNested fields ∧
      Reads ((plainLines fields).toList ++ partsText (fieldParts (pathOf path) fields)) ⟨root, path⟩ ⟨fill body, current⟩ := by
  subst hroot
  have hplain : ∀ f ∈ plainFields fields, f ∈ fields ∧ (isPresent f && !isNested f.2) = true :=
    fun f hf => List.mem_filter.1 hf
  have hlines : Lines [] (plainFields fields) := by
    refine ⟨fun f hf => ?_, hkeys.distinct.sublist (List.filter_sublist.map _)⟩
    obtain ⟨hmem, hpresent⟩ := hplain f hf
    obtain ⟨key, hkey, hword⟩ := hkeys.word f hmem
    exact ⟨key, hkey, hword, flat_of_plain (hfields f hmem) hpresent, rfl⟩
  have hread := reads_plain hspot hlines
  rw [← plainLines_eq, List.nil_append] at hread
  have hfresh : ∀ f ∈ fields, isNested f.2 = true →
      ((plainFields fields).map plainRow).lookup (f.1.getD "") = none := by
    intro f hf hnested
    rw [List.lookup_eq_none_iff]
    intro row hrow
    obtain ⟨f', hf', rfl⟩ := List.mem_map.1 hrow
    obtain ⟨hmem', hpresent⟩ := hplain f' hf'
    simp only [plainRow, bne_iff_ne, ne_eq]
    intro hsame
    rw [getD_mem hkeys hf hmem' hsame] at hnested
    simp [hnested] at hpresent
  obtain ⟨new, current, hnew, hrest⟩ := ih _ path ((plainFields fields).map plainRow) fill fields
    ⟨hspot.filled _, hkeys, hfields, hwords, hdepth, hfresh⟩ (.inl rfl) path
  refine ⟨_, current, ?_, hread.append hrest⟩
  rw [toFields_append, hnew, toFields_plainRow fun f hf => hkeys.word f (hplain f hf).1]

/-! ## Tables -/

/-- What a part with a header consists of. -/
theorem partsText_header (opening closing path : String) (fields : Record) :
    partsText [opening ++ path ++ closing ++ "\n" ++ plainLines fields] =
      ['\n'] ++ (opening ++ path ++ closing ++ "\n").toList ++ (plainLines fields).toList := by
  simp [partsText]

theorem tablePart_cases (path : String) (fields : Record) :
    tablePart "[" "]" path false fields = ["[" ++ path ++ "]" ++ "\n" ++ plainLines fields] ∨
      tablePart "[" "]" path false fields = [] ∧ plainFields fields = [] ∧ fields.any (fun f => isNested f.2) = true := by
  unfold tablePart
  simp only [Bool.false_or]
  split
  · exact .inl rfl
  · next h =>
    simp only [Bool.or_eq_true, bne_iff_ne, ne_eq, Bool.not_eq_true', not_or, not_not, Bool.not_eq_false] at h
    have hplain := join_eq_empty.1 h.1
    refine .inr ⟨rfl, hplain, ?_⟩
    obtain ⟨f, hf, hpresent⟩ := List.any_eq_true.1 h.2
    refine List.any_eq_true.2 ⟨f, hf, ?_⟩
    by_contra hnested
    have hmem : f ∈ plainFields fields := List.mem_filter.2 ⟨hf, by simp [hpresent, hnested]⟩
    rw [hplain] at hmem
    cases hmem

/-- A table under a new key. -/
theorem reads_table (ih : TablesRead n) (hspot : Spot root path rows fill) (hkeys : WellKeyed fields)
    (hfields : ∀ f ∈ fields, Writable n f.2) (hwords : ∀ part ∈ path ++ [key], IsWord part)
    (hdepth : path.length + 1 + n < depthLimit) (hnew : rows.lookup key = none) (current : List String) :
    ∃ node current', node.toDatum = reread (.record fields) ∧
      Reads (partsText (nestedParts (pathOf (path ++ [key])) (.record fields))) ⟨root, current⟩
        ⟨fill (rows ++ [(key, node)]), current'⟩ := by
  have hlength : (path ++ [key]).length + n < depthLimit := by simpa using hdepth
  rw [nestedParts, partsText_append]
  rcases tablePart_cases (pathOf (path ++ [key])) fields with hpart | ⟨hpart, hplain, hnested⟩
  · have hdefine : root.changeAt path (Rows.defineTable key) = some (fill (rows ++ [(key, .table .header [])])) := by
      rw [hspot.change_eq, Rows.defineTable_new hnew]
      rfl
    have hheader := reads_header (t := ⟨root, current⟩) hwords (by omega) hdefine
    have htable : Spot (fill (rows ++ [(key, .table .header [])])) (path ++ [key]) []
        (fill ∘ fun sub => rows ++ [(key, .table .header sub)]) := (hspot.filled _).table hnew
    obtain ⟨body, current', hbody, hread⟩ := reads_body ih htable rfl hkeys hfields hwords hlength
    refine ⟨.table .header body, current', ?_, ?_⟩
    · rw [Node.toDatum, hbody, reread]
    · rw [hpart, partsText_header, List.append_assoc]
      exact ((reads_blank _).append hheader).append hread
  · obtain ⟨new, current', hfieldsnew, hread⟩ := ih root (path ++ [key]) [] _ fields
      ⟨hspot.implied hnew, hkeys, hfields, hwords, hlength, fun _ _ _ => rfl⟩ (.inr hnested) current
    refine ⟨.table .implied new, current', ?_, ?_⟩
    · rw [Node.toDatum, hfieldsnew, reread, hplain, List.nil_append]
    · rw [hpart]
      exact hread

/-- The tables of an array behind those that are there. -/
theorem reads_tables (ih : TablesRead n) {items : List Rows} (hspot : Spot root path (rows.withTables key items) fill)
    (hroot : root = fill (rows.withTables key items) ∨ records ≠ []) (hkeys : ∀ fields ∈ records, WellKeyed fields)
    (hfields : ∀ fields ∈ records, ∀ f ∈ fields, Writable n f.2) (hwords : ∀ part ∈ path ++ [key], IsWord part)
    (hdepth : path.length + 1 + n < depthLimit) (hnew : rows.lookup key = none) (current : List String) :
    ∃ bodies current', Rows.toRecords bodies = rereadItems (records.map .record) ∧
      Reads (partsText (elementParts (pathOf (path ++ [key])) (records.map .record))) ⟨root, current⟩
        ⟨fill (rows.withTables key (items ++ bodies)), current'⟩ := by
  have hlength : (path ++ [key]).length + n < depthLimit := by simpa using hdepth
  induction records generalizing root items current with
  | nil =>
    obtain rfl := hroot.resolve_right fun h => h rfl
    refine ⟨[], current, rfl, ?_⟩
    rw [List.append_nil]
    exact reads_nil _
  | cons fields records ih' =>
    have hadd : root.changeAt path (Rows.addTable key) = some (fill (rows ++ [(key, .tables (items ++ [[]]))])) := by
      rw [hspot.change_eq, Rows.addTable_withTables hnew]
      rfl
    have hheader := reads_arrayHeader (t := ⟨root, current⟩) hwords (by omega) hadd
    have htables : Spot (fill (rows ++ [(key, .tables (items ++ [[]]))])) (path ++ [key]) []
        (fill ∘ fun sub => rows ++ [(key, .tables (items ++ [sub]))]) := (hspot.filled _).tables hnew
    obtain ⟨body, current', hbody, hread⟩ := reads_body ih htables rfl (hkeys fields List.mem_cons_self)
      (hfields fields List.mem_cons_self) hwords hlength
    have hwith : rows ++ [(key, .tables (items ++ [body]))] = rows.withTables key (items ++ [body]) := by
      simp [Rows.withTables]
    rw [Function.comp_apply, hwith] at hread
    have hnext : Spot (fill (rows.withTables key (items ++ [body]))) path (rows.withTables key (items ++ [body])) fill :=
      hspot.filled _
    obtain ⟨bodies, current'', hbodies, hrest⟩ := ih' hnext (.inl rfl)
      (fun fields h => hkeys fields (List.mem_cons_of_mem _ h))
      (fun fields h => hfields fields (List.mem_cons_of_mem _ h)) current'
    have hpart : tablePart "[[" "]]" (pathOf (path ++ [key])) true fields =
        ["[[" ++ pathOf (path ++ [key]) ++ "]]" ++ "\n" ++ plainLines fields] := rfl
    refine ⟨body :: bodies, current'', ?_, ?_⟩
    · rw [Rows.toRecords, hbody, hbodies]
      rfl
    · rw [List.map_cons, elementParts, hpart, partsText_append, partsText_append, partsText_header,
        List.append_assoc ['\n' ]]
      have h := (((reads_blank _).append hheader).append hread).append hrest
      simpa using h

theorem nestedParts_plain (h : isNested d = false) (path : String) : nestedParts path d = [] := by
  cases d with
  | record fields => cases h
  | list items =>
    change isTables (.list items) = false at h
    rw [nestedParts, h]
    rfl
  | _ => rfl

theorem reads_nested (ih : ∀ m, n = m + 1 → TablesRead m) (h : Writable n d) (hnested : isNested d = true)
    (hspot : Spot root path rows fill) (hwords : ∀ part ∈ path ++ [key], IsWord part) (hdepth : path.length + n < depthLimit)
    (hnew : rows.lookup key = none) (current : List String) :
    ∃ node current', node.toDatum = reread d ∧
      Reads (partsText (nestedParts (pathOf (path ++ [key])) d)) ⟨root, current⟩ ⟨fill (rows ++ [(key, node)]), current'⟩ := by
  cases h with
  | null => cases hnested
  | flat h => rw [not_nested_of_flat h] at hnested; cases hnested
  | @table m fields hkeys hfields =>
    exact reads_table (ih m rfl) hspot hkeys hfields hwords (by omega) hnew current
  | @tables m records hne hkeys hfields =>
    have hnone : Spot root path (rows.withTables key []) fill := hspot
    obtain ⟨bodies, current', hbodies, hread⟩ := reads_tables (ih m rfl) hnone (.inr hne) hkeys hfields hwords
      (by omega) hnew current
    have htables : isTables (.list (records.map .record)) = true := hnested
    have hsome : rows.withTables key ([] ++ bodies) = rows ++ [(key, .tables bodies)] := by
      cases bodies with
      | nil =>
        obtain ⟨fields, records, rfl⟩ := List.exists_cons_of_ne_nil hne
        cases hbodies
      | cons body bodies => rfl
    refine ⟨.tables bodies, current', ?_, ?_⟩
    · rw [Node.toDatum, hbodies, reread, if_pos htables]
    · rw [nestedParts, if_pos htables, ← hsome]
      exact hread

theorem WellKeyed.tail {f : Option String × Datum} (h : WellKeyed (f :: fields)) : WellKeyed fields :=
  ⟨fun f' hf' => h.word f' (List.mem_cons_of_mem _ hf'), (List.nodup_cons.1 h.distinct).2⟩

/-- What is left to add once a field has its rows. -/
theorem Adds.tail {f : Option String × Datum} (h : Adds n root path rows fill (f :: fields)) {rows' root' : Rows}
    (hspot : Spot root' path rows' fill)
    (hrows : ∀ f' ∈ fields, rows.lookup (f'.1.getD "") = none → rows'.lookup (f'.1.getD "") = none) :
    Adds n root' path rows' fill fields where
  spot := hspot
  keyed := h.keyed.tail
  writable := fun f' hf' => h.writable f' (List.mem_cons_of_mem _ hf')
  words := h.words
  depth := h.depth
  fresh := fun f' hf' hnested => hrows f' hf' (h.fresh f' (List.mem_cons_of_mem _ hf') hnested)

theorem Adds.word (h : Adds n root path rows fill ((some key, d) :: fields)) : ∀ part ∈ path ++ [key], IsWord part := by
  intro part hpart
  rcases List.mem_append.1 hpart with hpart | hpart
  · exact h.words part hpart
  · obtain ⟨key', hkey', hword⟩ := h.keyed.word _ List.mem_cons_self
    obtain rfl := Option.some.inj hkey'
    exact List.mem_singleton.1 hpart ▸ hword

/-- A table behind the rows leaves the later keys new. -/
theorem Adds.next (h : Adds n root path rows fill ((some key, d) :: fields)) (node : Node) :
    Adds n (fill (rows ++ [(key, node)])) path (rows ++ [(key, node)]) fill fields := by
  refine h.tail (h.spot.filled _) fun f hf hnew => lookup_append_other hnew fun hsame => ?_
  obtain ⟨key', hkey', -⟩ := h.keyed.tail.word f hf
  rw [hkey', Option.getD_some] at hsame
  exact (List.nodup_cons.1 h.keyed.distinct).1 (List.mem_map.2 ⟨f, hf, by rw [hkey', hsame]⟩)

theorem tablesRead_of_below (ih : ∀ m, n = m + 1 → TablesRead m) : TablesRead n := by
  intro root path rows fill fields h hroot current
  induction fields generalizing root rows current with
  | nil =>
    obtain rfl := hroot.resolve_right (by simp)
    refine ⟨[], current, rfl, ?_⟩
    rw [List.append_nil]
    exact reads_nil _
  | cons f fields ih' =>
    obtain ⟨key, d⟩ := f
    obtain ⟨key, rfl, -⟩ := h.keyed.word _ List.mem_cons_self
    rw [fieldParts, partsText_append, Option.getD_some, pathText_pathOf, rereadNested]
    cases hnested : isNested d with
    | true =>
      obtain ⟨node, current', hnode, hread⟩ := reads_nested ih (h.writable _ List.mem_cons_self) hnested h.spot h.word h.depth
        (h.fresh _ List.mem_cons_self hnested) current
      obtain ⟨new, current'', hnew, hrest⟩ := ih' _ _ (h.next node) (.inl rfl) current'
      refine ⟨(key, node) :: new, current'', ?_, ?_⟩
      · rw [Rows.toFields, hnode, hnew]
        rfl
      · rw [List.append_assoc, List.singleton_append] at hrest
        exact hread.append hrest
    | false =>
      have hroot' : root = fill rows ∨ fields.any (fun f => isNested f.2) = true := by
        simpa [hnested] using hroot
      obtain ⟨new, current', hnew, hrest⟩ := ih' _ _ (h.tail h.spot fun _ _ h => h) hroot' current
      refine ⟨new, current', hnew, ?_⟩
      rw [nestedParts_plain hnested]
      exact hrest

/-- The tables of a tree are read back at any depth. -/
theorem tablesRead (n : Nat) : TablesRead n := by
  induction n with
  | zero => exact tablesRead_of_below fun m hm => by omega
  | succ n ih =>
    refine tablesRead_of_below fun m hm => ?_
    obtain rfl : n = m := by omega
    exact ih

/-! ## Whole texts -/

theorem partsText_eq {parts : List String} (hne : parts ≠ []) :
    partsText parts = '\n' :: ("\n".intercalate parts).toList := by
  rw [String.toList_intercalate]
  induction parts with
  | nil => exact absurd rfl hne
  | cons part parts ih =>
    cases parts with
    | nil => simp [partsText]
    | cons part' parts =>
      have hrest := ih (by simp)
      rw [partsText, List.flatMap_cons, ← partsText, hrest]
      simp [List.intercalate_cons_cons]

/-- All the parts of a record's text. -/
def documentParts (fields : Record) : List String :=
  (if plainLines fields = "" then [] else [plainLines fields]) ++ fieldParts "" fields

theorem reads_document (hkeys : WellKeyed fields) (hfields : ∀ f ∈ fields, Writable n f.2) (hdepth : n < depthLimit) :
    ∃ body current, Rows.toFields body = plainFields fields ++ rereadNested fields ∧
      Reads (partsText (documentParts fields)) {} ⟨body, current⟩ := by
  obtain ⟨body, current, hbody, hread⟩ := reads_body (tablesRead n) (Spot.whole []) rfl hkeys hfields (by simp)
    (by simpa using hdepth)
  refine ⟨body, current, hbody, ?_⟩
  rw [documentParts, partsText_append]
  by_cases hplain : plainLines fields = ""
  · rw [hplain] at hread
    rw [if_pos hplain]
    exact hread
  · have hline : partsText [plainLines fields] = ['\n'] ++ (plainLines fields).toList := by simp [partsText]
    rw [if_neg hplain, hline, List.append_assoc]
    exact (reads_blank _).append hread

/-- A text that reads begins with no byte order mark. -/
theorem not_marked {t : Draft} {cs r : List Char} {fuel : Nat} (h : Draft.lines? fuel {} cs = some t) :
    cs ≠ '\ufeff' :: r := by
  rintro rfl
  cases fuel <;> cases h

/-- A tree that can be written is read back from its text. -/
theorem parse?_document (hkeys : WellKeyed fields) (hfields : ∀ f ∈ fields, Writable n f.2) (hdepth : n < depthLimit) :
    parse? (document (.record fields)) = some (reread (.record fields)) := by
  obtain ⟨body, current, hbody, hread⟩ := reads_document hkeys hfields hdepth
  have hdocument : document (.record fields) = "\n".intercalate (documentParts fields) := rfl
  have hlines : Draft.lines? ((document (.record fields)).toList.length + 1) {} (document (.record fields)).toList =
      some ⟨body, current⟩ := by
    rw [hdocument]
    by_cases hparts : documentParts fields = []
    · rw [hparts] at hread ⊢
      exact hread.lines? (by simp [partsText])
    · rw [partsText_eq hparts] at hread
      -- the reader skips the blank line in front and goes on with one unit of fuel less
      exact hread.lines? (Nat.lt_succ_self _)
  unfold parse?
  split
  · next r hmark => exact absurd hmark (not_marked hlines)
  · dsimp only
    rw [hlines, Option.map_some, hbody, reread]

end TaskFleet.Toml
