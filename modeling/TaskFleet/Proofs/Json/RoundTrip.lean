/-
  TaskFleet.Proofs.Json.RoundTrip — a tree written on one line is read back as it was.

  - `Plain`: the trees this holds of. Their texts and keys have a value, their whole numbers
    fit 64 bits, and they have no decimal numbers and no times.
  - `Legible`: what the reader makes of the text of one tree, whatever comes after it. Lists
    and records are legible if their elements are (`items?_render`, `members?_render`).
  - `parse?_compress`: the text of a plain tree stands for that tree and no other.
-/

import TaskFleet.Proofs.Json.Tokens

namespace TaskFleet.Json

open Text

variable {c : Char} {cs rest : List Char} {fuel : Nat} {d : Datum}

/-- Trees that a text on one line can write. -/
inductive Plain : Datum → Prop
  | null : Plain .null
  | bool (b : Bool) : Plain (.bool b)
  | whole {n : Int} : Int64.minValue.toInt ≤ n → n < UInt64.size → Plain (.whole n)
  | text (s : String) : Plain (.text (some s))
  | list {items : List Datum} : (∀ d ∈ items, Plain d) → Plain (.list items)
  | record {fields : List (Option String × Datum)} : (∀ p ∈ fields, p.1.isSome = true) →
      (∀ p ∈ fields, Plain p.2) → Plain (.record fields)

/-- The text of a tree, on one line. -/
def written (d : Datum) : List Char := (compress d).toList

/-- A key with its colon and its value. -/
def fieldText (p : Option String × Datum) : String := quote (p.1.getD "") ++ ":" ++ compress p.2

def writtenField (p : Option String × Datum) : List Char := (fieldText p).toList

/-- Texts with commas between them. -/
def commas (texts : List (List Char)) : List Char := [','].intercalate texts

/-! ## The text of a tree by its parts -/

mutual

/-- On one line the depth does not matter. -/
theorem render_compact (n : Nat) : ∀ d, render .compact n d = compress d
  | .null | .bool _ | .whole _ | .real _ | .text _ | .moment => rfl
  | .list items => by
    rw [compress, render, render, renderItems_compact (n + 1) items, renderItems_compact (0 + 1) items]
    rfl
  | .record fields => by
    rw [compress, render, render, renderFields_compact (n + 1) fields, renderFields_compact (0 + 1) fields]
    rfl

theorem renderItems_compact (n : Nat) : ∀ ds, renderItems .compact n ds = ds.map compress
  | [] => rfl
  | d :: ds => by rw [renderItems, render_compact n d, renderItems_compact n ds, List.map_cons]

theorem renderFields_compact (n : Nat) : ∀ fs, renderFields .compact n fs = fs.map fieldText
  | [] => rfl
  | (k, d) :: fs => by
    rw [renderFields, render_compact n d, renderFields_compact n fs, List.map_cons]
    rfl

end

theorem toList_quote (s : String) : (quote s).toList = '"' :: (s.toList.flatMap escape ++ ['"']) := by
  rw [quote, String.toList_ofList]
  rfl

theorem writtenField_eq (k : String) (d : Datum) :
    writtenField (some k, d) = '"' :: (k.toList.flatMap escape ++ '"' :: ':' :: written d) := by
  rw [writtenField, fieldText, String.toList_append, String.toList_append, Option.getD_some, toList_quote]
  simp [written]

theorem written_text (s : String) : written (.text (some s)) = '"' :: (s.toList.flatMap escape ++ ['"']) :=
  toList_quote s

theorem toList_bracket (n : Nat) (opening closing : String) (texts : List String) :
    (bracket .compact n opening closing texts).toList =
      opening.toList ++ commas (texts.map String.toList) ++ closing.toList := by
  cases texts with
  | nil => simp [bracket, commas]
  | cons t ts =>
    simp [bracket, commas, Layout.newline]

theorem written_list (items : List Datum) :
    written (.list items) = '[' :: (commas (items.map written) ++ [']']) := by
  rw [written, compress, render, renderItems_compact, toList_bracket, List.map_map]
  rfl

theorem written_record (fields : List (Option String × Datum)) :
    written (.record fields) = '\x7b' :: (commas (fields.map writtenField) ++ ['\x7d']) := by
  rw [written, compress, render, renderFields_compact, toList_bracket, List.map_map]
  rfl

theorem commas_cons_cons (t t' : List Char) (ts : List (List Char)) :
    commas (t :: t' :: ts) = t ++ ',' :: commas (t' :: ts) := by
  rw [commas, List.intercalate_cons_cons, List.append_assoc]
  rfl

/-! ## What a text starts with -/

/-- The text starts with a character that begins a value. -/
def Opens (cs : List Char) : Prop := ∃ c r, cs = c :: r ∧ c ∉ [' ', '\t', '\n', '\r', ']', '\x7d']

theorem Opens.append (h : Opens cs) (r : List Char) : Opens (cs ++ r) := by
  obtain ⟨c, r', rfl, hc⟩ := h
  exact ⟨c, r' ++ r, rfl, hc⟩

theorem Opens.ne_cons (h : Opens cs) (hc : c ∈ [' ', '\t', '\n', '\r', ']', '\x7d']) (r : List Char) : cs ≠ c :: r := by
  rintro rfl
  obtain ⟨c', r', e, hc'⟩ := h
  cases e
  exact hc' hc

theorem Opens.skipBlanks (h : Opens cs) : skipBlanks cs = cs := by
  obtain ⟨c, r, rfl, hc⟩ := h
  rw [Json.skipBlanks, if_neg]
  simp at hc
  grind

theorem opens_commas (t : List Char) (ts : List (List Char)) (h : Opens t) : Opens (commas (t :: ts)) := by
  cases ts with
  | nil => simpa [commas] using h
  | cons t' ts =>
    rw [commas_cons_cons]
    exact h.append _

/-- A number starts with its sign or with a digit. -/
def numeric (c : Char) : Bool := c == '-' || c.isDigit

theorem exists_toString_cons (m : Int) : ∃ c r, (toString m).toList = c :: r ∧ numeric c = true := by
  rw [toList_toString]
  split
  · exact ⟨'-', _, rfl, rfl⟩
  · cases hd : Nat.toDigits 10 m.natAbs with
    | nil => exact absurd hd Nat.toDigits_ne_nil
    | cons c r =>
      have hdigit := isDigit_toDigits m.natAbs c (hd ▸ List.mem_cons_self)
      exact ⟨c, r, rfl, by rw [numeric, hdigit, Bool.or_true]⟩

theorem numeric_eq_false :
    ∀ c ∈ [' ', '\t', '\n', '\r', ']', '\x7d', '"', '[', '\x7b', 'n', 't', 'f'], numeric c = false := by
  simp only [List.forall_mem_cons]
  exact ⟨rfl, rfl, rfl, rfl, rfl, rfl, rfl, rfl, rfl, rfl, rfl, rfl, nofun⟩

theorem opens_of_numeric (h : numeric c = true) : Opens (c :: rest) := by
  refine ⟨c, rest, rfl, fun hc => ?_⟩
  have hfalse := numeric_eq_false c (List.mem_append_left ['"', '[', '\x7b', 'n', 't', 'f'] hc)
  rw [h] at hfalse
  cases hfalse

theorem opens_toString (m : Int) : Opens (toString m).toList := by
  obtain ⟨c, r, h, hc⟩ := exists_toString_cons m
  rw [h]
  exact opens_of_numeric hc

theorem Plain.opens {d : Datum} (h : Plain d) : Opens (written d) := by
  cases h with
  | null => exact ⟨'n', _, rfl, by decide⟩
  | bool b =>
    cases b with
    | false => exact ⟨'f', _, rfl, by decide⟩
    | true => exact ⟨'t', _, rfl, by decide⟩
  | whole _ _ => exact opens_toString _
  | text s => exact ⟨'"', _, written_text s, by decide⟩
  | list _ => exact ⟨'[', _, written_list _, by decide⟩
  | record _ _ => exact ⟨'\x7b', _, written_record _, by decide⟩

/-! ## Reading it back -/

/-- Whatever ends a number may follow the text of the tree, and the reader stops before it. -/
def Legible (d : Datum) : Prop :=
  ∀ ⦃fuel rest⦄, EndsNumber rest → (written d).length ≤ fuel → value? fuel (written d ++ rest) = some (d, rest)

theorem endsNumber_cons (h : c = ',' ∨ c = ']' ∨ c = '\x7d') (r : List Char) : EndsNumber (c :: r) := by
  intro c' hc'
  cases hc'
  rcases h with rfl | rfl | rfl <;> decide

theorem endsNumber_nil : EndsNumber [] := by
  intro c hc
  cases hc

theorem value?_of_numeric (h : numeric c = true) :
    value? (fuel + 1) (c :: rest) = (numeral? (c :: rest)).map fun p => (p.1.toDatum, p.2) := by
  rw [value?, (opens_of_numeric h).skipBlanks]
  split
  iterate 6
    next e => cases e; exact absurd h (by decide)
  rfl

theorem legible_whole {m : Int} (hlo : Int64.minValue.toInt ≤ m) (hhi : m < UInt64.size) : Legible (.whole m) := by
  intro fuel rest hrest hfuel
  obtain ⟨c, r, h, hc⟩ := exists_toString_cons m
  have hwritten : written (.whole m) = (toString m).toList := rfl
  rw [hwritten] at hfuel ⊢
  cases fuel with
  | zero => rw [h] at hfuel; cases hfuel
  | succ fuel =>
    have hread := numeral?_toString m hrest
    rw [h, List.cons_append] at hread ⊢
    rw [value?_of_numeric hc, hread, Option.map_some, toDatum_ofInt hlo hhi]

theorem legible_text (s : String) : Legible (.text (some s)) := by
  intro fuel rest _ hfuel
  cases fuel with
  | zero => rw [written_text] at hfuel; cases hfuel
  | succ fuel =>
    rw [written_text, List.cons_append, List.append_assoc, value?]
    show (string? (_ ++ '"' :: rest)).map _ = _
    rw [string?_quote]
    rfl

/-- The elements of a list up to its bracket. -/
theorem items?_written {ds : List Datum} (hne : ds ≠ []) (hplain : ∀ d ∈ ds, Legible d)
    (hfuel : (commas (ds.map written)).length < fuel) :
    items? fuel (commas (ds.map written) ++ ']' :: rest) = some (ds, rest) := by
  -- every element takes a unit of fuel, and its text with the comma has more than one character
  induction ds generalizing fuel with
  | nil => exact absurd rfl hne
  | cons d ds ih =>
    have hd : Legible d := hplain d List.mem_cons_self
    cases fuel with
    | zero => omega
    | succ fuel =>
      rw [items?]
      cases ds with
      | nil =>
        have hcommas : commas ([d].map written) = written d := by simp [commas]
        rw [hcommas] at hfuel ⊢
        rw [hd (endsNumber_cons (.inr (.inl rfl)) rest) (by omega)]
        rfl
      | cons d' ds =>
        rw [List.map_cons, List.map_cons, commas_cons_cons] at hfuel ⊢
        rw [List.append_assoc, List.cons_append, hd (endsNumber_cons (.inl rfl) _)
          (by rw [List.length_append] at hfuel; omega)]
        have hrest : items? fuel (commas ((d' :: ds).map written) ++ ']' :: rest) = _ :=
          ih (List.cons_ne_nil _ _) (fun d'' h => hplain d'' (List.mem_cons_of_mem _ h))
            (by simp only [List.length_append, List.length_cons] at hfuel; simpa using by omega)
        show (items? fuel (commas ((d' :: ds).map written) ++ ']' :: rest)).bind _ = _
        rw [hrest]
        rfl

/-- The fields of a record up to its brace. -/
theorem members?_written {fs : List (Option String × Datum)} (hne : fs ≠ []) (hkeys : ∀ p ∈ fs, p.1.isSome = true)
    (hplain : ∀ p ∈ fs, Legible p.2) (hfuel : (commas (fs.map writtenField)).length < fuel) :
    members? fuel (commas (fs.map writtenField) ++ '\x7d' :: rest) = some (fs, rest) := by
  induction fs generalizing fuel with
  | nil => exact absurd rfl hne
  | cons p fs ih =>
    obtain ⟨key, d⟩ := p
    obtain ⟨k, rfl⟩ := Option.isSome_iff_exists.1 (hkeys _ List.mem_cons_self)
    have hd : Legible d := hplain _ List.mem_cons_self
    cases fuel with
    | zero => omega
    | succ fuel =>
      cases fs with
      | nil =>
        have hcommas : commas ([(some k, d)].map writtenField) = writtenField (some k, d) := by simp [commas]
        rw [hcommas, writtenField_eq] at hfuel ⊢
        simp only [List.length_append, List.length_cons] at hfuel
        rw [List.cons_append, List.append_assoc, List.cons_append, List.cons_append, members?]
        show (string? (_ ++ '"' :: _)).bind _ = _
        rw [string?_quote, Option.bind_some]
        show (value? fuel _).bind _ = _
        rw [hd (endsNumber_cons (.inr (.inr rfl)) rest) (by omega)]
        rfl
      | cons q fs =>
        rw [List.map_cons, List.map_cons, commas_cons_cons, writtenField_eq] at hfuel ⊢
        simp only [List.length_append, List.length_cons] at hfuel
        have hrest : members? fuel (commas ((q :: fs).map writtenField) ++ '\x7d' :: rest) = _ :=
          ih (List.cons_ne_nil _ _) (fun p' h => hkeys p' (List.mem_cons_of_mem _ h))
            (fun p' h => hplain p' (List.mem_cons_of_mem _ h)) (by rw [List.map_cons]; omega)
        simp only [List.cons_append, List.append_assoc]
        rw [members?]
        show (string? (_ ++ '"' :: _)).bind _ = _
        rw [string?_quote, Option.bind_some]
        show (value? fuel _).bind _ = _
        rw [hd (endsNumber_cons (.inl rfl) _) (by omega), Option.bind_some]
        show (members? fuel (commas ((q :: fs).map writtenField) ++ '\x7d' :: rest)).bind _ = _
        rw [hrest]
        rfl

theorem value?_list (h : Opens cs) :
    value? (fuel + 1) ('[' :: cs) = (items? fuel cs).map fun p => (.list p.1, p.2) := by
  have hopening : skipBlanks ('[' :: cs) = '[' :: cs := rfl
  have hclosing := h.ne_cons (c := ']') (by decide)
  simp only [value?, hopening, h.skipBlanks]

theorem value?_record (h : Opens cs) :
    value? (fuel + 1) ('\x7b' :: cs) = (members? fuel cs).map fun p => (.record p.1, p.2) := by
  have hopening : skipBlanks ('\x7b' :: cs) = '\x7b' :: cs := rfl
  have hclosing := h.ne_cons (c := '\x7d') (by decide)
  simp only [value?, hopening, h.skipBlanks]

theorem legible_list {items : List Datum} (hplain : ∀ d ∈ items, Plain d) (h : ∀ d ∈ items, Legible d) :
    Legible (.list items) := by
  intro fuel rest _ hfuel
  rw [written_list] at hfuel ⊢
  simp only [List.length_cons, List.length_append] at hfuel
  cases fuel with
  | zero => omega
  | succ fuel =>
    rw [List.cons_append, List.append_assoc, List.cons_append, List.nil_append]
    cases items with
    | nil => rfl
    | cons d ds =>
      have hopens : Opens (commas ((d :: ds).map written)) := opens_commas _ _ (hplain d List.mem_cons_self).opens
      rw [value?_list (hopens.append _), items?_written (List.cons_ne_nil _ _) h (by omega)]
      rfl

theorem opens_writtenField (p : Option String × Datum) : Opens (writtenField p) := by
  rw [writtenField, fieldText, String.toList_append, String.toList_append, toList_quote]
  exact ⟨'"', _, rfl, by decide⟩

theorem legible_record {fields : List (Option String × Datum)} (hkeys : ∀ p ∈ fields, p.1.isSome = true)
    (h : ∀ p ∈ fields, Legible p.2) : Legible (.record fields) := by
  intro fuel rest _ hfuel
  rw [written_record] at hfuel ⊢
  simp only [List.length_cons, List.length_append] at hfuel
  cases fuel with
  | zero => omega
  | succ fuel =>
    rw [List.cons_append, List.append_assoc, List.cons_append, List.nil_append]
    cases fields with
    | nil => rfl
    | cons p fs =>
      have hopens : Opens (commas ((p :: fs).map writtenField)) := opens_commas _ _ (opens_writtenField p)
      rw [value?_record (hopens.append _), members?_written (List.cons_ne_nil _ _) hkeys h (by omega)]
      rfl

/-- Null, true and false. -/
theorem legible_word (hd : (written d).length ≠ 0)
    (h : ∀ fuel rest, value? (fuel + 1) (written d ++ rest) = some (d, rest)) : Legible d := by
  intro fuel rest _ hfuel
  cases fuel with
  | zero => omega
  | succ fuel => exact h fuel rest

theorem Plain.legible (h : Plain d) : Legible d := by
  induction h with
  | null => exact legible_word (by decide) fun _ _ => rfl
  | bool b => cases b <;> exact legible_word (by decide) fun _ _ => rfl
  | whole hlo hhi => exact legible_whole hlo hhi
  | text s => exact legible_text s
  | list hplain ih => exact legible_list hplain ih
  | record hkeys _ ih => exact legible_record hkeys ih

/-- The text of a plain tree stands for that tree. -/
theorem parse?_compress (h : Plain d) : parse? (compress d) = some d := by
  have hread : value? (2 * (written d).length + 2) (written d ++ []) = _ := h.legible endsNumber_nil (by omega)
  rw [List.append_nil, written] at hread
  rw [parse?, hread]
  rfl

end TaskFleet.Json
