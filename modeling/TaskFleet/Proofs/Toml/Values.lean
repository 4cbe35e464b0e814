/-
  TaskFleet.Proofs.Toml.Values — what stands on the right of a key is read back as it was written.

  That is a scalar, or a list of scalars: nothing, one element in its brackets, or one line for each of
  several. What a value begins with decides which reader takes it, so no text of a scalar begins
  like another kind of value or like what may stand in front of one (`BeginsValue`).
-/

import TaskFleet.Proofs.Toml.Reals
import TaskFleet.Proofs.Toml.Strings

namespace TaskFleet.Toml

open Decimal

variable {c : Char} {cs rest r : List Char} {d : Datum} {items : List Datum} {fuel depth : Nat}

/-- A single value, with a number that fits 64 bits and a sign. -/
inductive Scalar : Datum → Prop
  | bool (b : Bool) : Scalar (.bool b)
  | whole (n : Nat) (h : n ≤ 9223372036854775807) : Scalar (.whole n)
  | real (x : Float) : Scalar (.ofReal x)
  | text (s : String) : Scalar (.ofText s)

/-- A value without tables. -/
inductive Flat : Datum → Prop
  | scalar {d : Datum} (h : Scalar d) : Flat d
  | list {items : List Datum} (h : ∀ d ∈ items, Scalar d) : Flat (.list items)

/-! ## First characters -/

/-- Nothing to skip comes next: no blank, no comment and no line break. -/
def Visible (cs : List Char) : Prop := ∀ c ∈ cs.head?, c ∉ [' ', '\t', '#', '\n', '\r']

/-- A value comes next, not the end of a list. -/
def BeginsValue (cs : List Char) : Prop := Visible cs ∧ cs ≠ [] ∧ cs.head? ≠ some ']'

theorem BeginsValue.append (h : BeginsValue cs) (rest : List Char) : BeginsValue (cs ++ rest) := by
  obtain ⟨hvisible, hne, hbracket⟩ := h
  obtain ⟨c, r, rfl⟩ := List.exists_cons_of_ne_nil hne
  exact ⟨hvisible, by simp, hbracket⟩

theorem beginsValue_cons (h : c ∉ [' ', '\t', '#', '\n', '\r', ']']) : BeginsValue (c :: r) := by
  simp only [List.mem_cons, List.not_mem_nil, or_false, not_or] at h
  refine ⟨fun d hd => ?_, by simp, by simp [h]⟩
  cases hd
  simp [h]

theorem Visible.skipBlanks (h : Visible cs) : skipBlanks cs = cs := by
  match cs with
  | [] => rfl
  | c :: r =>
    have hc := h c rfl
    refine List.dropWhile_cons_of_neg ?_
    simp_all

theorem Visible.skipComment (h : Visible cs) : skipComment cs = cs := by
  refine skipComment.eq_2 _ fun r hr => ?_
  exact absurd (h '#' (by rw [hr]; rfl)) (by decide)

theorem Visible.lineBreak? (h : Visible cs) : lineBreak? cs = none := by
  refine lineBreak?.eq_3 _ (fun r hr => ?_) fun r hr => ?_
  · exact absurd (h '\n' (by rw [hr]; rfl)) (by decide)
  · exact absurd (h '\r' (by rw [hr]; rfl)) (by decide)

theorem Visible.skipGaps (h : Visible cs) (fuel : Nat) : skipGaps fuel cs = cs := by
  match fuel with
  | 0 => rfl
  | fuel + 1 => rw [Toml.skipGaps, h.skipBlanks, h.skipComment, h.lineBreak?]

/-- No number, date or truth value begins like this. -/
theorem scalarValue?_eq_none (h : c ∈ ['[', '\x7b', '"', '\'', ' ', '\t', '#', '\n', '\r', ']']) :
    scalarValue? (c :: r) = none := by
  simp only [List.mem_cons, List.not_mem_nil, or_false] at h
  have hmoment : moment? (c :: r) = none := by
    refine moment?_of_head (by simp) fun d hd => ?_
    cases hd
    rcases h with rfl | rfl | rfl | rfl | rfl | rfl | rfl | rfl | rfl | rfl <;> rfl
  rw [scalarValue?_of_head (fun d hd => ?_) hmoment]
  · rcases h with rfl | rfl | rfl | rfl | rfl | rfl | rfl | rfl | rfl | rfl <;> rfl
  · cases hd
    rcases h with rfl | rfl | rfl | rfl | rfl | rfl | rfl | rfl | rfl | rfl <;> decide

theorem head_of_scalarValue? {p : Datum × List Char} (h : scalarValue? (c :: r) = some p) :
    c ∉ ['[', '\x7b', '"', '\'', ' ', '\t', '#', '\n', '\r', ']'] := by
  intro hc
  rw [scalarValue?_eq_none hc] at h
  cases h

theorem value?_of_scalarValue? {p : Datum × List Char} (h : scalarValue? cs = some p) :
    value? (fuel + 1) depth cs = some p := by
  match cs with
  | [] => cases h
  | c :: cs =>
    have hc := head_of_scalarValue? h
    rw [value?, h]
    all_goals
      rintro r ⟨⟩
      exact absurd hc (by decide)

/-! ## Single values -/

theorem quoted_head (s : String) : ∃ q r, (quoted s).toList = q :: r ∧ IsQuote q := by
  have hwrite : (quoted s).toList = (Form.choose (.of s.toList)).write s.toList := String.toList_ofList
  have hquote : IsQuote (Form.choose (.of s.toList)).quote := by
    rcases choose_sound s.toList with h | ⟨h, -⟩ | ⟨h, -⟩
    · exact .inl h
    · exact .inr (h ▸ rfl)
    · exact .inr (h ▸ rfl)
  rw [hwrite, Form.write, Form.fence]
  split
  · exact ⟨_, _, rfl, hquote⟩
  · exact ⟨_, _, rfl, hquote⟩

theorem beginsValue_of_scalarValue? {p : Datum × List Char} (h : scalarValue? cs = some p) : BeginsValue cs := by
  match cs with
  | [] => cases h
  | c :: cs =>
    have hc := head_of_scalarValue? h
    refine beginsValue_cons fun hmem => hc ?_
    simp only [List.mem_cons, List.not_mem_nil, or_false] at hmem ⊢
    tauto

theorem beginsValue_scalar (h : Scalar d) : BeginsValue (valueText d).toList := by
  have hstops : Stops [] := by simp [Stops]
  cases h with
  | bool b => cases b <;> exact beginsValue_cons (by decide)
  | whole n hn =>
    have hread := scalarValue?_whole hn hstops
    rw [List.append_nil] at hread
    exact beginsValue_of_scalarValue? hread
  | real x =>
    have hread := scalarValue?_real x hstops
    rw [List.append_nil] at hread
    exact beginsValue_of_scalarValue? hread
  | text s =>
    obtain ⟨q, r, hs, hq⟩ := quoted_head s
    change BeginsValue (quoted s).toList
    rw [hs]
    refine beginsValue_cons ?_
    rcases hq with rfl | rfl <;> decide

theorem value?_scalar (h : Scalar d) (hrest : Stops rest) :
    value? (fuel + 1) depth ((valueText d).toList ++ rest) = some (d, rest) := by
  cases h with
  | bool b => cases b <;> rfl
  | whole n hn => exact value?_of_scalarValue? (scalarValue?_whole hn hrest)
  | real x => exact value?_of_scalarValue? (scalarValue?_real x hrest)
  | text s =>
    have hread := string?_quoted s hrest
    obtain ⟨q, r, hs, hq⟩ := quoted_head s
    change value? (fuel + 1) depth ((quoted s).toList ++ rest) = _
    rw [hs] at hread ⊢
    rcases hq with rfl | rfl
    · change (string? ('"' :: r ++ rest)).map _ = _
      rw [hread]
      rfl
    · change (string? ('\'' :: r ++ rest)).map _ = _
      rw [hread]
      rfl

/-! ## Lists -/

theorem visible_cons (h : c ∉ [' ', '\t', '#', '\n', '\r']) : Visible (c :: r) := by
  intro d hd
  cases hd
  exact h

theorem items?_end : items? (fuel + 1) depth (']' :: rest) = some ([], rest) := by
  rw [items?, (visible_cons (by decide)).skipGaps]
  rfl

theorem items?_last (h : BeginsValue cs) (hread : value? fuel depth cs = some (d, ']' :: rest)) :
    items? (fuel + 1) depth cs = some ([d], rest) := by
  rw [items?, h.1.skipGaps]
  split
  · next r => exact absurd rfl h.2.2
  · simp only [hread, Option.bind_eq_bind, Option.bind_some]
    rw [(visible_cons (by decide)).skipGaps]
    rfl

theorem items?_next (h : BeginsValue r) (hskip : skipGaps fuel cs = r)
    (hread : value? fuel depth r = some (d, ',' :: rest)) :
    items? (fuel + 1) depth cs = (items? fuel depth rest).map fun p => (d :: p.1, p.2) := by
  rw [items?, hskip]
  split
  · next r => exact absurd rfl h.2.2
  · simp only [hread, Option.bind_eq_bind, Option.bind_some]
    rw [(visible_cons (by decide)).skipGaps]
    change (items? fuel depth rest).bind _ = _
    cases items? fuel depth rest <;> rfl

/-- An element on a line of its own. -/
def elementLine (d : Datum) : List Char := "\n    ".toList ++ (valueText d).toList ++ [',']

theorem skipGaps_line (h : BeginsValue cs) (fuel : Nat) : skipGaps (fuel + 2) ("\n    ".toList ++ cs) = cs := by
  have hblanks : skipBlanks (' ' :: ' ' :: ' ' :: ' ' :: cs) = cs := h.1.skipBlanks
  have hbreak : skipGaps (fuel + 2) ("\n    ".toList ++ cs) = skipGaps (fuel + 1) (' ' :: ' ' :: ' ' :: ' ' :: cs) := rfl
  rw [hbreak, skipGaps, hblanks, h.1.skipComment, h.1.lineBreak?]

theorem items?_lines (hitems : ∀ d ∈ items, Scalar d) (hfuel : (items.flatMap elementLine).length + 2 < fuel) :
    items? fuel depth (items.flatMap elementLine ++ '\n' :: ']' :: rest) = some (items, rest) := by
  induction items generalizing fuel with
  | nil =>
    obtain ⟨fuel, rfl⟩ : ∃ k, fuel = k + 2 := ⟨fuel - 2, by omega⟩
    have hbreak : skipGaps (fuel + 1) ('\n' :: ']' :: rest) = skipGaps fuel (']' :: rest) := rfl
    rw [List.flatMap_nil, List.nil_append, items?, hbreak, (visible_cons (by decide)).skipGaps]
    rfl
  | cons d items ih =>
    have hd := hitems d List.mem_cons_self
    rw [List.flatMap_cons, List.length_append, elementLine] at hfuel
    simp only [List.length_append, List.length_cons] at hfuel
    obtain ⟨fuel, rfl⟩ : ∃ k, fuel = k + 3 := ⟨fuel - 3, by omega⟩
    -- what follows the comma of this line
    let r := items.flatMap elementLine ++ '\n' :: ']' :: rest
    have hskip := skipGaps_line ((beginsValue_scalar hd).append (',' :: r)) fuel
    have hread : value? (fuel + 2) depth ((valueText d).toList ++ ',' :: r) = some (d, ',' :: r) :=
      value?_scalar hd (by simp [Stops])
    have hline : (d :: items).flatMap elementLine ++ '\n' :: ']' :: rest =
        "\n    ".toList ++ ((valueText d).toList ++ ',' :: r) := by
      simp [elementLine, r]
    rw [hline, items?_next ((beginsValue_scalar hd).append _) hskip hread,
      ih (fun d hd => hitems d (List.mem_cons_of_mem _ hd)) (by omega)]
    rfl

theorem valueTexts_eq (items : List Datum) : valueTexts items = items.map valueText := by
  induction items with
  | nil => rfl
  | cons d items ih => rw [valueTexts, ih, List.map_cons]

theorem toList_one (d : Datum) : (valueText (.list [d])).toList = '[' :: ((valueText d).toList ++ [']']) := by
  change ("[" ++ valueText d ++ "]").toList = _
  simp

theorem toList_more (h : 2 ≤ items.length) :
    (valueText (.list items)).toList = '[' :: (items.flatMap elementLine ++ ['\n', ']']) := by
  have hlist : valueText (.list items) =
      "[" ++ String.join ((items.map valueText).map fun item => "\n    " ++ item ++ ",") ++ "\n]" := by
    rw [valueText, valueTexts_eq]
    match items with
    | d :: e :: items => rfl
  have hflat : String.toList (String.join ((items.map valueText).map fun item => "\n    " ++ item ++ ",")) =
      items.flatMap elementLine := by
    rw [String.toList_join, List.map_map, List.flatMap_map]
    congr 1
    funext d
    simp [elementLine]
  rw [hlist, String.toList_append, String.toList_append, hflat]
  rfl

theorem value?_bracket : value? (fuel + 1) 0 ('[' :: r) = (items? fuel 1 r).map fun p => (.list p.1, p.2) := by
  rw [value?]
  change (items? fuel 1 r).bind _ = _
  cases items? fuel 1 r <;> rfl

theorem value?_list (hitems : ∀ d ∈ items, Scalar d)
    (hfuel : ((valueText (.list items)).toList ++ rest).length < fuel) :
    value? fuel 0 ((valueText (.list items)).toList ++ rest) = some (.list items, rest) := by
  obtain ⟨fuel, rfl⟩ := Nat.exists_eq_succ_of_ne_zero (Nat.ne_of_gt (Nat.zero_lt_of_lt hfuel))
  match items with
  | [] =>
    change value? (fuel + 1) 0 ('[' :: ']' :: rest) = _
    obtain ⟨fuel, rfl⟩ := Nat.exists_eq_succ_of_ne_zero (Nat.ne_of_gt (Nat.zero_lt_of_lt (Nat.lt_of_succ_lt_succ hfuel)))
    rw [value?_bracket, items?_end]
    rfl
  | [d] =>
    have hd := hitems d List.mem_cons_self
    rw [toList_one] at hfuel ⊢
    simp only [List.cons_append, List.length_cons, List.length_append, List.append_assoc] at hfuel ⊢
    obtain ⟨fuel, rfl⟩ : ∃ k, fuel = k + 2 := ⟨fuel - 2, by omega⟩
    rw [value?_bracket, items?_last ((beginsValue_scalar hd).append _) (value?_scalar hd (by simp [Stops]))]
    rfl
  | d :: e :: items =>
    have hmore : (valueText (.list (d :: e :: items))).toList = _ := toList_more (by simp)
    rw [hmore] at hfuel ⊢
    simp only [List.cons_append, List.length_cons, List.length_append, List.append_assoc] at hfuel ⊢
    rw [value?_bracket]
    change (items? fuel 1 ((d :: e :: items).flatMap elementLine ++ '\n' :: ']' :: rest)).map _ = _
    rw [items?_lines hitems (by omega)]
    rfl

/-- A value without tables is read back. -/
theorem value?_flat (h : Flat d) (hrest : Stops rest) (hfuel : ((valueText d).toList ++ rest).length < fuel) :
    value? fuel 0 ((valueText d).toList ++ rest) = some (d, rest) := by
  cases h with
  | scalar h =>
    obtain ⟨fuel, rfl⟩ := Nat.exists_eq_succ_of_ne_zero (Nat.ne_of_gt (Nat.zero_lt_of_lt hfuel))
    exact value?_scalar h hrest
  | list h => exact value?_list h hfuel

theorem beginsValue_flat (h : Flat d) : BeginsValue (valueText d).toList := by
  cases h with
  | scalar h => exact beginsValue_scalar h
  | @list items h =>
    match items with
    | [] => exact beginsValue_cons (by decide)
    | [d] =>
      rw [toList_one]
      exact beginsValue_cons (by decide)
    | d :: e :: items =>
      rw [toList_more (by simp)]
      exact beginsValue_cons (by decide)

end TaskFleet.Toml
