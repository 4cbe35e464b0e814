/-
  TaskFleet.Proofs.Toml.Lines — what reading one line of a TOML text does to the draft.

  `Reads cs t t'` says that behind the characters `cs` a reader with the draft `t` goes on with the draft
  `t'`, whatever follows. Lines are put together by `Reads.append`.
  - `reads_blank`: a blank line changes nothing.
  - `reads_header`, `reads_arrayHeader`, `reads_pair`: a header and a key with its value change the tree
    as they say. Keys are words, as this program writes them.
-/

import TaskFleet.Proofs.Toml.Values

namespace TaskFleet.Toml

variable {cs rest rest' : List Char} {key : String} {path parts : List String} {fuel : Nat} {d : Datum} {t t' t'' : Draft}

/-! ## Keys -/

/-- A key that needs no quotes. -/
structure IsWord (key : String) : Prop where
  bare : ∀ c ∈ key.toList, isBare c = true
  ne_empty : key ≠ ""

theorem keyText_word (h : IsWord key) : keyText key = key := by
  have hall : key.toList.all isBare = true := List.all_eq_true.2 h.bare
  rw [keyText, hall, if_pos]
  simpa using h.ne_empty

theorem IsWord.toList_ne_nil (h : IsWord key) : key.toList ≠ [] := fun hnil => h.ne_empty (String.toList_eq_nil_iff.1 hnil)

/-- No part of a key begins with a blank, a comment, a line break or a bracket. -/
theorem IsWord.begins (h : IsWord key) : BeginsValue key.toList := by
  obtain ⟨c, r, hc⟩ := List.exists_cons_of_ne_nil h.toList_ne_nil
  have hbare := h.bare c (hc ▸ List.mem_cons_self)
  rw [hc]
  refine beginsValue_cons fun hmem => ?_
  simp only [List.mem_cons, List.not_mem_nil, or_false] at hmem
  rcases hmem with rfl | rfl | rfl | rfl | rfl | rfl <;> exact absurd hbare (by decide)

/-- The key ends here, and behind blanks the rest goes on. -/
structure EndsKey (rest rest' : List Char) : Prop where
  head : ∀ c ∈ rest.head?, isBare c = false
  blanks : skipBlanks rest = rest'
  dot : rest'.head? ≠ some '.'

theorem takeWhile_word (h : ∀ c ∈ cs, isBare c = true) (hrest : ∀ c ∈ rest.head?, isBare c = false) :
    (cs ++ rest).takeWhile isBare = cs ∧ (cs ++ rest).dropWhile isBare = rest := by
  have hstop : rest.takeWhile isBare = [] ∧ rest.dropWhile isBare = rest := by
    cases rest with
    | nil => exact ⟨rfl, rfl⟩
    | cons c r =>
      have hc := hrest c rfl
      simp [hc]
  rw [List.takeWhile_append_of_pos h, List.dropWhile_append_of_pos h, hstop.1, hstop.2, List.append_nil]
  exact ⟨rfl, rfl⟩

theorem keyPart?_word (h : IsWord key) (hrest : ∀ c ∈ rest.head?, isBare c = false) :
    keyPart? (key.toList ++ rest) = some (key, rest) := by
  obtain ⟨htake, hdrop⟩ := takeWhile_word h.bare hrest
  unfold keyPart?
  rw [htake]
  split
  · next hnil => exact absurd hnil h.toList_ne_nil
  · rw [hdrop, String.ofList_toList]

/-- The parts of a key behind the first one. -/
def moreParts (parts : List String) : List Char := parts.flatMap fun part => '.' :: part.toList

theorem keyParts?_words (hkey : IsWord key) (hparts : ∀ part ∈ parts, IsWord part) (hrest : EndsKey rest rest')
    (hfuel : parts.length < fuel) : keyParts? fuel (key.toList ++ (moreParts parts ++ rest)) = some (key :: parts, rest') := by
  induction parts generalizing key fuel with
  | nil =>
    obtain ⟨fuel, rfl⟩ := Nat.exists_eq_succ_of_ne_zero hfuel.ne'
    rw [keyParts?, (hkey.begins.append _).1.skipBlanks]
    change (keyPart? (key.toList ++ rest)).bind _ = _
    rw [keyPart?_word hkey hrest.head, Option.bind_some]
    dsimp only
    rw [hrest.blanks]
    split
    · next hdot => exact absurd rfl hrest.dot
    · rfl
  | cons part parts ih =>
    obtain ⟨fuel, rfl⟩ := Nat.exists_eq_succ_of_ne_zero (Nat.ne_of_gt (Nat.zero_lt_of_lt hfuel))
    have hmore : moreParts (part :: parts) ++ rest = '.' :: (part.toList ++ (moreParts parts ++ rest)) := by
      simp [moreParts]
    have hpart := ih (hparts part List.mem_cons_self) (fun part h => hparts part (List.mem_cons_of_mem _ h))
      (Nat.lt_of_succ_lt_succ hfuel)
    rw [hmore, keyParts?, (hkey.begins.append _).1.skipBlanks]
    change (keyPart? (key.toList ++ '.' :: (part.toList ++ (moreParts parts ++ rest)))).bind _ = _
    rw [keyPart?_word hkey (by simp [isBare]), Option.bind_some]
    change (keyParts? fuel (part.toList ++ (moreParts parts ++ rest))).bind _ = _
    rw [hpart]
    rfl

/-- The path of a table as its header writes it. -/
def pathOf (parts : List String) : String := parts.foldl pathText ""

theorem pathText_pathOf (path : List String) (key : String) : pathText (pathOf path) key = pathOf (path ++ [key]) := by
  rw [pathOf, pathOf, List.foldl_append]
  rfl

theorem toList_foldl_pathText {outer : String} (houter : outer ≠ "") (hparts : ∀ part ∈ parts, IsWord part) :
    (parts.foldl pathText outer).toList = outer.toList ++ moreParts parts := by
  induction parts generalizing outer with
  | nil => simp [moreParts]
  | cons part parts ih =>
    have hnext : pathText outer part = outer ++ "." ++ part := by
      rw [pathText, if_neg houter, keyText_word (hparts part List.mem_cons_self)]
    have hne : pathText outer part ≠ "" := by
      rw [hnext]
      simp
    rw [List.foldl_cons, ih hne fun part h => hparts part (List.mem_cons_of_mem _ h), hnext]
    simp [moreParts]

theorem toList_pathOf (hkey : IsWord key) (hparts : ∀ part ∈ parts, IsWord part) :
    (pathOf (key :: parts)).toList = key.toList ++ moreParts parts := by
  have hfirst : pathText "" key = key := by rw [pathText, if_pos rfl, keyText_word hkey]
  rw [pathOf, List.foldl_cons, hfirst, toList_foldl_pathText hkey.ne_empty hparts]

theorem length_le_moreParts (parts : List String) : parts.length ≤ (moreParts parts).length := by
  induction parts with
  | nil => exact le_rfl
  | cons part parts ih =>
    rw [moreParts, List.flatMap_cons, ← moreParts, List.length_append]
    simp only [List.length_cons]
    omega

theorem key?_pathOf (hwords : ∀ part ∈ path ++ [key], IsWord part) (hlength : path.length + 1 < depthLimit)
    (hrest : EndsKey rest rest') : key? ((pathOf (path ++ [key])).toList ++ rest) = some ((path, key), rest') := by
  obtain ⟨first, parts, hparts⟩ := List.exists_cons_of_ne_nil (show path ++ [key] ≠ [] by simp)
  have hcount : parts.length = path.length := by
    have h := congrArg List.length hparts
    simp only [List.length_append, List.length_cons, List.length_nil] at h
    omega
  rw [hparts] at hwords
  have hfirst := hwords first List.mem_cons_self
  have hmore : ∀ part ∈ parts, IsWord part := fun part h => hwords part (List.mem_cons_of_mem _ h)
  have htext := toList_pathOf hfirst hmore
  have hfuel : parts.length < ((pathOf (path ++ [key])).toList ++ rest).length + 1 := by
    have hle := length_le_moreParts parts
    rw [hparts, htext]
    simp only [List.length_append]
    omega
  have hread := keyParts?_words hfirst hmore hrest hfuel
  rw [← List.append_assoc, ← htext, ← hparts] at hread
  unfold key?
  rw [hread]
  simp only [Option.bind_eq_bind, Option.bind_some]
  rw [if_neg (by simp [depthLimit] at hlength ⊢; omega)]
  simp

/-! ## Lines -/

/-- Behind these characters a reader with the one draft goes on with the other. -/
def Reads (cs : List Char) (t t' : Draft) : Prop :=
  ∀ rest fuel, (cs ++ rest).length < fuel →
    ∃ fuel', rest.length < fuel' ∧ Draft.lines? fuel t (cs ++ rest) = Draft.lines? fuel' t' rest

theorem Reads.append {cs' : List Char} (h : Reads cs t t') (h' : Reads cs' t' t'') : Reads (cs ++ cs') t t'' := by
  intro rest fuel hfuel
  rw [List.append_assoc] at hfuel ⊢
  obtain ⟨fuel', hfuel', heq⟩ := h (cs' ++ rest) fuel hfuel
  obtain ⟨fuel'', hfuel'', heq'⟩ := h' rest fuel' hfuel'
  exact ⟨fuel'', hfuel'', heq.trans heq'⟩

theorem reads_nil (t : Draft) : Reads [] t t := fun _ fuel hfuel => ⟨fuel, hfuel, rfl⟩

/-- At the end of the text the draft is done. -/
theorem Reads.lines? (h : Reads cs t t') (hfuel : cs.length < fuel) : Draft.lines? fuel t cs = some t' := by
  obtain ⟨fuel', hfuel', heq⟩ := h [] fuel (by simpa using hfuel)
  obtain ⟨fuel', rfl⟩ := Nat.exists_eq_succ_of_ne_zero hfuel'.ne'
  rw [List.append_nil] at heq
  rw [heq]
  rfl

theorem reads_blank (t : Draft) : Reads ['\n'] t t := by
  intro rest fuel hfuel
  obtain ⟨fuel, rfl⟩ := Nat.exists_eq_succ_of_ne_zero (Nat.ne_of_gt (Nat.zero_lt_of_lt hfuel))
  exact ⟨fuel, by simpa using hfuel, rfl⟩

/-- A statement takes the rest of its line. -/
theorem reads_statement (hne : cs ≠ []) (hvisible : ∀ rest, Visible (cs ++ rest))
    (hread : ∀ rest, Draft.statement? t (cs ++ '\n' :: rest) = some (t', '\n' :: rest)) : Reads (cs ++ ['\n']) t t' := by
  intro rest fuel hfuel
  obtain ⟨fuel, rfl⟩ := Nat.exists_eq_succ_of_ne_zero (Nat.ne_of_gt (Nat.zero_lt_of_lt hfuel))
  rw [List.append_assoc, List.singleton_append] at hfuel ⊢
  have hline := hvisible ('\n' :: rest)
  refine ⟨fuel, by simp only [List.length_append, List.length_cons] at hfuel; omega, ?_⟩
  rw [Draft.lines?, hline.skipBlanks, hline.skipComment]
  split
  · next hnil => simp [hne] at hnil
  · rw [hline.lineBreak?]
    simp only [hread, Option.bind_eq_bind, Option.bind_some]
    rfl

/-- A bracket ends a key. -/
theorem endsKey_bracket (rest : List Char) : EndsKey (']' :: rest) (']' :: rest) where
  head := by
    intro c hc
    cases hc
    decide
  blanks := (visible_cons (by decide)).skipBlanks
  dot := by simp

theorem head_pathOf (hwords : ∀ part ∈ path ++ [key], IsWord part) :
    ∃ c r, (pathOf (path ++ [key])).toList = c :: r ∧ isBare c = true := by
  obtain ⟨first, parts, hparts⟩ := List.exists_cons_of_ne_nil (show path ++ [key] ≠ [] by simp)
  rw [hparts] at hwords ⊢
  have hfirst := hwords first List.mem_cons_self
  obtain ⟨c, r, hc⟩ := List.exists_cons_of_ne_nil hfirst.toList_ne_nil
  refine ⟨c, r ++ moreParts parts, ?_, hfirst.bare c (hc ▸ List.mem_cons_self)⟩
  rw [toList_pathOf hfirst fun part h => hwords part (List.mem_cons_of_mem _ h), hc]
  rfl

theorem reads_header {root : Rows} (hwords : ∀ part ∈ path ++ [key], IsWord part) (hlength : path.length + 1 < depthLimit)
    (h : t.root.changeAt path (Rows.defineTable key) = some root) :
    Reads ("[" ++ pathOf (path ++ [key]) ++ "]" ++ "\n").toList t ⟨root, path ++ [key]⟩ := by
  have htext : ("[" ++ pathOf (path ++ [key]) ++ "]" ++ "\n").toList =
      '[' :: ((pathOf (path ++ [key])).toList ++ [']']) ++ ['\n'] := by simp
  obtain ⟨c, r, hc, hbare⟩ := head_pathOf hwords
  rw [htext]
  refine reads_statement (by simp) (fun rest => visible_cons (by decide)) fun rest => ?_
  have hkey := key?_pathOf hwords hlength (endsKey_bracket ('\n' :: rest))
  have hheader : Draft.statement? t ('[' :: ((pathOf (path ++ [key])).toList ++ ']' :: '\n' :: rest)) =
      Draft.header? t ((pathOf (path ++ [key])).toList ++ ']' :: '\n' :: rest) := by
    refine Draft.statement?.eq_2 _ _ fun r' hr' => ?_
    rw [hc] at hr'
    cases hr'
    exact absurd hbare (by decide)
  rw [List.cons_append, List.append_assoc, List.singleton_append, hheader, Draft.header?, hkey]
  simp only [Option.bind_eq_bind, Option.bind_some, mark?, if_true, h]
  rfl

theorem reads_arrayHeader {root : Rows} (hwords : ∀ part ∈ path ++ [key], IsWord part) (hlength : path.length + 1 < depthLimit)
    (h : t.root.changeAt path (Rows.addTable key) = some root) :
    Reads ("[[" ++ pathOf (path ++ [key]) ++ "]]" ++ "\n").toList t ⟨root, path ++ [key]⟩ := by
  have htext : ("[[" ++ pathOf (path ++ [key]) ++ "]]" ++ "\n").toList =
      '[' :: '[' :: ((pathOf (path ++ [key])).toList ++ [']', ']']) ++ ['\n'] := by simp
  rw [htext]
  refine reads_statement (by simp) (fun rest => visible_cons (by decide)) fun rest => ?_
  have hkey := key?_pathOf hwords hlength (endsKey_bracket (']' :: '\n' :: rest))
  change Draft.arrayHeader? t ((pathOf (path ++ [key])).toList ++ [']', ']'] ++ '\n' :: rest) = _
  rw [List.append_assoc]
  change Draft.arrayHeader? t ((pathOf (path ++ [key])).toList ++ ']' :: ']' :: '\n' :: rest) = _
  rw [Draft.arrayHeader?, hkey]
  simp only [Option.bind_eq_bind, Option.bind_some, mark?, if_true, h]
  rfl

/-- A key with a value ends before its sign of equality. -/
theorem endsKey_equals (rest : List Char) : EndsKey (' ' :: '=' :: rest) ('=' :: rest) where
  head := by
    intro c hc
    cases hc
    decide
  blanks := (visible_cons (by decide) : Visible ('=' :: rest)).skipBlanks
  dot := by simp

theorem statement?_word (hkey : IsWord key) (rest : List Char) :
    Draft.statement? t (key.toList ++ rest) = Draft.assignment? t (key.toList ++ rest) := by
  obtain ⟨c, r, hc⟩ := List.exists_cons_of_ne_nil hkey.toList_ne_nil
  have hbare := hkey.bare c (hc ▸ List.mem_cons_self)
  rw [hc]
  refine Draft.statement?.eq_3 _ _ (fun r' hr' => ?_) fun r' hr' => ?_ <;>
  · obtain ⟨rfl, -⟩ := List.cons.inj hr'
    exact absurd hbare (by decide)

theorem reads_pair {root : Rows} (hkey : IsWord key) (hd : Flat d)
    (h : t.root.changeAt t.current (Rows.setNew key d) = some root) :
    Reads (keyText key ++ " = " ++ valueText d ++ "\n").toList t ⟨root, t.current⟩ := by
  have hwords : ∀ part ∈ [] ++ [key], IsWord part := by simpa using hkey
  have hone : pathOf ([] ++ [key]) = key := by
    change pathText "" key = key
    rw [pathText, if_pos rfl, keyText_word hkey]
  have htext : (keyText key ++ " = " ++ valueText d ++ "\n").toList =
      (key.toList ++ ' ' :: '=' :: ' ' :: (valueText d).toList) ++ ['\n'] := by simp [keyText_word hkey]
  rw [htext]
  refine reads_statement (by simp) (fun rest => ?_) fun rest => ?_
  · rw [List.append_assoc]
    exact (hkey.begins.append _).1
  · have hparts := key?_pathOf hwords (by decide) (endsKey_equals (' ' :: ((valueText d).toList ++ '\n' :: rest)))
    have hblank : skipBlanks (' ' :: ((valueText d).toList ++ '\n' :: rest)) = (valueText d).toList ++ '\n' :: rest :=
      ((beginsValue_flat hd).append _).1.skipBlanks
    have hvalue := value?_flat hd (show Stops ('\n' :: rest) by simp [Stops])
      (show _ < (' ' :: ((valueText d).toList ++ '\n' :: rest)).length + 1 by simp only [List.length_cons]; omega)
    rw [hone] at hparts
    rw [List.append_assoc]
    change Draft.statement? t (key.toList ++ ' ' :: '=' :: ' ' :: ((valueText d).toList ++ '\n' :: rest)) = _
    rw [statement?_word hkey, Draft.assignment?, hparts]
    simp only [Option.bind_eq_bind, Option.bind_some, mark?, if_true, hblank, hvalue]
    change (t.root.changeAt t.current (Rows.setNew key d)).bind _ = _
    rw [h]
    rfl

end TaskFleet.Toml
