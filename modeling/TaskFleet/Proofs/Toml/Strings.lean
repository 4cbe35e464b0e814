/-
  TaskFleet.Proofs.Toml.Strings — every string of a TOML text is read back as it was written.

  Each form has its own reason. In quotes, what could end the string early or change its meaning
  has an escape. In apostrophes nothing has, so only strings that need none are written so
  (`choose_sound`). Over several lines up to two quotes in a row stand bare: three in a row are the end,
  so the question at each quote is what the next two characters are.
-/

import TaskFleet.Proofs.Json.Tokens
import TaskFleet.Proofs.Toml.Numbers

namespace TaskFleet.Toml

open Json

variable {c quote : Char} {cs rest r e : List Char} {fuel run : Nat} {f : Form}

/-! ## Escapes -/

theorem scalar?_control (h : isControl c = true) :
    scalar? ['0', '0', hexChar (c.toNat / 16), (hexChar (c.toNat % 16)).toUpper] = some c := by
  have hall : ∀ n < 128, scalar? ['0', '0', hexChar (n / 16), (hexChar (n % 16)).toUpper] = some (Char.ofNat n) := by decide
  have hlt : c.toNat < 128 := by
    simp only [isControl, Bool.or_eq_true, Bool.and_eq_true, decide_eq_true_eq] at h
    omega
  rw [hall c.toNat hlt, Char.ofNat_toNat]

theorem isPlain_of_not_control (h : isControl c = false) (hnewline : c ≠ '\n') : isPlain c = true := by
  by_cases htab : c = '\t'
  · subst htab
    rfl
  · simp [isControl, isPlain, htab, hnewline] at h ⊢
    omega

/-- A character stands for itself, or an escape stands for it that is no end of a line. -/
theorem escape_cases (f : Form) (c : Char) :
    (f.escape c = [c] ∧ c ≠ '\\' ∧ (isPlain c = true ∨ c = '\n' ∧ f.isMultiline = true)) ∨
      ∃ e, f.escape c = '\\' :: e ∧ ∀ r, escape? (e ++ r) = some (c, r) ∧ joinLines? (e ++ r) = none := by
  unfold Form.escape
  split
  -- The characters that have a letter of their own come first.
  iterate 5 exact .inr ⟨_, rfl, fun r => ⟨rfl, rfl⟩⟩
  · cases hmulti : f.isMultiline with
    | true => exact .inl ⟨rfl, by decide, .inr ⟨rfl, rfl⟩⟩
    | false => exact .inr ⟨_, rfl, fun r => ⟨rfl, rfl⟩⟩
  · next hbackslash _ _ _ _ hnewline =>
    cases hcontrol : isControl c with
    | true =>
      refine .inr ⟨_, rfl, fun r => ⟨?_, rfl⟩⟩
      change (scalar? _).map _ = _
      rw [scalar?_control hcontrol]
      rfl
    | false => exact .inl ⟨rfl, hbackslash, .inl (isPlain_of_not_control hcontrol hnewline)⟩

theorem escapeAll_free (h : run < f.freeQuotes) : f.escapeAll run ('"' :: cs) = '"' :: f.escapeAll (run + 1) cs := if_pos h

theorem escapeAll_full (h : f.freeQuotes ≤ run) : f.escapeAll run ('"' :: cs) = '\\' :: '"' :: f.escapeAll 0 cs :=
  if_neg (Nat.not_lt.2 h)

theorem escapeAll_cons (h : c ≠ '"') : f.escapeAll run (c :: cs) = f.escape c ++ f.escapeAll 0 cs :=
  Form.escapeAll.eq_3 _ _ _ _ h

/-- Where no bare quote can stand, none comes next. -/
theorem head_escapeAll (hne : cs ≠ []) (h : f.freeQuotes ≤ run ∨ cs.head? ≠ some '"') :
    ∃ d r, f.escapeAll run cs = d :: r ∧ d ≠ '"' := by
  obtain ⟨c, cs, rfl⟩ := List.exists_cons_of_ne_nil hne
  by_cases hc : c = '"'
  · subst hc
    exact ⟨_, _, escapeAll_full (h.resolve_right fun h => h rfl), by decide⟩
  · rw [escapeAll_cons hc]
    rcases escape_cases f c with ⟨hself, -⟩ | ⟨e, hescape, -⟩
    · exact ⟨c, _, by rw [hself]; rfl, hc⟩
    · exact ⟨'\\', _, by rw [hescape]; rfl, by decide⟩

/-! ## In one line -/

theorem basic?_plain (hquote : c ≠ '"') (hbackslash : c ≠ '\\') (h : isPlain c = true) :
    basic? (fuel + 1) (c :: r) = (basic? fuel r).map fun p => (c :: p.1, p.2) := by
  rw [basic?, if_pos h]
  · exact hquote
  · exact hbackslash

theorem basic?_escape (h : escape? e = some (c, r)) :
    basic? (fuel + 1) ('\\' :: e) = (basic? fuel r).map fun p => (c :: p.1, p.2) := by
  simp only [basic?, h, Option.bind_eq_bind, Option.bind_some]
  cases basic? fuel r <;> rfl

theorem basic?_escapeAll (hf : f.isMultiline = false) (hfuel : (f.escapeAll run cs).length < fuel) :
    basic? fuel (f.escapeAll run cs ++ '"' :: rest) = some (cs, rest) := by
  have hfree : f.freeQuotes = 0 := by rw [Form.freeQuotes, hf]; rfl
  induction cs generalizing run fuel with
  | nil =>
    obtain ⟨fuel, rfl⟩ := Nat.exists_eq_succ_of_ne_zero (Nat.ne_of_gt (Nat.zero_lt_of_lt hfuel))
    rfl
  | cons c cs ih =>
    obtain ⟨fuel, rfl⟩ := Nat.exists_eq_succ_of_ne_zero (Nat.ne_of_gt (Nat.zero_lt_of_lt hfuel))
    by_cases hc : c = '"'
    · subst hc
      rw [escapeAll_full (by omega)] at hfuel ⊢
      simp only [List.length_cons] at hfuel
      rw [List.cons_append, List.cons_append, basic?_escape rfl, ih (by omega)]
      rfl
    · rw [escapeAll_cons hc] at hfuel ⊢
      rcases escape_cases f c with ⟨hself, hbackslash, hplain⟩ | ⟨e, hescape, he⟩
      · rw [hself] at hfuel ⊢
        have hplain := hplain.resolve_right fun h => Bool.false_ne_true (hf.symm.trans h.2)
        simp only [List.cons_append, List.nil_append, List.length_cons] at hfuel ⊢
        rw [basic?_plain hc hbackslash hplain, ih (by omega)]
        rfl
      · rw [hescape] at hfuel ⊢
        simp only [List.cons_append, List.length_cons, List.length_append] at hfuel
        rw [List.cons_append, List.cons_append, List.append_assoc, basic?_escape (he _).1, ih (by omega)]
        rfl

theorem literal?_append (h : ∀ c ∈ cs, isPlain c = true ∧ c ≠ '\'') : literal? (cs ++ '\'' :: rest) = some (cs, rest) := by
  induction cs with
  | nil => rfl
  | cons c cs ih =>
    obtain ⟨hplain, hc⟩ := h c List.mem_cons_self
    rw [List.cons_append, literal?.eq_3 _ _ hc, if_pos hplain, ih fun c hc => h c (List.mem_cons_of_mem _ hc)]
    rfl

/-! ## Over several lines -/

theorem lines?_plain (hquote : c ≠ quote) (hbackslash : c ≠ '\\' ∨ quote ≠ '"') (h : isPlain c = true) :
    lines? quote (fuel + 1) (c :: r) = (lines? quote fuel r).map fun p => (c :: p.1, p.2) := by
  have hno : ¬(c = '\\' ∧ quote = '"') := by
    intro hboth
    exact hbackslash.elim (fun h => h hboth.1) fun h => h hboth.2
  rw [lines?, if_neg hquote, if_neg hno, if_pos h]
  · rintro rfl
    exact absurd h (by decide)
  · rintro r rfl rfl
    exact absurd h (by decide)

theorem lines?_newline : lines? quote (fuel + 1) ('\n' :: r) = (lines? quote fuel r).map fun p => ('\n' :: p.1, p.2) := rfl

theorem lines?_escape (h : escape? e = some (c, r)) (hjoin : joinLines? e = none) :
    lines? '"' (fuel + 1) ('\\' :: e) = (lines? '"' fuel r).map fun p => (c :: p.1, p.2) := by
  rw [lines?, if_neg (by decide), if_pos ⟨rfl, rfl⟩, hjoin, h]
  · rfl
  · simp
  · simp

/-- The characters that can stand around a string. -/
def IsQuote (quote : Char) : Prop := quote = '"' ∨ quote = '\''

theorem lines?_quote (hquote : IsQuote quote) : lines? quote (fuel + 1) (quote :: r) =
    if [quote, quote].isPrefixOf r then some (closing quote (r.drop 2))
    else (lines? quote fuel r).map fun p => (quote :: p.1, p.2) := by
  rcases hquote with rfl | rfl <;> rw [lines?, if_pos rfl] <;> simp

theorem Stops.ne_quote (h : Stops rest) (hquote : IsQuote quote) : ∀ c ∈ rest.head?, c ≠ quote := by
  intro c hc
  rcases h c hc with rfl | rfl | rfl <;> rcases hquote with rfl | rfl <;> decide

/-- Up to two quotes may stand in front of the three that end the string. -/
theorem lines?_end (hquote : IsQuote quote) (hrest : Stops rest) {k : Nat} (hk : k ≤ 2) :
    lines? quote (fuel + 1) (List.replicate k quote ++ quote :: quote :: quote :: rest) =
      some (List.replicate k quote, rest) := by
  have hthree : ∀ r, [quote, quote].isPrefixOf (quote :: quote :: r) = true := by simp
  have hclosing : closing quote rest = ([], rest) ∧ closing quote (quote :: rest) = ([quote], rest) := by
    have hne := hrest.ne_quote hquote
    match rest with
    | [] => simp [closing]
    | [c] => simp [closing, hne c rfl]
    | c :: d :: r => simp [closing, hne c rfl]
  match k with
  | 0 =>
    rw [List.replicate_zero, List.nil_append, lines?_quote hquote, if_pos (hthree _)]
    exact congrArg some hclosing.1
  | 1 =>
    rw [List.replicate_one, List.singleton_append, lines?_quote hquote, if_pos (hthree _)]
    exact congrArg some hclosing.2
  | 2 =>
    change lines? quote (fuel + 1) (quote :: quote :: quote :: quote :: quote :: rest) = _
    rw [lines?_quote hquote, if_pos (hthree _)]
    simp [closing]

theorem not_prefix_of_second {d : Char} (hd : d ≠ quote) : ¬[quote, quote].isPrefixOf (c :: d :: r) = true := by
  simp [Ne.symm hd]

theorem not_prefix_of_first {d : Char} (hd : d ≠ quote) : ¬[quote, quote].isPrefixOf (d :: r) = true := by
  simp [Ne.symm hd]

/-- At a bare quote either the string ends here, or three quotes in a row are not next. -/
theorem escapeAll_quote (hf : f.freeQuotes = 2) (hrun : run < 2) :
    (∃ k, k ≤ 2 ∧ '"' :: cs = List.replicate k '"' ∧
      f.escapeAll run ('"' :: cs) = List.replicate k '"') ∨
      ∀ rest, ¬['"', '"'].isPrefixOf (f.escapeAll (run + 1) cs ++ '"' :: '"' :: '"' :: rest) = true := by
  match cs with
  | [] => exact .inl ⟨1, by decide, rfl, by rw [escapeAll_free (by omega)]; rfl⟩
  | c :: cs =>
    by_cases hbare : run = 0 ∧ c = '"'
    · obtain ⟨rfl, rfl⟩ := hbare
      rw [escapeAll_free (show 0 < f.freeQuotes by omega), escapeAll_free (show 0 + 1 < f.freeQuotes by omega)]
      by_cases hnil : cs = []
      · subst hnil
        exact .inl ⟨2, le_rfl, rfl, rfl⟩
      · obtain ⟨d, r, hd, hne⟩ := @head_escapeAll cs 2 f hnil (.inl hf.le)
        right
        intro rest
        rw [hd]
        exact not_prefix_of_second hne
    · obtain ⟨d, r, hd, hne⟩ := @head_escapeAll (c :: cs) (run + 1) f (by simp) (by
        by_cases hc : c = '"'
        · have hlater : run ≠ 0 := fun h => hbare ⟨h, hc⟩
          exact .inl (by omega)
        · exact .inr fun h => hc (Option.some.inj h))
      right
      intro rest
      rw [hd]
      exact not_prefix_of_first hne

theorem lines?_escapeAll (hf : f.isMultiline = true) (hrest : Stops rest) (hfuel : (f.escapeAll run cs).length < fuel) :
    lines? '"' fuel (f.escapeAll run cs ++ '"' :: '"' :: '"' :: rest) = some (cs, rest) := by
  have hfree : f.freeQuotes = 2 := by rw [Form.freeQuotes, hf]; rfl
  induction cs generalizing run fuel with
  | nil =>
    obtain ⟨fuel, rfl⟩ := Nat.exists_eq_succ_of_ne_zero (Nat.ne_of_gt (Nat.zero_lt_of_lt hfuel))
    exact lines?_end (.inl rfl) hrest (Nat.zero_le 2)
  | cons c cs ih =>
    obtain ⟨fuel, rfl⟩ := Nat.exists_eq_succ_of_ne_zero (Nat.ne_of_gt (Nat.zero_lt_of_lt hfuel))
    by_cases hc : c = '"'
    · subst hc
      by_cases hrun : run < 2
      · rcases escapeAll_quote hfree hrun with ⟨k, hk, hcs, htext⟩ | hgoes
        · rw [htext, lines?_end (.inl rfl) hrest hk, ← hcs]
        · rw [escapeAll_free (by omega)] at hfuel ⊢
          simp only [List.length_cons] at hfuel
          rw [List.cons_append, lines?_quote (.inl rfl), if_neg (hgoes rest), ih (by omega)]
          rfl
      · rw [escapeAll_full (by omega)] at hfuel ⊢
        simp only [List.length_cons] at hfuel
        rw [List.cons_append, List.cons_append, lines?_escape rfl rfl, ih (by omega)]
        rfl
    · rw [escapeAll_cons hc] at hfuel ⊢
      rcases escape_cases f c with ⟨hself, hbackslash, hplain⟩ | ⟨e, hescape, he⟩
      · rw [hself] at hfuel ⊢
        simp only [List.cons_append, List.nil_append, List.length_cons] at hfuel ⊢
        rcases hplain with hplain | ⟨rfl, -⟩
        · rw [lines?_plain hc (.inl hbackslash) hplain, ih (by omega)]
          rfl
        · rw [lines?_newline, ih (by omega)]
          rfl
      · rw [hescape] at hfuel ⊢
        simp only [List.cons_append, List.length_cons, List.length_append] at hfuel
        rw [List.cons_append, List.cons_append, List.append_assoc, lines?_escape (he _).1 (he _).2, ih (by omega)]
        rfl

theorem le_longestRun (c : Char) (run : Nat) (cs : List Char) : run ≤ longestRun c run cs := by
  induction cs generalizing run with
  | nil => exact le_rfl
  | cons d cs ih =>
    unfold longestRun
    split
    · exact (Nat.le_succ run).trans (ih (run + 1))
    · exact le_max_left _ _

theorem longestRun_self (c : Char) (run : Nat) (cs : List Char) : longestRun c run (c :: cs) = longestRun c (run + 1) cs :=
  if_pos rfl

theorem longestRun_other {d : Char} (h : d ≠ c) : longestRun c run (d :: cs) = max run (longestRun c 0 cs) := if_neg h

theorem longestRun_pos (h : c ∈ cs) : 0 < longestRun c run cs := by
  induction cs generalizing run with
  | nil => cases h
  | cons d cs ih =>
    by_cases hd : d = c
    · subst hd
      rw [longestRun_self]
      exact (Nat.succ_pos run).trans_le (le_longestRun d (run + 1) cs)
    · rw [longestRun_other hd]
      exact lt_max_of_lt_right (ih ((List.mem_cons.1 h).resolve_left (Ne.symm hd)))

/-- At an apostrophe the same holds where no run is longer than two. -/
theorem apostrophe_cases (h : longestRun '\'' run ('\'' :: cs) ≤ 2) :
    (∃ k, k ≤ 2 ∧ '\'' :: cs = List.replicate k '\'') ∨
      ∀ rest, ¬['\'', '\''].isPrefixOf (cs ++ '\'' :: '\'' :: '\'' :: rest) = true := by
  rw [longestRun_self] at h
  match cs with
  | [] => exact .inl ⟨1, by decide, rfl⟩
  | c :: cs =>
    by_cases hc : c = '\''
    · subst hc
      rw [longestRun_self] at h
      match cs with
      | [] => exact .inl ⟨2, le_rfl, rfl⟩
      | d :: cs =>
        by_cases hd : d = '\''
        · subst hd
          rw [longestRun_self] at h
          have hle := le_longestRun '\'' (run + 1 + 1 + 1) cs
          omega
        · exact .inr fun rest => not_prefix_of_second hd
    · exact .inr fun rest => not_prefix_of_first hc

theorem lines?_append (hcs : ∀ c ∈ cs, isPlain c = true ∨ c = '\n') (hrun : longestRun '\'' run cs ≤ 2) (hrest : Stops rest)
    (hfuel : cs.length < fuel) : lines? '\'' fuel (cs ++ '\'' :: '\'' :: '\'' :: rest) = some (cs, rest) := by
  induction cs generalizing run fuel with
  | nil =>
    obtain ⟨fuel, rfl⟩ := Nat.exists_eq_succ_of_ne_zero (Nat.ne_of_gt (Nat.zero_lt_of_lt hfuel))
    exact lines?_end (.inr rfl) hrest (Nat.zero_le 2)
  | cons c cs ih =>
    obtain ⟨fuel, rfl⟩ := Nat.exists_eq_succ_of_ne_zero (Nat.ne_of_gt (Nat.zero_lt_of_lt hfuel))
    have hcs' : ∀ c ∈ cs, isPlain c = true ∨ c = '\n' := fun c hc => hcs c (List.mem_cons_of_mem _ hc)
    simp only [List.length_cons] at hfuel
    by_cases hc : c = '\''
    · subst hc
      rcases apostrophe_cases hrun with ⟨k, hk, heq⟩ | hgoes
      · rw [heq, lines?_end (.inr rfl) hrest hk]
      · rw [longestRun_self] at hrun
        rw [List.cons_append, lines?_quote (.inr rfl), if_neg (hgoes rest), ih hcs' hrun (by omega)]
        rfl
    · rw [longestRun_other hc] at hrun
      have hrun' := (le_max_right _ _).trans hrun
      rcases hcs c List.mem_cons_self with hplain | rfl
      · rw [List.cons_append, lines?_plain hc (.inr (by decide)) hplain, ih hcs' hrun' (by omega)]
        rfl
      · rw [List.cons_append, lines?_newline, ih hcs' hrun' (by omega)]
        rfl

/-! ## Any string -/

/-- A form without escapes is only chosen where none is needed. -/
theorem choose_sound (cs : List Char) : (Form.choose (.of cs)).quote = '"' ∨
    Form.choose (.of cs) = ⟨'\'', false⟩ ∧ (∀ c ∈ cs, isPlain c = true ∧ c ≠ '\'') ∨
    Form.choose (.of cs) = ⟨'\'', true⟩ ∧ (∀ c ∈ cs, isPlain c = true ∨ c = '\n') ∧ longestRun '\'' 0 cs ≤ 2 := by
  have hplain : cs.any isControl = false → ∀ c ∈ cs, isPlain c = true ∨ c = '\n' := by
    intro h c hc
    by_cases hnewline : c = '\n'
    · exact .inr hnewline
    · exact .inl (isPlain_of_not_control (by simpa using List.any_eq_false.1 h c hc) hnewline)
  unfold Form.choose Traits.of
  simp only [Bool.and_eq_true, Bool.not_eq_true', decide_eq_true_eq]
  split
  · exact .inl rfl
  split
  · next h =>
    obtain ⟨⟨hcontrol, hnone⟩, hnewline⟩ := h
    refine .inr (.inl ⟨rfl, fun c hc => ⟨(hplain hcontrol c hc).resolve_right ?_, ?_⟩⟩)
    · rintro rfl
      simp [hc] at hnewline
    · rintro rfl
      exact (longestRun_pos hc).ne' hnone
  split
  · exact .inl rfl
  split
  · next h => exact .inr (.inr ⟨rfl, hplain h.1, h.2⟩)
  · exact .inl rfl

theorem string?_basic (hf : f.isMultiline = false) (hrest : Stops rest) :
    string? ('"' :: f.escapeAll 0 cs ++ '"' :: rest) = some (String.ofList cs, rest) := by
  have hone : string? ('"' :: f.escapeAll 0 cs ++ '"' :: rest) = oneLine? ('"' :: f.escapeAll 0 cs ++ '"' :: rest) := by
    by_cases hnil : cs = []
    · subst hnil
      refine string?.eq_3 _ (fun r hr => ?_) fun r hr => by cases hr
      cases hr
      exact hrest.ne_quote (.inl rfl) '"' rfl rfl
    · obtain ⟨d, r, hd, hne⟩ := @head_escapeAll cs 0 f hnil (.inl (by rw [Form.freeQuotes, hf]; exact le_rfl))
      rw [hd]
      refine string?.eq_3 _ (fun r hr => ?_) fun r hr => by cases hr
      exact hne (List.cons.inj (List.cons.inj hr).2).1
  rw [hone, List.cons_append, oneLine?, basic?_escapeAll hf (by rw [List.length_append]; omega)]
  rfl

theorem string?_literal (h : ∀ c ∈ cs, isPlain c = true ∧ c ≠ '\'') (hrest : Stops rest) :
    string? ('\'' :: cs ++ '\'' :: rest) = some (String.ofList cs, rest) := by
  have hone : string? ('\'' :: cs ++ '\'' :: rest) = oneLine? ('\'' :: cs ++ '\'' :: rest) := by
    refine string?.eq_3 _ (fun r hr => by cases hr) fun r hr => ?_
    match cs with
    | [] =>
      cases hr
      exact hrest.ne_quote (.inr rfl) '\'' rfl rfl
    | c :: cs => exact (h c List.mem_cons_self).2 (List.cons.inj (List.cons.inj hr).2).1
  rw [hone, List.cons_append, oneLine?, literal?_append h]
  rfl

theorem lineBreak?_cons (hnewline : c ≠ '\n') (hreturn : c ≠ '\r') : lineBreak? (c :: r) = none :=
  lineBreak?.eq_3 _ (fun _ h => hnewline (List.cons.inj h).1) fun _ h => hreturn (List.cons.inj h).1

theorem not_break_of_plain (h : isPlain c = true) : c ≠ '\n' ∧ c ≠ '\r' := by
  constructor <;> rintro rfl <;> exact absurd h (by decide)

/-- The line break after the opening belongs to the form, not to the string. -/
theorem multiline?_eq (gap : Bool) (hfirst : gap = false → lineBreak? cs = none) :
    ∃ fuel, cs.length < fuel ∧ multiline? quote ((if gap then ['\n'] else []) ++ cs) = lines? quote fuel cs := by
  cases gap with
  | true => exact ⟨cs.length + 2, by omega, rfl⟩
  | false =>
    refine ⟨cs.length + 1, by omega, ?_⟩
    change lines? quote (cs.length + 1) ((lineBreak? cs).getD cs) = _
    rw [hfirst rfl]
    rfl

theorem lineBreak?_escapeAll (hf : f.isMultiline = true) (hcs : cs.contains '\n' = false) (hr : lineBreak? r = none) :
    lineBreak? (f.escapeAll 0 cs ++ r) = none := by
  match cs with
  | [] => exact hr
  | c :: cs =>
    by_cases hc : c = '"'
    · subst hc
      rw [escapeAll_free (by rw [Form.freeQuotes, hf]; decide)]
      rfl
    · rw [escapeAll_cons hc]
      rcases escape_cases f c with ⟨hself, -, hplain⟩ | ⟨e, hescape, -⟩
      · rw [hself]
        rcases hplain with hplain | ⟨rfl, -⟩
        · exact lineBreak?_cons (not_break_of_plain hplain).1 (not_break_of_plain hplain).2
        · simp at hcs
      · rw [hescape]
        rfl

theorem string?_lines (hf : f.isMultiline = true) (hrest : Stops rest) :
    string? ('"' :: '"' :: '"' :: ((if cs.contains '\n' then ['\n'] else []) ++ (f.escapeAll 0 cs ++ '"' :: '"' :: '"' :: rest))) =
      some (String.ofList cs, rest) := by
  obtain ⟨fuel, hfuel, hmulti⟩ := @multiline?_eq '"' (f.escapeAll 0 cs ++ '"' :: '"' :: '"' :: rest) (cs.contains '\n')
    fun hcs => lineBreak?_escapeAll hf hcs rfl
  rw [List.length_append] at hfuel
  rw [string?, hmulti, lines?_escapeAll hf hrest (by omega)]
  rfl

theorem string?_literalLines (hcs : ∀ c ∈ cs, isPlain c = true ∨ c = '\n') (hrun : longestRun '\'' 0 cs ≤ 2)
    (hrest : Stops rest) :
    string? ('\'' :: '\'' :: '\'' :: ((if cs.contains '\n' then ['\n'] else []) ++ (cs ++ '\'' :: '\'' :: '\'' :: rest))) =
      some (String.ofList cs, rest) := by
  have hfirst : cs.contains '\n' = false → lineBreak? (cs ++ '\'' :: '\'' :: '\'' :: rest) = none := by
    intro hnone
    match cs with
    | [] => rfl
    | c :: cs =>
      rcases hcs c List.mem_cons_self with hplain | rfl
      · exact lineBreak?_cons (not_break_of_plain hplain).1 (not_break_of_plain hplain).2
      · simp at hnone
  obtain ⟨fuel, hfuel, hmulti⟩ := multiline?_eq (cs.contains '\n') hfirst
  rw [List.length_append] at hfuel
  rw [string?, hmulti, lines?_append hcs hrun hrest (by omega)]
  rfl

/-- Every string is read back. -/
theorem string?_quoted (s : String) (hrest : Stops rest) : string? ((quoted s).toList ++ rest) = some (s, rest) := by
  have hwrite : (quoted s).toList = (Form.choose (.of s.toList)).write s.toList := String.toList_ofList
  have hs : String.ofList s.toList = s := String.ofList_toList
  rw [hwrite]
  rcases choose_sound s.toList with hquote | ⟨hf, hcs⟩ | ⟨hf, hcs, hrun⟩
  · generalize Form.choose (.of s.toList) = f at hquote
    obtain ⟨quote, multi⟩ := f
    obtain rfl : quote = '"' := hquote
    cases multi with
    | false =>
      have hread := @string?_basic s.toList rest ⟨'"', false⟩ rfl hrest
      rw [hs] at hread
      simpa [Form.write, Form.fence] using hread
    | true =>
      have hread := @string?_lines s.toList rest ⟨'"', true⟩ rfl hrest
      rw [hs] at hread
      simpa [Form.write, Form.fence] using hread
  · have hread := string?_literal hcs hrest
    rw [hs] at hread
    rw [hf]
    simpa [Form.write, Form.fence] using hread
  · have hread := string?_literalLines hcs hrun hrest
    rw [hs] at hread
    rw [hf]
    simpa [Form.write, Form.fence] using hread

end TaskFleet.Toml
