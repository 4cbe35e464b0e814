/-
  TaskFleet.Proofs.LocalCommand.FailureMessages — what a failed program leaves in its task's row.

  The message is the last line of standard error that is not blank, or else a description of the
  program's end. It can be long, and its bytes need not have been a text, so it is cut after they have
  been read: a cut between two bytes of one character would be no text.
  - `LastLine`, `Says`: the whole message, in terms of the characters read; `says_complaint`.
  - `Cut`: what a cut has to keep; `cut_clip`.
  - `failure_messages_are_cut_at_characters`: both, for all programs, ends and bytes.
-/

import Mathlib.Data.List.DropRight
import TaskFleet.LocalCommand.Basic
import TaskFleet.Proofs.Text.Utf8

namespace TaskFleet.Text

variable {cs l : List Char} {c : Char}

/-! ## Blanks -/

theorem trim_eq_nil_iff : trim cs = [] ↔ ∀ c ∈ cs, isBlank c = true := by
  change List.rdropWhile isBlank (cs.dropWhile isBlank) = [] ↔ _
  rw [List.rdropWhile_eq_nil_iff]
  constructor
  · intro h c hc
    rw [← List.takeWhile_append_dropWhile (p := isBlank) (l := cs)] at hc
    rcases List.mem_append.1 hc with hc | hc
    · exact List.mem_takeWhile_imp hc
    · exact h c hc
  · exact fun h c hc => h c ((List.dropWhile_suffix isBlank).mem hc)

/-- A blank at the end makes no difference. -/
theorem trim_concat (h : isBlank c = true) : trim (cs ++ [c]) = trim cs := by
  change List.rdropWhile isBlank ((cs ++ [c]).dropWhile isBlank) = List.rdropWhile isBlank (cs.dropWhile isBlank)
  rw [List.dropWhile_append]
  split
  · next hall =>
    rw [List.isEmpty_iff.1 hall, List.dropWhile_cons_of_pos h]
    rfl
  · exact List.rdropWhile_concat_pos _ _ _ h

/-! ## The last line -/

/-- `line` is the last line of the text that is not blank, without the blanks at its ends. -/
inductive LastLine : (text line : List Char) → Prop
  | intro {before whole after : List Char} : (before = [] ∨ before.getLast? = some '\n') → '\n' ∉ whole →
      (∃ c ∈ whole, isBlank c = false) → (after = [] ∨ after.head? = some '\n') → (∀ c ∈ after, isBlank c = true) →
      LastLine (before ++ whole ++ after) (trim whole)

/-- Not made of blanks only. -/
def saysSomething (l : List Char) : Bool := !(trim l).isEmpty

theorem saysSomething_iff : saysSomething l = true ↔ ∃ c ∈ l, isBlank c = false := by
  rw [saysSomething, Bool.not_eq_true', List.isEmpty_eq_false_iff, Ne, trim_eq_nil_iff]
  simp

/-- Neither the carriage returns nor the line feed at the very end matter for the search. -/
theorem find?_lines (cs : List Char) :
    ((lines cs).reverse.find? saysSomething).map trim = ((cs.splitOn '\n').reverse.find? saysSomething).map trim := by
  have hstrip : ∀ l : List Char, trim (if l.getLast? = some '\r' then l.dropLast else l) = trim l := fun l => by
    split
    · next hlast =>
      obtain ⟨init, rfl⟩ := List.getLast?_eq_some_iff.1 hlast
      rw [List.dropLast_concat, trim_concat (by decide)]
    · rfl
  have hempty : ∀ parts : List (List Char),
      (if parts.getLast? = some [] then parts.dropLast else parts).reverse.find? saysSomething
        = parts.reverse.find? saysSomething := fun parts => by
    split
    · next hlast =>
      obtain ⟨init, rfl⟩ := List.getLast?_eq_some_iff.1 hlast
      rw [List.dropLast_concat, List.reverse_concat, List.find?_cons_of_neg (by decide)]
    · rfl
  unfold lines
  simp only
  rw [← List.map_reverse, List.find?_map, Option.map_map, ← hempty]
  congr 1
  · exact funext hstrip
  · congr 1
    exact funext fun l => congrArg (fun t : List Char => !t.isEmpty) (hstrip l)

theorem not_mem_of_mem_splitOn (h : l ∈ cs.splitOn c) : c ∉ l := by
  induction cs generalizing l with
  | nil =>
    rw [List.splitOn_nil, List.mem_singleton] at h
    simp [h]
  | cons d cs ih =>
    rw [List.splitOn_cons_eq_if_modifyHead] at h
    split at h
    · rcases List.mem_cons.1 h with rfl | h
      · exact List.not_mem_nil
      · exact ih h
    · next hne =>
      obtain ⟨first, later, hparts⟩ := List.exists_cons_of_ne_nil (List.splitOn_ne_nil c cs)
      rw [hparts, List.modifyHead_cons] at h
      rw [hparts] at ih
      rcases List.mem_cons.1 h with rfl | h
      · exact List.not_mem_cons_of_ne_of_not_mem (fun heq => hne (beq_iff_eq.2 heq.symm)) (ih List.mem_cons_self)
      · exact ih (List.mem_cons_of_mem _ h)

/-- The text around one of its parts. -/
theorem intercalate_append_cons (parts later : List (List Char)) (l : List Char) :
    [c].intercalate (parts ++ l :: later) = parts.flatMap (· ++ [c]) ++ l ++ later.flatMap (c :: ·) := by
  induction parts with
  | nil =>
    induction later generalizing l with
    | nil => simp
    | cons l' later ih =>
      have ih := ih l'
      simp only [List.nil_append, List.flatMap_nil] at ih ⊢
      rw [List.intercalate_cons_cons, ih, List.flatMap_cons]
      simp
  | cons l' parts ih =>
    obtain ⟨m, ms, hrest⟩ := List.exists_cons_of_ne_nil (List.append_ne_nil_of_right_ne_nil parts (List.cons_ne_nil l later))
    rw [List.cons_append, hrest, List.intercalate_cons_cons, ← hrest, ih]
    simp

theorem saysNothing_iff : ¬saysSomething l = true ↔ ∀ c ∈ l, isBlank c = true := by
  rw [saysSomething_iff]
  simp

/-- The search comes back with the last line that is not blank. -/
theorem lastLine_of_find? (h : (cs.splitOn '\n').reverse.find? saysSomething = some l) : LastLine cs (trim l) := by
  obtain ⟨hl, later, parts, hparts, hlater⟩ := List.find?_eq_some_iff_append.1 h
  have hparts : cs.splitOn '\n' = parts.reverse ++ l :: later.reverse := by
    rw [← List.reverse_reverse (cs.splitOn '\n'), hparts]
    simp
  have hcs : ['\n'].intercalate (cs.splitOn '\n') = cs := List.intercalate_splitOn '\n'
  rw [hparts, intercalate_append_cons] at hcs
  rw [← hcs]
  have hmem : l ∈ cs.splitOn '\n' := by simp [hparts]
  refine .intro ?_ (not_mem_of_mem_splitOn hmem) (saysSomething_iff.1 hl) ?_ ?_
  · cases parts with
    | nil => exact .inl rfl
    | cons m ms =>
      right
      rw [List.reverse_cons, List.flatMap_append, List.flatMap_singleton, ← List.append_assoc, List.getLast?_concat]
  · cases later.reverse with
    | nil => exact .inl rfl
    | cons m ms => exact .inr rfl
  · intro c hc
    obtain ⟨m, hm, hc⟩ := List.mem_flatMap.1 hc
    rcases List.mem_cons.1 hc with rfl | hc
    · decide
    · have hquiet : ¬saysSomething m = true := by simpa using hlater m (List.mem_reverse.1 hm)
      exact saysNothing_iff.1 hquiet c hc

/-- If it finds none, all characters are blanks. -/
theorem blank_of_find?_eq_none (h : (cs.splitOn '\n').reverse.find? saysSomething = none) : ∀ c ∈ cs, isBlank c = true := by
  intro c hc
  obtain ⟨m, ms, hparts⟩ := List.exists_cons_of_ne_nil (List.splitOn_ne_nil '\n' cs)
  have hquiet : ∀ l ∈ cs.splitOn '\n', ∀ c ∈ l, isBlank c = true := fun l hl =>
    saysNothing_iff.1 (List.find?_eq_none.1 h l (List.mem_reverse.2 hl))
  have hcs := intercalate_append_cons (c := '\n') [] ms m
  rw [hparts] at hquiet
  rw [List.nil_append, ← hparts, List.intercalate_splitOn] at hcs
  rw [hcs] at hc
  rcases List.mem_append.1 hc with hc | hc
  · exact hquiet m List.mem_cons_self c hc
  · obtain ⟨l, hl, hc⟩ := List.mem_flatMap.1 hc
    rcases List.mem_cons.1 hc with rfl | hc
    · decide
    · exact hquiet l (List.mem_cons_of_mem _ hl) c hc

end TaskFleet.Text

namespace TaskFleet.LocalCommand

open Text

variable {program : String} {status : ExitStatus} {stderr : List UInt8} {limit : Nat} {cs full message : List Char}

/-! ## The whole message -/

/-- What a failed program has to say that wrote this text to standard error. -/
inductive Says (program : String) (status : ExitStatus) (text : List Char) : List Char → Prop
  | line {l : List Char} : LastLine text l → Says program status text l
  | silent : (∀ c ∈ text, isBlank c = true) → Says program status text s!"{program} exited with {status.describe}".toList

theorem says_complaint (program : String) (status : ExitStatus) (stderr : List UInt8) :
    Says program status (decodeLossy stderr) (complaint program status stderr) := by
  have hfind := find?_lines (decodeLossy stderr)
  unfold complaint
  split
  · next line hline =>
    have hline : (lines (decodeLossy stderr)).reverse.find? saysSomething = some line := hline
    rw [hline] at hfind
    obtain ⟨l, hl, htrim⟩ := Option.map_eq_some_iff.1 hfind.symm
    rw [← htrim]
    exact .line (lastLine_of_find? hl)
  · next hnone =>
    have hnone : (lines (decodeLossy stderr)).reverse.find? saysSomething = none := hnone
    rw [hnone] at hfind
    exact .silent (blank_of_find?_eq_none (Option.map_eq_none_iff.1 hfind.symm))

/-! ## The cut -/

/-- What a cut has to leave of a message that may take so many bytes. -/
structure Cut (limit : Nat) (full message : List Char) : Prop where
  whole_characters : message <+: full
  fits : size message ≤ limit
  uncut : size full ≤ limit → message = full
  /-- No longer beginning would fit. -/
  longest : ∀ p, p <+: full → size p ≤ limit → p <+: message
  /-- Less than one character's bytes are given up. -/
  close : limit < size full → limit ≤ size message + 3
  /-- The search for the place among the bytes finds it, and does not go below zero. -/
  found : truncate? limit (encoded full) = some (encoded message)

theorem cut_clip (limit : Nat) (full : List Char) : Cut limit full (clip limit full) where
  whole_characters := clip_prefix
  fits := size_clip_le
  uncut := clip_eq_self
  longest _ hp hfits := prefix_clip hp hfits
  close h := Nat.le_of_lt_succ (lt_size_clip h)
  found := truncate?_eq limit full

/-- The failure message of a program is the last line it wrote to standard error that is not blank, read with
    replacement, or else how it ended; of that it is the longest beginning of whole characters in at most 500 bytes. -/
theorem failure_messages_are_cut_at_characters (program : String) (status : ExitStatus) (stderr : List UInt8) :
    ∃ full, Says program status (decodeLossy stderr) full ∧ Cut 500 full (failureMessage program status stderr).toList := by
  refine ⟨_, says_complaint program status stderr, ?_⟩
  rw [failureMessage, String.toList_ofList]
  exact cut_clip _ _

end TaskFleet.LocalCommand
