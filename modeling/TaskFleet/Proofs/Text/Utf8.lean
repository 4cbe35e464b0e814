/-
  TaskFleet.Proofs.Text.Utf8 — what is kept of a text that is cut.

  Seen from its bytes, a text may be cut in front of every byte that begins a character, and at its
  end. These places are the lengths of the text's own beginnings, so going down from a limit to the
  first of them leaves the longest beginning that keeps the limit. A character has four bytes at
  most: the way down is three steps at most.
  - `clip`, character by character: `clip_prefix`, `prefix_clip`, `lt_size_clip`.
  - `isBoundary_iff`: where a text may be cut.
  - `truncate?_eq`: the search among the bytes finds what `clip` keeps.
-/

import TaskFleet.Proofs.Text.ByteOrder
import TaskFleet.Text.Utf8

namespace TaskFleet.Text

variable {c : Char} {cs p : List Char} {bs : List UInt8} {i k m n : Nat}

/-! ## The bytes of characters -/

/-- The bytes of a list of characters in UTF-8. -/
def encoded (cs : List Char) : List UInt8 := cs.flatMap String.utf8EncodeChar

@[simp] theorem encoded_nil : encoded [] = [] := rfl

@[simp] theorem encoded_cons : encoded (c :: cs) = String.utf8EncodeChar c ++ encoded cs := rfl

@[simp] theorem encoded_append (cs ds : List Char) : encoded (cs ++ ds) = encoded cs ++ encoded ds :=
  List.flatMap_append

/-- The number of bytes. -/
def size (cs : List Char) : Nat := (encoded cs).length

@[simp] theorem size_nil : size [] = 0 := rfl

@[simp] theorem size_cons : size (c :: cs) = c.utf8Size + size cs := by
  simp [size]

theorem size_le_of_prefix (h : p <+: cs) : size p ≤ size cs := by
  obtain ⟨rest, rfl⟩ := h
  simp [size]

/-! ## Characters that fit -/

theorem clip_prefix : clip n cs <+: cs := by
  induction cs generalizing n with
  | nil => exact List.prefix_rfl
  | cons c cs ih =>
    unfold clip
    split
    · exact (List.prefix_cons_inj c).2 ih
    · exact List.nil_prefix

theorem size_clip_le : size (clip n cs) ≤ n := by
  induction cs generalizing n with
  | nil => exact Nat.zero_le n
  | cons c cs ih =>
    unfold clip
    split
    · next hfits =>
      have hrest := ih (n := n - c.utf8Size)
      rw [size_cons]
      omega
    · exact Nat.zero_le n

/-- No longer beginning fits. -/
theorem prefix_clip (h : p <+: cs) (hsize : size p ≤ n) : p <+: clip n cs := by
  induction cs generalizing n p with
  | nil => exact h
  | cons c cs ih =>
    rcases List.prefix_cons_iff.1 h with rfl | ⟨p, rfl, hp⟩
    · exact List.nil_prefix
    · rw [size_cons] at hsize
      have hfits : c.utf8Size ≤ n := by omega
      rw [clip, if_pos hfits]
      exact (List.prefix_cons_inj c).2 (ih hp (by omega))

theorem clip_eq_self (h : size cs ≤ n) : clip n cs = cs :=
  clip_prefix.eq_of_length_le (prefix_clip List.prefix_rfl h).length_le

/-- Less than one character is lost. -/
theorem lt_size_clip (h : n < size cs) : n < size (clip n cs) + 4 := by
  induction cs generalizing n with
  | nil => exact absurd h (Nat.not_lt_zero n)
  | cons c cs ih =>
    unfold clip
    split
    · next hfits =>
      rw [size_cons] at h ⊢
      have hrest := ih (n := n - c.utf8Size) (by omega)
      omega
    · have hmost := c.utf8Size_le_four
      rw [size_nil]
      omega

/-! ## Where bytes may be cut -/

/-- A byte that is not inside a character. -/
def begins (b : UInt8) : Bool := b < 0x80 || 0xC0 ≤ b

/-- Whether no character goes across the place in front of the `i`-th byte. -/
def isBoundary (bs : List UInt8) (i : Nat) : Bool :=
  i == 0 || match bs[i]? with
    | none => i == bs.length
    | some b => begins b

/-- The search for such a place, from a place on downwards; none if it would go below zero. -/
def boundary? (bs : List UInt8) : Nat → Option Nat
  | 0 => if isBoundary bs 0 then some 0 else none
  | i + 1 => if isBoundary bs (i + 1) then some (i + 1) else boundary? bs i

/-- The bytes, if they are more than the limit only those before the place found from there. -/
def truncate? (limit : Nat) (bs : List UInt8) : Option (List UInt8) :=
  if bs.length ≤ limit then some bs else (boundary? bs limit).map fun cut => bs.take cut

theorem begins_ofNat (h : k < 256) : begins (UInt8.ofNat k) = decide (k < 128 ∨ 192 ≤ k) := by
  have hbyte : (UInt8.ofNat k).toNat = k := UInt8.toNat_ofNat_of_lt h
  simp only [begins, UInt8.lt_iff_toNat_lt, UInt8.le_iff_toNat_le, hbyte, Bool.decide_or]
  rfl

/-- Of the bytes of a character only the first one begins it. -/
theorem exists_encode_eq (c : Char) :
    ∃ b later, String.utf8EncodeChar c = b :: later ∧ begins b = true ∧ ∀ b' ∈ later, begins b' = false := by
  have hmost : c.val.toNat < 0x110000 := by
    have hvalid := c.valid
    unfold UInt32.isValidChar Nat.isValidChar at hvalid
    omega
  unfold String.utf8EncodeChar
  generalize c.val.toNat = a at hmost ⊢
  have hlater : ∀ k : Nat, begins (UInt8.ofNat (k % 64 + 128)) = false := fun k => by
    rw [begins_ofNat (by omega), decide_eq_false_iff_not]
    omega
  simp only
  repeat' split
  all_goals refine ⟨_, _, rfl, ?_, by simp only [List.forall_mem_cons, hlater, true_and, List.not_mem_nil, false_imp_iff, implies_true]⟩
  all_goals rw [begins_ofNat (by omega), decide_eq_true_iff]
  all_goals omega

theorem isBoundary_append (hi : 0 < i) :
    isBoundary (String.utf8EncodeChar c ++ bs) (c.utf8Size + i) = isBoundary bs i := by
  have hget : (String.utf8EncodeChar c ++ bs)[c.utf8Size + i]? = bs[i]? := by
    rw [List.getElem?_append_right (by simp), String.length_utf8EncodeChar, Nat.add_sub_cancel_left]
  have hzero : (c.utf8Size + i == 0) = (i == 0) := by
    rw [beq_eq_false_iff_ne.2 (by omega), beq_eq_false_iff_ne.2 (by omega)]
  have hend : (c.utf8Size + i == (String.utf8EncodeChar c ++ bs).length) = (i == bs.length) := by
    rw [List.length_append, String.length_utf8EncodeChar, Bool.eq_iff_iff, beq_iff_eq, beq_iff_eq,
      Nat.add_left_cancel_iff]
  unfold isBoundary
  rw [hget, hzero, hend]

theorem not_isBoundary (hi : 0 < i) (hlt : i < c.utf8Size) : isBoundary (String.utf8EncodeChar c ++ bs) i = false := by
  obtain ⟨b, later, hbytes, -, hlater⟩ := exists_encode_eq c
  have hlen := String.length_utf8EncodeChar c
  rw [hbytes, List.length_cons] at hlen
  obtain ⟨j, rfl⟩ := Nat.exists_eq_add_of_lt hi
  have hj : j < later.length := by omega
  have hget : (String.utf8EncodeChar c ++ bs)[0 + j + 1]? = some later[j] := by
    rw [hbytes, List.cons_append, Nat.zero_add, List.getElem?_cons_succ, List.getElem?_append_left hj,
      List.getElem?_eq_getElem hj]
  unfold isBoundary
  rw [hget]
  simp [hlater _ (List.getElem_mem hj)]

theorem isBoundary_size : isBoundary (String.utf8EncodeChar c ++ encoded cs) c.utf8Size = true := by
  cases cs with
  | nil => simp [isBoundary]
  | cons d cs =>
    obtain ⟨b, later, hbytes, hb, -⟩ := exists_encode_eq d
    have hget : (String.utf8EncodeChar c ++ encoded (d :: cs))[c.utf8Size]? = some b := by
      rw [List.getElem?_append_right (by simp), String.length_utf8EncodeChar, Nat.sub_self, encoded_cons, hbytes]
      rfl
    unfold isBoundary
    rw [hget]
    simp [hb]

/-- The places are the lengths of the text's beginnings. -/
theorem isBoundary_iff : isBoundary (encoded cs) i = true ↔ ∃ p, p <+: cs ∧ size p = i := by
  induction cs generalizing i with
  | nil =>
    constructor
    · intro h
      have hi : i = 0 := by simpa [isBoundary] using h
      exact ⟨[], List.prefix_rfl, hi.symm⟩
    · rintro ⟨p, hp, rfl⟩
      rw [List.prefix_nil.1 hp]
      rfl
  | cons c cs ih =>
    have hsplit : (∃ p, p <+: c :: cs ∧ size p = i) ↔ i = 0 ∨ ∃ p, p <+: cs ∧ c.utf8Size + size p = i := by
      constructor
      · rintro ⟨p, hp, rfl⟩
        rcases List.prefix_cons_iff.1 hp with rfl | ⟨q, rfl, hq⟩
        · exact .inl rfl
        · exact .inr ⟨q, hq, size_cons.symm⟩
      · rintro (rfl | ⟨p, hp, rfl⟩)
        · exact ⟨[], List.nil_prefix, rfl⟩
        · exact ⟨c :: p, (List.prefix_cons_inj c).2 hp, size_cons⟩
    rw [hsplit, encoded_cons]
    rcases Nat.eq_zero_or_pos i with rfl | hi
    · simp [isBoundary]
    rcases Nat.lt_trichotomy i c.utf8Size with hlt | rfl | hgt
    · rw [not_isBoundary hi hlt]
      refine ⟨fun h => absurd h Bool.false_ne_true, ?_⟩
      rintro (rfl | ⟨p, -, rfl⟩) <;> omega
    · exact iff_of_true isBoundary_size (.inr ⟨[], List.nil_prefix, rfl⟩)
    · obtain ⟨j, rfl⟩ := Nat.exists_eq_add_of_lt hgt
      rw [Nat.add_assoc, isBoundary_append (Nat.succ_pos j), ih]
      refine ⟨fun ⟨p, hp, hsize⟩ => .inr ⟨p, hp, by rw [hsize]⟩, ?_⟩
      rintro (hzero | ⟨p, hp, hsize⟩)
      · omega
      · exact ⟨p, hp, by omega⟩

/-! ## The search -/

/-- The search does not go below zero, and it stops at the last place that is not behind its start. -/
theorem boundary?_eq (hm : isBoundary bs m = true) (hle : m ≤ n)
    (hlast : ∀ i, isBoundary bs i = true → i ≤ n → i ≤ m) : boundary? bs n = some m := by
  induction n with
  | zero =>
    obtain rfl := Nat.le_zero.1 hle
    exact if_pos hm
  | succ n ih =>
    unfold boundary?
    split
    · next hn =>
      have hmn : n + 1 ≤ m := hlast _ hn (Nat.le_refl _)
      rw [Nat.le_antisymm hle hmn]
    · next hn =>
      have hne : m ≠ n + 1 := fun heq => hn (heq ▸ hm)
      exact ih (by omega) fun i hi hin => hlast i hi (by omega)

theorem boundary?_encoded (cs : List Char) (n : Nat) : boundary? (encoded cs) n = some (size (clip n cs)) := by
  refine boundary?_eq (isBoundary_iff.2 ⟨_, clip_prefix, rfl⟩) size_clip_le fun i hi hin => ?_
  obtain ⟨p, hp, rfl⟩ := isBoundary_iff.1 hi
  exact size_le_of_prefix (prefix_clip hp hin)

theorem take_size (h : p <+: cs) : (encoded cs).take (size p) = encoded p := by
  obtain ⟨rest, rfl⟩ := h
  rw [encoded_append]
  exact List.take_left

/-- What the search leaves of a text's bytes are the bytes of the characters that fit. -/
theorem truncate?_eq (limit : Nat) (cs : List Char) : truncate? limit (encoded cs) = some (encoded (clip limit cs)) := by
  unfold truncate?
  split
  · next hfits => rw [clip_eq_self hfits]
  · rw [boundary?_encoded, Option.map_some, take_size clip_prefix]

example : truncate? 3 (encoded ['a', 'é', 'é']) = some (encoded ['a', 'é']) ∧
    truncate? 2 (encoded ['a', 'é', 'é']) = some (encoded ['a']) := by decide

end TaskFleet.Text
