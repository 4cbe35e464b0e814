/-
  TaskFleet.Proofs.Text.ByteOrder — texts are ordered like their UTF-8 bytes.

  Of two characters the one with the lower code point has the lower bytes, and it has them at a place
  where both have one, so whatever follows the two does not matter. That carries over from characters
  to texts.
  - `encode_lt_encode`: one character, whatever follows.
  - `lt_iff_bytes`: whole texts.
-/

import TaskFleet.Table

namespace TaskFleet.Text

/-- The bytes of a text in UTF-8. -/
def bytes (s : String) : List UInt8 := s.toByteArray.data.toList

theorem bytes_eq_flatMap (s : String) : bytes s = s.toList.flatMap String.utf8EncodeChar := by
  unfold bytes
  rw [← String.utf8Encode_toList, List.utf8Encode]
  simp

/-! ## Characters -/

/-- Numbers are ordered like their four digits to the base 64, of which the first one is not bounded. -/
theorem digits_lt {a b : Nat} (h : a < b) :
    a / 262144 < b / 262144 ∨ a / 262144 = b / 262144 ∧ (a / 4096 % 64 < b / 4096 % 64 ∨
      a / 4096 % 64 = b / 4096 % 64 ∧ (a / 64 % 64 < b / 64 % 64 ∨ a / 64 % 64 = b / 64 % 64 ∧ a % 64 < b % 64)) := by
  by_cases hfirst : a / 262144 = b / 262144
  · refine .inr ⟨hfirst, ?_⟩
    by_cases hsecond : a / 4096 = b / 4096 <;> omega
  · exact .inl (by omega)

/-- The first bytes of characters tell their lengths apart, and the others have room for six bits of
    the code point each. -/
theorem encode_lt_encode {c d : Char} (h : c < d) (l m : List UInt8) :
    String.utf8EncodeChar c ++ l < String.utf8EncodeChar d ++ m := by
  have hlt : c.val.toNat < d.val.toNat := UInt32.lt_iff_toNat_lt.1 h
  have hmost : d.val.toNat < 0x110000 := by
    have hvalid := d.valid
    unfold UInt32.isValidChar Nat.isValidChar at hvalid
    omega
  unfold String.utf8EncodeChar
  generalize c.val.toNat = a at hlt ⊢
  generalize d.val.toNat = b at hlt hmost ⊢
  have hdigits := digits_lt hlt
  simp only
  repeat' split
  all_goals simp only [List.cons_append, List.nil_append, List.cons_lt_cons_iff, UInt8.lt_iff_toNat_lt,
    ← UInt8.toNat_inj, UInt8.toNat_ofNat']
  all_goals simp (disch := omega) only [Nat.mod_eq_of_lt (b := 256), Nat.mod_eq_of_lt (b := 8), Nat.add_lt_add_iff_right,
    Nat.add_right_cancel_iff]
  all_goals omega

/-! ## Texts -/

theorem flatMap_encode_lt {cs ds : List Char} (h : cs < ds) :
    cs.flatMap String.utf8EncodeChar < ds.flatMap String.utf8EncodeChar := by
  induction h with
  | nil =>
    next d ds =>
    obtain ⟨b, bs, hb⟩ := List.exists_cons_of_ne_nil (String.utf8EncodeChar_ne_nil (c := d))
    rw [List.flatMap_cons, hb]
    exact List.nil_lt_cons _ _
  | rel hlt => exact encode_lt_encode hlt _ _
  | cons _ ih => exact List.append_left_lt ih

/-- The order of texts is the order of their bytes. -/
theorem lt_iff_bytes {s t : String} : s < t ↔ bytes s < bytes t := by
  have himp : ∀ {s t : String}, s < t → bytes s < bytes t := by
    intro s t h
    rw [bytes_eq_flatMap, bytes_eq_flatMap]
    exact flatMap_encode_lt (String.lt_iff.1 h)
  refine ⟨himp, fun h => Classical.byContradiction fun hnot => ?_⟩
  by_cases heq : s = t
  · exact List.lt_irrefl _ (heq ▸ h)
  · exact List.lt_asymm h (himp (Table.lt_of_not_lt_of_ne hnot heq))

end TaskFleet.Text
