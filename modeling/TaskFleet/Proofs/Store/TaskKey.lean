/-
  TaskFleet.Proofs.Store.TaskKey — the keys of tasks are ordered like their IDs.

  A key is the ID in twenty digits, which is room for every 64-bit ID, so the order of the
  texts is the order of the numbers.
  - `fixedWidth_lt_fixedWidth`: texts of one width are ordered like the numbers they write.
  - `taskKey_lt_taskKey` / `taskKey_inj`: a scan of the task table meets every ID once, in
    ascending order.
-/

import TaskFleet.Task.Basic

namespace TaskFleet

namespace Text

theorem digitChar_lt_digitChar {a b : Nat} (h : a % 10 < b % 10) : digitChar a < digitChar b := by
  have hall : ∀ i < 10, ∀ j < 10, i < j → Char.ofNat (48 + i) < Char.ofNat (48 + j) := by decide
  exact hall _ (Nat.mod_lt _ (by omega)) _ (Nat.mod_lt _ (by omega)) h

/-- Lists of one length stay in order whatever follows them. -/
theorem append_lt_append {l l' : List Char} (r r' : List Char) (hlen : l.length = l'.length) (h : l < l') :
    l ++ r < l' ++ r' := by
  induction l generalizing l' with
  | nil =>
    cases l' with
    | nil => exact absurd h (List.lt_irrefl [])
    | cons c l' => simp at hlen
  | cons c l ih =>
    cases l' with
    | nil => simp at hlen
    | cons c' l' =>
      have hlen' : l.length = l'.length := by simpa using hlen
      rcases List.cons_lt_cons_iff.1 h with hc | ⟨rfl, hl⟩
      · exact List.cons_lt_cons_iff.2 (.inl hc)
      · exact List.cons_lt_cons_iff.2 (.inr ⟨rfl, ih hlen' hl⟩)

theorem fixedWidth_lt_fixedWidth (width : Nat) {a b : Nat} (hb : b < Nat.pow 10 width) (h : a < b) :
    fixedWidth width a < fixedWidth width b := by
  induction width generalizing a b with
  | zero =>
    have hb : b < 1 := hb
    omega
  | succ w ih =>
    have hb' : b / 10 < Nat.pow 10 w := by
      have hb : b < Nat.pow 10 w * 10 := hb
      omega
    by_cases e : a / 10 = b / 10
    · have hd : a % 10 < b % 10 := by omega
      simp only [fixedWidth, e]
      exact List.append_left_lt (List.cons_lt_cons_iff.2 (.inl (digitChar_lt_digitChar hd)))
    · exact append_lt_append _ _ (by simp) (ih hb' (by omega))

end Text

theorem taskKey_lt_of_lt {a b : UInt64} (h : a < b) : taskKey a < taskKey b := by
  have hb : b.toNat < Nat.pow 10 20 := Nat.lt_trans b.toNat_lt (by decide)
  rw [String.lt_iff]
  simpa [taskKey] using Text.fixedWidth_lt_fixedWidth 20 hb (UInt64.lt_iff_toNat_lt.1 h)

theorem taskKey_inj {a b : UInt64} : taskKey a = taskKey b ↔ a = b := by
  refine ⟨fun h => ?_, fun h => h ▸ rfl⟩
  rcases Nat.lt_trichotomy a.toNat b.toNat with hlt | heq | hgt
  · have := taskKey_lt_of_lt (UInt64.lt_iff_toNat_lt.2 hlt)
    rw [h] at this; exact absurd this (String.lt_irrefl _)
  · exact UInt64.toNat_inj.1 heq
  · have := taskKey_lt_of_lt (UInt64.lt_iff_toNat_lt.2 hgt)
    rw [h] at this; exact absurd this (String.lt_irrefl _)

theorem taskKey_lt_taskKey {a b : UInt64} : taskKey a < taskKey b ↔ a < b := by
  refine ⟨fun h => ?_, taskKey_lt_of_lt⟩
  rcases Nat.lt_trichotomy a.toNat b.toNat with hlt | heq | hgt
  · exact UInt64.lt_iff_toNat_lt.2 hlt
  · rw [UInt64.toNat_inj.1 heq] at h; exact absurd h (String.lt_irrefl _)
  · have := taskKey_lt_of_lt (UInt64.lt_iff_toNat_lt.2 hgt)
    exact absurd (String.lt_trans h this) (String.lt_irrefl _)

theorem Task.key_lt_key {t u : Task} : t.key < u.key ↔ t.id < u.id := taskKey_lt_taskKey

end TaskFleet
