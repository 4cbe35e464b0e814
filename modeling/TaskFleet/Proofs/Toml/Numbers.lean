/-
  TaskFleet.Proofs.Toml.Numbers — numbers of TOML texts are read back as they were written.

  A number ends where a line, a list or an element of a list ends (`Stops`). What is read is tried as a
  date, a decimal number, a special value and a whole number, in this order, so each kind of text
  has to fail as all the kinds before its own.
-/

import TaskFleet.Proofs.Decimal.Shortest
import TaskFleet.Proofs.Json.Tokens
import TaskFleet.Toml.Printer

namespace TaskFleet.Toml

open Text Json

variable {c : Char} {cs rest whole fraction : List Char} {n : Nat}

/-- What can follow a value where this program writes one. -/
def Stops (rest : List Char) : Prop := ∀ c ∈ rest.head?, c = '\n' ∨ c = ',' ∨ c = ']'

/-! ## Digits -/

theorem digitIn?_of_isDigit (h : c.isDigit = true) : digitIn? 10 c = some (c.toNat - 48) := by
  have hc : '0' ≤ c ∧ c ≤ '9' := by simpa [Char.isDigit, Char.le_def, ge_iff_le] using h
  have hlt : c.toNat - 48 < 10 := by
    have hle : c.toNat ≤ 57 := hc.2
    omega
  rw [digitIn?, hexDigit?, if_pos hc, Option.filter_some, if_pos (decide_eq_true hlt)]

/-- No digit comes next. -/
def EndsDigits (rest : List Char) : Prop := ∀ c ∈ rest.head?, digitIn? 10 c = none ∧ c ≠ '_'

theorem Stops.endsDigits (h : Stops rest) : EndsDigits rest := by
  intro c hc
  rcases h c hc with rfl | rfl | rfl <;> decide

theorem moreDigits?_cons (hne : c ≠ '_') : moreDigits? 10 (c :: cs) =
    match digitIn? 10 c with
    | some d => (moreDigits? 10 cs).map fun (ds, r) => (d :: ds, r)
    | none => some ([], c :: cs) :=
  moreDigits?.eq_3 _ _ _ (fun _ _ h _ => hne h) fun h _ => hne h

theorem moreDigits?_append (hcs : ∀ c ∈ cs, c.isDigit = true) (hrest : EndsDigits rest) :
    moreDigits? 10 (cs ++ rest) = some (digitValues cs, rest) := by
  induction cs with
  | nil =>
    cases rest with
    | nil => rfl
    | cons c r =>
      obtain ⟨hc, hne⟩ := hrest c rfl
      rw [List.nil_append, moreDigits?_cons hne, hc]
      rfl
  | cons c cs ih =>
    have hc := hcs c List.mem_cons_self
    have hne : c ≠ '_' := by
      rintro rfl
      exact absurd hc (by decide)
    rw [List.cons_append, moreDigits?_cons hne, digitIn?_of_isDigit hc, ih fun c' hc' => hcs c' (List.mem_cons_of_mem _ hc')]
    rfl

theorem digits?_append (hne : cs ≠ []) (hcs : ∀ c ∈ cs, c.isDigit = true) (hrest : EndsDigits rest) :
    digits? 10 (cs ++ rest) = some (digitValues cs, rest) := by
  obtain ⟨c, cs, rfl⟩ := List.exists_cons_of_ne_nil hne
  rw [List.cons_append, digits?, digitIn?_of_isDigit (hcs c List.mem_cons_self),
    moreDigits?_append (fun c' hc' => hcs c' (List.mem_cons_of_mem _ hc')) hrest]
  rfl

/-- Digits without a zero too many in front. -/
structure IsWhole (cs : List Char) : Prop where
  ne_nil : cs ≠ []
  digits : ∀ c ∈ cs, c.isDigit = true
  plain : cs = ['0'] ∨ cs.head? ≠ some '0'

theorem IsWhole.wholeDigits? (h : IsWhole cs) (hrest : EndsDigits rest) :
    wholeDigits? (cs ++ rest) = some (digitValues cs, rest) := by
  rcases h.plain with rfl | hhead
  · rfl
  · rw [wholeDigits?.eq_2, digits?_append h.ne_nil h.digits hrest]
    intro r hr
    obtain ⟨c, cs, rfl⟩ := List.exists_cons_of_ne_nil h.ne_nil
    cases hr
    exact hhead rfl

theorem sign_of_head (h : ∀ c ∈ cs.head?, c ≠ '-' ∧ c ≠ '+') : sign cs = (false, cs) := by
  unfold sign
  split
  · exact absurd rfl (h _ rfl).1
  · exact absurd rfl (h _ rfl).2
  · rfl

/-! ## No dates -/

theorem isSome_of_mapM {ds : List Nat} (h : cs.mapM digit? = some ds) :
    ds.length = cs.length ∧ ∀ c ∈ cs, (digit? c).isSome = true := by
  induction cs generalizing ds with
  | nil =>
    cases h
    exact ⟨rfl, nofun⟩
  | cons c cs ih =>
    rw [List.mapM_cons] at h
    obtain ⟨d, hd, h⟩ := Option.bind_eq_some_iff.1 h
    obtain ⟨ds, hds, h⟩ := Option.bind_eq_some_iff.1 h
    cases h
    obtain ⟨hlen, hall⟩ := ih hds
    refine ⟨by simp [hlen], fun c' hc' => ?_⟩
    rcases List.mem_cons.1 hc' with rfl | hc'
    · rw [hd]; rfl
    · exact hall c' hc'

/-- A field of a date is a run of digits. -/
theorem digits_of_field? {width low high : Nat} {r : List Char} (h : field? width low high cs = some (n, r)) :
    (cs.take width).length = width ∧ (∀ c ∈ cs.take width, (digit? c).isSome = true) ∧ r = cs.drop width := by
  obtain ⟨ds, hds, h⟩ := Option.bind_eq_some_iff.1 h
  obtain ⟨hlen, hall⟩ := isSome_of_mapM hds
  simp only at h
  split at h
  · next hok =>
    cases h
    exact ⟨hlen ▸ hok.1, hall, rfl⟩
  · cases h

theorem mark?_eq_some {m : Char} {r : List Char} (h : mark? m cs = some r) : cs = m :: r := by
  unfold mark? at h
  split at h
  · split at h
    · next hc =>
      cases h
      rw [hc]
    · exact absurd h (by simp)
  · cases h

/-- Behind the field comes the first character that is no digit. -/
theorem dropWhile_of_field? {width low high : Nat} {r r' : List Char} {m : Char}
    (h : field? width low high cs = some (n, r)) (hmark : mark? m r = some r') (hm : (digit? m).isSome = false) :
    (cs.dropWhile fun c => (digit? c).isSome).head? = some m := by
  obtain ⟨-, hall, rfl⟩ := digits_of_field? h
  rw [← List.take_append_drop width cs, List.dropWhile_append_of_pos hall, mark?_eq_some hmark,
    List.dropWhile_cons_of_neg (by rw [hm]; exact Bool.false_ne_true)]
  rfl

/-- Where the first character that is no digit is neither a dash nor a colon, there is no date and no time. -/
theorem moment?_eq_none (h : ∀ c ∈ (cs.dropWhile fun c => (digit? c).isSome).head?, c ≠ '-' ∧ c ≠ ':') :
    moment? cs = none := by
  have hdate : date? cs = none := by
    rw [Option.eq_none_iff_forall_ne_some]
    intro r hr
    obtain ⟨⟨year, r₁⟩, hyear, hr⟩ := Option.bind_eq_some_iff.1 hr
    obtain ⟨r₂, hmark, -⟩ := Option.bind_eq_some_iff.1 hr
    exact (h _ (dropWhile_of_field? hyear hmark (by decide))).1 rfl
  have htime : time? cs = none := by
    rw [Option.eq_none_iff_forall_ne_some]
    intro r hr
    obtain ⟨⟨hour, r₁⟩, hhour, hr⟩ := Option.bind_eq_some_iff.1 hr
    obtain ⟨r₂, hmark, -⟩ := Option.bind_eq_some_iff.1 hr
    exact (h _ (dropWhile_of_field? hhour hmark (by decide))).2 rfl
  unfold moment?
  rw [hdate, htime]

theorem moment?_of_head (hne : cs ≠ []) (h : ∀ c ∈ cs.head?, (digit? c).isSome = false) : moment? cs = none := by
  have hfield : ∀ width low high, 0 < width → field? width low high cs = none := by
    intro width low high hwidth
    rw [Option.eq_none_iff_forall_ne_some]
    intro ⟨n, r⟩ hr
    obtain ⟨c, cs, rfl⟩ := List.exists_cons_of_ne_nil hne
    obtain ⟨-, hall, -⟩ := digits_of_field? hr
    obtain ⟨width, rfl⟩ := Nat.exists_eq_succ_of_ne_zero hwidth.ne'
    have hc := hall c (by simp)
    rw [h c rfl] at hc
    cases hc
  unfold moment? date? time?
  rw [hfield 4 _ _ (by decide), hfield 2 _ _ (by decide)]
  rfl

theorem scalarValue?_of_head (h : ∀ c ∈ cs.head?, c ≠ 't' ∧ c ≠ 'f') (hmoment : moment? cs = none) :
    scalarValue? cs = (decimal? cs <|> special? cs <|> whole? cs) := by
  rw [scalarValue?.eq_3 _ (fun r hr => (h 't' (by rw [hr]; rfl)).1 rfl) fun r hr => (h 'f' (by rw [hr]; rfl)).2 rfl, hmoment]
  rfl

/-! ## Whole numbers -/

theorem isWhole_toDigits (n : Nat) : IsWhole (Nat.toDigits 10 n) := by
  refine ⟨Nat.toDigits_ne_nil, isDigit_toDigits n, ?_⟩
  by_cases hn : n = 0
  · subst hn
    exact .inl rfl
  · right
    intro hhead
    refine head_digitValues hn ?_
    rw [digitValues, List.head?_map, hhead]
    rfl

theorem isSome_digit? (h : c.isDigit = true) : (digit? c).isSome = true := by
  rw [digit?_of_isDigit h]
  rfl

theorem IsWhole.head (h : IsWhole cs) : ∀ c ∈ (cs ++ rest).head?, c.isDigit = true := by
  obtain ⟨c, cs, rfl⟩ := List.exists_cons_of_ne_nil h.ne_nil
  intro c' hc'
  cases hc'
  exact h.digits c List.mem_cons_self

theorem IsWhole.sign (h : IsWhole cs) : sign (cs ++ rest) = (false, cs ++ rest) := by
  refine sign_of_head fun c hc => ?_
  have hdigit := h.head c hc
  constructor <;> rintro rfl <;> exact absurd hdigit (by decide)

theorem IsWhole.scalarValue? (h : IsWhole cs) (hmoment : moment? (cs ++ rest) = none) :
    scalarValue? (cs ++ rest) = (decimal? (cs ++ rest) <|> special? (cs ++ rest) <|> whole? (cs ++ rest)) := by
  refine scalarValue?_of_head (fun c hc => ?_) hmoment
  have hdigit := h.head c hc
  constructor <;> rintro rfl <;> exact absurd hdigit (by decide)

theorem IsWhole.special? (h : IsWhole cs) : special? (cs ++ rest) = none := by
  have hhead : ∀ c ∈ (cs ++ rest).head?, c.isDigit = true := h.head
  unfold Toml.special?
  rw [h.sign]
  simp only
  split
  · next heq => exact absurd (hhead 'i' (by rw [heq]; rfl)) (by decide)
  · next heq => exact absurd (hhead 'n' (by rw [heq]; rfl)) (by decide)
  · rfl

/-- Behind a whole number of digits comes no date. -/
theorem IsWhole.moment? (h : IsWhole cs) (hrest : ∀ c ∈ rest.head?, (digit? c).isSome = false ∧ c ≠ '-' ∧ c ≠ ':') :
    moment? (cs ++ rest) = none := by
  refine moment?_eq_none fun c hc => ?_
  rw [List.dropWhile_append_of_pos fun c hc => isSome_digit? (h.digits c hc)] at hc
  cases rest with
  | nil => cases hc
  | cons d r =>
    obtain ⟨hd, hne⟩ := hrest d rfl
    rw [List.dropWhile_cons_of_neg (by rw [hd]; exact Bool.false_ne_true)] at hc
    cases hc
    exact hne

theorem Stops.not_digit (h : Stops rest) : ∀ c ∈ rest.head?, (digit? c).isSome = false ∧ c ≠ '-' ∧ c ≠ ':' := by
  intro c hc
  rcases h c hc with rfl | rfl | rfl <;> decide

theorem Stops.fraction? (h : Stops rest) : fraction? rest = none := by
  refine fraction?.eq_4 _ (fun r hr => ?_) (fun r hr => ?_) fun r hr => ?_ <;>
    rcases h _ (by rw [hr]; rfl) with hc | hc | hc <;> exact absurd hc (by decide)

theorem toList_ofNat (n : Nat) : (toString (n : Int)).toList = Nat.toDigits 10 n := by
  rw [Json.toList_toString, if_neg (by simp)]
  rfl

/-- A prefix that names a base is no beginning of a whole number. -/
theorem IsWhole.no_base (h : IsWhole cs) (hrest : Stops rest) {r : List Char} (hc : cs ++ rest = '0' :: c :: r) :
    c.isDigit = true ∨ c = '\n' ∨ c = ',' ∨ c = ']' := by
  rcases h.plain with rfl | hhead
  · cases hc
    exact .inr (hrest c rfl)
  · obtain ⟨d, cs, rfl⟩ := List.exists_cons_of_ne_nil h.ne_nil
    obtain ⟨rfl, -⟩ := List.cons.inj hc
    exact absurd rfl hhead

theorem IsWhole.whole? (h : IsWhole cs) (hrest : Stops rest) :
    whole? (cs ++ rest) = (inRange? (ofDigits (digitValues cs))).map fun d => (d, rest) := by
  have hbase : ∀ c r, cs ++ rest = '0' :: c :: r → c ≠ 'x' ∧ c ≠ 'o' ∧ c ≠ 'b' := by
    intro c r hc
    rcases h.no_base hrest hc with hc | rfl | rfl | rfl
    · refine ⟨?_, ?_, ?_⟩ <;> rintro rfl <;> exact absurd hc (by decide)
    all_goals decide
  rw [Toml.whole?.eq_4 _ (fun r hr => (hbase _ r hr).1 rfl) (fun r hr => (hbase _ r hr).2.1 rfl)
    fun r hr => (hbase _ r hr).2.2 rfl, h.sign]
  simp only [h.wholeDigits? hrest.endsDigits, Option.bind_eq_bind, Option.bind_some, Bool.false_eq_true, if_false]
  cases inRange? (ofDigits (digitValues cs)) <;> rfl

theorem inRange?_ofNat (hn : n ≤ 9223372036854775807) : inRange? (n : Int) = some (.whole n) := by
  have hmin : Int64.minValue.toInt = -9223372036854775808 := by decide
  have hmax : Int64.maxValue.toInt = 9223372036854775807 := by decide
  rw [inRange?, hmin, hmax]
  exact if_pos (by omega)

/-- Whole numbers of 63 bits. -/
theorem scalarValue?_whole (hn : n ≤ 9223372036854775807) (hrest : Stops rest) :
    scalarValue? ((toString (n : Int)).toList ++ rest) = some (.whole n, rest) := by
  have hwhole := isWhole_toDigits n
  have hdecimal : decimal? (Nat.toDigits 10 n ++ rest) = none := by
    unfold decimal?
    rw [hwhole.sign]
    simp only [hwhole.wholeDigits? hrest.endsDigits, Option.bind_eq_bind, Option.bind_some, hrest.fraction?,
      Option.bind_none]
  rw [toList_ofNat, hwhole.scalarValue? (hwhole.moment? hrest.not_digit), hdecimal, hwhole.special?, hwhole.whole? hrest,
    ofDigits_digitValues, inRange?_ofNat hn]
  rfl

end TaskFleet.Toml
