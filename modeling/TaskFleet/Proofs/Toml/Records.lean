/-
  TaskFleet.Proofs.Toml.Records — readers of typed values and the TOML texts of what they read.

  The text of a record has its fields in another order and leaves the absent ones out. Its reader gives
  the same value again, since it asks for fields by name (`Returned`). A value that was read from a text
  holds no number too large for one, and neither do the defaults, so it can be written (`Survives`).
  - `survives_word`, `survives_string`, …: the plain readers; `Survives.listOf`, `Survives.tables`.
  - `Returned.required`, `Returned.defaulted`, `Returned.optional`: the fields of a record that comes back.
  - `required_writable`, `defaulted_writable`, `optional_writable`: the fields of one that was read.
-/

import TaskFleet.Proofs.Record.Readers
import TaskFleet.Proofs.Toml.Documents
import TaskFleet.Proofs.Toml.Ranges

namespace TaskFleet.Toml

open Datum

variable {α β : Type} {write : α → Datum} {read : Decoder α} {n : Nat} {s : Style} {d : Datum} {name : String} {a default : α}
  {fs fs' : Record} {names : List String} {f : Datum.Fields} {g : α → Option β} {b : β}

/-! ## What comes back -/

theorem reread_plain (h : isNested d = false) : reread d = d := by
  cases d with
  | record fields => cases h
  | list items =>
    change isTables (.list items) = false at h
    rw [reread, h]
    rfl
  | _ => rfl

theorem reread_ne_null (h : d ≠ .null) : reread d ≠ .null := by
  cases d with
  | null => exact absurd rfl h
  | _ => simp [reread]

theorem rereadItems_eq (items : List Datum) : rereadItems items = items.map reread := by
  induction items with
  | nil => rfl
  | cons d items ih => rw [rereadItems, ih, List.map_cons]

theorem mem_rereadNested {p : Option String × Datum} (h : p ∈ rereadNested fs) :
    ∃ q ∈ fs, isNested q.2 = true ∧ p = (q.1, reread q.2) := by
  induction fs with
  | nil => cases h
  | cons q fs ih =>
    have hrest : p ∈ rereadNested fs → ∃ q' ∈ q :: fs, isNested q'.2 = true ∧ p = (q'.1, reread q'.2) := by
      intro hmem
      obtain ⟨q', hq', hp⟩ := ih hmem
      exact ⟨q', List.mem_cons_of_mem _ hq', hp⟩
    rw [rereadNested] at h
    split at h
    · next hnested =>
      rcases List.mem_cons.1 h with rfl | h
      · exact ⟨q, List.mem_cons_self, hnested, rfl⟩
      · exact hrest h
    · exact hrest h

theorem mem_rereadNested_of_mem (h : (some name, d) ∈ fs) (hnested : isNested d = true) :
    (some name, reread d) ∈ rereadNested fs := by
  induction fs with
  | nil => cases h
  | cons q fs ih =>
    rw [rereadNested]
    rcases List.mem_cons.1 h with rfl | h
    · rw [if_pos hnested]
      exact List.mem_cons_self
    · split
      · exact List.mem_cons_of_mem _ (ih h)
      · exact ih h

/-- No key comes back more often than it was written. -/
theorem keyCount_reread (fs : Record) (name : String) :
    keyCount (plainFields fs ++ rereadNested fs) name ≤ keyCount fs name := by
  unfold keyCount
  rw [List.countP_append]
  induction fs with
  | nil => rfl
  | cons q fs ih =>
    rw [plainFields, List.filter_cons, ← plainFields, rereadNested, List.countP_cons]
    cases hnested : isNested q.2 with
    | true =>
      simp only [Bool.not_true, Bool.and_false, Bool.false_eq_true, if_false, if_true, List.countP_cons]
      omega
    | false =>
      simp only [Bool.not_false, Bool.and_true, Bool.false_eq_true, if_false]
      split
      · rw [List.countP_cons]
        omega
      · omega

/-- The fields of a written record once they come back. -/
structure Returned (fs fs' : Record) : Prop where
  isSome : ∀ p ∈ fs', p.1.isSome = true
  once : ∀ name, keyCount fs' name ≤ 1
  present : ∀ {name d}, keyValue? fs name = some d → d ≠ .null → keyValue? fs' name = some (reread d)
  absent : ∀ {name}, keyValue? fs name = some .null → keyValue? fs' name = none

theorem keyCount_le_one (hkeys : fs.map (·.1) = names.map some) (hnodup : names.Nodup) (name : String) :
    keyCount fs name ≤ 1 := by
  rw [keyCount_eq_count, hkeys]
  exact List.nodup_iff_count_le_one.1 (hnodup.map fun _ _ => Option.some.inj) _

theorem keyValue?_returned (honce : ∀ name, keyCount fs name ≤ 1) (hd : keyValue? fs name = some d) (hnull : d ≠ .null) :
    keyValue? (plainFields fs ++ rereadNested fs) name = some (reread d) := by
  have hmem := mem_of_keyValue? hd
  refine keyValue?_of_mem (List.mem_append.2 ?_) ((keyCount_reread fs name).trans (honce name))
  cases hnested : isNested d with
  | true => exact .inr (mem_rereadNested_of_mem hmem hnested)
  | false =>
    rw [reread_plain hnested]
    have hpresent : isPresent (some name, d) = true := by
      cases d with
      | null => exact absurd rfl hnull
      | _ => rfl
    exact .inl (List.mem_filter.2 ⟨hmem, by simp [hpresent, hnested]⟩)

theorem keyValue?_absent (honce : ∀ name, keyCount fs name ≤ 1) (hd : keyValue? fs name = some .null) :
    keyValue? (plainFields fs ++ rereadNested fs) name = none := by
  have hnull : ∀ d, (some name, d) ∈ fs → d = .null := by
    intro d hmem
    rw [keyValue?_of_mem hmem (honce name)] at hd
    exact Option.some.inj hd
  rw [keyValue?, Option.map_eq_none_iff, List.find?_eq_none]
  intro p hp hname
  obtain ⟨key, d⟩ := p
  obtain rfl : key = some name := by simpa using hname
  rcases List.mem_append.1 hp with hp | hp
  · obtain ⟨hmem, hpresent⟩ := List.mem_filter.1 hp
    rw [hnull d hmem] at hpresent
    cases hpresent
  · obtain ⟨⟨key, d'⟩, hq, hnested, heq⟩ := mem_rereadNested hp
    cases heq
    rw [hnull d' hq] at hnested
    cases hnested

theorem returned (hkeys : fs.map (·.1) = names.map some) (hnodup : names.Nodup) :
    Returned fs (plainFields fs ++ rereadNested fs) := by
  have honce := keyCount_le_one hkeys hnodup
  have hsome : ∀ p ∈ fs, p.1.isSome = true := by
    intro p hp
    obtain ⟨name, -, hname⟩ := List.mem_map.1 (hkeys ▸ List.mem_map_of_mem (f := Prod.fst) hp)
    rw [← hname]
    rfl
  refine ⟨fun p hp => ?_, fun name => (keyCount_reread fs name).trans (honce name), keyValue?_returned honce,
    keyValue?_absent honce⟩
  rcases List.mem_append.1 hp with hp | hp
  · exact hsome p (List.mem_filter.1 hp).1
  · obtain ⟨q, hq, -, rfl⟩ := mem_rereadNested hp
    exact hsome q hq

/-! ## Plain readers -/

/-- The reader takes back what the text of a written value says, and what it takes from a text can be written. -/
structure Survives (n : Nat) (write : α → Datum) (read : Decoder α) : Prop where
  /-- Nothing is written as absent. -/
  present : ∀ a, write a ≠ .null
  restores : ∀ (s : Style) (a : α), read s (reread (write a)) = some a
  writable : ∀ {s : Style} {d : Datum} {a : α}, read s d = some a → fits d = true → Writable n (write a)

theorem Scalar.ne_null (h : Scalar d) : d ≠ .null := by
  rintro rfl
  cases h

/-- A value that is always one scalar. -/
theorem survives_scalar {Bad : Datum → Prop} (hfits : Fits write read Bad) (hscalar : ∀ a, Scalar (write a)) :
    Survives 0 write read where
  present a := (hscalar a).ne_null
  restores s a := by
    rw [reread_plain (not_nested_of_flat (.scalar (hscalar a)))]
    exact hfits.reads (.same _)
  writable _ _ := .flat (.scalar (hscalar _))

theorem scalar_byte (w : UInt8) : Scalar (.whole w.toNat) := .whole _ (w.toNat_lt_size.le.trans (by decide))

theorem survives_byte : Survives 0 (fun w : UInt8 => .whole w.toNat) byte := survives_scalar fits_byte scalar_byte

theorem scalar_word32 (w : UInt32) : Scalar (.whole w.toNat) := .whole _ (w.toNat_lt_size.le.trans (by decide))

theorem survives_word32 : Survives 0 (fun w : UInt32 => .whole w.toNat) word32 := survives_scalar fits_word32 scalar_word32

theorem survives_string : Survives 0 Datum.ofText string := survives_scalar fits_string .text

theorem survives_flag : Survives 0 Datum.bool flag := survives_scalar fits_flag .bool

theorem survives_case [Named α] (hnames : ∀ a : α, Named.ofName? (Named.name a) = some a) :
    Survives 0 (Datum.ofCase (α := α)) case :=
  survives_scalar (fits_case hnames) fun _ => .text _

/-- A whole number of a text is written as a decimal one where a double is meant. -/
theorem survives_double : Survives 0 Datum.ofReal double where
  present x := (Scalar.real x).ne_null
  restores _ _ := rfl
  writable _ _ := .flat (.scalar (.real _))

theorem flat_word {w : UInt64} (h : fits (.ofWord w) = true) : Flat (.ofWord w) := by
  have hmax : Int64.maxValue.toInt = 9223372036854775807 := by decide
  refine .scalar (.whole _ ?_)
  rw [Datum.ofWord, fits, inRange?, hmax] at h
  split at h
  · next hle => omega
  · cases h

/-- Of 64 bits only what a text can hold. -/
theorem survives_word : Survives 0 Datum.ofWord word where
  present w h := by cases h
  restores _ _ := fits_word.reads (.same _)
  writable {s d w} h hd := by
    obtain ⟨k, hk, rfl⟩ := Option.map_eq_some_iff.1 h
    cases d with
    | whole m =>
      rw [natBelow] at hk
      split at hk
      · next hrange =>
        cases hk
        have hword : Datum.ofWord (UInt64.ofNat m.toNat) = .whole m := by
          rw [Datum.ofWord, UInt64.toNat_ofNat_of_lt' (by omega), Int.toNat_of_nonneg hrange.1]
        exact .flat (flat_word (hword ▸ hd))
      · cases hk
    | _ => cases hk

/-! ## Combined readers -/

theorem mapM_map {as : List α} {g : Datum → Option α} (h : ∀ a ∈ as, g (write a) = some a) :
    (as.map write).mapM g = some as := by
  induction as with
  | nil => rfl
  | cons a as ih =>
    rw [List.map_cons, List.mapM_cons, h a List.mem_cons_self, ih fun a ha => h a (List.mem_cons_of_mem _ ha)]
    rfl

theorem mem_of_mapM {γ : Type} {items : List Datum} {as : List γ} {g : Datum → Option γ} (h : items.mapM g = some as) :
    ∀ a ∈ as, ∃ d ∈ items, g d = some a := by
  induction items generalizing as with
  | nil =>
    cases h
    exact nofun
  | cons d items ih =>
    rw [List.mapM_cons] at h
    obtain ⟨a, ha, h⟩ := Option.bind_eq_some_iff.1 h
    obtain ⟨as', has', h⟩ := Option.bind_eq_some_iff.1 h
    cases h
    refine List.forall_mem_cons.2 ⟨⟨d, List.mem_cons_self, ha⟩, fun a' ha' => ?_⟩
    obtain ⟨d', hd', hread⟩ := ih has' a' ha'
    exact ⟨d', List.mem_cons_of_mem _ hd', hread⟩

/-- A list of scalars. -/
theorem Survives.listOf (h : Survives n write read) (hscalar : ∀ a, Scalar (write a)) :
    Survives n (fun as => .list (as.map write)) (Datum.listOf read) where
  present as h := by cases h
  restores s as := by
    have hflat : Flat (.list (as.map write)) := .list (List.forall_mem_map.2 fun a _ => hscalar a)
    rw [reread_plain (not_nested_of_flat hflat)]
    refine mapM_map fun a _ => ?_
    have hread := h.restores s a
    rwa [reread_plain (not_nested_of_flat (.scalar (hscalar a)))] at hread
  writable _ _ := .flat (.list (List.forall_mem_map.2 fun a _ => hscalar a))

theorem fields_of_writable {fields : Record} (h : Writable (n + 1) (.record fields)) :
    WellKeyed fields ∧ ∀ f ∈ fields, Writable n f.2 := by
  cases h with
  | flat h => cases h with | scalar h => cases h
  | table hkeys h => exact ⟨hkeys, h⟩

theorem writable_nil : Writable n (.list []) := .flat (.list (List.forall_mem_nil _))

/-- A list of records, which may be empty. -/
theorem Survives.tables {fields : α → Record} (h : Survives (n + 1) (fun a => .record (fields a)) read) :
    Survives (n + 1) (fun as => .list (as.map fun a => .record (fields a))) (Datum.listOf read) where
  present as h := by cases h
  restores s as := by
    cases as with
    | nil => rfl
    | cons a as =>
      have htables : isTables (.list ((a :: as).map fun a => .record (fields a))) = true := by simp [isTables]
      rw [reread, if_pos htables, rereadItems_eq, List.map_map]
      exact mapM_map fun a _ => h.restores s a
  writable {s d as} hread hd := by
    cases d with
    | list items =>
      have hwritable : ∀ a ∈ as, Writable (n + 1) (.record (fields a)) := by
        intro a ha
        obtain ⟨d, hmem, hitem⟩ := mem_of_mapM hread a ha
        exact h.writable hitem (fitsAll_iff.1 hd d hmem)
      cases as with
      | nil => exact writable_nil
      | cons a as =>
        have hmap : ((a :: as).map fun a => Datum.record (fields a)) = ((a :: as).map fields).map .record := by simp
        rw [hmap]
        refine .tables (by simp) ?_ ?_ <;> rw [List.forall_mem_map] <;> intro a ha
        · exact (fields_of_writable (hwritable a ha)).1
        · exact (fields_of_writable (hwritable a ha)).2
    | _ => cases hread

/-! ## Fields of a record that comes back -/

theorem returned_fields {fields : List (String × Datum)} (hd : d = .ofFields fields) (hnames : fields.map Prod.fst = names)
    (hnodup : names.Nodup) (s : Style) :
    ∃ fs', fields? names s (reread d) = some (keyValue? fs') ∧ Returned (fields.map fun p => (some p.1, p.2)) fs' := by
  have hkeys : (fields.map fun p => (some p.1, p.2)).map (·.1) = names.map some := by
    rw [← hnames, List.map_map, List.map_map]
    rfl
  have h := returned hkeys hnodup
  refine ⟨_, ?_, h⟩
  rw [hd, Datum.ofFields, reread, fields?, if_pos]
  exact ⟨List.all_eq_true.2 h.isSome, List.all_eq_true.2 fun name _ => decide_eq_true (h.once name)⟩

theorem Returned.required (name : String) (h : Returned fs fs') (hread : Survives n write read)
    (hd : keyValue? fs name = some (write a)) : required read s (keyValue? fs') name = some a := by
  rw [Datum.required, h.present hd (hread.present a), Option.bind_some, hread.restores]

theorem Returned.defaulted (name : String) (h : Returned fs fs') (hread : Survives n write read)
    (hd : keyValue? fs name = some (write a)) : defaulted read default s (keyValue? fs') name = some a := by
  rw [Datum.defaulted, h.present hd (hread.present a)]
  exact hread.restores s a

theorem Returned.optional {a : Option α} (name : String) (h : Returned fs fs') (hread : Survives n write read)
    (hd : keyValue? fs name = some (ofOption write a)) : optional read s (keyValue? fs') name = some a := by
  cases a with
  | none => rw [Datum.optional, Datum.defaulted, h.absent hd]
  | some a =>
    rw [Datum.optional, Datum.defaulted, h.present hd (hread.present a)]
    change nullable read s (reread (write a)) = _
    rw [nullable_of_ne_null (reread_ne_null (hread.present a)), hread.restores, Option.map_some]

/-! ## Fields of a record that was read -/

theorem fits_of_fields? (hf : fields? names s d = some f) (hd : fits d = true) :
    ∀ name d', f name = some d' → fits d' = true := by
  intro name d' hvalue
  cases d with
  | record fields =>
    obtain ⟨rfl, -⟩ := of_fields?_record hf
    exact fitsFields_iff.1 hd _ (mem_of_keyValue? hvalue)
  | list items =>
    rw [fields?] at hf
    split at hf
    · cases hf
      obtain ⟨before, behind, hzip, -⟩ := List.lookup_eq_some_iff.1 hvalue
      have hmem : (name, d') ∈ names.zip items := hzip ▸ by simp
      exact fitsAll_iff.1 hd d' (List.of_mem_zip hmem).2
    · cases hf
  | moment =>
    cases hf
    cases hvalue
  | _ => cases hf

theorem required_writable (hf : ∀ name d, f name = some d → fits d = true) (hread : Survives n write read)
    (h : (required read s f name).bind g = some b) : ∃ a, Writable n (write a) ∧ g a = some b := by
  obtain ⟨a, hfield, hb⟩ := Option.bind_eq_some_iff.1 h
  obtain ⟨d, hd, hvalue⟩ := Option.bind_eq_some_iff.1 hfield
  exact ⟨a, hread.writable hvalue (hf name d hd), hb⟩

theorem defaulted_writable (hf : ∀ name d, f name = some d → fits d = true) (hread : Survives n write read)
    (hdefault : Writable n (write default)) (h : (defaulted read default s f name).bind g = some b) :
    ∃ a, Writable n (write a) ∧ g a = some b := by
  obtain ⟨a, hfield, hb⟩ := Option.bind_eq_some_iff.1 h
  refine ⟨a, ?_, hb⟩
  unfold defaulted at hfield
  split at hfield
  · cases hfield
    exact hdefault
  · next d hd => exact hread.writable hfield (hf name d hd)

theorem nullable_writable {a : Option α} (hread : Survives n write read) (h : nullable read s d = some a)
    (hd : fits d = true) : Writable n (ofOption write a) := by
  cases a with
  | none => exact .null
  | some a =>
    by_cases hnull : d = .null
    · subst hnull
      cases h
    · rw [nullable_of_ne_null hnull] at h
      obtain ⟨a', ha', heq⟩ := Option.map_eq_some_iff.1 h
      cases heq
      exact hread.writable ha' hd

theorem optional_writable {g : Option α → Option β} (hf : ∀ name d, f name = some d → fits d = true)
    (hread : Survives n write read) (h : (optional read s f name).bind g = some b) :
    ∃ a, Writable n (ofOption write a) ∧ g a = some b := by
  obtain ⟨a, hfield, hb⟩ := Option.bind_eq_some_iff.1 h
  refine ⟨a, ?_, hb⟩
  unfold Datum.optional Datum.defaulted at hfield
  split at hfield
  · cases hfield
    exact .null
  · next d hd => exact nullable_writable hread hfield (hf name d hd)

theorem Writable.ofFields {fields : List (String × Datum)} (hnames : fields.map Prod.fst = names)
    (hwords : names.all (fun name => name.toList.all isBare && name != "") = true) (hnodup : names.Nodup)
    (h : ∀ p ∈ fields, Writable n p.2) : Writable (n + 1) (.ofFields fields) := by
  refine .table ⟨fun q hq => ?_, ?_⟩ (List.forall_mem_map.2 h)
  · obtain ⟨p, hp, rfl⟩ := List.mem_map.1 hq
    have hword := List.all_eq_true.1 hwords p.1 (hnames ▸ List.mem_map_of_mem hp)
    rw [Bool.and_eq_true] at hword
    exact ⟨p.1, rfl, List.all_eq_true.1 hword.1, by simpa using hword.2⟩
  · rw [List.map_map]
    have hkeys : fields.map (Prod.fst ∘ fun p => (some p.1, p.2)) = names.map some := by
      rw [← hnames, List.map_map]
      rfl
    rw [hkeys]
    exact hnodup.map fun _ _ => Option.some.inj

theorem writable_word {w : UInt64} (h : fits (.ofWord w) = true) : Writable n (.ofWord w) := .flat (flat_word h)

theorem writable_flag (b : Bool) : Writable n (.bool b) := .flat (.scalar (.bool b))

/-- What an empty table stands for. -/
theorem Survives.of_empty (h : Survives n write read) (hread : read style (.record []) = some a) : Writable n (write a) :=
  h.writable hread rfl

theorem fits_scalar (h : Scalar d) : fits d = true := by
  cases h with
  | whole m hm =>
    rw [fits, inRange?_ofNat hm]
    rfl
  | _ => rfl

/-- What can be written holds no number too large for a text. -/
theorem fits_of_writable (h : Writable n d) : fits d = true := by
  induction h with
  | null => rfl
  | flat h =>
    cases h with
    | scalar h => exact fits_scalar h
    | list h => exact fitsAll_iff.2 fun d hd => fits_scalar (h d hd)
  | table hkeys h ih => exact fitsFields_iff.2 ih
  | tables hne hkeys h ih =>
    refine fitsAll_iff.2 (List.forall_mem_map.2 fun fields hfields => ?_)
    exact fitsFields_iff.2 (ih fields hfields)

theorem Writable.mono (h : Writable n d) : Writable (n + 1) d := by
  induction h with
  | null => exact .null
  | flat h => exact .flat h
  | table hkeys h ih => exact .table hkeys ih
  | tables hne hkeys h ih => exact .tables hne hkeys ih

end TaskFleet.Toml
