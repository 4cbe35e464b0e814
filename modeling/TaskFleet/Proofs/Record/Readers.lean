/-
  TaskFleet.Proofs.Record.Readers — readers and the writers they belong to.

  A reader fits a writer (`Fits`) if it takes back what was written, with further keys or
  without, and refuses what is bad: a text that names no case, a number out of range, a value
  of another kind. A record is bad if one of its fields is at fault (`Faulty`): missing
  without a default, written twice, or bad itself.
  - `fits_word`, `fits_string`, `fits_case`, …: the plain readers; `Fits.nullable`, `Fits.listOf`.
  - `Extended.fields?`, `Edited.required`, `Edited.defaulted`, `Edited.optional`: what is read from
    an edited record.
  - `required_met`, `defaulted_met`, `optional_met`: a field that was read is not at fault (`Rule.Met`).
-/

import Mathlib.Data.List.Nodup
import TaskFleet.Proofs.Record.Edits

namespace TaskFleet.Datum

variable {α β : Type} {s : Style} {d d' : Datum} {name : String} {a default : α}
variable {fs fs' : List (Option String × Datum)} {names gone : List String} {f : Fields}
variable {write : α → Datum} {read : Decoder α} {Bad : Datum → Prop} {g : α → Option β} {b : β}

/-! ## What a value must not be -/

/-- Anything but a whole number from zero up to a bound. -/
def NotBelow (bound : Nat) (d : Datum) : Prop := ∀ n : Nat, n < bound → d ≠ .whole n

def NotText (d : Datum) : Prop := ∀ t, d ≠ .ofText t

def NotFlag (d : Datum) : Prop := ∀ b, d ≠ .bool b

/-- Neither the name of a case nor a record with that name as its one key. -/
def NotCase (α : Type) [Named α] (d : Datum) : Prop :=
  ∀ a : α, d ≠ .ofCase a ∧ ∀ v, d ≠ .record [(some (Named.name a), v)]

/-- Bad, and no null either. -/
def NotNullable (Bad : Datum → Prop) (d : Datum) : Prop := d ≠ .null ∧ Bad d

/-- No list, or one with a bad element. -/
def NotListOf (Bad : Datum → Prop) (d : Datum) : Prop := ∀ items, d = .list items → ∃ x ∈ items, Bad x

/-- What is asked of one field of a record. -/
structure Rule where
  name : String
  /-- Whether the field has no default. -/
  mandatory : Bool
  Bad : Datum → Prop

/-- One of the record's fields is missing, written twice or bad. -/
inductive Faulty (rules : List Rule) : Datum → Prop
  | missing {fs : List (Option String × Datum)} {r : Rule} : r ∈ rules → r.mandatory = true →
      keyCount fs r.name = 0 → Faulty rules (.record fs)
  | repeated {fs : List (Option String × Datum)} {r : Rule} : r ∈ rules → 1 < keyCount fs r.name →
      Faulty rules (.record fs)
  | value {fs : List (Option String × Datum)} {d : Datum} {r : Rule} : r ∈ rules → (some r.name, d) ∈ fs → r.Bad d →
      Faulty rules (.record fs)

/-! ## Plain readers -/

/-- The reader takes back what was written, and nothing bad. -/
structure Fits (write : α → Datum) (read : Decoder α) (Bad : Datum → Prop) : Prop where
  reads : ∀ {s : Style} {a : α} {d : Datum}, Extended (write a) d → read s d = some a
  rejects : ∀ {s : Style} {d : Datum}, Bad d → read s d = none

theorem natBelow_eq_none {bound : Nat} (h : NotBelow bound d) : natBelow bound s d = none := by
  cases d with
  | whole n =>
    rw [natBelow, if_neg]
    rintro ⟨hlo, hhi⟩
    exact h n.toNat (by omega) (by rw [Int.toNat_of_nonneg hlo])
  | _ => rfl

theorem natBelow_whole {bound n : Nat} (h : n < bound) : natBelow bound s (.whole n) = some n := by
  rw [natBelow, if_pos ⟨by omega, by omega⟩, Int.toNat_natCast]

theorem fits_word : Fits Datum.ofWord word (NotBelow UInt64.size) where
  reads h := by
    cases h
    rw [word, ofWord, natBelow_whole (UInt64.toNat_lt_size _), Option.map_some, UInt64.ofNat_toNat]
  rejects h := by rw [word, natBelow_eq_none h, Option.map_none]

theorem fits_word32 : Fits (fun n : UInt32 => .whole n.toNat) word32 (NotBelow UInt32.size) where
  reads h := by
    cases h
    rw [word32, natBelow_whole (UInt32.toNat_lt_size _), Option.map_some, UInt32.ofNat_toNat]
  rejects h := by rw [word32, natBelow_eq_none h, Option.map_none]

theorem fits_byte : Fits (fun n : UInt8 => .whole n.toNat) byte (NotBelow UInt8.size) where
  reads h := by
    cases h
    rw [byte, natBelow_whole (UInt8.toNat_lt_size _), Option.map_some, UInt8.ofNat_toNat]
  rejects h := by rw [byte, natBelow_eq_none h, Option.map_none]

theorem fits_string : Fits Datum.ofText string NotText where
  reads h := by
    cases h
    rfl
  rejects {s d} h := by
    cases d with
    | text t =>
      cases t with
      | none => rfl
      | some t => exact absurd rfl (h t)
    | _ => rfl

theorem fits_flag : Fits Datum.bool flag NotFlag where
  reads h := by
    cases h
    rfl
  rejects {s d} h := by
    cases d with
    | bool b => exact absurd rfl (h b)
    | _ => rfl

theorem name_of_ofName? [Named α] {n : String} (h : Named.ofName? n = some a) : Named.name a = n := by
  simpa using List.find?_some h

theorem fits_case [Named α] (hnames : ∀ a : α, Named.ofName? (Named.name a) = some a) :
    Fits (Datum.ofCase (α := α)) case (NotCase α) where
  reads {s a d} h := by
    cases h
    exact hnames a
  rejects {s d} h := by
    rw [Option.eq_none_iff_forall_ne_some]
    intro a ha
    unfold case at ha
    split at ha
    · next t =>
      obtain ⟨n, rfl, hn⟩ := Option.bind_eq_some_iff.1 ha
      exact (h a).1 (by rw [← name_of_ofName? hn]; rfl)
    · next k v =>
      split at ha
      · obtain ⟨n, rfl, hn⟩ := Option.bind_eq_some_iff.1 ha
        exact (h a).2 v (by rw [name_of_ofName? hn])
      · cases ha
    · cases ha

/-! ## Combined readers -/

theorem nullable_of_ne_null (h : d ≠ .null) : nullable read s d = (read s d).map some := by
  cases d with
  | null => exact absurd rfl h
  | _ => rfl

/-- What is not written as null is not read as absent. -/
theorem Extended.ne_null (h : Extended d d') (hd : d ≠ .null) : d' ≠ .null := by
  rintro rfl
  cases h
  exact hd rfl

theorem Fits.nullable (h : Fits write read Bad) (hwrite : ∀ a, write a ≠ .null) :
    Fits (Datum.ofOption write) (nullable read) (NotNullable Bad) where
  reads {s a d} hd := by
    cases a with
    | none => cases hd; rfl
    | some a => rw [nullable_of_ne_null (hd.ne_null (hwrite a)), h.reads hd, Option.map_some]
  rejects hd := by rw [nullable_of_ne_null hd.1, h.rejects hd.2, Option.map_none]

theorem Fits.mapM_items (h : Fits write read Bad) : ∀ {as : List α} {items : List Datum},
    ExtendedItems (as.map write) items → items.mapM (read s) = some as
  | [], _, .nil => rfl
  | a :: as, _, .cons hd hds => by
    rw [List.mapM_cons, h.reads hd, h.mapM_items hds]
    rfl

theorem mapM_eq_none_of_mem {β : Type} {g : β → Option α} {x : β} : ∀ {xs : List β}, x ∈ xs → g x = none →
    xs.mapM g = none
  | y :: ys, hx, hg => by
    rw [List.mapM_cons]
    rcases List.mem_cons.1 hx with rfl | hx
    · rw [hg]; rfl
    · rw [mapM_eq_none_of_mem hx hg]
      cases g y <;> rfl

theorem Fits.listOf (h : Fits write read Bad) :
    Fits (fun as => .list (as.map write)) (listOf read) (NotListOf Bad) where
  reads hd := by
    obtain ⟨items, rfl, hitems⟩ := hd.of_list
    exact h.mapM_items hitems
  rejects {s d} hd := by
    cases d with
    | list items =>
      obtain ⟨x, hx, hbad⟩ := hd items rfl
      exact mapM_eq_none_of_mem hx (h.rejects hbad)
    | _ => rfl

/-! ## Fields of an edited record -/

theorem keyCount_eq_count : keyCount fs name = (fs.map (·.1)).count (some name) := by
  unfold keyCount
  rw [List.count, List.countP_map]
  rfl

theorem Edited.fields? (h : Edited gone fs fs') (hkeys : fs.map (·.1) = names.map some) (hnodup : names.Nodup) :
    fields? names s (.record fs') = some (keyValue? fs') := by
  rw [Datum.fields?, if_pos]
  refine ⟨List.all_eq_true.2 h.isSome, List.all_eq_true.2 fun name hname => decide_eq_true ?_⟩
  have hcount : keyCount fs name ≤ 1 := by
    rw [keyCount_eq_count, hkeys]
    exact List.nodup_iff_count_le_one.1 (hnodup.map fun _ _ => Option.some.inj) _
  rw [h.count name (hkeys ▸ List.mem_map_of_mem hname)]
  split <;> omega

/-- A record that was written with each of its fields once still reads as a record. -/
theorem Extended.fields? (hkeys : fs.map (·.1) = names.map some) (hnodup : names.Nodup)
    (h : Extended (.record fs) d) (s : Style) (gone : List String) :
    ∃ fs', fields? names s (d.without gone) = some (keyValue? fs') ∧ Edited gone fs fs' := by
  obtain ⟨fs', hd, he⟩ := h.edited hkeys gone
  exact ⟨fs', hd ▸ he.fields? hkeys hnodup, he⟩

theorem Edited.required (name : String) (h : Edited gone fs fs') (hfit : Fits write read Bad)
    (hd : keyValue? fs name = some (write a)) (hgone : name ∉ gone) :
    required read s (keyValue? fs') name = some a := by
  have hvalue := h.value name _ hd
  rw [if_neg hgone] at hvalue
  obtain ⟨d', hd', hext⟩ := hvalue
  rw [Datum.required, hd', Option.bind_some, hfit.reads hext]

theorem Edited.defaulted (name : String) (h : Edited gone fs fs') (hfit : Fits write read Bad)
    (hd : keyValue? fs name = some (write a)) :
    defaulted read default s (keyValue? fs') name = some (if name ∈ gone then default else a) := by
  have hvalue := h.value name _ hd
  unfold Datum.defaulted
  split at hvalue
  · next hgone => rw [hvalue, if_pos hgone]
  · next hgone =>
    obtain ⟨d', hd', hext⟩ := hvalue
    rw [hd', if_neg hgone]
    exact hfit.reads hext

theorem Edited.optional {a : Option α} (name : String) (h : Edited gone fs fs') (hfit : Fits write read Bad)
    (hwrite : ∀ a, write a ≠ .null) (hd : keyValue? fs name = some (ofOption write a)) :
    optional read s (keyValue? fs') name = some (if name ∈ gone then none else a) :=
  h.defaulted name (hfit.nullable hwrite) hd

/-! ## Fields that are not at fault -/

/-- What reading a record shows of one field. -/
structure Rule.Met (r : Rule) (fs : List (Option String × Datum)) : Prop where
  once : keyCount fs r.name ≤ 1
  there : r.mandatory = true → keyCount fs r.name ≠ 0
  good : ∀ d, (some r.name, d) ∈ fs → ¬r.Bad d

theorem not_faulty {rules : List Rule} (h : ∀ r ∈ rules, r.Met fs) : ¬Faulty rules (.record fs) := by
  intro hfaulty
  cases hfaulty with
  | missing hr hmandatory hcount => exact (h _ hr).there hmandatory hcount
  | repeated hr hcount => exact absurd (h _ hr).once (by omega)
  | value hr hmem hbad => exact (h _ hr).good _ hmem hbad

theorem keyCount_pos_of_mem (h : (some name, d) ∈ fs) : 0 < keyCount fs name :=
  List.countP_pos_iff.2 ⟨_, h, by simp⟩

theorem keyValue?_of_mem (h : (some name, d) ∈ fs) (hcount : keyCount fs name ≤ 1) : keyValue? fs name = some d := by
  induction fs with
  | nil => cases h
  | cons p fs ih =>
    unfold keyCount at hcount
    unfold keyValue? at ih ⊢
    by_cases hp : p.1 = some name
    · rw [List.countP_cons_of_pos (by simpa using hp)] at hcount
      rcases List.mem_cons.1 h with rfl | h
      · simp
      -- a second occurrence would have been counted
      · have hpos := keyCount_pos_of_mem h
        unfold keyCount at hpos
        omega
    · rw [List.countP_cons_of_neg (by simpa using hp)] at hcount
      rw [List.find?_cons_of_neg (by simpa using hp)]
      rcases List.mem_cons.1 h with rfl | h
      · exact absurd rfl hp
      · exact ih h hcount

theorem of_fields?_record (h : fields? names s (.record fs) = some f) :
    f = keyValue? fs ∧ ∀ name ∈ names, keyCount fs name ≤ 1 := by
  rw [fields?] at h
  split at h
  · next hok =>
    cases h
    exact ⟨rfl, fun name hname => of_decide_eq_true (List.all_eq_true.1 hok.2 name hname)⟩
  · cases h

theorem required_met (hf : fields? names s (.record fs) = some f) (hname : name ∈ names) (hfit : Fits write read Bad)
    (h : (required read s f name).bind g = some b) : Rule.Met ⟨name, true, Bad⟩ fs ∧ ∃ a, g a = some b := by
  obtain ⟨a, hfield, hb⟩ := Option.bind_eq_some_iff.1 h
  obtain ⟨rfl, hcount⟩ := of_fields?_record hf
  obtain ⟨d, hd, hread⟩ := Option.bind_eq_some_iff.1 hfield
  refine ⟨⟨hcount name hname, fun _ => ?_, fun d' hd' hbad => ?_⟩, a, hb⟩
  · exact Nat.pos_iff_ne_zero.1 (keyCount_pos_of_mem (mem_of_keyValue? hd))
  · rw [keyValue?_of_mem hd' (hcount name hname)] at hd
    cases hd
    rw [hfit.rejects hbad] at hread
    cases hread

theorem defaulted_met (hf : fields? names s (.record fs) = some f) (hname : name ∈ names) (hfit : Fits write read Bad)
    (h : (defaulted read default s f name).bind g = some b) :
    Rule.Met ⟨name, false, Bad⟩ fs ∧ ∃ a, g a = some b := by
  obtain ⟨a, hfield, hb⟩ := Option.bind_eq_some_iff.1 h
  obtain ⟨rfl, hcount⟩ := of_fields?_record hf
  refine ⟨⟨hcount name hname, nofun, fun d hd hbad => ?_⟩, a, hb⟩
  rw [defaulted, keyValue?_of_mem hd (hcount name hname)] at hfield
  exact Option.some_ne_none a (hfield.symm.trans (hfit.rejects hbad))

theorem optional_met {g : Option α → Option β} (hf : fields? names s (.record fs) = some f) (hname : name ∈ names)
    (hfit : Fits write read Bad) (hwrite : ∀ a, write a ≠ .null) (h : (optional read s f name).bind g = some b) :
    Rule.Met ⟨name, false, NotNullable Bad⟩ fs ∧ ∃ a, g a = some b :=
  defaulted_met hf hname (hfit.nullable hwrite) h

/-- A reader that shows of every record it takes that its fields are not at fault. -/
theorem faulty_eq_none {rules : List Rule} (hmet : ∀ {fs a}, read s (.record fs) = some a → ∀ r ∈ rules, r.Met fs)
    (h : Faulty rules d) : read s d = none := by
  have hrecord : ∃ fs, d = .record fs := by cases h <;> exact ⟨_, rfl⟩
  obtain ⟨fs, rfl⟩ := hrecord
  rw [Option.eq_none_iff_forall_ne_some]
  exact fun a ha => not_faulty (hmet ha) h

end TaskFleet.Datum
