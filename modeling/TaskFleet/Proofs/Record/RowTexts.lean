/-
  TaskFleet.Proofs.Record.RowTexts — the texts of rows.

  A row is stored as a record on one line. The text of a record is read back as the same record,
  texts of programs that know fewer fields or more are read as what they say, and faulty texts
  are refused (`RowFormat.Faithful`).
  - `Task.plain`, …: every record has a text, whatever its values are.
  - `RowFormat.faithful_of`: what that takes of one kind of record.
  - `Task.faithful`, `Workspace.faithful`, `AgentPool.faithful`.
-/

import TaskFleet.Proofs.Json.RoundTrip
import TaskFleet.Proofs.Record.Formats
import TaskFleet.Store.Rows

namespace TaskFleet

open Datum Json

/-! ## Texts of records -/

theorem Json.Plain.ofFields {fields : List (String × Datum)} (h : ∀ p ∈ fields, Plain p.2) :
    Plain (.ofFields fields) := by
  refine .record ?_ ?_ <;> intro p hp <;> obtain ⟨q, hq, rfl⟩ := List.mem_map.1 hp
  · rfl
  · exact h q hq

theorem Json.Plain.ofNat {n : Nat} (h : n < UInt64.size) : Plain (.whole n) := by
  have hmin : Int64.minValue.toInt = -9223372036854775808 := rfl
  exact .whole (by omega) (by omega)

theorem Json.Plain.ofWord (n : UInt64) : Plain (.ofWord n) := .ofNat n.toNat_lt_size

theorem Json.Plain.ofOption {α : Type} {write : α → Datum} (h : ∀ a, Plain (write a)) (a : Option α) :
    Plain (.ofOption write a) := by
  cases a with
  | none => exact .null
  | some a => exact h a

theorem Json.Plain.listMap {α : Type} {write : α → Datum} (h : ∀ a, Plain (write a)) (as : List α) :
    Plain (.list (as.map write)) := by
  refine .list fun d hd => ?_
  obtain ⟨a, -, rfl⟩ := List.mem_map.1 hd
  exact h a

theorem Json.Plain.ofWord32 (n : UInt32) : Plain (.whole n.toNat) :=
  .ofNat (Nat.lt_trans n.toNat_lt_size (by decide))

theorem Json.Plain.ofByte (n : UInt8) : Plain (.whole n.toNat) := .ofNat (Nat.lt_trans n.toNat_lt_size (by decide))

theorem Json.Plain.ofCase {α : Type} [Named α] (a : α) : Plain (.ofCase a) := .text _

theorem Json.Plain.without {d : Datum} {gone : List String} (h : Plain d) : Plain (d.without gone) := by
  cases h with
  | null => exact .null
  | bool b => exact .bool b
  | whole hlo hhi => exact .whole hlo hhi
  | text s => exact .text s
  | list h => exact .list h
  | record hkeys h =>
    exact .record (fun p hp => hkeys p (List.mem_filter.1 hp).1) fun p hp => h p (List.mem_filter.1 hp).1

theorem Lease.plain (l : Lease) : Plain l.toDatum := by
  refine .ofFields ?_
  simp only [List.forall_mem_cons]
  exact ⟨.text _, .ofWord _, .ofWord _, nofun⟩

theorem FreezeSchedule.plain (z : FreezeSchedule) : Plain z.toDatum := by
  refine .ofFields ?_
  simp only [List.forall_mem_cons]
  exact ⟨.listMap Plain.ofByte _, .text _, .text _, nofun⟩

theorem Task.plain (t : Task) : Plain t.toDatum := by
  refine .ofFields ?_
  simp only [List.forall_mem_cons]
  exact ⟨.ofWord _, .text _, .ofCase _, .ofCase _, .ofOption Plain.ofCase _, .ofOption .text _, .ofWord32 _,
    .ofOption .text _, .ofOption .ofWord _, .ofCase _, .ofOption .text _, .ofWord _, .ofOption .ofWord _,
    .ofOption .ofWord _, .ofOption Lease.plain _, nofun⟩

theorem Workspace.plain (w : Workspace) : Plain w.toDatum := by
  refine .ofFields ?_
  simp only [List.forall_mem_cons]
  exact ⟨.text _, .ofCase _, .ofOption .text _, .bool _, .ofOption .text _, nofun⟩

theorem AgentPool.plain (p : AgentPool) : Plain p.toDatum := by
  refine .ofFields ?_
  simp only [List.forall_mem_cons]
  exact ⟨.text _, .ofCase _, .ofWord32 _, .ofWord32 _, .ofWord32 _, .listMap FreezeSchedule.plain _, .ofOption .ofWord _,
    nofun⟩

/-! ## Row formats -/

/-- How one kind of record is written into its rows and read from them. -/
structure RowFormat (α : Type) where
  write : α → Datum
  read : Decoder α
  rules : List Rule
  /-- The record with some of its fields at their defaults. -/
  reset : List String → α → α

def Task.format : RowFormat Task := ⟨toDatum, ofDatum?, rules, reset⟩

def Workspace.format : RowFormat Workspace := ⟨toDatum, ofDatum?, rules, reset⟩

def AgentPool.format : RowFormat AgentPool := ⟨toDatum, ofDatum?, rules, reset⟩

/-- Rows survive their encoding, and edited rows read as what they say. -/
structure RowFormat.Faithful {α : Type} (f : RowFormat α) : Prop where
  /-- A row is read back from its text. -/
  written : ∀ a, Row.ofText f.read (Row.toText f.write (.record a)) = .record a
  /-- Every choice of fields can be left out of the text. -/
  printed : ∀ a gone, parse? (compress ((f.write a).without gone)) = some ((f.write a).without gone)
  /-- Further keys change nothing. -/
  extended : ∀ {text a d}, Extended (f.write a) d → parse? text = some d → decode? f.read text = some a
  /-- Where fields with a default were left out, exactly those have it. -/
  shortened : ∀ {text a d gone}, Extended (f.write a) d → Optional f.rules gone →
    parse? text = some (d.without gone) → decode? f.read text = some (f.reset gone a)
  /-- No other field may be left out. -/
  mandatory : ∀ {text a d gone r}, Extended (f.write a) d → r ∈ f.rules → r.mandatory = true → r.name ∈ gone →
    parse? text = some (d.without gone) → decode? f.read text = none
  /-- A field written twice, an unknown case and a number out of range are refused. -/
  faulty : ∀ {text d}, Faulty f.rules d → parse? text = some d → decode? f.read text = none

theorem decode?_of_parse? {α : Type} {read : Decoder α} {text : String} {d : Datum} (h : parse? text = some d) :
    decode? read text = read style d := by rw [decode?, h, Option.bind_some]

theorem decode?_compress {α : Type} {read : Decoder α} {d : Datum} (h : Plain d) :
    decode? read (compress d) = read style d := decode?_of_parse? (parse?_compress h)

/-- What a format needs for its rows to survive. -/
theorem RowFormat.faithful_of {α : Type} {f : RowFormat α} (hplain : ∀ a, Plain (f.write a))
    (hrecord : ∀ a, ∃ fs, f.write a = .record fs) (hreset : ∀ a, f.reset [] a = a)
    (hread : ∀ {s a d gone}, Extended (f.write a) d → Optional f.rules gone →
      f.read s (d.without gone) = some (f.reset gone a))
    (hmet : ∀ {s fs a}, f.read s (.record fs) = some a → ∀ r ∈ f.rules, r.Met fs) : f.Faithful := by
  have hextended : ∀ {a d}, Extended (f.write a) d → f.read style d = some a := by
    intro a d h
    have hr : f.read style (d.without []) = _ := hread h fun _ _ _ => List.not_mem_nil
    rwa [without_nil, hreset] at hr
  refine ⟨fun a => ?_, fun a gone => ?_, fun h htext => ?_, fun h hgone htext => ?_, ?_, fun h htext => ?_⟩
  · rw [Row.ofText, Row.toText, decode?_compress (hplain a), hextended (.same _)]
  · exact parse?_compress (hplain a).without
  · rw [decode?_of_parse? htext, hextended h]
  · rw [decode?_of_parse? htext, hread h hgone]
  · intro text a d gone r h hr hmandatory hgone htext
    obtain ⟨fs, hfs⟩ := hrecord a
    obtain ⟨fs', rfl, -⟩ := (hfs ▸ h : Extended (.record fs) d).of_record
    rw [decode?_of_parse? htext]
    refine faulty_eq_none hmet (.missing hr hmandatory ?_)
    rw [keyCount_dropFields, if_pos hgone]
  · rw [decode?_of_parse? htext]
    exact faulty_eq_none hmet h

theorem Task.faithful : Task.format.Faithful :=
  RowFormat.faithful_of Task.plain (fun _ => ⟨_, rfl⟩) (fun _ => rfl) Task.ofDatum?_without Task.rules_met

theorem Workspace.faithful : Workspace.format.Faithful :=
  RowFormat.faithful_of Workspace.plain (fun _ => ⟨_, rfl⟩) (fun _ => rfl) Workspace.ofDatum?_without
    Workspace.rules_met

theorem AgentPool.faithful : AgentPool.format.Faithful :=
  RowFormat.faithful_of AgentPool.plain (fun _ => ⟨_, rfl⟩) (fun _ => rfl) AgentPool.ofDatum?_without
    AgentPool.rules_met

end TaskFleet
