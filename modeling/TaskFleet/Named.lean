/-
  TaskFleet.Named — kinds of things with finitely many cases, each with its own name.

  A case is written as its name wherever it is stored, configured or shown.
-/

namespace TaskFleet

/-- A type that lists its cases and names each of them. -/
class Named (α : Type) where
  cases : List α
  name : α → String

/-- The case with this name. -/
def Named.ofName? {α : Type} [Named α] (name : String) : Option α :=
  (Named.cases (α := α)).find? fun a => Named.name a == name

end TaskFleet
