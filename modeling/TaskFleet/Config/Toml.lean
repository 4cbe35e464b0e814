/-
  TaskFleet.Config.Toml — configurations as TOML texts.
-/

import TaskFleet.Config.Record
import TaskFleet.Toml.Printer
import TaskFleet.Toml.Reader

namespace TaskFleet.Config

/-- The configuration that a text writes, if its pools are sound. -/
def ofToml (text : String) : Except ConfigError Config :=
  match Toml.decode? ofDatum? text with
  | some c => c.validate
  | none => .error .unreadable

/-- The text of a configuration, if there is one. -/
def toToml? (c : Config) : Option String := Toml.document? c.toDatum

/-- The text of a configuration whose numbers are all small enough for one. -/
def toToml (c : Config) : String := Toml.document c.toDatum

end TaskFleet.Config
