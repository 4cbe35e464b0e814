/-
  TaskFleet.Main — the program: files, the clock and the streams around the command line.
-/

import Std.Time.DateTime.Timestamp
import TaskFleet.CommandLine.Run
import TaskFleet.Store.Rows

namespace TaskFleet.CommandLine

/-- The text of a file, if it is there. -/
def readIfThere (path : String) : IO (Option String) := do
  try
    return some (← IO.FS.readFile path)
  catch
    | .noFileOrDirectory .. => return none
    | e => throw e

/-- Writes a file, and makes the directories on the way to it. -/
def writeWithDirectories (path text : String) : IO Unit := do
  let parts := path.splitOn "/"
  let directory := "/".intercalate parts.dropLast
  if directory != "" then IO.FS.createDirAll directory
  IO.FS.writeFile path text

/-- The files that a run of the program with these arguments sees. -/
def loadFiles (args : List String) : IO Files := do
  let mut files : Files := {}
  if let some path := configPath? args then
    if let some text ← readIfThere path then
      files := { files with configs := files.configs.insert path text }
  if let some path := storePath? files args then
    if let some text ← readIfThere path then
      match Store.ofText? text with
      | .ok s => files := { files with stores := files.stores.insert path s }
      | .error e => throw (IO.userError e.message)
  return files

/-- Writes the stores back. -/
def saveFiles (files : Files) : IO Unit := do
  for (path, s) in files.stores.rows do
    writeWithDirectories path s.toText

end TaskFleet.CommandLine

open TaskFleet.CommandLine in
def main (args : List String) : IO UInt32 := do
  let now := (← Std.Time.Timestamp.now).toSecondsSinceUnixEpoch.val.toNat
  let (ending, files) := run (← loadFiles args) (UInt64.ofNat now) args
  saveFiles files
  IO.print ending.stdout
  IO.eprint ending.stderr
  return ending.exitCode
