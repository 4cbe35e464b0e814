/-
  TaskFleet.LocalCommand.Directory — paths, and the directories of a small machine.
-/

namespace TaskFleet.Host

/-- The directories of the machine. -/
def directories : List (List String) :=
  [[], ["bin"], ["boot"], ["dev"], ["etc"], ["home"], ["lib"], ["media"], ["mnt"], ["opt"], ["proc"], ["root"],
    ["run"], ["sbin"], ["srv"], ["sys"], ["tmp"], ["usr"], ["usr", "bin"], ["usr", "include"], ["usr", "lib"],
    ["usr", "local"], ["usr", "local", "bin"], ["usr", "local", "lib"], ["usr", "sbin"], ["usr", "share"], ["var"],
    ["var", "lib"], ["var", "log"], ["var", "tmp"]]

/-- The files of the machine that are no directories. -/
def files : List (List String) :=
  [["dev", "null"], ["dev", "zero"], ["etc", "passwd"], ["etc", "hosts"], ["bin", "sh"], ["bin", "true"],
    ["bin", "false"], ["usr", "bin", "sh"], ["usr", "bin", "true"], ["usr", "bin", "false"]]

def isAbsolute (path : String) : Bool := path.toList.head?.any (· = '/')

/-- Follows the parts of a path from a directory. -/
def walk (base : List String) : List String → List String
  | [] => base
  | part :: rest =>
    if part = "" ∨ part = "." then walk base rest
    else if part = ".." then walk base.dropLast rest
    else walk (base ++ [part]) rest

/-- A path with another one behind it, which takes its place if it starts at the root. -/
def join (base path : String) : String :=
  if isAbsolute path then path
  else if base = "" ∨ base.toList.getLast? = some '/' then base ++ path
  else base ++ "/" ++ path

/-- The parts of a path that starts at the root. -/
def parts (path : String) : List String := walk [] (path.splitOn "/")

/-- A path as text. -/
def pathText (parts : List String) : String := "/" ++ "/".intercalate parts

/-! ## Looking -/

def isDirectory (path : String) : Bool := isAbsolute path && directories.contains (parts path)

def isFile (path : String) : Bool := isAbsolute path && files.contains (parts path)

def notFound : String := "No such file or directory (os error 2)"

def notPermitted : String := "Permission denied (os error 13)"

def notDirectory : String := "Not a directory (os error 20)"

/-- The directory that a path leads to, or why there is none. -/
def directory (path : String) : Except String String :=
  if isDirectory path then .ok (pathText (parts path))
  else if isAbsolute path ∧ files.any (·.isPrefixOf (parts path)) then .error notDirectory
  else .error notFound

end TaskFleet.Host
