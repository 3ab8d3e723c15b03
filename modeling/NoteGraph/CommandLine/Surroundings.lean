import NoteGraph.Text.Readings

/-!
# The surroundings of a run

A run sees the standard input and a working directory that holds some files. A path
names its parts between slashes: a part that is empty or a dot stays where it is, and two
dots lead out of the working directory, about which only directories are known.
-/

namespace NoteGraph.CommandLine

/-- What a path leads to. -/
inductive Entry where
  | file (content : String)
  | directory
  | missing
  /-- The path goes on after a file. -/
  | beyondFile
  deriving DecidableEq

/-- What is reported of a path that leads to no file. -/
def Entry.reason : Entry → String
  | file _ => ""
  | directory => "Is a directory"
  | missing => "No such file or directory"
  | beyondFile => "Not a directory"

/-- What a run sees. -/
structure Surroundings where
  input : String
  entry : String → Entry

namespace Entry

/-- What some parts of a path lead to from a directory of which nothing is known. -/
def outside (parts : List String) : Entry :=
  if parts.all ["", ".", ".."].contains then directory else missing

/-- What some parts of a path lead to from a directory that holds some files. -/
def inside (files : List (String × String)) : List String → Entry
  | [] => directory
  | part :: rest =>
    if part == "" || part == "." then inside files rest
    else if part == ".." then outside rest
    else
      match files.lookup part with
      | none => missing
      | some content => if rest.isEmpty then file content else beyondFile

/-- What a path leads to from a directory that holds some files. -/
def ofPath (files : List (String × String)) (path : String) : Entry :=
  let parts := (path.toList.splitOn '/').map String.ofList
  if path.isEmpty then missing
  else if path.startsWith "/" then outside parts
  else inside files parts

end Entry

/-- The surroundings of an input and a working directory that holds some files. -/
def Surroundings.ofFiles (input : String) (files : List (String × String)) : Surroundings :=
  { input, entry := Entry.ofPath files }

end NoteGraph.CommandLine
