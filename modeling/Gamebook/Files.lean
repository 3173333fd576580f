import Gamebook.Text.Percent

/-!
Files as a program finds them: a working directory, and files and directories by absolute path. A
path is resolved name by name, so that it matters where it leads through a file and where through
nothing.
-/

namespace Gamebook

/-- What there is at a path. -/
inductive FileContent where
  | directory
  | file (bytes : List UInt8)
  deriving DecidableEq, Repr, Inhabited

/-- Why a file cannot be used. -/
inductive FileError where
  | notFound
  | notDirectory
  | isDirectory
  | notText
  deriving DecidableEq, Repr, Inhabited

namespace FileError

def message : FileError → String
  | notFound => "No such file or directory (os error 2)"
  | notDirectory => "Not a directory (os error 20)"
  | isDirectory => "Is a directory (os error 21)"
  | notText => "stream did not contain valid UTF-8"

end FileError

/-- An absolute path: the names on the way from the root. -/
abbrev Path := List String

namespace Path

/-- The path as it is written. -/
def render (path : Path) : String := "/" ++ String.intercalate "/" path

/-- The names of a written path. -/
def names (written : String) : List String :=
  (Text.splitOn '/' written.toList).map String.ofList

/-- The last name of a written path, without slashes behind it. -/
def fileName (written : String) : String :=
  (((names written).filter (!·.isEmpty)).getLast?).getD ""

/-- A file name before and behind its last dot. A dot at the beginning begins no extension. -/
def splitExtension (name : String) : String × Option String :=
  let chars := name.toList
  let extension := (chars.reverse.takeWhile (· != '.')).reverse
  let before := chars.take (chars.length - extension.length - 1)
  if before.isEmpty || name == ".." then (name, none)
  else (String.ofList before, some (String.ofList extension))

/-- A file name without its extension. -/
def stem (name : String) : String := (splitExtension name).1

/-- The extension of a file name, if there is one. -/
def extension? (name : String) : Option String := (splitExtension name).2

end Path

/-- Files and directories. A directory is there as soon as something is in it. -/
structure Files where
  /-- Where paths begin that do not begin with a slash. -/
  workingDirectory : Path := []
  entries : List (Path × FileContent) := []
  deriving Repr, Inhabited

namespace Files

/-- What there is at an absolute path. -/
def content? (files : Files) (path : Path) : Option FileContent :=
  match files.entries.lookup path with
  | some content => some content
  | none =>
    let isParent := files.entries.any (path.isPrefixOf ·.1) ||
      path.isPrefixOf files.workingDirectory
    if path.isEmpty || isParent then some .directory else none

/-- Follows names from a place that is there. -/
def follow (files : Files) : List String → Path → Except FileError Path
  | [], place => .ok place
  | name :: more, place =>
    if files.content? place != some .directory then .error .notDirectory
    else if name.isEmpty || name == "." then follow files more place
    else if name == ".." then follow files more place.dropLast
    else if (files.content? (place ++ [name])).isSome then follow files more (place ++ [name])
    else .error .notFound

/-- The absolute path that a written path leads to. -/
def resolve (files : Files) (written : String) : Except FileError Path :=
  if written.isEmpty then .error .notFound
  else
    let start := if written.toList.head? == some '/' then [] else files.workingDirectory
    files.follow (Path.names written) start

/-- The text of the file at an absolute path. -/
def textAt (files : Files) (path : Path) : Except FileError Text :=
  match files.content? path with
  | none => .error .notFound
  | some .directory => .error .isDirectory
  | some (.file bytes) =>
    match Text.ofBytes? bytes with
    | some text => .ok text
    | none => .error .notText

/-- Reads the file that a written path leads to. -/
def read (files : Files) (written : String) : Except FileError Text :=
  (files.resolve written).bind files.textAt

/-- Whether a written path leads to a file. -/
def isFile (files : Files) (written : String) : Bool :=
  match (files.resolve written).toOption.bind files.content? with
  | some (.file _) => true
  | _ => false

/-- The names of the files in a directory, in increasing order; directories are left out. -/
def filesIn (files : Files) (path : Path) : Except FileError (List String) :=
  if files.content? path == some .directory then
    let names := files.entries.filterMap fun (other, content) =>
      match content, other.getLast? with
      | .file _, some name => if other.dropLast == path then some name else none
      | _, _ => none
    .ok (names.mergeSort (fun left right => !(decide (right < left))))
  else .error .notDirectory

end Files

end Gamebook
