import Gamebook.Project.Basic
import Gamebook.Settings.Toml

/-!
Projects and settings from files. The scenes of a directory are the files in it with the extension
of scenes; they are read in the order of their names, and if one of them cannot be read, the
project stays as it is.
-/

namespace Gamebook

namespace Files

/-- The settings that a file assigns. A name that leads to no file is tried again with the
extension of such files behind it. -/
def settingsIn (files : Files) (name : String) : Except SettingsError (List Assignment) :=
  let candidates := [name, name ++ ".toml"]
  match candidates.find? files.isFile with
  | none => .error (.fileMissing name)
  | some found =>
    match files.read found with
    | .error _ => .error .fileNotText
    | .ok text => Toml.parse text

/-- The document in the file at an absolute path. -/
def document (files : Files) (path : Path) : Except ProjectError Document :=
  match files.textAt path with
  | .error cause => .error (.unreadable path.render cause)
  | .ok text => .ok { uri := Uri.ofPath path, text }

/-- The directory that a written path leads to, and the documents of the scenes in it. -/
def sceneDocuments (files : Files) (written extension : String) :
    Except ProjectError (Path × List Document) := do
  let directory ← (files.resolve written).mapError (.unreadable written)
  let names ← (files.filesIn directory).mapError (.unreadable written)
  let scenes := names.filter fun name => Path.extension? name == some extension
  let documents ← scenes.mapM fun name => files.document (directory ++ [name])
  return (directory, documents)

end Files

namespace Project

/-- Indexes the scenes of the directory that a written path leads to, and counts them. -/
def loadDirectory [Addressing] (project : Project) (files : Files) (written : String) :
    Except ProjectError Nat × Project :=
  match files.sceneDocuments written project.settings.sceneExtension with
  | .error error => (.error error, project)
  | .ok (directory, documents) => project.indexAll (Uri.ofDirectory directory) documents

end Project

end Gamebook
