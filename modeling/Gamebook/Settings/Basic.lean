import Gamebook.Marker

/-!
Settings. Every source of settings, a file or a single override, is a list of assignments of plain
values to dotted paths, and sources are laid over each other assignment by assignment: the last
one wins, and what stands in the way of a path gives way to a section. Only then are the settings
read from the sections, so that values which nobody reads cannot be wrong.
-/

namespace Gamebook

/-- How scenes are named and how serious the configurable problems are. -/
structure Settings where
  /-- The name of the scene that a game starts with. -/
  startupScene : String := "startup"
  /-- The extension of the file names of scenes. -/
  sceneExtension : String := "txt"
  levels : Levels := {}
  deriving DecidableEq, Repr, Inhabited

/-- A plain value of a setting. -/
inductive Scalar where
  | text (value : String)
  | integer (value : Int)
  | flag (value : Bool)
  deriving DecidableEq, Repr, Inhabited

namespace Scalar

/-- The value as a text. -/
def toText : Scalar → String
  | text value => value
  | integer value => toString value
  | flag value => if value then "true" else "false"

/-- The value as a message speaks of it. -/
def describe : Scalar → String
  | text value => "string \"" ++ value ++ "\""
  | integer value => s!"integer `{value}`"
  | flag value => "boolean `" ++ (if value then "true" else "false") ++ "`"

end Scalar

/-- A path to a setting, from the outermost section inward. -/
abbrev SettingPath := List String

/-- A plain value and where it goes. -/
structure Assignment where
  path : SettingPath
  value : Scalar
  deriving DecidableEq, Repr, Inhabited

/-- A value or a section with members, each under one name. -/
inductive Setting where
  | value (scalar : Scalar)
  | group (members : List (String × Setting))
  deriving Repr, Inhabited

namespace Setting

/-- The section without members. -/
def empty : Setting := .group []

/-- The members of a section; a value has none. -/
def members : Setting → List (String × Setting)
  | .value _ => []
  | .group members => members

def member? (setting : Setting) (name : String) : Option Setting := setting.members.lookup name

/-- Puts a member in the place of one with the same name, or behind all others. -/
def putMember (name : String) (member : Setting) :
    List (String × Setting) → List (String × Setting)
  | [] => [(name, member)]
  | (other, old) :: more =>
    if name = other then (name, member) :: more else (other, old) :: putMember name member more

/-- Lays a value over a setting at the end of a path; a value on the way becomes a section. -/
def put (scalar : Scalar) : SettingPath → Setting → Setting
  | [], _ => .value scalar
  | name :: path, setting =>
    let inner := (setting.member? name).getD .empty
    .group (putMember name (put scalar path inner) setting.members)

/-- Lays assignments over a setting, one after the other. -/
def lay (setting : Setting) (assignments : List Assignment) : Setting :=
  assignments.foldl (fun setting assignment => setting.put assignment.value assignment.path) setting

end Setting

/-- What can be wrong with settings. -/
inductive SettingsError where
  /-- An override without the name of a section or setting at its beginning. -/
  | keyExpected
  /-- An override that goes on with something else than a dot and another name. -/
  | keyEndExpected
  | fileMissing (name : String)
  | fileNotText
  | fileMalformed
  /-- A plain value in the place of one of the two sections. -/
  | sectionExpected (name : String) (found : Scalar)
  /-- A section in the place of a text. -/
  | textExpected (path : String)
  | unknownLevel (text : String)
  | levelExpected
  | missing (name : String)
  deriving DecidableEq, Repr, Inhabited

namespace SettingsError

def message : SettingsError → String
  | keyExpected => "IsA"
  | keyEndExpected => "Char"
  | fileMissing name => "configuration file \"" ++ name ++ "\" not found"
  | fileNotText => "stream did not contain valid UTF-8"
  | fileMalformed => "TOML parse error"
  | sectionExpected name found => "invalid type: " ++ found.describe ++ ", expected struct " ++ name
  | textExpected path => "invalid type: map, expected a string for key `" ++ path ++ "`"
  | unknownLevel text => "enum Level does not have variant constructor " ++ text
  | levelExpected =>
    "value of enum Level should be represented by either string or table with exactly one key"
  | missing name => "missing field `" ++ name ++ "`"

end SettingsError

namespace Assignment

/-- Characters of a name in the path of an override. -/
def isNameChar (c : Char) : Bool := c.isAlphanum || c == ' ' || c == '_' || c == '-'

/-- The further names of a path, each behind a dot. -/
def namesFrom : List Text → Except SettingsError SettingPath
  | [] => .ok []
  | name :: more =>
    if name.isEmpty || !name.all isNameChar then .error .keyEndExpected
    else (namesFrom more).map (String.ofList name :: ·)

/-- The path of an override: names with dots between them, in lower case. -/
def pathOf (key : String) : Except SettingsError SettingPath :=
  let key := Text.lower key.toList
  let first := key.takeWhile isNameChar
  if first.isEmpty then .error .keyExpected
  else
    match key.dropWhile isNameChar with
    | [] => .ok [String.ofList first]
    | '.' :: rest => (namesFrom (Text.splitOn '.' rest)).map (String.ofList first :: ·)
    | _ => .error .keyEndExpected

/-- An override by its written path. -/
def override (key : String) (value : Scalar) : Except SettingsError Assignment :=
  (pathOf key).map (⟨·, value⟩)

end Assignment

namespace Setting

/-- The level with a given name in upper or lower case. -/
def levelNamed (text : String) : Except SettingsError Level :=
  let name := String.ofList (Text.lower text.toList)
  match Level.all.find? (·.key == name) with
  | some level => .ok level
  | none => .error (.unknownLevel text)

/-- A setting as a level: its name, or a section whose only member has that name. -/
def toLevel : Setting → Except SettingsError Level
  | .value (.text name) => levelNamed name
  | .group [(name, _)] => levelNamed name
  | _ => .error .levelExpected

/-- A setting as a text, whatever plain value it is. -/
def toText (path : String) : Setting → Except SettingsError String
  | .value scalar => .ok scalar.toText
  | .group _ => .error (.textExpected path)

/-- The member of a section that has to be there. -/
def get (setting : Setting) (name : String) : Except SettingsError Setting :=
  match setting.member? name with
  | some member => .ok member
  | none => .error (.missing name)

/-- A section that has to be there, under its name in messages. -/
def getSection (setting : Setting) (name title : String) : Except SettingsError Setting := do
  match ← setting.get name with
  | .value scalar => .error (.sectionExpected title scalar)
  | found => .ok found

end Setting

namespace Settings

/-- The assignments that make up settings. -/
def assignments (settings : Settings) : List Assignment :=
  [⟨["project", "startup_scene"], .text settings.startupScene⟩,
   ⟨["project", "scene_extension"], .text settings.sceneExtension⟩,
   ⟨["diagnostics", "mixed_indentation"], .text settings.levels.mixedIndentation.key⟩,
   ⟨["diagnostics", "deprecated_modulo"], .text settings.levels.deprecatedModulo.key⟩]

/-- Reads settings from their sections. -/
def ofSetting (setting : Setting) : Except SettingsError Settings := do
  let project ← setting.getSection "project" "ProjectSettings"
  let startupScene ← (← project.get "startup_scene").toText "project.startup_scene"
  let sceneExtension ← (← project.get "scene_extension").toText "project.scene_extension"
  let diagnostics ← setting.getSection "diagnostics" "DiagnosticSettings"
  let mixedIndentation ← (← diagnostics.get "mixed_indentation").toLevel
  let deprecatedModulo ← (← diagnostics.get "deprecated_modulo").toLevel
  return { startupScene, sceneExtension, levels := { mixedIndentation, deprecatedModulo } }

/-- The default settings with sources laid over them, the later over the earlier. -/
def ofSources (sources : List (List Assignment)) : Except SettingsError Settings :=
  ofSetting (Setting.empty.lay (({} : Settings).assignments ++ sources.flatten))

end Settings

end Gamebook
