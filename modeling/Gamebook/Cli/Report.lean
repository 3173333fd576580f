import Gamebook.Cli.Arguments
import Gamebook.Project.Load
import Gamebook.Scanner
import Gamebook.Token.Serial
import Gamebook.Tree.Outline
import Gamebook.Tree.Serial

/-!
What the program answers. A command line and the files determine the output, the error output and
the exit code: one if something could not be read or an error was found in a scene, two for a
command line that is not understood.
-/

namespace Gamebook.Cli

/-- The outcome of a run. -/
structure Report where
  exit : Nat := 0
  output : String := ""
  errors : String := ""
  deriving DecidableEq, Repr, Inhabited

namespace Report

/-- Lines, each with its line feed. -/
def lines (texts : List String) : String := String.join (texts.map (· ++ "\n"))

/-- A run that ends with messages. -/
def failure (messages : List String) : Report := { exit := 1, errors := lines messages }

end Report

def version : String := "choicescript 0.1.0"

/-- How the program is used. -/
def usage : List String :=
  ["Usage: choicescript [-v] [-c FILE] COMMAND",
   "",
   "Commands:",
   "  parse FILE [-f treeviz|json]  print the tree of a scene",
   "  tokens FILE                   print the tokens of a scene",
   "  check DIR                     report the problems of a project",
   "  symbols DIR SCENE             list the symbols of a scene"]

/-- Reads a file and goes on with its text. -/
def withScene (files : Files) (file : String) (report : Text → Report) : Report :=
  match files.read file with
  | .error cause => .failure ["Failed to read " ++ file ++ ": " ++ cause.message]
  | .ok text => report text

/-- Loads a project and goes on with it. -/
def withProject (files : Files) (settings : Settings) (directory : String)
    (report : Project → Report) : Report :=
  match ({ settings } : Project).loadDirectory files directory with
  | (.error error, _) => .failure ["Failed to load project: " ++ error.message]
  | (.ok _, project) => report project

/-- The tree of a scene. -/
def parse (settings : Settings) (file : String) (format : Format) (text : Text) : Report :=
  let name := Path.stem (Path.fileName file)
  let tree := Scene.parse text (some name) none settings.levels
  match format with
  | .outline => { output := tree.outline }
  | .json => { output := tree.toJson.pretty }

/-- The tokens of a scene. -/
def tokens (text : Text) : Report :=
  { output := (Json.arr ((tokensOf text).map (·.toJson))).pretty ++ "\n" }

/-- A problem with the place where it is, counted from one. -/
def problem (path : String) (d : Diagnostic) : String :=
  path ++ s!":{d.start.line + 1}:{d.start.column + 1} " ++ d.level.render ++
    " [" ++ d.code ++ "] " ++ d.message

/-- The problems of a scene, under the path of its file. -/
def problems (entry : Entry) : List String :=
  let path := (entry.uri.filePath?.map String.ofList).getD entry.uri.text
  entry.diagnostics.map (problem path)

/-- The problems of a project, and the scenes that are listed in it but are not there. -/
def check (project : Project) : Report :=
  let entries := project.scenes.values
  let missing := project.declaredScenes.filter fun name => (project.scene? name).isNone
  let failed := entries.any fun entry => entry.diagnostics.any (·.level == .error)
  { exit := if failed then 1 else 0
    output := Report.lines (entries.flatMap problems)
    errors := Report.lines (missing.map fun name =>
      "scene_list names missing scene '" ++ name ++ "'") }

/-- A text with blanks behind it up to a width. -/
def padded (width : Nat) (text : String) : String :=
  text ++ String.ofList (List.replicate (width - text.length) ' ')

/-- The kind of a symbol: how it was declared, or what it is. -/
def symbolKind (symbol : Symbol) : String :=
  match symbol.declaration with
  | some declaration => declaration.keyword
  | none => String.ofList (Text.lower symbol.referenceType.name.toList)

/-- A symbol with its scope, its line and its first value. -/
def symbolLine (entry : Entry) (binding : Binding) : String :=
  let symbol := binding.symbol
  let line := (entry.document.positionAt symbol.offset).line + 1
  let value := (symbol.value.map (" = " ++ ·)).getD ""
  s!"s{binding.scope} " ++ padded 7 (symbolKind symbol) ++ " " ++ symbol.name ++ " : " ++
    symbol.valueType.name ++ s!" (line {line})" ++ value

/-- The symbols of a scene, scope by scope. -/
def symbols (scene : String) (project : Project) : Report :=
  match project.scene? scene with
  | some entry => { output := Report.lines (entry.scopes.allBindings.map (symbolLine entry)) }
  | none =>
    .failure (["No scene named '" ++ scene ++ "'", "", "Available scenes:"] ++
      project.sceneNames.map ("  " ++ ·))

/-- The settings of a run: the defaults, and the file given on the command line. -/
def settings (files : Files) (config : Option String) : Except SettingsError Settings := do
  let sources ← config.toList.mapM files.settingsIn
  Settings.ofSources sources

/-- Does what the command line says. -/
def Invocation.run (invocation : Invocation) (files : Files) : Report :=
  match settings files invocation.config with
  | .error cause => .failure [(ProjectError.badSettings cause).message]
  | .ok settings =>
    match invocation.task with
    | some (.parse file format) => withScene files file (parse settings file format)
    | some (.tokens file) => withScene files file tokens
    | some (.check directory) => withProject files settings directory check
    | some (.symbols directory scene) => withProject files settings directory (symbols scene)
    | none => { exit := 101, errors := Report.lines ["a command is required"] }

/-- Runs the program. -/
def run (arguments : List String) (files : Files) : Report :=
  match read arguments with
  | .error .mistake => { exit := 2, errors := Report.lines usage }
  | .error .version => { output := Report.lines [version] }
  | .error .help => { output := Report.lines usage }
  | .ok invocation => invocation.run files

end Gamebook.Cli
