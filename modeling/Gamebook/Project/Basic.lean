import Gamebook.Document
import Gamebook.Files
import Gamebook.Lookup
import Gamebook.Scene
import Gamebook.Settings.Basic

/-!
Projects: the scenes of one game. A project knows its scenes by name and finds the name of a scene
by the identifier of its document. Whenever a document is indexed, its scene is read anew and
takes the place of an older one of the same name.
-/

namespace Gamebook

/-- What can go wrong with a project. -/
inductive ProjectError where
  /-- The identifier is not that of a scene. -/
  | notScene (uri : Uri)
  /-- The file or directory at a written path cannot be used. -/
  | unreadable (path : String) (cause : FileError)
  | badSettings (cause : SettingsError)
  deriving DecidableEq, Repr, Inhabited

namespace ProjectError

def message : ProjectError → String
  | notScene uri => "'" ++ uri.text ++ "' does not name a scene file"
  | unreadable path cause => "failed to read " ++ path ++ ": " ++ cause.message
  | badSettings cause => "invalid configuration: " ++ cause.message

end ProjectError

/-- A scene of a project: its document, and the tree and scopes that were read from it. -/
structure Entry where
  name : String
  document : Document
  lookup : Lookup
  deriving Repr, Inhabited

namespace Entry

/-- Reads the scene of a document. -/
def ofDocument (name : String) (document : Document) (levels : Levels) : Entry :=
  let tree := Scene.parse document.text (some name) (some document.uri.text) levels
  let (tree, scopes) := Scope.build tree
  { name, document, lookup := { tree, scopes } }

def uri (entry : Entry) : Uri := entry.document.uri

def tree (entry : Entry) : Tree := entry.lookup.tree

def scopes (entry : Entry) : ScopeTree := entry.lookup.scopes

/-- The markers of the scene. -/
def issues (entry : Entry) : List Marker := entry.tree.issuesBelow Tree.root

/-- The problems of the scene by line and column. -/
def diagnostics (entry : Entry) : List Diagnostic := entry.tree.diagnostics Tree.root

end Entry

/-- The scenes of one game. -/
structure Project where
  settings : Settings := {}
  /-- The directory of the project, once it is known. -/
  root : Option Uri := none
  /-- The scenes by name. -/
  scenes : Table Entry := .empty
  /-- The names of the scenes by the identifiers of their documents. -/
  names : Table String := .empty
  deriving Repr, Inhabited

namespace Project

def size (project : Project) : Nat := project.scenes.size

def isEmpty (project : Project) : Bool := project.scenes.isEmpty

/-- The scene with a name. -/
def scene? (project : Project) (name : String) : Option Entry := project.scenes.get? name

/-- The scene of the document with an identifier. -/
def sceneAt? (project : Project) (uri : Uri) : Option Entry :=
  (project.names.get? uri.text).bind project.scene?

/-- The names of the scenes, in increasing order. -/
def sceneNames (project : Project) : List String := project.scenes.keys

/-- The scene that the game starts with. -/
def startup? (project : Project) : Option Entry := project.scene? project.settings.startupScene

/-- The names without the identifier that a scene had before, if it is to have another one. -/
def forget (project : Project) (name : String) (uri : Uri) : Table String :=
  match project.scene? name with
  | none => project.names
  | some previous =>
    if previous.uri = uri then project.names else project.names.erase previous.uri.text

/-- Puts the scene of a document into the project. -/
def put (project : Project) (name : String) (document : Document) : Entry × Project :=
  let entry := Entry.ofDocument name document project.settings.levels
  (entry,
    { project with
      scenes := project.scenes.insert name entry
      names := (project.forget name document.uri).insert document.uri.text name })

/-- Indexes a document, if it holds a scene. -/
def index [Addressing] (project : Project) (document : Document) : Except ProjectError Entry × Project :=
  match document.sceneName? project.settings.sceneExtension with
  | none => (.error (.notScene document.uri), project)
  | some name =>
    let (entry, project) := project.put name document
    (.ok entry, project)

/-- Indexes one document. A project without a root takes that of the document, whether or not the
document holds a scene. -/
def update [Addressing] (project : Project) (document : Document) : Except ProjectError Entry × Project :=
  let root := match project.root with
    | some root => some root
    | none => Addressing.directory? document.uri
  { project with root }.index document

/-- Indexes the scenes among documents that lie in a directory, and counts them. -/
def indexWithin [Addressing] (project : Project) (root : Uri) (documents : List Document) : Nat × Project :=
  documents.foldl
    (fun (indexed, project) document =>
      if document.uri.isWithin root then
        match project.index document with
        | (.ok _, project) => (indexed + 1, project)
        | (.error _, project) => (indexed, project)
      else (indexed, project))
    (0, project)

/-- Indexes documents and counts the scenes among them. The directory that holds the given
identifier becomes the root; documents that lie elsewhere are left out. -/
def indexAll [Addressing] (project : Project) (uri : Uri) (documents : List Document) :
    Except ProjectError Nat × Project :=
  match Addressing.directory? uri with
  | none => (.error (.notScene uri), project)
  | some root =>
    let (indexed, project) := project.indexWithin root documents
    (.ok indexed, { project with root := some root })

/-- Takes the scene of a document out of the project. -/
def remove (project : Project) (uri : Uri) : Option Entry × Project :=
  match project.names.get? uri.text with
  | none => (none, project)
  | some name =>
    (project.scene? name,
      { project with scenes := project.scenes.erase name, names := project.names.erase uri.text })

/-- The scenes that the startup scene lists, in order. -/
def declaredScenes (project : Project) : List String :=
  match project.startup? with
  | none => []
  | some startup =>
    let tree := startup.tree
    let isList := fun id => tree.kind? id == some (.standardCommand "scene_list")
    match tree.ids.find? isList with
    | none => []
    | some list =>
      ((tree.preorder list).filter fun id => tree.kind? id == some .sceneRef).map tree.name

end Project

end Gamebook
