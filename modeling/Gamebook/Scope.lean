import Gamebook.Bisect
import Gamebook.Kind
import Gamebook.Offset

/-!
Scopes. The scopes of a scene form a tree: the root has no bound, and every other scope is the
range of an option or of a branch of a conditional. A scope holds the symbols that are declared in
it. Which scope a range belongs to is found from the root down: the children of a scope are sorted
by offset, so that one of them at most can hold the range.
-/

namespace Gamebook

/-- A name that is declared in a scene. -/
structure Symbol where
  name : String
  /-- The source text of its first value. -/
  value : Option String
  referenceType : ReferenceType
  /-- The node that declares it. -/
  node : Nat
  /-- Where that node starts. -/
  offset : Nat
  valueType : ValueType
  /-- How it was declared, if it is a variable. -/
  declaration : Option Declaration
  deriving DecidableEq, Repr, Inhabited

namespace Symbol

/-- Whether the symbol is a variable of the whole game. -/
def isGlobal (symbol : Symbol) : Bool := symbol.declaration == some .create

/-- Whether the symbol can be used at an offset: a variable from its declaration on, a label
everywhere. -/
def countsAt (symbol : Symbol) (offset : Nat) : Bool :=
  symbol.referenceType == .label || symbol.offset ≤ offset

/-- Whether the symbol is what a name of the given type stands for. -/
def answers (symbol : Symbol) (name : String) (type : ReferenceType) : Bool :=
  symbol.name == name && symbol.referenceType == type

end Symbol

/-- A range of a scene and the symbols declared in it. -/
structure Scope where
  offset : Nat
  length : Nat
  parent : Option Nat
  children : Array Nat
  symbols : Array Symbol
  deriving DecidableEq, Repr, Inhabited

namespace Scope

/-- Offset behind the scope. -/
def stop (scope : Scope) : Nat := offsetAdd scope.offset scope.length

/-- Whether a range begins in the scope and does not reach beyond it. -/
def contains (scope : Scope) (offset length : Nat) : Bool :=
  scope.offset ≤ offset && offset < scope.stop && offsetAdd offset length ≤ scope.stop

end Scope

/-- The scopes of a scene, in order of creation, the root first. -/
structure ScopeTree where
  scopes : Array Scope
  deriving DecidableEq, Repr, Inhabited

namespace ScopeTree

/-- The root scope, which covers everything. -/
def rootScope : Scope := ⟨0, maxOffset, none, #[], #[]⟩

/-- Only the root scope. -/
def initial : ScopeTree := ⟨#[rootScope]⟩

def root : Nat := 0

def size (tree : ScopeTree) : Nat := tree.scopes.size

def scope? (tree : ScopeTree) (id : Nat) : Option Scope := tree.scopes[id]?

def parent? (tree : ScopeTree) (id : Nat) : Option Nat := (tree.scope? id).bind (·.parent)

def children (tree : ScopeTree) (id : Nat) : Array Nat :=
  ((tree.scope? id).map (·.children)).getD #[]

def symbols (tree : ScopeTree) (id : Nat) : Array Symbol :=
  ((tree.scope? id).map (·.symbols)).getD #[]

/-- How many of the given scopes start at an offset or before it; they are sorted by offset. -/
def startedBy (tree : ScopeTree) (offset : Nat) (ids : Array Nat) : Nat :=
  partitionPoint (fun id => (tree.scope? id).any (·.offset ≤ offset)) ids

/-- Adds a scope below another one, among its siblings by offset and behind those that start with
it, and tells its number. -/
def nest (tree : ScopeTree) (parent offset length : Nat) : Nat × ScopeTree :=
  let id := tree.size
  let place := tree.startedBy offset (tree.children parent)
  let scopes := tree.scopes.modify parent fun scope =>
    { scope with children := scope.children.insertIdxIfInBounds place id }
  (id, ⟨scopes.push ⟨offset, length, some parent, #[], #[]⟩⟩)

/-- Adds a symbol to a scope. -/
def declare (tree : ScopeTree) (id : Nat) (symbol : Symbol) : ScopeTree :=
  ⟨tree.scopes.modify id fun scope => { scope with symbols := scope.symbols.push symbol }⟩

/-- The child of a scope that holds a range. -/
def childAt? (tree : ScopeTree) (id offset length : Nat) : Option Nat :=
  let children := tree.children id
  match tree.startedBy offset children with
  | 0 => none
  | started + 1 =>
    children[started]?.filter fun child => (tree.scope? child).any (·.contains offset length)

/-- The innermost scope below a given one that holds a range, at most `budget` levels down. -/
def findBelow (tree : ScopeTree) (offset length : Nat) : Nat → Nat → Nat
  | 0, id => id
  | budget + 1, id =>
    match tree.childAt? id offset length with
    | none => id
    | some child => findBelow tree offset length budget child

/-- The innermost scope that holds a range. -/
def find (tree : ScopeTree) (offset length : Nat) : Nat :=
  tree.findBelow offset length tree.size root

/-- A scope and the scopes around it, from the inside out, at most `budget` of them. -/
def outwardWithin (tree : ScopeTree) : Nat → Nat → List Nat
  | 0, _ => []
  | budget + 1, id =>
    match tree.parent? id with
    | none => [id]
    | some above => id :: outwardWithin tree budget above

/-- A scope and the scopes around it, from the inside out. -/
def outward (tree : ScopeTree) (id : Nat) : List Nat := tree.outwardWithin tree.size id

end ScopeTree

/-- A symbol and where it is bound: the scope, and its place among the symbols there. -/
structure Binding where
  scope : Nat
  index : Nat
  symbol : Symbol
  deriving DecidableEq, Repr, Inhabited

namespace Binding

/-- Whether two bindings are one and the same, and not only alike. -/
def same (left right : Binding) : Bool := left.scope == right.scope && left.index == right.index

end Binding

namespace ScopeTree

/-- The bindings of a scope, in order of declaration. -/
def bindings (tree : ScopeTree) (id : Nat) : List Binding :=
  (tree.symbols id).toList.zipIdx.map fun (symbol, index) => ⟨id, index, symbol⟩

/-- All bindings, scope by scope. -/
def allBindings (tree : ScopeTree) : List Binding :=
  (List.range tree.size).flatMap tree.bindings

/-- The last symbol of a scope that answers to a name and is visible at an offset. -/
def findIn? (tree : ScopeTree) (id : Nat) (name : String) (type : ReferenceType) (offset : Nat) :
    Option Binding :=
  (tree.bindings id).reverse.find? fun binding =>
    binding.symbol.answers name type && binding.symbol.countsAt offset

end ScopeTree

end Gamebook
