import Gamebook.Json
import Gamebook.Kind
import Gamebook.Marker
import Gamebook.Table

/-!
Trees. The nodes of a scene stand in one sequence and name each other by their place in it. A node
is created without extent and without a parent; it grows when it adopts a child, when its end is
set and when a marker is put on it, and its ancestors grow with it, so that a node always covers
its children and its markers. Apart from that a node carries data that later passes attach to it.
-/

namespace Gamebook

/-- A node of a tree. -/
structure Node where
  kind : Kind
  offset : Nat
  length : Nat := 0
  parent : Option Nat := none
  children : List Nat := []
  issues : List Marker := []
  data : Table Json := .empty
  deriving Repr, Inhabited

namespace Node

/-- Offset behind the node. -/
def stop (node : Node) : Nat := node.offset + node.length

/-- Whether an offset touches the node; both ends count. -/
def touches (node : Node) (offset : Nat) : Bool := node.offset ≤ offset && offset ≤ node.stop

/-- Whether the node already covers a range. -/
def covers (node : Node) (offset stop : Nat) : Bool := node.offset ≤ offset && stop ≤ node.stop

/-- The node grown to cover a range. -/
def grow (node : Node) (offset stop : Nat) : Node :=
  let start := min node.offset offset
  { node with offset := start, length := max node.stop stop - start }

end Node

/-- A scene and the nodes of its tree, in order of creation. -/
structure Tree where
  source : Text
  nodes : Array Node
  deriving Repr, Inhabited

namespace Tree

/-- The tree of a scene before any node is created. -/
def ofSource (source : Text) : Tree := ⟨source, #[]⟩

/-- The node that was created first, the scene in a tree that was read. -/
def root : Nat := 0

def size (tree : Tree) : Nat := tree.nodes.size

def isEmpty (tree : Tree) : Bool := tree.nodes.isEmpty

def node? (tree : Tree) (id : Nat) : Option Node := tree.nodes[id]?

def children (tree : Tree) (id : Nat) : List Nat := ((tree.node? id).map (·.children)).getD []

def parent? (tree : Tree) (id : Nat) : Option Nat := (tree.node? id).bind (·.parent)

def kind? (tree : Tree) (id : Nat) : Option Kind := (tree.node? id).map (·.kind)

def issues (tree : Tree) (id : Nat) : List Marker := ((tree.node? id).map (·.issues)).getD []

/-- The nodes by number, in order of creation. -/
def ids (tree : Tree) : List Nat := List.range tree.size

/-- The lines of the scene, for positions. -/
def lineIndex (tree : Tree) : LineIndex := .ofText tree.source

def modify (tree : Tree) (id : Nat) (change : Node → Node) : Tree :=
  { tree with nodes := tree.nodes.modify id change }

/-- Adds a node without extent and tells its number. -/
def create (tree : Tree) (kind : Kind) (offset : Nat) : Nat × Tree :=
  (tree.size, { tree with nodes := tree.nodes.push { kind, offset } })

/-- Drops all nodes but the first `size`. -/
def truncate (tree : Tree) (size : Nat) : Tree := { tree with nodes := tree.nodes.take size }

/-- Grows a node and then its ancestors to cover a range, up to the first one that covers it
already; at most `budget` nodes. -/
def growUp (offset stop : Nat) : Nat → Tree → Nat → Tree
  | 0, tree, _ => tree
  | budget + 1, tree, id =>
    match tree.node? id with
    | none => tree
    | some node =>
      if node.covers offset stop then tree
      else
        let grown := tree.modify id (·.grow offset stop)
        match node.parent with
        | none => grown
        | some above => growUp offset stop budget grown above

/-- Grows a node, with its ancestors, to cover a range. -/
def grow (tree : Tree) (id offset stop : Nat) : Tree :=
  growUp offset stop (tree.size + 1) tree id

/-- Takes a node out of its parent's children. -/
def detach (tree : Tree) (id : Nat) : Tree :=
  match tree.parent? id with
  | none => tree
  | some above =>
    tree.modify above fun node => { node with children := node.children.filter (· != id) }

/-- Where a new child goes: before the child that now has the index, or behind all of them. -/
def place (child : Nat) (index : Option Nat) (children : List Nat) : List Nat :=
  match index with
  | none => children ++ [child]
  | some at_ => if at_ < children.length then children.insertIdx at_ child else children ++ [child]

/-- Makes a node the child of another one, which grows to cover it. -/
def adopt (tree : Tree) (parent child : Nat) (index : Option Nat) : Tree :=
  let tree := tree.detach child
  let tree := tree.modify child fun node => { node with parent := some parent }
  let tree := tree.modify parent fun node =>
    { node with children := place child index node.children }
  match tree.node? child with
  | none => tree
  | some node => tree.grow parent node.offset node.stop

/-- Grows a node so that it ends no earlier than `stop`. -/
def reach (tree : Tree) (id stop : Nat) : Tree :=
  match tree.node? id with
  | none => tree
  | some node => tree.grow id node.offset stop

/-- Puts a marker on a node, which grows to cover it up to what counts as its end. -/
def mark (tree : Tree) (id : Nat) (marker : Marker) : Tree :=
  (tree.grow id marker.offset (marker.wrappedStop (Text.bytes tree.source))).modify id fun node =>
    { node with issues := node.issues ++ [marker] }

/-- Attaches a value to a node under a name. -/
def attach (tree : Tree) (id : Nat) (key : String) (value : Json) : Tree :=
  tree.modify id fun node => { node with data := node.data.insert key value }

/-- The value that is attached to a node under a name. -/
def data? (tree : Tree) (id : Nat) (key : String) : Option Json :=
  (tree.node? id).bind (·.data.get? key)

end Tree

end Gamebook
