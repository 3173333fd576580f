import Gamebook.Tree.Basic

/-!
Phrases. What is recognised on a line is a phrase: a kind, the range it covers, the problems found
in it, and the phrases inside it. A phrase grows while it is put together, so that it always
covers its parts and its problems. Problems carry no level yet: reading a scene does not depend on
how serious its problems are taken to be.

Phrases become the nodes of a tree in the order in which they were begun. Most phrases are begun
before their parts; an operation is only recognised as one behind its left operand, which is then
begun before it. A phrase therefore keeps the parts that were there before it apart from those
that came after.
-/

namespace Gamebook

/-- A problem in a phrase: which rule it breaks, and where. -/
structure Issue where
  rule : Rule
  offset : Nat
  length : Nat
  deriving DecidableEq, Repr, Inhabited

namespace Issue

/-- Offset behind the marked range. -/
def stop (issue : Issue) : Nat := issue.offset + issue.length

/-- The issue moved towards the end of the text. -/
def shift (distance : Nat) (issue : Issue) : Issue :=
  { issue with offset := issue.offset + distance }

/-- The marker of an issue on a node; nothing when its rule is switched off. -/
def marker? (levels : Levels) (node : Nat) (issue : Issue) : Option Marker :=
  let level := levels.of issue.rule
  if level = .ignore then none
  else some (.ofRule issue.rule level node issue.offset issue.length)

end Issue

/-- A recognised part of a scene. -/
structure Phrase where
  kind : Kind
  start : Nat
  stop : Nat
  issues : List Issue
  /-- The parts that were begun before the phrase itself. -/
  before : List Phrase
  /-- The parts that were begun after it. -/
  after : List Phrase
  deriving Repr, Inhabited

namespace Phrase

/-- A phrase without extent or parts. -/
def empty (kind : Kind) (offset : Nat) : Phrase := ⟨kind, offset, offset, [], [], []⟩

/-- The phrase around parts that were begun before it. -/
def around (kind : Kind) (offset : Nat) (parts : List Phrase) : Phrase where
  kind := kind
  start := parts.foldl (fun start part => min start part.start) offset
  stop := parts.foldl (fun stop part => max stop part.stop) offset
  issues := []
  before := parts
  after := []

/-- The parts of a phrase from left to right. -/
def parts (phrase : Phrase) : List Phrase := phrase.before ++ phrase.after

def length (phrase : Phrase) : Nat := phrase.stop - phrase.start

/-- The phrase grown to cover a range. -/
def grow (phrase : Phrase) (start stop : Nat) : Phrase :=
  { phrase with start := min phrase.start start, stop := max phrase.stop stop }

/-- The phrase grown to end no earlier than `stop`. -/
def reach (phrase : Phrase) (stop : Nat) : Phrase := phrase.grow phrase.start stop

/-- The phrase with one more part. -/
def add (phrase part : Phrase) : Phrase :=
  { phrase with after := phrase.after ++ [part] }.grow part.start part.stop

/-- The phrase with several more parts. -/
def addAll (phrase : Phrase) (parts : List Phrase) : Phrase :=
  { phrase with
    start := parts.foldl (fun start part => min start part.start) phrase.start
    stop := parts.foldl (fun stop part => max stop part.stop) phrase.stop
    after := phrase.after ++ parts }

/-- The phrase with one more issue. -/
def flag (phrase : Phrase) (rule : Rule) (offset length : Nat) : Phrase :=
  let issue : Issue := ⟨rule, offset, length⟩
  { phrase with issues := phrase.issues ++ [issue] }.grow offset issue.stop

/-- The phrase with an issue over its whole range. -/
def flagWhole (phrase : Phrase) (rule : Rule) : Phrase :=
  phrase.flag rule phrase.start phrase.length

mutual

/-- The phrase moved towards the end of the text. -/
def shift (distance : Nat) : Phrase → Phrase
  | ⟨kind, start, stop, issues, before, after⟩ =>
    ⟨kind, start + distance, stop + distance, issues.map (·.shift distance),
      shiftAll distance before, shiftAll distance after⟩

/-- All of the phrases moved. -/
def shiftAll (distance : Nat) : List Phrase → List Phrase
  | [] => []
  | phrase :: more => shift distance phrase :: shiftAll distance more

end

mutual

/-- Whether the phrase, or one inside it, is of a kind that passes the test. -/
def any (test : Kind → Bool) : Phrase → Bool
  | ⟨kind, _, _, _, before, after⟩ => test kind || anyOf test before || anyOf test after

/-- Whether this holds of one of the phrases. -/
def anyOf (test : Kind → Bool) : List Phrase → Bool
  | [] => false
  | phrase :: more => any test phrase || anyOf test more

end

mutual

/-- How many phrases there are, the phrase itself included. -/
def count : Phrase → Nat
  | ⟨_, _, _, _, before, after⟩ => countAll before + 1 + countAll after

/-- How many phrases there are in a list. -/
def countAll : List Phrase → Nat
  | [] => 0
  | phrase :: more => count phrase + countAll more

end

/-- The number that a phrase gets when the first phrase begun in it gets `base`. -/
def idFrom (base : Nat) (phrase : Phrase) : Nat := base + countAll phrase.before

/-- The numbers of phrases that follow each other. -/
def idsFrom (base : Nat) : List Phrase → List Nat
  | [] => []
  | phrase :: more => idFrom base phrase :: idsFrom (base + count phrase) more

mutual

/-- The nodes of a phrase in the order in which its phrases were begun, the first of them with
number `base`. -/
def nodes (levels : Levels) (parent : Option Nat) (base : Nat) : Phrase → List Node
  | ⟨kind, start, stop, issues, before, after⟩ =>
    let id := base + countAll before
    let node : Node :=
      { kind, offset := start, length := stop - start, parent
        children := idsFrom base before ++ idsFrom (id + 1) after
        issues := issues.filterMap (·.marker? levels id) }
    nodesOf levels (some id) base before ++ node :: nodesOf levels (some id) (id + 1) after

/-- The nodes of phrases that follow each other. -/
def nodesOf (levels : Levels) (parent : Option Nat) (base : Nat) : List Phrase → List Node
  | [] => []
  | phrase :: more =>
    nodes levels parent base phrase ++ nodesOf levels parent (base + count phrase) more

end

/-- The tree of a phrase that covers a scene. -/
def toTree (levels : Levels) (source : Text) (phrase : Phrase) : Tree :=
  ⟨source, (phrase.nodes levels none 0).toArray⟩

end Phrase

end Gamebook
