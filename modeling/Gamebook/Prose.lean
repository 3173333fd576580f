import Gamebook.Expression

/-!
Prose. Of the lexemes of prose only the words become phrases. Two constructs interrupt it: a
replacement, `$` with up to two exclamation marks and an expression between braces, and a
multireplace, `@` with a term and branches between braces. The branches are prose again; the
expression and the term are read like commands. A sign that does not open its construct is prose.
-/

namespace Gamebook.Reader

/-- How many exclamation marks follow without a gap, and the reader behind them, at most `budget`
of them. -/
def bangs : Nat → Reader → Nat × Reader
  | 0, r => (0, r)
  | budget + 1, r =>
    if r.sees (.delim '!') && r.followsDirectly then
      let (more, r) := bangs budget r.next
      (more + 1, r)
    else (0, r)

/-- The case that a number of exclamation marks asks for. -/
def foldOfBangs? : Nat → Option CaseFold
  | 0 => some .none
  | 1 => some .capitalize
  | 2 => some .upper
  | _ => none

/-- Whether a brace opens right behind what was taken last. -/
def opensBrace (r : Reader) : Bool := r.sees .curlyL && r.followsDirectly

/-- Takes the closing brace of a construct and returns to prose. When something else stands before
the brace it is marked and skipped. -/
def closeBrace (phrase : Phrase) (r : Reader) : Phrase × Reader :=
  match r.accept .curlyR with
  | (true, r) =>
    let r := r.switch .text
    (phrase.finish r, r)
  | (false, r) =>
    let behind := ((r.skipTo (· == .curlyR)).accept .curlyR).2.switch .text
    ((phrase.complain .rightCurlyExpected r).finish behind, behind)

/-- A replacement. -/
def replacement : Reading := fun r =>
  let (count, marked) := bangs r.rest.length r.next
  match foldOfBangs? count with
  | none => (none, r)
  | some fold =>
    if marked.opensBrace then
      let (value, behind) := expression (marked.next.switch .command)
      let phrase := Phrase.begin (.variableReplacement fold) r
      let (phrase, r) := closeBrace (phrase.addOr value .expressionExpected behind) behind
      (some phrase, r)
    else (none, r)

/-- The branches of a multireplace, separated by bars, and their number, at most `budget` of
them. -/
def branches (content : Phrase → Reader → Phrase × Reader) :
    Nat → Phrase → Reader → Nat × Phrase × Reader
  | 0, phrase, r => (0, phrase, r)
  | budget + 1, phrase, r =>
    let (branch, behind) := content (.begin .multiReplaceOption r) r
    let phrase := phrase.add (branch.finish behind)
    match behind.accept .pipe with
    | (true, r) =>
      let (more, phrase, r) := branches content budget phrase r
      (more + 1, phrase, r)
    | (false, r) => (1, phrase, r)

/-- A multireplace whose branches are read as given. A single branch is marked. -/
def multireplace (budget : Nat) (content : Phrase → Reader → Phrase × Reader) : Reading :=
  fun r =>
  let signed := r.next
  if signed.opensBrace then
    let (selector, behind) := term (signed.next.switch .command)
    let phrase := (Phrase.begin .multiReplace r).addOr selector .expressionExpected behind
    let (count, phrase, r) := branches content budget phrase (behind.switch .text)
    let phrase := if count < 2 then phrase.flagWhole .notEnoughMultireplaceOptions else phrase
    let (phrase, r) := closeBrace phrase r
    (some phrase, r)
  else (none, r)

/-- The signs that end a branch of a multireplace. -/
def endsBranch (kind : TokenKind) : Bool := kind == .pipe || kind == .curlyR

/-- Adds the words and constructs of prose to a phrase, up to a lexeme that passes the test or the
end of the line, at most `budget` of them. -/
def proseWithin : Nat → (TokenKind → Bool) → Phrase → Reader → Phrase × Reader
  | 0, _, phrase, r => (phrase, r)
  | budget + 1, ends, phrase, r =>
    match r.kind? with
    | none => (phrase, r)
    | some kind =>
      if ends kind then (phrase, r)
      else
        let part : Option Phrase × Reader := match kind with
          | .word =>
            let (word, r) := r.leaf .realWord
            (some word, r)
          | .dollar => replacement r
          | .atSign => multireplace budget (proseWithin budget endsBranch) r
          | _ => (none, r)
        match part with
        | (some part, r) => proseWithin budget ends (phrase.add part) r
        | (none, r) => proseWithin budget ends phrase r.next

/-- Adds the prose up to the end of the line to a phrase. The reader cuts the lexemes in the mode
that it is in. -/
def prose (phrase : Phrase) (r : Reader) : Phrase × Reader :=
  let (phrase, r) := proseWithin r.budget (fun _ => false) phrase r
  (phrase.finish r, r)

end Gamebook.Reader
