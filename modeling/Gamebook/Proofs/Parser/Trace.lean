import Gamebook.Proofs.Parser.Fresh
import Gamebook.Proofs.Parser.Grammar

/-!
No trace. However a parser is applied, its rules move the scanner and work on nodes of their own; so a
parser that goes back to a mark is the parser that it was. A rule that does not apply either goes back in
this way or has done nothing.
-/

namespace Gamebook

namespace Scanner

/-- A scanner that reads the same scene, at any place. -/
def Moved (old scanner : Scanner) : Prop := ∃ cursor, scanner = old.moveTo cursor

variable {old scanner : Scanner}

theorem moved_refl (scanner : Scanner) : scanner.Moved scanner := ⟨scanner.cursor, rfl⟩

theorem Moved.moveTo (h : old.Moved scanner) (cursor : Cursor) : old.Moved (scanner.moveTo cursor) := by
  obtain ⟨_, rfl⟩ := h
  exact ⟨cursor, rfl⟩

theorem Moved.switchTo (h : old.Moved scanner) (mode : Mode) : old.Moved (scanner.switchTo mode) := h.moveTo _

theorem Moved.rewind (h : old.Moved scanner) (token : Token) (mode : Mode) :
    old.Moved (scanner.rewind token mode) := by
  unfold Scanner.rewind
  split
  · exact h.switchTo mode
  · exact h.moveTo _

theorem Moved.leaveLine (h : old.Moved scanner) (line : Line) : old.Moved (scanner.leaveLine line).2 := by
  unfold Scanner.leaveLine
  dsimp only
  split <;> exact h.moveTo _

theorem Moved.scanContent (h : old.Moved scanner) (line : Line) : old.Moved (scanner.scanContent line).2 := by
  unfold Scanner.scanContent
  dsimp only
  split
  · exact h.leaveLine line
  · split <;> exact h.moveTo _

theorem Moved.scan (h : old.Moved scanner) : old.Moved scanner.scan.2 := by
  unfold Scanner.scan
  split
  · exact h
  · split
    · exact h.scanContent _
    · dsimp only
      split
      · exact h.moveTo _
      · exact (h.moveTo _).scanContent _

theorem Moved.scanRun (h : old.Moved scanner) : old.Moved scanner.scanRun.2 := by
  unfold Scanner.scanRun
  split
  · exact h
  · split
    · dsimp only
      split
      · exact h.scan
      · exact h.moveTo _
    · exact h.scan

end Scanner

namespace Parser

/-- The parser goes on from an earlier one: it reads the same scene, and its tree goes on from the tree of
that parser. -/
structure Follows (start p : Parser) : Prop where
  scanner : start.scanner.Moved p.scanner
  levels : p.levels = start.levels
  tree : start.tree.Extends p.tree

variable {start p q : Parser} {id : Nat}

theorem follows_refl (p : Parser) : p.Follows p := ⟨p.scanner.moved_refl, rfl, p.tree.extends_refl⟩

/-- Going back to the mark of a parser leads back to that parser. -/
theorem Follows.restore (h : start.Follows p) : p.restore start.mark = start := by
  obtain ⟨⟨cursor, hscanner⟩, hlevels, htree⟩ := h
  have hback : p.scanner.moveTo start.scanner.cursor = start.scanner := by rw [hscanner]; rfl
  have htruncate : p.tree.truncate start.tree.size = start.tree := htree.truncate
  rw [Parser.restore, mark, hback, htruncate, hlevels]

/-! ### Tokens -/

theorem Follows.next (h : start.Follows p) : start.Follows p.next := ⟨h.scanner.scan, h.levels, h.tree⟩

theorem Follows.accept (h : start.Follows p) (kind : TokenKind) : start.Follows (p.accept kind).2 := by
  unfold Parser.accept
  split
  · exact h.next
  · exact h

theorem Follows.switch (h : start.Follows p) (mode : Mode) : start.Follows (p.switch mode) := by
  unfold Parser.switch
  split
  · exact ⟨h.scanner.switchTo mode, h.levels, h.tree⟩
  · split
    · exact h
    · exact ⟨(h.scanner.rewind _ mode).scan, h.levels, h.tree⟩

theorem Follows.skipWithin (h : start.Follows p) (test : TokenKind → Bool) (budget : Nat) :
    start.Follows (Grammar.skipWithin Id test budget p) := by
  induction budget generalizing p with
  | zero => exact h
  | succ budget ih =>
      rw [Grammar.skipWithin, Course.counted_succ]
      split
      · exact h
      · exact ih h.next

theorem Follows.skipTo (h : start.Follows p) (test : TokenKind → Bool) : start.Follows (Grammar.skipTo Id test p) :=
  h.skipWithin test _

/-! ### Nodes -/

theorem Follows.createAt (h : start.Follows p) (kind : Kind) (offset : Nat) :
    start.Follows (p.createAt kind offset).2 := ⟨h.scanner, h.levels, h.tree.create kind offset⟩

theorem Follows.create (h : start.Follows p) (kind : Kind) : start.Follows (p.create kind).2 := h.createAt kind _

/-- A node that is made now is no older node. -/
theorem Follows.freshAt (h : start.Follows p) (kind : Kind) (offset : Nat) :
    start.tree.size ≤ (p.createAt kind offset).1 := h.tree.size_le

theorem Follows.fresh (h : start.Follows p) (kind : Kind) : start.tree.size ≤ (p.create kind).1 := h.tree.size_le

theorem Follows.adopt (h : start.Follows p) {parent child : Nat} (hparent : start.tree.size ≤ parent)
    (hchild : start.tree.size ≤ child) : start.Follows (p.adopt parent child) := by
  have htree := h.tree.adopt hparent hchild none
  rw [Parser.adopt]
  exact ⟨h.scanner, h.levels, htree⟩

theorem Follows.finish (h : start.Follows p) (hid : start.tree.size ≤ id) : start.Follows (p.finish id) := by
  unfold Parser.finish
  split
  · exact h
  · exact ⟨h.scanner, h.levels, h.tree.reach hid _⟩

theorem Follows.setKind (h : start.Follows p) (hid : start.tree.size ≤ id) (kind : Kind) :
    start.Follows (p.setKind id kind) := ⟨h.scanner, h.levels, h.tree.modify_inside hid _ fun _ => rfl⟩

theorem Follows.flag (h : start.Follows p) (hid : start.tree.size ≤ id) (rule : Rule) (offset length : Nat) :
    start.Follows (p.flag id rule offset length) := by
  unfold Parser.flag
  split
  · exact h
  · exact ⟨h.scanner, h.levels, h.tree.mark hid _⟩

theorem Follows.flagWhole (h : start.Follows p) (hid : start.tree.size ≤ id) (rule : Rule) :
    start.Follows (p.flagWhole id rule) := by
  unfold Parser.flagWhole
  split
  · exact h
  · exact h.flag hid _ _ _

theorem Follows.complain (h : start.Follows p) (hid : start.tree.size ≤ id) (rule : Rule) :
    start.Follows (p.complain id rule) := h.flag hid _ _ _

theorem Follows.close (h : start.Follows p) (hid : start.tree.size ≤ id) (kind : TokenKind) (rule : Rule) :
    start.Follows (Grammar.close Id id kind rule p).2 := by
  have haccept := h.accept kind
  unfold Grammar.close
  split
  · rename_i closed hclosed
    rw [hclosed] at haccept
    exact haccept
  · rename_i closed hclosed
    rw [hclosed] at haccept
    exact (haccept.skipTo _).complain hid _

/-! ### Outcomes -/

/-- The outcome of a rule that makes a node. -/
structure Makes (start : Parser) (outcome : Nat × Parser) : Prop where
  follows : start.Follows outcome.2
  fresh : start.tree.size ≤ outcome.1

/-- The outcome of a rule that may apply to a parser: where it does not, the parser is the same. -/
inductive MayMake (start p : Parser) : Option Nat × Parser → Prop
  | none (h : start.Follows p) : MayMake start p (none, p)
  | made {id : Nat} {q : Parser} (h : start.Follows q) (hid : start.tree.size ≤ id) :
      MayMake start p (some id, q)

/-- The rule works on nodes of its own, and leaves no trace where it does not apply. -/
def Clears (rule : Parsing) : Prop := ∀ ⦃start p : Parser⦄, start.Follows p → start.MayMake p (rule p)

/-- The rule that works on a given node works on it and on nodes of its own. -/
def Keeps (rule : Nat → Parser → Parser) : Prop :=
  ∀ ⦃start p : Parser⦄ ⦃id : Nat⦄, start.Follows p → start.tree.size ≤ id → start.Follows (rule id p)

theorem Clears.eq_of_none {rule : Parsing} (h : Clears rule) (hnone : (rule p).1 = none) : (rule p).2 = p := by
  have hmay := h p.follows_refl
  generalize rule p = outcome at hmay hnone
  cases hmay with
  | none => rfl
  | made => cases hnone

theorem Makes.mayMake {outcome : Nat × Parser} (h : start.Makes outcome) :
    start.MayMake p (some outcome.1, outcome.2) := .made h.follows h.fresh

theorem MayMake.follows {outcome : Option Nat × Parser} (h : start.MayMake p outcome) : start.Follows outcome.2 := by
  cases h with
  | none h => exact h
  | made h _ => exact h

/-- A node is put into its place, or its absence is marked there. -/
theorem MayMake.adoptOr {outcome : Option Nat × Parser} (h : start.MayMake p outcome) (hid : start.tree.size ≤ id)
    (rule : Rule) : start.Follows (outcome.2.adoptOr id outcome.1 rule) := by
  cases h with
  | none h => exact h.complain hid rule
  | made h hchild => exact h.adopt hid hchild

theorem Follows.leaf (h : start.Follows p) (kind : Kind) : start.Makes (p.leaf kind) :=
  ⟨(h.create kind).next.finish (h.fresh kind), h.fresh kind⟩

/-- A rule that made something and goes back has not applied. -/
theorem Follows.mayMake_restore (h : start.Follows p) (hq : p.Follows q) :
    start.MayMake p (none, q.restore p.mark) := by
  rw [hq.restore]
  exact .none h

end Parser

end Gamebook
