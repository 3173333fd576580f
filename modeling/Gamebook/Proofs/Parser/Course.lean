import Gamebook.Proofs.Parser.Basic

/-!
Rules that go on by themselves. A loop of a parser and a rule that is nested in itself come to an end because
every further round, and every rule inside, begins at a later token. The rules of the grammar are written once,
for two courses. On the counted one a rule goes on up to a number that is given beforehand; on the checked one it
is looked each time whether the next token has moved on, and where it has not, nothing comes of the rule.
-/

namespace Gamebook

/-- What rules run in, by how a rule goes on by itself with an argument of its own. The rule is told what is left of
the budget and what it goes on with, and `stop` says what comes of it where nothing is left. -/
class Course (m : Type → Type) where
  loop {α β : Type} (stop : α → Parser → β) (rule : Nat → (α → Parser → m β) → α → Parser → m β) (budget : Nat) :
    α → Parser → m β

namespace Parser

/-- How much of the source lies behind the start of the next token. -/
def unread (p : Parser) : Nat := p.scanner.index.size - p.token.offset

/-- The next token of the other parser stands later in the source, by line and then by offset, and there is less
of the source behind its start. -/
structure Advances (p q : Parser) : Prop where
  later : p.token.position.line < q.token.position.line ∨
    p.token.position.line = q.token.position.line ∧ p.token.offset < q.token.offset
  unread : q.unread < p.unread

instance (p q : Parser) : Decidable (p.Advances q) :=
  decidable_of_iff ((p.token.position.line < q.token.position.line ∨
    p.token.position.line = q.token.position.line ∧ p.token.offset < q.token.offset) ∧ q.unread < p.unread)
    ⟨fun h => ⟨h.1, h.2⟩, fun h => ⟨h.later, h.unread⟩⟩

end Parser

namespace Course

variable {α β : Type}

/-! ### Counted rules -/

/-- A rule goes on as often as its budget says. -/
def counted (stop : α → Parser → β) (rule : Nat → (α → Parser → Id β) → α → Parser → Id β) : Nat → α → Parser → Id β
  | 0 => stop
  | budget + 1 => rule budget (counted stop rule budget)

instance : Course Id where
  loop := counted

theorem counted_succ (stop : α → Parser → β) (rule : Nat → (α → Parser → Id β) → α → Parser → Id β) (budget : Nat)
    (argument : α) (p : Parser) :
    loop stop rule (budget + 1) argument p = rule budget (loop stop rule budget) argument p := rfl

theorem bind_counted (made : Id α) (more : α → Id β) : made >>= more = more made := rfl

theorem map_counted (f : α → β) (made : Id α) : @Functor.map Id Monad.toApplicative.toFunctor α β f made = f made := rfl

theorem pure_counted (made : α) : (pure made : Id α) = made := rfl

/-! ### Checked rules -/

/-- A rule goes on as long as the next token has moved on since it was entered. -/
def descend (rule : (α → Parser → Option β) → α → Parser → Option β) (argument : α) (p : Parser) : Option β :=
  rule (fun argument q => if _h : p.Advances q then descend rule argument q else none) argument p
termination_by p.unread
decreasing_by exact _h.unread

/-- What a rule that was entered goes on with. -/
def again (rule : (α → Parser → Option β) → α → Parser → Option β) (p : Parser) (argument : α) (q : Parser) :
    Option β := if p.Advances q then descend rule argument q else none

theorem descend_eq (rule : (α → Parser → Option β) → α → Parser → Option β) (argument : α) (p : Parser) :
    descend rule argument p = rule (again rule p) argument p := by
  rw [descend]
  rfl

theorem again_of_advances {rule : (α → Parser → Option β) → α → Parser → Option β} {p q : Parser}
    (h : p.Advances q) (argument : α) : again rule p argument q = descend rule argument q := if_pos h

/-- Nothing is counted. -/
instance : Course Option where
  loop _ rule _ := descend (rule 0)

theorem checked_eq (stop : α → Parser → β) (rule : Nat → (α → Parser → Option β) → α → Parser → Option β)
    (budget : Nat) (argument : α) (p : Parser) :
    loop stop rule budget argument p = rule 0 (again (rule 0) p) argument p := descend_eq (rule 0) argument p

end Course

end Gamebook
