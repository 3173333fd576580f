import Gamebook.Expression
import Gamebook.Proofs.Lexeme
import Gamebook.Proofs.Reader.Sequence

/-!
The grammar of expressions. Lexemes derive an expression level by level: an operation has a left operand of
its own level or a tighter one and a right operand of a tighter one, and the tightest operands are terms.
The shape of a derivation tells the kinds of its nodes and where its leaves stand.
-/

namespace Gamebook

/-- The levels of precedence by number, the loosest first; terms are tighter than all of them. -/
def Precedence.rank : Precedence → Nat
  | boolean => 0
  | comparison => 1
  | concatenation => 2
  | additive => 3
  | multiplicative => 4
  | fairMath => 5

theorem Precedence.rank_inj {left right : Precedence} (h : left.rank = right.rank) : left = right := by
  cases left <;> cases right <;> first | rfl | cases h

namespace Operator

def rank : Operator → Nat
  | and | or => 0
  | equal | notEqual | less | greater | lessEqual | greaterEqual => 1
  | concat => 2
  | add | subtract => 3
  | multiply | divide | modulo | deprecatedModulo => 4
  | fairAdd | fairSubtract => 5

def sign : Operator → Lexeme
  | and => ⟨.ident, "and".toList⟩
  | or => ⟨.ident, "or".toList⟩
  | equal => ⟨.delim '=', "=".toList⟩
  | notEqual => ⟨.notEq, "!=".toList⟩
  | less => ⟨.delim '<', "<".toList⟩
  | greater => ⟨.delim '>', ">".toList⟩
  | lessEqual => ⟨.lessEq, "<=".toList⟩
  | greaterEqual => ⟨.greaterEq, ">=".toList⟩
  | concat => ⟨.delim '&', "&".toList⟩
  | add => ⟨.delim '+', "+".toList⟩
  | subtract => ⟨.delim '-', "-".toList⟩
  | multiply => ⟨.asterisk, "*".toList⟩
  | divide => ⟨.delim '/', "/".toList⟩
  | modulo => ⟨.ident, "modulo".toList⟩
  | deprecatedModulo => ⟨.delim '%', "%".toList⟩
  | fairAdd => ⟨.fairMathAdd, "%+".toList⟩
  | fairSubtract => ⟨.fairMathSub, "%-".toList⟩

theorem rank_lt (op : Operator) : op.rank < 6 := by
  cases op <;> decide

theorem rank_precedence (op : Operator) : op.precedence.rank = op.rank := by
  cases op <;> rfl

theorem ofLexeme?_sign (op : Operator) : ofLexeme? op.sign = some op := by
  cases op <;> rfl

theorem sign_inj {left right : Operator} (h : left.sign = right.sign) : left = right := by
  have hsame := ofLexeme?_sign left
  rw [h, ofLexeme?_sign] at hsame
  exact (Option.some.inj hsame).symm

end Operator

def Function.sign : Function → Lexeme
  | not => ⟨.ident, "not".toList⟩
  | round => ⟨.ident, "round".toList⟩
  | length => ⟨.ident, "length".toList⟩
  | log => ⟨.ident, "log".toList⟩
  | timestamp => ⟨.ident, "timestamp".toList⟩

namespace Lexeme

def word (lexeme : Lexeme) : String := String.ofList lexeme.text

/-- The kind of the literal that a lexeme is. -/
def literal? (lexeme : Lexeme) : Option Kind :=
  match lexeme.kind with
  | .num => some .numericValue
  | .string => some .stringValue
  | .ident => if lexeme.word = "true" ∨ lexeme.word = "false" then some (.boolean (lexeme.word = "true")) else none
  | _ => none

def isName (lexeme : Lexeme) : Bool := lexeme.kind == .ident && !Command.isReserved lexeme.word

/-- The kind of the leaf that a lexeme becomes: literals, names of variables and operators do. -/
def leafKind? (lexeme : Lexeme) : Option Kind :=
  if lexeme.isName then some .var
  else lexeme.literal?.or ((Operator.all.find? (·.sign == lexeme)).map fun op => .operator op op.resultType)

/-- A lexeme that is taken for an operator is the sign of the operator. -/
theorem eq_sign_of_ofLexeme? {mode : Mode} {text rest : Text} {lexeme : Lexeme} {op : Operator}
    (hfound : first? mode text = some (lexeme, rest)) (hop : Operator.ofLexeme? lexeme = some op) :
    lexeme = op.sign := by
  have hword : ∀ word, lexeme.kind = .ident → lexeme.text = word → lexeme = ⟨.ident, word⟩ := by
    intro word hkind htext
    rw [← hkind, ← htext]
  have hdelim : ∀ c, lexeme.kind = .delim c → lexeme = ⟨.delim c, [c]⟩ := by
    intro c hkind
    rw [← hkind, ← text_eq_of_delim hfound hkind]
  have hfixed : ∀ kind spelling, lexeme.kind = kind → (∀ c, kind ≠ .delim c) → (∀ pattern ∈ mode.patterns,
      pattern.kind = kind → pattern.longest = (Pattern.fixed kind spelling).longest) → lexeme = ⟨kind, spelling⟩ := by
    rintro _ spelling rfl hkind honly
    rw [← text_eq_of_fixed hfound hkind honly]
  unfold Operator.ofLexeme? at hop
  split at hop
  · split at hop
    · cases hop
      exact hword _ ‹_› ‹_›
    · split at hop
      · cases hop
        exact hword _ ‹_› ‹_›
      · split at hop
        · cases hop
          exact hword _ ‹_› ‹_›
        · cases hop
  all_goals cases hop
  all_goals first
    | exact hdelim _ ‹_›
    | refine hfixed _ _ ‹_› (fun _ hdelim => by cases hdelim) ?_
      cases mode <;> simp [Mode.patterns, Pattern.ofCommands, Pattern.ofProse, Pattern.signs, Pattern.fixed]
/-- A word that is taken for a function names the function. -/
theorem eq_sign_of_ofKeyword? {lexeme : Lexeme} {function : Function} (hkind : lexeme.kind = .ident)
    (hfunction : Function.ofKeyword? lexeme.word = some function) : lexeme = function.sign := by
  have hfound : Function.all.find? (·.keyword == lexeme.word) = some function := hfunction
  have hkeyword := List.find?_some hfound
  have htext : lexeme = ⟨.ident, function.keyword.toList⟩ := by
    rw [beq_iff_eq.mp hkeyword, word, String.toList_ofList, ← hkind]
  rw [htext]
  cases function <;> rfl

end Lexeme

/-! ### Shapes -/

/-- What a derivation looks like: the kinds of its nodes, types apart, and where its leaves stand. -/
inductive Shape where
  | leaf (kind : Kind) (start stop : Nat)
  | node (kind : Kind) (parts : List Shape)

namespace Shape

def ofSign (kind : Kind) (sign : Located) : Shape := .leaf kind sign.offset sign.stop

def term (form : TermForm) (parts : List Shape) : Shape := .node (.term .unknown form) parts

/-- A variable with or without indices. -/
def named (name : Located) (indices : List Shape) : Shape :=
  term (if indices = [] then .var else .arrayIndex) (ofSign .var name :: indices)

def operation (op : Operator) (left : Shape) (sign : Located) (right : Shape) : Shape :=
  .node (op.kind .unknown) [left, ofSign (.operator op op.resultType) sign, right]

mutual

def leaves : Shape → List (Kind × Nat × Nat)
  | leaf kind start stop => [(kind, start, stop)]
  | node _ parts => leavesOf parts

def leavesOf : List Shape → List (Kind × Nat × Nat)
  | [] => []
  | shape :: more => leaves shape ++ leavesOf more

end

end Shape

def Located.leaf? (sign : Located) : Option (Kind × Nat × Nat) :=
  sign.lexeme.leafKind?.map fun kind => (kind, sign.offset, sign.stop)

/-! ### Derivations -/

/-- An index behind a name: an expression between brackets. -/
structure Index where
  opening : Located
  inner : List Located
  closing : Located
  shape : Shape

namespace Index

def lexemes (index : Index) : List Located := index.opening :: (index.inner ++ [index.closing])

/-- Each index begins right behind the lexeme before it, the first one at the given offset. -/
def Adjoin : Nat → List Index → Prop
  | _, [] => True
  | stop, index :: more => index.opening.lexeme.kind = .bracketL ∧ index.opening.offset = stop ∧
      index.closing.lexeme.kind = .bracketR ∧ Adjoin index.closing.stop more

end Index

/-- The lexemes are an expression of the level with the given number, or of a tighter one. -/
inductive Derives : Nat → List Located → Shape → Prop
  | literal {level : Nat} {sign : Located} {kind : Kind} (hkind : sign.lexeme.literal? = some kind) :
      Derives level [sign] (.term .literal [.ofSign kind sign])
  | named {level : Nat} {name : Located} {indices : List Index} (hname : name.lexeme.isName = true)
      (hadjoin : Index.Adjoin name.stop indices)
      (hindices : ∀ index ∈ indices, Derives 0 index.inner index.shape) :
      Derives level (name :: indices.flatMap Index.lexemes) (.named name (indices.map Index.shape))
  | group {level : Nat} {opening closing : Located} {inner : List Located} {shape : Shape}
      (hopening : opening.lexeme.kind = .parenL) (hinner : Derives 0 inner shape)
      (hclosing : closing.lexeme.kind = .parenR) :
      Derives level (opening :: (inner ++ [closing])) (.term .group [shape])
  | computed {level : Nat} {opening closing : Located} {inner : List Located} {shape : Shape}
      (hopening : opening.lexeme.kind = .curlyL) (hinner : Derives 0 inner shape)
      (hclosing : closing.lexeme.kind = .curlyR) :
      Derives level (opening :: (inner ++ [closing])) (.term .computedReference [shape])
  | call {level : Nat} {name opening closing : Located} {function : Function} {inner : List Located}
      {shape : Shape} (hname : name.lexeme = function.sign)
      (hopening : opening.lexeme.kind = .parenL) (hinner : Derives 0 inner shape)
      (hclosing : closing.lexeme.kind = .parenR) :
      Derives level (name :: opening :: (inner ++ [closing])) (.term (.call function) [shape])
  | operation {level : Nat} {op : Operator} {left right : List Located} {sign : Located} {first second : Shape}
      (hsign : sign.lexeme = op.sign) (hlevel : level ≤ op.rank) (hleft : Derives op.rank left first)
      (hright : Derives (op.rank + 1) right second) :
      Derives level (left ++ sign :: right) (.operation op first sign second)

/-- What is an expression of some level is one of every looser level. -/
theorem Derives.weaken {level lower : Nat} {lexemes : List Located} {shape : Shape}
    (h : Derives level lexemes shape) (hle : lower ≤ level) : Derives lower lexemes shape := by
  cases h with
  | literal hkind => exact .literal hkind
  | named hname hadjoin hindices => exact .named hname hadjoin hindices
  | group hopening hinner hclosing => exact .group hopening hinner hclosing
  | computed hopening hinner hclosing => exact .computed hopening hinner hclosing
  | call hname hopening hinner hclosing => exact .call hname hopening hinner hclosing
  | operation hsign hlevel hleft hright => exact .operation hsign (Nat.le_trans hle hlevel) hleft hright

/-- Operations of one level are chained onto a left operand. -/
inductive Chained (level : Nat) : Shape → List Located → Shape → Prop
  | nil {shape : Shape} : Chained level shape [] shape
  | cons {op : Operator} {sign : Located} {right more : List Located} {first second whole : Shape}
      (hsign : sign.lexeme = op.sign) (hlevel : op.rank = level)
      (hright : Derives (level + 1) right second)
      (hmore : Chained level (.operation op first sign second) more whole) :
      Chained level first (sign :: (right ++ more)) whole

theorem Chained.snoc {level : Nat} {op : Operator} {sign : Located} {lexemes right : List Located}
    {first whole second : Shape} (h : Chained level first lexemes whole)
    (hsign : sign.lexeme = op.sign) (hlevel : op.rank = level)
    (hright : Derives (level + 1) right second) :
    Chained level first (lexemes ++ sign :: right) (.operation op whole sign second) := by
  induction h with
  | @nil shape =>
      have hlast : Chained level shape (sign :: (right ++ [])) _ := .cons hsign hlevel hright .nil
      rw [List.append_nil] at hlast
      exact hlast
  | cons hsign' hlevel' hright' _ ih =>
      rw [List.cons_append, List.append_assoc]
      exact .cons hsign' hlevel' hright' ih

/-- An expression of some level is a chain of operations over operands of the next tighter one. -/
theorem Derives.exists_chained {level : Nat} {lexemes : List Located} {shape : Shape}
    (h : Derives level lexemes shape) : ∃ front back first, lexemes = front ++ back ∧
      Derives (level + 1) front first ∧ Chained level first back shape := by
  have hsingle : ∀ {level lexemes shape}, Derives (level + 1) lexemes shape → ∃ front back first,
      lexemes = front ++ back ∧ Derives (level + 1) front first ∧ Chained level first back shape :=
    fun h => ⟨_, [], _, (List.append_nil _).symm, h, .nil⟩
  induction h with
  | literal hkind => exact hsingle (.literal hkind)
  | named hname hadjoin hindices => exact hsingle (.named hname hadjoin hindices)
  | group hopening hinner hclosing => exact hsingle (.group hopening hinner hclosing)
  | computed hopening hinner hclosing => exact hsingle (.computed hopening hinner hclosing)
  | call hname hopening hinner hclosing => exact hsingle (.call hname hopening hinner hclosing)
  | @operation level op left right sign _ _ hsign hlevel hleft hright ihleft _ =>
      rcases Nat.lt_or_eq_of_le hlevel with hlt | rfl
      · exact hsingle (.operation hsign hlt hleft hright)
      · obtain ⟨front, back, first, rfl, hfirst, hchained⟩ := ihleft
        refine ⟨front, back ++ sign :: right, first, ?_, hfirst, hchained.snoc hsign rfl hright⟩
        rw [List.append_assoc]

/-! ### Leaves -/

namespace Lexeme

variable {lexeme : Lexeme}

theorem leafKind?_of_literal? {kind : Kind} (h : lexeme.literal? = some kind) :
    lexeme.leafKind? = some kind := by
  have hname : lexeme.isName = false := by
    unfold literal? at h
    split at h
    · rename_i hkind
      simp [isName, hkind]
    · rename_i hkind
      simp [isName, hkind]
    · split at h
      · rename_i hword
        rcases hword with hword | hword <;> simp [isName, hword, Command.isReserved, Command.reserved]
      · cases h
    · cases h
  rw [leafKind?, hname, if_neg Bool.false_ne_true, h, Option.some_or]

theorem leafKind?_sign (op : Operator) : op.sign.leafKind? = some (.operator op op.resultType) := by
  cases op <;> decide

theorem leafKind?_of_function (function : Function) : function.sign.leafKind? = none := by
  cases function <;> decide

def isBracket : TokenKind → Bool
  | .parenL | .parenR | .curlyL | .curlyR | .bracketL | .bracketR => true
  | _ => false

theorem leafKind?_of_isBracket (h : isBracket lexeme.kind = true) : lexeme.leafKind? = none := by
  have hoperator : Operator.all.find? (·.sign == lexeme) = none := by
    refine List.find?_eq_none.mpr fun op _ hsign => ?_
    rw [← beq_iff_eq.mp hsign] at h
    cases op <;> cases h
  have hother : lexeme.isName = false ∧ lexeme.literal? = none := by
    cases hkind : lexeme.kind <;> rw [hkind] at h <;> first
      | cases h; done
      | simp [isName, literal?, hkind]
  rw [leafKind?, hother.1, if_neg Bool.false_ne_true, hother.2, hoperator]
  rfl

end Lexeme

theorem filterMap_leaf?_between {opening closing : Located} (inner : List Located)
    (hopening : Lexeme.isBracket opening.lexeme.kind = true)
    (hclosing : Lexeme.isBracket closing.lexeme.kind = true) :
    (opening :: (inner ++ [closing])).filterMap Located.leaf? = inner.filterMap Located.leaf? := by
  have hskip : ∀ sign : Located, Lexeme.isBracket sign.lexeme.kind = true → sign.leaf? = none := by
    intro sign hsign
    rw [Located.leaf?, Lexeme.leafKind?_of_isBracket hsign, Option.map_none]
  rw [List.filterMap_cons_none (hskip _ hopening), List.filterMap_append,
    List.filterMap_cons_none (hskip _ hclosing), List.filterMap_nil, List.append_nil]

namespace Shape

theorem leaves_term (form : TermForm) (shape : Shape) : (term form [shape]).leaves = shape.leaves := by
  rw [term, leaves, leavesOf, leavesOf, List.append_nil]

theorem leaves_ofSign {kind : Kind} {sign : Located} (h : sign.lexeme.leafKind? = some kind) :
    (ofSign kind sign).leaves = [sign].filterMap Located.leaf? := by
  rw [ofSign, leaves, List.filterMap_cons_some (by rw [Located.leaf?, h, Option.map_some])]
  rfl

theorem leavesOf_indices {stop : Nat} {indices : List Index} (hadjoin : Index.Adjoin stop indices)
    (hleaves : ∀ index ∈ indices, index.shape.leaves = index.inner.filterMap Located.leaf?) :
    leavesOf (indices.map Index.shape) = (indices.flatMap Index.lexemes).filterMap Located.leaf? := by
  induction indices generalizing stop with
  | nil => rfl
  | cons index more ih =>
      obtain ⟨hopening, _, hclosing, hmore⟩ := hadjoin
      obtain ⟨hfirst, hothers⟩ := List.forall_mem_cons.mp hleaves
      rw [List.map_cons, leavesOf, ih hmore hothers, hfirst, List.flatMap_cons, List.filterMap_append,
        Index.lexemes, filterMap_leaf?_between _ (by rw [hopening]; rfl) (by rw [hclosing]; rfl)]

end Shape

/-- Only brackets and the names of functions leave no leaf in a derivation. -/
theorem Derives.leaves_eq {level : Nat} {lexemes : List Located} {shape : Shape}
    (h : Derives level lexemes shape) : shape.leaves = lexemes.filterMap Located.leaf? := by
  induction h with
  | literal hkind => rw [Shape.leaves_term, Shape.leaves_ofSign (Lexeme.leafKind?_of_literal? hkind)]
  | @named _ name indices hname hadjoin _ ih =>
      have hleaf : name.lexeme.leafKind? = some .var := by rw [Lexeme.leafKind?, hname, if_pos rfl]
      rw [Shape.named, Shape.term, Shape.leaves, Shape.leavesOf, Shape.leavesOf_indices hadjoin ih,
        Shape.leaves_ofSign hleaf, ← List.filterMap_append]
      rfl
  | group hopening _ hclosing ih =>
      rw [Shape.leaves_term, filterMap_leaf?_between _ (by rw [hopening]; rfl) (by rw [hclosing]; rfl), ih]
  | computed hopening _ hclosing ih =>
      rw [Shape.leaves_term, filterMap_leaf?_between _ (by rw [hopening]; rfl) (by rw [hclosing]; rfl), ih]
  | @call _ name _ _ _ _ _ hname hopening _ hclosing ih =>
      have hskip : name.leaf? = none := by rw [Located.leaf?, hname, Lexeme.leafKind?_of_function, Option.map_none]
      rw [List.filterMap_cons_none hskip, Shape.leaves_term,
        filterMap_leaf?_between _ (by rw [hopening]; rfl) (by rw [hclosing]; rfl), ih]
  | operation hsign _ _ _ ihleft ihright =>
      rw [Shape.operation, Shape.leaves, Shape.leavesOf, Shape.leavesOf, Shape.leavesOf, Shape.leavesOf,
        List.append_nil, ihleft, ihright, Shape.leaves_ofSign (hsign ▸ Lexeme.leafKind?_sign _),
        ← List.filterMap_append, ← List.filterMap_append]
      rfl

end Gamebook
