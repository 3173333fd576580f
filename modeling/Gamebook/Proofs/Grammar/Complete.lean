import Gamebook.Proofs.Grammar.Sound

/-!
Every derivation is found. Where the lexemes before a reader derive an expression, and what follows them
cannot go on with it, the expression is read up to there without an error and has the shape of the
derivation. Lexemes have therefore one derivation at most.
-/

namespace Gamebook

/-- What can follow an expression of some level: no index, and no operator of the level or of a tighter one. -/
structure Ends (level : Nat) (more : List Located) : Prop where
  index : ∀ sign ∈ more.head?, sign.lexeme.kind ≠ .bracketL
  operator : ∀ sign ∈ more.head?, ∀ op : Operator, sign.lexeme = op.sign → op.rank < level

theorem ends_nil (level : Nat) : Ends level [] := ⟨nofun, nofun⟩

def Lexeme.isClosing : TokenKind → Bool
  | .parenR | .curlyR | .bracketR => true
  | _ => false

theorem ends_closing {closing : Located} (h : Lexeme.isClosing closing.lexeme.kind = true) (level : Nat)
    (more : List Located) : Ends level (closing :: more) := by
  constructor
  · rintro _ ⟨⟩ hkind
    rw [hkind] at h
    cases h
  · rintro _ ⟨⟩ op hop
    rw [hop] at h
    cases op <;> cases h

theorem Ends.weaken {level : Nat} {more : List Located} (h : Ends level more) : Ends (level + 1) more :=
  ⟨h.index, fun sign hsign op hop => Nat.lt_succ_of_lt (h.operator sign hsign op hop)⟩

/-- What is chained onto an operand ends it. -/
theorem Chained.ends {level : Nat} {first whole : Shape} {lexemes more : List Located}
    (h : Chained level first lexemes whole) (hends : Ends level more) : Ends (level + 1) (lexemes ++ more) := by
  cases h with
  | nil => exact hends.weaken
  | @cons op _ _ _ _ _ _ hsign hlevel _ _ =>
      constructor
      · rintro _ ⟨⟩
        rw [hsign]
        cases op <;> nofun
      · rintro _ ⟨⟩ other hother
        rw [← Operator.sign_inj (hsign.symm.trans hother), hlevel]
        exact Nat.lt_succ_self level

/-- What was read has no error and the given shape, and the given lexemes are left. -/
structure Found (outcome : Phrase × Reader) (shape : Shape) (more : List Located) : Prop where
  clean : outcome.1.Clean
  shown : outcome.1.Shows shape
  left : outcome.2.lexemes = more

namespace Phrase

variable {phrase : Phrase}

theorem Shows.flagWhole {kind : Kind} {start stop : Nat} (h : phrase.Shows (.leaf kind start stop))
    (hle : start ≤ stop) (rule : Rule) : (phrase.flagWhole rule).Shows (.leaf kind start stop) := by
  cases h with
  | leaf hkind hstart hstop hparts =>
      refine .leaf hkind ?_ ?_ hparts
      · show min phrase.start phrase.start = start
        rw [Nat.min_self, hstart]
      · show max phrase.stop (phrase.start + (phrase.stop - phrase.start)) = stop
        rw [hstart, hstop, Nat.add_sub_cancel' hle, Nat.max_self]

end Phrase

namespace Reader

variable {r : Reader} {sign : Located} {more : List Located}

theorem Before.leaf (h : r.Before sign more) (kind : Kind) : Found (r.leaf kind) (.ofSign kind sign) more := by
  refine ⟨by simp [Reader.leaf], .leaf rfl ?_ ?_ rfl, h.next⟩
  · show min r.offset r.offset = sign.offset
    rw [Nat.min_self, h.offset]
  · show max r.offset r.next.lastEnd = sign.stop
    rw [h.offset, h.lastEnd]
    exact Nat.max_eq_right (Nat.le_add_right _ _)

theorem Before.takeOperator (h : r.Before sign more) (op : Operator) :
    (r.takeOperator op).1.Shows (.ofSign (.operator op op.resultType) sign) := by
  have hleaf := (h.leaf (.operator op op.resultType)).shown
  show Phrase.Shows (if op = .deprecatedModulo then _ else _) _
  split
  · exact hleaf.flagWhole (Nat.le_add_right _ _) _
  · exact hleaf

/-- The rule finds every derivation of the given level in less than the given number of characters. -/
def Finds (level bound : Nat) (rule : Reading) : Prop :=
  ∀ (r : Reader) (front more : List Located) (shape : Shape), r.Trimmed → r.rest.length < bound →
    r.lexemes = front ++ more → Derives level front shape → Ends level more →
      ∃ outcome : Phrase × Reader, rule r = (some outcome.1, outcome.2) ∧ Found outcome shape more

/-! ### Operations -/

theorem operatorAt?_eq_none {level : Precedence} (htrimmed : r.Trimmed) (hends : Ends level.rank r.lexemes) :
    r.operatorAt? level = none := by
  cases hop : r.operatorAt? level with
  | none => rfl
  | some op =>
      obtain ⟨hlevel, sign, hsign, hcons⟩ := exists_sign htrimmed hop
      rw [hcons] at hends
      exact absurd (hends.operator sign rfl op hsign) (Nat.not_lt_of_le (Nat.le_of_eq hlevel.symm))

theorem operatorAt?_eq_some {level : Precedence} {op : Operator} (hbefore : r.Before sign more)
    (hsign : sign.lexeme = op.sign) (hlevel : op.rank = level.rank) : r.operatorAt? level = some op := by
  have hprecedence : op.precedence = level := Precedence.rank_inj (op.rank_precedence.trans hlevel)
  rw [operatorAt?, operator?, hbefore.lexeme, Option.bind_some, hsign, op.ofLexeme?_sign, Option.filter_some,
    if_pos (beq_iff_eq.mpr hprecedence)]

theorem operationOn_shows {left right : Phrase} {first second : Shape} {op : Operator}
    {found : Option Phrase × Reader} (hbefore : r.Before sign more) (hleft : left.Shows first)
    (hfound : found.1 = some right) (hright : right.Shows second) :
    (operationOn left op r found).Shows (.operation op first sign second) := by
  have hparts : (operationOn left op r found).parts = [left, (r.takeOperator op).1, right] := by
    rw [operationOn, hfound]
    rfl
  refine Phrase.shows_node ?_ (by rw [hparts]; exact List.cons_ne_nil _ _) ?_
  · rw [operationOn, hfound]
    exact op.untyped_kind _
  · rw [hparts]
    exact .cons hleft (.cons (hbefore.takeOperator op) (.cons hright .nil))

theorem chain_finds {operand : Reading} {level : Precedence} {bound : Nat} (hregular : Regular operand)
    (hoperand : Finds (level.rank + 1) bound operand) {first whole : Shape} {lexemes : List Located}
    (hchained : Chained level.rank first lexemes whole) (hends : Ends level.rank more) {budget : Nat}
    {left : Phrase} (htrimmed : r.Trimmed) (hbudget : r.rest.length ≤ budget) (hbound : r.rest.length < bound)
    (hlexemes : r.lexemes = lexemes ++ more) (hclean : left.Clean) (hleft : left.Shows first) :
    Found (chain level operand budget left r) whole more := by
  induction hchained generalizing r left budget with
  | nil =>
      rw [chain_none (operatorAt?_eq_none htrimmed (hlexemes ▸ hends))]
      exact ⟨hclean, hleft, hlexemes⟩
  | @cons op sign right back first second whole hsign hlevel hright hback ih =>
      have hbefore := before_of_lexemes htrimmed hlexemes
      have hshorter := next_length_lt hbefore.rest_ne_nil
      obtain ⟨budget, rfl⟩ := Nat.exists_eq_succ_of_ne_zero (Nat.ne_of_gt (Nat.lt_of_lt_of_le
        (Nat.zero_lt_of_lt hshorter) hbudget))
      have hnext : r.next.lexemes = right ++ (back ++ more) := hbefore.next.trans (List.append_assoc _ _ _)
      obtain ⟨⟨part, behind⟩, houtcome, hfound⟩ := hoperand r.next right (back ++ more) second htrimmed.next
        (Nat.lt_trans hshorter hbound) hnext hright (hback.ends hends)
      have hreaches : r.next.Reaches behind := by
        have hreaches := (hregular r.next).reaches
        rwa [houtcome] at hreaches
      have hlength := Nat.lt_of_le_of_lt hreaches.length_le hshorter
      rw [chain_some (operatorAt?_eq_some hbefore hsign hlevel), houtcome]
      refine ih (hreaches.trimmed htrimmed.next) (Nat.le_of_lt_succ (Nat.lt_of_lt_of_le hlength hbudget))
        (Nat.lt_trans hlength hbound) hfound.left ?_ ?_
      · exact clean_operationOn.mpr ⟨hclean, part, rfl, hfound.clean⟩
      · exact operationOn_shows hbefore hleft rfl hfound.shown

theorem operations_finds {operand : Reading} {level : Precedence} {budget : Nat} (hregular : Regular operand)
    (hoperand : Finds (level.rank + 1) (budget + 1) operand) :
    Finds level.rank (budget + 1) (operations budget operand level) := by
  intro r front more shape htrimmed hbound hlexemes hderives hends
  obtain ⟨front, back, first, rfl, hfirst, hchained⟩ := hderives.exists_chained
  rw [List.append_assoc] at hlexemes
  obtain ⟨⟨left, middle⟩, houtcome, hfound⟩ :=
    hoperand r front (back ++ more) first htrimmed hbound hlexemes hfirst (hchained.ends hends)
  have hreaches := (hregular r).reaches
  rw [houtcome] at hreaches
  have hlength := Nat.lt_of_le_of_lt hreaches.length_le hbound
  refine ⟨chain level operand budget left middle, by rw [operations, houtcome], ?_⟩
  exact chain_finds hregular hoperand hchained hends (hreaches.trimmed htrimmed) (Nat.le_of_lt_succ hlength) hlength
    hfound.left hfound.clean hfound.shown

theorem expressionOver_finds {term : Reading} {budget : Nat} (hregular : Regular term)
    (hterm : Finds 6 (budget + 1) term) : Finds 0 (budget + 1) (expressionOver budget term) := by
  let property (level : Nat) (rule : Reading) := Regular rule ∧ Finds level (budget + 1) rule
  have hstep : ∀ (level : Precedence) (operand : Reading),
      property (level.rank + 1) operand → property level.rank (operations budget operand level) := by
    rintro level operand ⟨hregular, hoperand⟩
    exact ⟨operations_regular hregular budget level, operations_finds hregular hoperand⟩
  exact (expressionOver_induction (show property 6 term from ⟨hregular, hterm⟩) hstep).2

/-! ### Terms -/

theorem Before.termOf (h : r.Before sign more) (type : ValueType) (kind : Kind) :
    Found (termOf type r (r.leaf kind)) (.term .literal [.ofSign kind sign]) more := by
  have hleaf := h.leaf kind
  refine ⟨?_, ?_, hleaf.left⟩
  · rw [Reader.termOf, Phrase.clean_finish, Phrase.clean_add]
    exact ⟨Phrase.clean_begin _ _, hleaf.clean⟩
  · exact Phrase.shows_node rfl (List.cons_ne_nil _ _) (.cons hleaf.shown .nil)

theorem enclosed_found {part : Phrase} {shape : Shape} {closing : Located} {behind : Reader}
    (type : ValueType) (form : TermForm) (hclean : part.Clean) (hshows : part.Shows shape)
    (hbefore : behind.Before closing more) :
    Found (enclosed (.term type form) r (some part, behind), behind.next) (.term form [shape]) more := by
  refine ⟨?_, ?_, hbefore.next⟩
  · rw [enclosed, Phrase.clean_finish, Phrase.addOr, Phrase.clean_add]
    exact ⟨Phrase.clean_begin _ _, hclean⟩
  · exact Phrase.shows_node rfl (List.cons_ne_nil _ _) (.cons hshows .nil)

/-- An index follows a name if the derivation has one. -/
theorem seesIndex_iff {list : List Index} (htrimmed : r.Trimmed)
    (hlexemes : r.lexemes = list.flatMap Index.lexemes ++ more) (hadjoin : Index.Adjoin r.lastEnd list)
    (hends : ∀ sign ∈ more.head?, sign.lexeme.kind ≠ .bracketL) : r.seesIndex = true ↔ list ≠ [] := by
  rw [seesIndex, Bool.and_eq_true]
  cases list with
  | nil =>
      refine ⟨fun hsees => ?_, fun hne => absurd rfl hne⟩
      obtain ⟨opening, hopening, _, hcons⟩ := exists_before htrimmed (beq_iff_eq.mp hsees.1)
      have hmore : more = opening :: r.next.lexemes := hlexemes.symm.trans hcons
      exact absurd hopening (hends opening (by rw [hmore]; rfl))
  | cons index others =>
      obtain ⟨hopening, hoffset, _, _⟩ := hadjoin
      have hbefore := before_of_lexemes htrimmed hlexemes
      refine ⟨fun _ => List.cons_ne_nil _ _, fun _ => ⟨(hbefore.sees _).mpr hopening, ?_⟩⟩
      exact beq_iff_eq.mpr (hoffset.symm.trans hbefore.offset.symm)

section Words

variable (budget : Nat) (expression : Reading) (hbefore : r.Before sign more)
include hbefore

theorem literal_finds {kind : Kind} (h : sign.lexeme.literal? = some kind) : ∃ outcome : Phrase × Reader,
    termOver budget expression r = (some outcome.1, outcome.2) ∧
      Found outcome (.term .literal [.ofSign kind sign]) more := by
  have hword : r.word = sign.lexeme.word := hbefore.word
  unfold Lexeme.literal? at h
  split at h
  · rename_i hkind
    cases h
    refine ⟨_, ?_, hbefore.termOf .number .numericValue⟩
    simp only [termOver, hbefore.kind?, hkind]
  · rename_i hkind
    cases h
    have hquoted : r.stringValue = r.leaf .stringValue := by
      have hclosed : ¬r.sees .badString = true := by
        rw [hbefore.sees, hkind]
        decide
      simp only [stringValue, if_neg hclosed]
    refine ⟨_, ?_, hbefore.termOf .string .stringValue⟩
    simp only [termOver, hbefore.kind?, hkind, hquoted]
  · rename_i hkind
    split at h
    · rename_i hboolean
      cases h
      refine ⟨_, ?_, hbefore.termOf .boolean (.boolean (sign.lexeme.word = "true"))⟩
      simp only [termOver, hbefore.kind?, hkind, nameTerm, hword, if_pos hboolean]
    · cases h
  · cases h

theorem termOver_of_function {function : Function} (h : sign.lexeme = function.sign) :
    termOver budget expression r = call expression function r := by
  have hkind : r.kind? = some .ident := by
    rw [hbefore.kind?, h]
    cases function <;> rfl
  have hword : r.word = function.keyword := by
    rw [hbefore.word, h]
    cases function <;> rfl
  have hnoBoolean : ¬(function.keyword = "true" ∨ function.keyword = "false") := by
    cases function <;> decide
  have hfunction : Function.ofKeyword? function.keyword = some function := by
    cases function <;> rfl
  simp only [termOver, hkind, nameTerm, hword, if_neg hnoBoolean, hfunction]

theorem termOver_of_isName (h : sign.lexeme.isName = true) : termOver budget expression r =
    (some (variableTerm budget expression r).1, (variableTerm budget expression r).2) := by
  have hword : r.word = sign.lexeme.word := hbefore.word
  obtain ⟨hkind, hfree⟩ := (Bool.and_eq_true _ _).mp h
  have hreserved : ¬Command.isReserved sign.lexeme.word = true := by simpa using hfree
  have hnoBoolean : ¬(sign.lexeme.word = "true" ∨ sign.lexeme.word = "false") := by
    rintro (hboolean | hboolean) <;> rw [hboolean] at hreserved <;> exact hreserved (by decide)
  have hnoFunction : Function.ofKeyword? sign.lexeme.word = none := by
    cases hfound : Function.ofKeyword? sign.lexeme.word with
    | none => rfl
    | some function =>
        have hleaf := Lexeme.leafKind?_of_function function
        rw [← Lexeme.eq_sign_of_ofKeyword? (beq_iff_eq.mp hkind) hfound, Lexeme.leafKind?, if_pos h] at hleaf
        cases hleaf
  simp only [termOver, hbefore.kind?, beq_iff_eq.mp hkind, nameTerm, hword, if_neg hnoBoolean, hnoFunction,
    if_neg hreserved]

end Words

section Terms

variable {expression : Reading} {bound : Nat} (hexpression : Finds 0 bound expression)
include hexpression

variable (hregular : Regular expression)
include hregular

/-- The derivation of an expression is found between the signs that open and close it. -/
theorem inner_finds {opening closing : Located} {inner : List Located} {shape : Shape} {kind : TokenKind}
    (htrimmed : r.Trimmed) (hbound : r.rest.length ≤ bound)
    (hlexemes : r.lexemes = opening :: (inner ++ closing :: more)) (hinner : Derives 0 inner shape)
    (hclosing : closing.lexeme.kind = kind) (hkind : Lexeme.isClosing kind = true) :
    ∃ part behind, expression r.next = (some part, behind) ∧ part.Clean ∧ part.Shows shape ∧
      r.next.Reaches behind ∧ behind.Before closing more ∧ (expression r.next).2.sees kind = true := by
  have hbefore := before_of_lexemes htrimmed hlexemes
  have hshorter := Nat.lt_of_lt_of_le (next_length_lt hbefore.rest_ne_nil) hbound
  obtain ⟨⟨part, behind⟩, houtcome, hfound⟩ := hexpression r.next inner (closing :: more) shape htrimmed.next
    hshorter hbefore.next hinner (ends_closing (hclosing ▸ hkind) 0 more)
  have hreaches := (hregular r.next).reaches
  rw [houtcome] at hreaches
  have hclose := before_of_lexemes (hreaches.trimmed htrimmed.next) hfound.left
  refine ⟨part, behind, houtcome, hfound.clean, hfound.shown, hreaches, hclose, ?_⟩
  rw [houtcome]
  exact (hclose.sees _).mpr hclosing

theorem indices_finds {list : List Index} (hderives : ∀ index ∈ list, Derives 0 index.inner index.shape)
    (hends : ∀ sign ∈ more.head?, sign.lexeme.kind ≠ .bracketL) {budget : Nat} {term : Phrase}
    (htrimmed : r.Trimmed) (hbudget : r.rest.length ≤ budget) (hbound : r.rest.length ≤ bound)
    (hlexemes : r.lexemes = list.flatMap Index.lexemes ++ more) (hadjoin : Index.Adjoin r.lastEnd list)
    (hclean : term.Clean) : (indices expression budget term r).1.Clean ∧
      (∃ parts, (indices expression budget term r).1.parts = term.parts ++ parts ∧
        List.Forall₂ Phrase.Shows parts (list.map Index.shape)) ∧
      (indices expression budget term r).2.lexemes = more := by
  have hindex := seesIndex_iff htrimmed hlexemes hadjoin hends
  -- where the last index ended is where the next one has to begin, so the reader is generalised with it
  induction list generalizing r term budget with
  | nil =>
      rw [indices_none (fun hsees => hindex.mp hsees rfl)]
      exact ⟨hclean, ⟨[], (List.append_nil _).symm, .nil⟩, hlexemes⟩
  | cons index others ih =>
      obtain ⟨hopening, hoffset, hclosing, hothers⟩ := hadjoin
      obtain ⟨hfirst, hrest⟩ := List.forall_mem_cons.mp hderives
      have hopened : r.lexemes =
          index.opening :: (index.inner ++ index.closing :: (others.flatMap Index.lexemes ++ more)) := by
        rw [hlexemes, List.flatMap_cons, Index.lexemes]
        simp
      have hbefore := before_of_lexemes htrimmed hopened
      have hshorter := next_length_lt hbefore.rest_ne_nil
      obtain ⟨budget, rfl⟩ := Nat.exists_eq_succ_of_ne_zero (Nat.ne_of_gt (Nat.lt_of_lt_of_le
        (Nat.zero_lt_of_lt hshorter) hbudget))
      obtain ⟨part, behind, houtcome, hpart, hshows, hreaches, hclose, hsees⟩ :=
        inner_finds hexpression hregular htrimmed hbound hopened hfirst hclosing rfl
      have hbehind := hreaches.trimmed htrimmed.next
      have hlength : behind.next.rest.length < r.rest.length :=
        Nat.lt_of_le_of_lt (hreaches.trans behind.reaches_next).length_le hshorter
      rw [indices_some (hindex.mpr (List.cons_ne_nil _ _)) hsees, houtcome]
      rw [← hclose.lastEnd] at hothers
      have hadded : (term.add part).Clean := Phrase.clean_add.mpr ⟨hclean, hpart⟩
      obtain ⟨hwhole, ⟨parts, hparts, hshown⟩, hleft⟩ := ih hrest hbehind.next
        (Nat.le_of_lt_succ (Nat.lt_of_lt_of_le hlength hbudget)) (Nat.le_trans (Nat.le_of_lt hlength) hbound)
        hclose.next hothers hadded (seesIndex_iff hbehind.next hclose.next hothers hends)
      refine ⟨hwhole, ⟨part :: parts, ?_, .cons hshows hshown⟩, hleft⟩
      rw [Phrase.add_parts, List.append_assoc] at hparts
      exact hparts

theorem variableTerm_found {budget : Nat} {name : Located} {list : List Index} (htrimmed : r.Trimmed)
    (hbudget : r.rest.length ≤ budget) (hbound : r.rest.length ≤ bound)
    (hlexemes : r.lexemes = name :: (list.flatMap Index.lexemes ++ more))
    (hadjoin : Index.Adjoin name.stop list) (hderives : ∀ index ∈ list, Derives 0 index.inner index.shape)
    (hends : ∀ sign ∈ more.head?, sign.lexeme.kind ≠ .bracketL) :
    Found (variableTerm budget expression r) (.named name (list.map Index.shape)) more := by
  have hbefore := before_of_lexemes htrimmed hlexemes
  have hshorter := Nat.le_of_lt (next_length_lt hbefore.rest_ne_nil)
  rw [← hbefore.lastEnd] at hadjoin
  have hindex := seesIndex_iff htrimmed.next hbefore.next hadjoin hends
  have hname := hbefore.leaf .var
  let form := if r.next.seesIndex = true then TermForm.arrayIndex else .var
  have hform : form = if list.map Index.shape = [] then .var else .arrayIndex := by
    cases list with
    | nil => exact if_neg fun hsees => hindex.mp hsees rfl
    | cons index others => exact if_pos (hindex.mpr (List.cons_ne_nil _ _))
  let begun := (Phrase.begin (.term .unknown form) r).add (r.leaf .var).1
  have hbegun : begun.Clean := Phrase.clean_add.mpr ⟨Phrase.clean_begin _ _, hname.clean⟩
  have hkind : (indices expression budget begun r.next).1.kind = .term .unknown form :=
    (indices_extends hregular budget rfl r.next).kind_eq
  obtain ⟨hclean, ⟨parts, hparts, hshown⟩, hleft⟩ := indices_finds hexpression hregular hderives hends
    htrimmed.next (Nat.le_trans hshorter hbudget) (Nat.le_trans hshorter hbound) hbefore.next hadjoin hbegun
  refine ⟨(Phrase.clean_finish _).mpr hclean, Phrase.shows_node ?_ ?_ ?_, hleft⟩
  · show ((indices expression budget begun r.next).1.kind).untyped = _
    rw [hkind, hform]
    rfl
  · show (indices expression budget begun r.next).1.parts ≠ []
    rw [hparts]
    exact List.cons_ne_nil _ _
  · show List.Forall₂ _ (indices expression budget begun r.next).1.parts _
    rw [hparts]
    exact .cons hname.shown hshown

theorem group_found {opening closing : Located} {inner : List Located} {shape : Shape} (htrimmed : r.Trimmed)
    (hbound : r.rest.length ≤ bound) (hlexemes : r.lexemes = opening :: (inner ++ closing :: more))
    (hinner : Derives 0 inner shape) (hclosing : closing.lexeme.kind = .parenR) :
    Found (group expression r) (.term .group [shape]) more := by
  obtain ⟨part, behind, houtcome, hclean, hshows, _, hclose, hsees⟩ :=
    inner_finds hexpression hregular htrimmed hbound hlexemes hinner hclosing rfl
  rw [group_eq hsees, houtcome]
  exact enclosed_found _ _ hclean hshows hclose

theorem computedReference_found {opening closing : Located} {inner : List Located} {shape : Shape}
    (htrimmed : r.Trimmed) (hbound : r.rest.length ≤ bound)
    (hlexemes : r.lexemes = opening :: (inner ++ closing :: more)) (hinner : Derives 0 inner shape)
    (hclosing : closing.lexeme.kind = .curlyR) :
    Found (computedReference expression r) (.term .computedReference [shape]) more := by
  obtain ⟨part, behind, houtcome, hclean, hshows, _, hclose, hsees⟩ :=
    inner_finds hexpression hregular htrimmed hbound hlexemes hinner hclosing rfl
  rw [computedReference_eq hsees, houtcome]
  exact enclosed_found _ _ hclean hshows hclose

theorem call_finds {name opening closing : Located} {inner : List Located} {shape : Shape} (function : Function)
    (htrimmed : r.Trimmed) (hbound : r.rest.length ≤ bound)
    (hlexemes : r.lexemes = name :: opening :: (inner ++ closing :: more))
    (hopening : opening.lexeme.kind = .parenL) (hinner : Derives 0 inner shape)
    (hclosing : closing.lexeme.kind = .parenR) : ∃ outcome : Phrase × Reader,
      call expression function r = (some outcome.1, outcome.2) ∧
        Found outcome (.term (.call function) [shape]) more := by
  have hnext := (before_of_lexemes htrimmed hlexemes).next
  have hopens : r.next.sees .parenL = true := ((before_of_lexemes htrimmed.next hnext).sees _).mpr hopening
  obtain ⟨part, behind, houtcome, hclean, hshows, _, hclose, hsees⟩ := inner_finds hexpression hregular
    htrimmed.next (Nat.le_trans r.reaches_next.length_le hbound) hnext hinner hclosing rfl
  rw [call_eq function hopens hsees, houtcome]
  exact ⟨_, rfl, enclosed_found _ _ hclean hshows hclose⟩

/-- Every derivation of a term is found if the derivations inside it are. -/
theorem termOver_finds : Finds 6 (bound + 1) (termOver bound expression) := by
  intro r front more shape htrimmed hlength hlexemes hderives hends
  have hbound := Nat.le_of_lt_succ hlength
  cases hderives with
  | @literal _ sign kind hkind =>
      exact literal_finds bound expression (before_of_lexemes htrimmed hlexemes) hkind
  | @named _ name list hname hadjoin hindices =>
      have hbefore := before_of_lexemes htrimmed hlexemes
      refine ⟨variableTerm bound expression r, termOver_of_isName bound expression hbefore hname, ?_⟩
      exact variableTerm_found hexpression hregular htrimmed hbound hbound hlexemes hadjoin hindices hends.index
  | @group _ opening closing inner shape hopening hinner hclosing =>
      rw [List.cons_append, List.append_assoc] at hlexemes
      have hkind : r.kind? = some .parenL := by rw [(before_of_lexemes htrimmed hlexemes).kind?, hopening]
      refine ⟨group expression r, by simp only [termOver, hkind], ?_⟩
      exact group_found hexpression hregular htrimmed hbound hlexemes hinner hclosing
  | @computed _ opening closing inner shape hopening hinner hclosing =>
      rw [List.cons_append, List.append_assoc] at hlexemes
      have hkind : r.kind? = some .curlyL := by rw [(before_of_lexemes htrimmed hlexemes).kind?, hopening]
      refine ⟨computedReference expression r, by simp only [termOver, hkind], ?_⟩
      exact computedReference_found hexpression hregular htrimmed hbound hlexemes hinner hclosing
  | @call _ name opening closing function inner shape hname hopening hinner hclosing =>
      rw [List.cons_append, List.cons_append, List.append_assoc] at hlexemes
      rw [termOver_of_function bound expression (before_of_lexemes htrimmed hlexemes) hname]
      exact call_finds hexpression hregular function htrimmed hbound hlexemes hopening hinner hclosing
  | @operation _ op _ _ _ _ _ _ hlevel _ _ =>
      -- no operator is as tight as a term
      exact absurd op.rank_lt (Nat.not_lt_of_le hlevel)

end Terms

theorem expressionWithin_finds (budget : Nat) : Finds 0 budget (expressionWithin budget) := by
  induction budget with
  | zero => exact fun _ _ _ _ _ hlength => absurd hlength (Nat.not_lt_zero _)
  | succ budget ih =>
      -- what stands inside a term has fewer characters before it than the term
      have hregular := expressionWithin_regular budget
      exact expressionOver_finds (termOver_regular hregular budget) (termOver_finds ih hregular)

/-- Every derivation of an expression is found. -/
theorem expression_finds {front : List Located} {shape : Shape} (htrimmed : r.Trimmed)
    (hlexemes : r.lexemes = front ++ more) (hderives : Derives 0 front shape) (hends : Ends 0 more) :
    ∃ outcome : Phrase × Reader, expression r = (some outcome.1, outcome.2) ∧ Found outcome shape more :=
  expressionWithin_finds r.budget r front more shape htrimmed (Nat.lt_succ_self _) hlexemes hderives hends

/-- Every derivation of a term is found, whatever operator follows. -/
theorem term_finds {front : List Located} {shape : Shape} (htrimmed : r.Trimmed) (hlexemes : r.lexemes = front ++ more)
    (hderives : Derives 6 front shape) (hends : Ends 6 more) :
    ∃ outcome : Phrase × Reader, term r = (some outcome.1, outcome.2) ∧ Found outcome shape more :=
  termOver_finds (expressionWithin_finds r.budget) (expressionWithin_regular r.budget) r front more shape htrimmed
    (Nat.lt_succ_of_lt (Nat.lt_succ_self _)) hlexemes hderives hends

/-- The lexemes before a reader have one derivation at most: that of what is read. -/
theorem derives_unique {shape other : Shape} (htrimmed : r.Trimmed) (h : Derives 0 r.lexemes shape)
    (hother : Derives 0 r.lexemes other) : other = shape := by
  have hall : r.lexemes = r.lexemes ++ [] := (List.append_nil _).symm
  obtain ⟨outcome, houtcome, hfound⟩ := expression_finds htrimmed hall h (ends_nil 0)
  obtain ⟨outcome', houtcome', hfound'⟩ := expression_finds htrimmed hall hother (ends_nil 0)
  rw [houtcome, Prod.mk.injEq, Option.some.injEq] at houtcome'
  have hshown := hfound'.shown
  rw [← houtcome'.1] at hshown
  exact hshown.unique hfound.shown

end Reader

end Gamebook
