import Gamebook.Proofs.Parser.Trace

/-!
The rules of the grammar leave no trace where they do not apply. By the depth to which expressions are
nested, every rule works on nodes of its own; what it takes back it takes back as a whole.
-/

namespace Gamebook.Parser

variable {start p q : Parser} {id : Nat}

/-! ### Expressions -/

theorem Follows.takeOperator (h : start.Follows p) (op : Operator) : start.Makes (takeOperator op p) := by
  have hsign := h.leaf (.operator op op.resultType)
  refine ⟨?_, hsign.fresh⟩
  show start.Follows (if op = .deprecatedModulo then _ else _)
  split
  · exact hsign.follows.flagWhole hsign.fresh _
  · exact hsign.follows

theorem variableName_clears : Clears variableName := by
  intro start p h
  unfold variableName
  split
  · exact (h.leaf .var).mayMake
  · exact .none h

theorem Follows.stringValue (h : start.Follows p) : start.Makes (stringValue p) := by
  have hvalue := h.leaf .stringValue
  refine ⟨?_, hvalue.fresh⟩
  show start.Follows (if p.sees .badString then _ else _)
  split
  · exact hvalue.follows.flagWhole hvalue.fresh _
  · exact hvalue.follows

theorem Follows.termOf (h : start.Follows p) (type : ValueType) {literal : Parser → Nat × Parser}
    (hliteral : ∀ {p : Parser}, start.Follows p → start.Makes (literal p)) : start.Makes (termOf type literal p) := by
  have hid := h.fresh (.term type .literal)
  have hvalue := hliteral (h.create (.term type .literal))
  exact ⟨(hvalue.follows.adopt hid hvalue.fresh).finish hid, hid⟩

theorem Follows.beginOperation (h : start.Follows p) (op : Operator) {left : Nat} (hleft : start.tree.size ≤ left) :
    start.Makes (p.beginOperation op left) := by
  have hid := h.freshAt (op.kind .unknown) (((p.tree.node? left).map (·.offset)).getD 0)
  have hnode := (h.createAt (op.kind .unknown) (((p.tree.node? left).map (·.offset)).getD 0)).adopt hid hleft
  have hsign := hnode.takeOperator op
  unfold Parser.beginOperation
  exact ⟨hsign.follows.adopt hid hsign.fresh, hid⟩

theorem MayMake.endOperation {outcome : Option Nat × Parser} (h : start.MayMake p outcome) (op : Operator) (left : Nat)
    (hid : start.tree.size ≤ id) : start.Follows (outcome.2.endOperation op left id outcome.1) :=
  ((h.adoptOr hid .termExpected).setKind hid _).finish hid

theorem Follows.chain {operand : Parsing} (hoperand : Clears operand) (level : Precedence) (budget : Nat)
    (h : start.Follows p) {left : Nat} (hleft : start.tree.size ≤ left) :
    start.Makes (Grammar.chain Id level operand budget left p) := by
  induction budget generalizing left p with
  | zero => exact ⟨h, hleft⟩
  | succ budget ih =>
      cases hop : p.operatorAt? level with
      | none =>
          rw [Grammar.chain_succ_none hop]
          exact ⟨h, hleft⟩
      | some op =>
          have hbegun := h.beginOperation op hleft
          rw [Grammar.chain_succ hop]
          exact ih ((hoperand hbegun.follows).endOperation op left hbegun.fresh) hbegun.fresh

theorem operations_clears {operand : Parsing} (hoperand : Clears operand) (budget : Nat) (level : Precedence) :
    Clears (Grammar.operations Id budget operand level) := by
  intro start p h
  unfold Grammar.operations
  have hleft := hoperand h
  generalize operand p = outcome at hleft
  cases hleft with
  | none h => exact .none h
  | made h hleft => exact (h.chain hoperand level budget hleft).mayMake

theorem expressionOver_clears {term : Parsing} (hterm : Clears term) (budget : Nat) :
    Clears (Grammar.expressionOver Id budget term) := by
  have hlevels : ∀ (levels : List Precedence) (operand : Parsing), Clears operand →
      Clears (levels.foldl (Grammar.operations Id budget) operand) := by
    intro levels
    induction levels with
    | nil => exact fun _ hoperand => hoperand
    | cons level more ih => exact fun operand hoperand => ih _ (operations_clears hoperand budget level)
  exact hlevels Reader.levels term hterm

section Terms

variable {expression : Parsing} (hexpression : Clears expression)
include hexpression

theorem Follows.group (h : start.Follows p) : start.Makes (Grammar.group Id expression p) := by
  have hid := h.fresh (.term .unknown .group)
  have hinner := (hexpression (h.create (.term .unknown .group)).next).adoptOr hid .expressionExpected
  exact ⟨((hinner.close hid .parenR .rightParenthesisExpected).setKind hid _).finish hid, hid⟩

theorem Follows.computedReference (h : start.Follows p) : start.Makes (Grammar.computedReference Id expression p) := by
  have hid := h.fresh (.term .unknown .computedReference)
  have hinner := (hexpression (h.create (.term .unknown .computedReference)).next).adoptOr hid .expressionExpected
  have haccept := hinner.accept .curlyR
  unfold Grammar.computedReference
  dsimp only [Course.bind_counted]
  split
  · rename_i closed hclosed
    rw [hclosed] at haccept
    exact ⟨haccept.finish hid, hid⟩
  · rename_i closed hclosed
    rw [hclosed] at haccept
    exact ⟨(haccept.complain hid _).finish hid, hid⟩

/-- The node of a call is made before it is known that there is one. -/
theorem call_clears (function : Function) : Clears (Grammar.call Id expression function) := by
  intro start p h
  have hid := h.fresh (.term .unknown (.call function))
  have hopened := ((h.create (.term .unknown (.call function))).next).accept .parenL
  have hnamed := ((p.follows_refl.create (.term .unknown (.call function))).next).accept .parenL
  unfold Grammar.call
  dsimp only
  split
  · rename_i named hcalled
    rw [hcalled] at hnamed
    exact h.mayMake_restore hnamed
  · rename_i opened hcalled
    rw [hcalled] at hopened
    have hargument := (hexpression hopened).adoptOr hid .expressionExpected
    exact .made (((hargument.close hid .parenR .rightParenthesisExpected).setKind hid _).finish hid) hid

theorem indices_keeps (budget : Nat) : Keeps (Grammar.indices Id expression budget) := by
  induction budget with
  | zero => exact fun _ _ _ h _ => h
  | succ budget ih =>
      intro start p id h hid
      rw [Grammar.indices, Course.counted_succ]
      split
      · have hclose := ((hexpression h.next).adoptOr hid .expressionExpected).close hid .bracketR .rightBracketExpected
        dsimp only [Course.bind_counted]
        split
        · rename_i closed hclosed
          rw [hclosed] at hclose
          exact ih hclose hid
        · rename_i closed hclosed
          rw [hclosed] at hclose
          exact hclose
      · exact h

theorem Follows.variableTerm (h : start.Follows p) (budget : Nat) :
    start.Makes (Grammar.variableTerm Id budget expression p) := by
  have hid := h.fresh (.term .unknown .var)
  have hname := (h.create (.term .unknown .var)).leaf .var
  have hadopted := hname.follows.adopt hid hname.fresh
  unfold Grammar.variableTerm
  dsimp only
  refine ⟨(indices_keeps hexpression budget ?_ hid).finish hid, hid⟩
  split
  · exact hadopted.setKind hid _
  · exact hadopted

theorem nameTerm_clears (budget : Nat) : Clears (Grammar.nameTerm Id budget expression) := by
  intro start p h
  unfold Grammar.nameTerm
  dsimp only
  split
  · exact (h.termOf .boolean fun h => h.leaf _).mayMake
  · split
    · exact call_clears hexpression _ h
    · split
      · exact .none h
      · exact (h.variableTerm hexpression budget).mayMake

theorem termOver_clears (budget : Nat) : Clears (Grammar.termOver Id budget expression) := by
  intro start p h
  unfold Grammar.termOver
  dsimp only [Course.map_counted]
  split
  · exact (h.termOf .number fun h => h.leaf _).mayMake
  · exact (h.termOf .string fun h => h.stringValue).mayMake
  · exact (h.termOf .string fun h => h.stringValue).mayMake
  · exact (h.group hexpression).mayMake
  · exact (h.computedReference hexpression).mayMake
  · exact nameTerm_clears hexpression budget h
  · exact .none h

end Terms

theorem expressionWithin_clears (budget : Nat) : Clears (Grammar.expressionWithin Id budget) := by
  induction budget with
  | zero => exact fun _ _ h => .none h
  | succ budget ih =>
      rw [Grammar.expressionWithin_succ]
      exact expressionOver_clears (termOver_clears ih budget) budget

theorem expression_clears : Clears (Grammar.expression Id) := fun _ p h => expressionWithin_clears p.budget h

theorem term_clears : Clears (Grammar.term Id) := fun _ p h => termOver_clears (expressionWithin_clears p.budget) p.budget h

/-- Where an index follows a name that was taken, the name is given back and read as a term. -/
theorem assignable_clears : Clears (Grammar.assignable Id) := by
  intro start p h
  unfold Grammar.assignable
  dsimp only [Course.map_counted]
  split
  · exact (h.computedReference expression_clears).mayMake
  · split
    · have hname := variableName_clears h
      have hback := variableName_clears p.follows_refl
      generalize variableName p = outcome at hname hback
      cases hname with
      | none h => exact .none h
      | @made _ named hname hid =>
          dsimp only
          split
          · rw [hback.follows.restore]
            exact nameTerm_clears expression_clears p.budget h
          · exact .made hname hid
    · exact .none h

/-! ### Prose -/

theorem Follows.bangs (h : start.Follows p) (budget : Nat) : start.Follows (Grammar.bangs Id budget p).2 := by
  induction budget generalizing p with
  | zero => exact h
  | succ budget ih =>
      rw [Grammar.bangs, Course.counted_succ]
      split
      · exact ih h.next
      · exact h

theorem Follows.closeBrace (h : start.Follows p) (hid : start.tree.size ≤ id) :
    start.Follows (Grammar.closeBrace Id id p) := by
  have haccept := h.accept .curlyR
  unfold Grammar.closeBrace
  split
  · rename_i closed hclosed
    rw [hclosed] at haccept
    exact haccept.switch .text
  · rename_i closed hclosed
    rw [hclosed] at haccept
    exact (((haccept.complain hid _).skipTo _).accept _).switch .text

theorem replacement_clears : Clears (Grammar.replacement Id) := by
  intro start p h
  have hid := h.fresh (.variableReplacement .none)
  have hmarked := ((h.create (.variableReplacement .none)).next).bangs p.ahead.length
  have hown := ((p.follows_refl.create (.variableReplacement .none)).next).bangs p.ahead.length
  unfold Grammar.replacement
  dsimp only [Course.bind_counted]
  split
  · exact h.mayMake_restore hown
  · rename_i fold _
    split
    · have hvalue := expression_clears ((hmarked.setKind hid (.variableReplacement fold)).next.switch .command)
      exact .made (((hvalue.adoptOr hid .expressionExpected).closeBrace hid).finish hid) hid
    · exact h.mayMake_restore hown

theorem Follows.branches {content : Nat → Parser → Parser} (hcontent : Keeps content) (budget : Nat)
    (h : start.Follows p) (hid : start.tree.size ≤ id) : start.Follows (Grammar.branches Id content budget id p).2 := by
  induction budget generalizing p with
  | zero => exact h
  | succ budget ih =>
      have hown := h.fresh .multiReplaceOption
      have hbranch := (hcontent (h.create .multiReplaceOption) hown).finish hown
      have haccept := (hbranch.adopt hid hown).accept .pipe
      rw [Grammar.branches, Course.counted_succ]
      dsimp only [Course.bind_counted]
      split
      · rename_i next hnext
        rw [hnext] at haccept
        exact ih haccept
      · rename_i next hnext
        rw [hnext] at haccept
        exact haccept

theorem multireplace_clears {content : Nat → Parser → Parser} (hcontent : Keeps content) (budget : Nat) :
    Clears (Grammar.multireplace Id budget content) := by
  intro start p h
  have hid := h.fresh .multiReplace
  have hsigned := (h.create .multiReplace).next
  have hown := (p.follows_refl.create .multiReplace).next
  unfold Grammar.multireplace
  dsimp only [Course.bind_counted]
  split
  · have hselector := (term_clears (hsigned.next.switch .command)).adoptOr hid .expressionExpected
    have hbranches := (hselector.switch .text).branches hcontent budget hid
    refine .made ((Follows.closeBrace ?_ hid).finish hid) hid
    split
    · exact hbranches.flagWhole hid _
    · exact hbranches
  · exact h.mayMake_restore hown

theorem prosePart_clears {content : Nat → Parser → Parser} (hcontent : Keeps content) (budget : Nat) :
    Clears (Grammar.prosePart Id budget content) := by
  intro start p h
  unfold Grammar.prosePart
  split
  · exact (h.leaf .realWord).mayMake
  · exact replacement_clears h
  · exact multireplace_clears hcontent budget h
  · exact .none h

/-- What a part of prose makes is adopted, and what is no part of it passed over. -/
theorem adoptOrSkip_follows {content : Nat → Parser → Parser} (hcontent : Keeps content)
    (hid : start.tree.size ≤ id) {outcome : Option Nat × Parser} : start.MayMake p outcome → start.Follows
      (match outcome with
      | (some part, p) => content id (p.adopt id part)
      | (none, p) => content id p.next) := by
  intro hmay
  cases hmay with
  | none h => exact hcontent h.next hid
  | made h hpart => exact hcontent (h.adopt hid hpart) hid

theorem proseWithin_keeps (budget : Nat) (ends : TokenKind → Bool) : Keeps (Grammar.proseWithin Id budget ends) := by
  induction budget generalizing ends with
  | zero => exact fun _ _ _ h _ => h
  | succ budget ih =>
      intro start p id h hid
      rw [Grammar.proseWithin_succ]
      split
      · exact h
      · exact adoptOrSkip_follows (ih ends) hid (prosePart_clears (ih Reader.endsBranch) budget h)

theorem prose_keeps : Keeps (Grammar.prose Id) :=
  fun _ p _ h hid => (proseWithin_keeps p.budget (fun _ => false) h hid).finish hid

/-! ### Options -/

theorem optionText_keeps : Keeps (Grammar.optionText Id) :=
  fun _ _ _ h hid => prose_keeps ((h.accept .hash).switch .text) hid

/-- The modifiers that were found are nodes of their own, whether or not all of them are. -/
structure Finds (start : Parser) (outcome : Option Modifiers × Parser) : Prop where
  follows : start.Follows outcome.2
  fresh : ∀ found, outcome.1 = some found → ∀ node ∈ found.nodes, start.tree.size ≤ node

theorem Follows.modifierMeaning (h : start.Follows p) {found : Modifiers}
    (hfound : ∀ node ∈ found.nodes, start.tree.size ≤ node) (hid : start.tree.size ≤ id) (word : String) :
    start.Finds (Grammar.modifierMeaning Id word id found p) := by
  have hnodes : ∀ node ∈ found.nodes ++ [id], start.tree.size ≤ node := by
    intro node hnode
    rcases List.mem_append.mp hnode with hnode | hnode
    · exact hfound node hnode
    · exact List.mem_singleton.mp hnode ▸ hid
  have hcondition := expression_clears h
  unfold Grammar.modifierMeaning
  split
  · exact ⟨h, by rintro all ⟨⟩; exact hnodes⟩
  · generalize Grammar.expression Id p = outcome at hcondition ⊢
    cases hcondition with
    | none h => exact ⟨h, nofun⟩
    | made h hcondition => exact ⟨h.adopt hid hcondition, by rintro all ⟨⟩; exact hnodes⟩

theorem Follows.modifier (h : start.Follows p) {found : Modifiers}
    (hfound : ∀ node ∈ found.nodes, start.tree.size ≤ node) : start.Finds (Grammar.modifier Id found p) := by
  have hid := h.next.freshAt (.standardCommand p.next.word) p.token.offset
  unfold Grammar.modifier
  dsimp only
  split
  · exact ((h.next.createAt _ _).next.finish hid).modifierMeaning hfound hid p.next.word
  · exact ⟨h.next, nofun⟩

theorem Follows.modifiersWithin (h : start.Follows p) (budget : Nat) {found : Modifiers}
    (hfound : ∀ node ∈ found.nodes, start.tree.size ≤ node) : start.Finds (Grammar.modifiersWithin Id budget found p) := by
  induction budget generalizing p found with
  | zero => exact ⟨h, by rintro all ⟨⟩; exact hfound⟩
  | succ budget ih =>
      have hmodifier := h.modifier hfound
      rw [Grammar.modifiersWithin_succ]
      split
      · generalize Grammar.modifier Id found p = outcome at hmodifier ⊢
        obtain ⟨_ | more, q⟩ := outcome
        · exact ⟨hmodifier.follows, nofun⟩
        · exact ih hmodifier.follows (hmodifier.fresh more rfl)
      · exact ⟨h, by rintro all ⟨⟩; exact hfound⟩

theorem Follows.adoptAll (h : start.Follows p) (hid : start.tree.size ≤ id) {nodes : List Nat}
    (hnodes : ∀ node ∈ nodes, start.tree.size ≤ node) :
    start.Follows (nodes.foldl (fun q node => q.adopt id node) p) := by
  induction nodes generalizing p with
  | nil => exact h
  | cons node more ih =>
      rw [List.foldl_cons]
      exact ih (h.adopt hid (hnodes node (by simp))) fun other hother => hnodes other (by simp [hother])

theorem modifiedOption_clears (context : Context) : Clears (Grammar.modifiedOption Id context) := by
  intro start p h
  have hnone : ∀ (start : Parser), ∀ node ∈ ({} : Modifiers).nodes, start.tree.size ≤ node := fun _ => nofun
  obtain ⟨hfollows, hnodes⟩ := h.modifiersWithin p.budget (hnone start)
  have hown := (p.follows_refl.modifiersWithin p.budget (hnone p)).follows
  unfold Grammar.modifiedOption
  generalize Grammar.modifiersWithin Id p.budget {} p = outcome at hfollows hnodes hown
  obtain ⟨_ | found, q⟩ := outcome
  · exact h.mayMake_restore hown
  · dsimp only [Course.bind_counted]
    split
    · have hid := hfollows.freshAt (.choiceOption found.reuse found.conditional) p.token.offset
      have hadopted := (hfollows.createAt (.choiceOption found.reuse found.conditional) p.token.offset).adoptAll hid
        (hnodes found rfl)
      have htext := optionText_keeps hadopted hid
      refine .made ?_ hid
      split
      · exact htext
      · exact htext.flag hid _ _ _
    · exact h.mayMake_restore hown

/-! ### Indentation -/

theorem Follows.pass (h : start.Follows p) : start.Follows p.pass.2 := by
  unfold Parser.pass
  split
  · exact h.next
  · exact h

theorem Follows.indentWithin (h : start.Follows p) (budget : Nat) : start.Follows (Grammar.indentWithin Id budget p).2 := by
  induction budget generalizing p with
  | zero => exact h
  | succ budget ih =>
      have hpassed := h.pass
      rw [Grammar.indentWithin, Course.counted_succ]
      dsimp only at hpassed ⊢
      split
      · exact ih hpassed.next
      · exact hpassed
      · exact hpassed

/-! ### All rules -/

/-- Nothing is changed in the parser by a rule that does not apply to it, at whatever depth the rule is
used, and nothing by looking for the indentation of the next line. -/
structure Traceless (p : Parser) : Prop where
  expression : ∀ budget, (Grammar.expressionWithin Id budget p).1 = none → (Grammar.expressionWithin Id budget p).2 = p
  term : ∀ budget, (Grammar.termOver Id budget (Grammar.expressionWithin Id budget) p).1 = none →
    (Grammar.termOver Id budget (Grammar.expressionWithin Id budget) p).2 = p
  call : ∀ budget function, (Grammar.call Id (Grammar.expressionWithin Id budget) function p).1 = none →
    (Grammar.call Id (Grammar.expressionWithin Id budget) function p).2 = p
  assignable : (Grammar.assignable Id p).1 = none → (Grammar.assignable Id p).2 = p
  variableName : (variableName p).1 = none → (variableName p).2 = p
  modifiedOption : ∀ context, (Grammar.modifiedOption Id context p).1 = none → (Grammar.modifiedOption Id context p).2 = p
  replacement : (Grammar.replacement Id p).1 = none → (Grammar.replacement Id p).2 = p
  multireplace : ∀ budget, (Grammar.multireplace Id budget (Grammar.proseWithin Id budget Reader.endsBranch) p).1 = none →
    (Grammar.multireplace Id budget (Grammar.proseWithin Id budget Reader.endsBranch) p).2 = p
  nextIndent : (Grammar.nextIndent Id p).2 = p

/-- Rules that do not apply leave no trace, whatever the state of the parser. -/
theorem traceless (p : Parser) : p.Traceless where
  expression budget := (expressionWithin_clears budget).eq_of_none
  term budget := (termOver_clears (expressionWithin_clears budget) budget).eq_of_none
  call budget function := (call_clears (expressionWithin_clears budget) function).eq_of_none
  assignable := assignable_clears.eq_of_none
  variableName := variableName_clears.eq_of_none
  modifiedOption context := (modifiedOption_clears context).eq_of_none
  replacement := replacement_clears.eq_of_none
  multireplace budget := (multireplace_clears (proseWithin_keeps budget Reader.endsBranch) budget).eq_of_none
  nextIndent := (p.follows_refl.indentWithin (p.scanner.lines.size + 1)).restore

end Gamebook.Parser
