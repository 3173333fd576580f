import Gamebook.Proofs.Parser.Prose
import Gamebook.Proofs.Parser.Statement

/-!
Commands by token and by lexeme. What a form of command puts into a node is what its reading adds to the
phrase.
-/

namespace Gamebook.Parser

variable {site : Site} {old : Tree} {p q : Parser} {r behind : Reader} {phrase part : Phrase} {id child : Nat}

/-! ### The end of a line -/

theorem Agrees.skipLine (h : Agrees site old id p phrase r) : Agrees site old id (Grammar.skipLine Id p) phrase r.skipLine :=
  h.skipTo fun _ => false

theorem Reads.lastEnd (h : p.Reads site r) (offset : Nat) : p.lastEnd offset = site.line.start + r.lastEnd := by
  rw [Parser.lastEnd, h.previous]
  rfl

theorem finishLine_continues : Continues site (Grammar.finishLine Id) Phrase.finishLine := by
  intro old id p phrase r h
  unfold Grammar.finishLine Phrase.finishLine
  rw [h.reads.atEnd]
  split
  · exact h.finish
  · have hskipped := h.skipLine
    dsimp only [Course.bind_counted]
    rw [hskipped.reads.lastEnd, h.reads.offset, Nat.add_sub_add_left]
    refine (hskipped.flag rfl (.inl ?_)).finish
    have hend := hskipped.reads.site_le (.inl rfl)
    have hstart := h.reads.ahead_le r.ahead_offset
    omega

theorem markRest_continues {rule : Rule} (hrule : rule.isSettable = false) :
    Continues site (Grammar.markRest Id rule) fun phrase r => phrase.markRest rule r :=
  fun _ _ _ _ _ h => (h.complain rule hrule).skipLine.finish

section Attempts

variable {rest : Parsing} {reading : Reading} {found missing : Filling}
  {foundReading missingReading : Phrase → Reader → Phrase × Reader}

theorem Agrees.attempt (h : Agrees site old id p phrase r) {read : Option Phrase × Reader}
    (hpart : MayAgree site p r (rest p) read) (hfound : Continues site found foundReading)
    (hmissing : Continues site missing missingReading) :
    Agrees site old id (Grammar.attempt Id rest found missing id p)
      (match read with
        | (some part, r) => foundReading (phrase.add part) r
        | (none, r) => missingReading phrase r).1
      (match read with
        | (some part, r) => foundReading (phrase.add part) r
        | (none, r) => missingReading phrase r).2 := by
  unfold Grammar.attempt
  generalize rest p = outcome at hpart ⊢
  cases hpart with
  | none => exact hmissing h
  | made hchild => exact hfound (h.adopt hchild)

theorem attempt_continues (hpart : Refines site rest reading) (hfound : Continues site found foundReading)
    (hmissing : Continues site missing missingReading) :
    Continues site (Grammar.attempt Id rest found missing) fun phrase r =>
      match reading r with
      | (some part, r) => foundReading (phrase.add part) r
      | (none, r) => missingReading phrase r := fun _ _ _ _ _ h => h.attempt (hpart h.reads) hfound hmissing

theorem require_continues (rule : Rule) (hrule : rule.isSettable = false) (hpart : Refines site rest reading)
    (hfound : Continues site found foundReading) :
    Continues site (Grammar.require Id rule rest found) fun phrase r =>
      match reading r with
      | (some part, r) => foundReading (phrase.add part) r
      | (none, r) => phrase.markRest rule r := attempt_continues hpart hfound (markRest_continues hrule)

end Attempts

theorem requireExpressions_continues (count : Nat) :
    Continues site (Grammar.requireExpressions Id count) (Reader.requireExpressions count) := by
  induction count with
  | zero => exact finishLine_continues
  | succ count ih => exact require_continues .expressionExpected rfl expression_refines ih

theorem requireName_continues (expressions : Nat) :
    Continues site (Grammar.requireName Id expressions) (Reader.requireName expressions) :=
  require_continues .variableNameExpected rfl variableName_refines (requireExpressions_continues expressions)

/-! ### Runs up to the next blank -/

/-- The next token is the run up to the next blank, in the place of the reader. -/
structure Recuts (site : Site) (r : Reader) (p : Parser) : Prop where
  offset : p.token.offset = site.line.start + r.offset
  text : p.token.text = r.run
  next : p.next.Reads site r.nextRun

theorem Stands.recut (h : p.Stands site r) (hrest : r.rest ≠ []) :
    ∃ q, p.recut = (true, q) ∧ q.tree = p.tree ∧ q.Recuts site r := by
  have hend : p.atEnd = false := by rwa [h.atEnd, ← Bool.not_eq_true, Reader.atEnd_iff]
  have hlayout : ¬p.token.kind.isLayout = true := by
    rcases h.cases with ⟨hnil, -, -⟩ | ⟨lexeme, left, hfirst, htoken, -⟩
    · exact absurd hnil hrest
    · rw [htoken, Bool.not_eq_true]
      exact Lexeme.isLayout_of_first? hfirst
  have hmode : p.scanner.cursor.mode = r.mode := by
    rcases h.cases with ⟨hnil, -, -⟩ | ⟨lexeme, left, -, -, hcursor⟩
    · exact absurd hnil hrest
    · rw [hcursor]
  have hrewind : p.scanner.rewind p.token p.scanner.cursor.mode = p.scanner.moveTo (site.cursor r) := by
    rw [Scanner.rewind, if_neg hlayout, h.position hrest, h.offset, hmode]
    rfl
  have hrun := site.scanRun_eq r.mode h.onSource h.place h.trimmed hrest
  have hsplit : r.rest = r.run ++ r.rest.dropWhile (!Text.isBlank ·) := List.takeWhile_append_dropWhile.symm
  let token : Token := .inSource site.source .unquotedString r.run (site.line.start + r.offset)
  let scanner := p.scanner.moveTo ⟨site.line.number, token.offset + Text.bytes r.run, true, r.mode⟩
  have hnext : ({ p with scanner, token } : Parser).next.Reads site r.nextRun :=
    h.advance hsplit (Reader.run_ne_nil h.trimmed hrest) (h.onSource.moveTo _) rfl rfl
  refine ⟨{ p with scanner, token }, ?_, rfl, rfl, rfl, hnext⟩
  rw [Parser.recut, hend, hrewind]
  exact congrArg (fun outcome : Token × Scanner =>
    (outcome.1.kind == .unquotedString, ({ p with scanner := outcome.2, token := outcome.1 } : Parser))) hrun

theorem Stands.not_recut (h : p.Stands site r) (hrest : r.rest = []) : p.recut = (false, p) := by
  rw [Parser.recut, h.atEnd, Reader.atEnd, hrest]
  rfl

theorem Recuts.holds_create (h : p.Recuts site r) (kind : Kind) :
    (p.create kind).2.tree.Holds site p.tree (.begin kind r) (p.create kind).1 := by
  rw [Parser.create, h.offset]
  exact Tree.holds_create h.next.source kind r.offset

theorem Recuts.retree (h : p.Recuts site r) {tree : Tree} (hsource : tree.source = site.source) :
    ({ p with tree } : Parser).Recuts site r := ⟨h.offset, h.text, h.next.retree hsource⟩

/-- The run becomes a node of its own. -/
theorem Recuts.leaf (h : p.Recuts site r) (kind : Kind) : Accords site p.tree (p.leaf kind) (r.leafRun kind) := by
  have hcreated : Agrees site p.tree (p.create kind).1 (p.create kind).2.next (.begin kind r) r.nextRun :=
    h.next.agrees (h.holds_create kind)
  exact hcreated.finish

/-- A run that has to be there is put into a node, or marked where it is missing. -/
theorem Agrees.requireRun (h : Agrees site old id p phrase r) {rule : Rule} (hrule : rule.isSettable = false)
    {found : Filling} {result : Phrase × Reader}
    (hfound : ∀ {q : Parser}, q.Recuts site r → q.tree.Holds site old phrase id →
      Agrees site old id (found id q) result.1 result.2) :
    Agrees site old id (Grammar.requireRun Id rule found id p)
      (if r.atEnd then phrase.markRest rule r else result).1 (if r.atEnd then phrase.markRest rule r else result).2 := by
  unfold Grammar.requireRun
  by_cases hrest : r.rest = []
  · rw [h.reads.not_recut hrest, if_pos (Reader.atEnd_iff.mpr hrest)]
    exact markRest_continues hrule h
  · obtain ⟨q, hrecut, htree, hq⟩ := h.reads.recut hrest
    rw [hrecut, if_neg (mt Reader.atEnd_iff.mp hrest)]
    exact hfound hq (htree ▸ h.holds)

/-! ### Arguments -/

theorem argument_agrees (h : p.Reads site r) (hrest : r.rest ≠ []) :
    MayAgree site p r (argument p) (some r.argument.1, r.argument.2) := by
  unfold argument Reader.argument
  rw [h.sees rfl, h.sees rfl]
  split
  · exact .made (h.toStands.stringValue hrest)
  · obtain ⟨q, hrecut, htree, hq⟩ := h.recut hrest
    rw [hrecut]
    dsimp only
    rw [hq.text]
    exact .made (htree ▸ hq.leaf _)

theorem argumentsWithin_continues (budget : Nat) :
    Continues site (Grammar.argumentsWithin Id budget) (Reader.argumentsWithin budget) := by
  induction budget with
  | zero => exact fun _ _ _ _ _ h => h
  | succ budget ih =>
      intro old id p phrase r h
      rw [Grammar.argumentsWithin, Course.counted_succ, Reader.argumentsWithin]
      rw [h.reads.atEnd]
      split
      · exact h
      · rename_i hend
        have hargument := argument_agrees h.reads (mt Reader.atEnd_iff.mpr hend)
        have hstay : Continues site (fun _ p => p) Prod.mk := fun _ _ _ _ _ h => h
        exact h.attempt hargument ih hstay

theorem arguments_continues : Continues site (Grammar.arguments Id) Reader.arguments := by
  intro old id p phrase r h
  unfold Grammar.arguments Reader.arguments
  rw [h.reads.budget]
  exact argumentsWithin_continues _ h

theorem expressionsWithin_continues (budget : Nat) :
    Continues site (Grammar.expressionsWithin Id budget) (Reader.expressionsWithin budget) := by
  induction budget with
  | zero => exact fun _ _ _ _ _ h => h
  | succ budget ih =>
      intro old id p phrase r h
      rw [Grammar.expressionsWithin, Course.counted_succ, Reader.expressionsWithin]
      rw [h.reads.atEnd]
      split
      · exact h
      · exact attempt_continues expression_refines ih finishLine_continues h

theorem finishArguments_continues (takes : Bool) :
    Continues site (Grammar.finishArguments Id takes) (Reader.finishArguments takes) := by
  intro old id p phrase r h
  unfold Grammar.finishArguments Reader.finishArguments
  cases takes with
  | false => exact finishLine_continues h
  | true =>
      rw [h.reads.budget]
      exact finishLine_continues (expressionsWithin_continues _ h)

/-! ### Forms of commands -/

theorem declaration_continues (kind : Declaration) :
    Continues site (Grammar.declaration Id kind) (Reader.declaration kind) := by
  have hmissing : Continues site
      (fun id p => if kind = .temp && p.atEnd then Grammar.finishLine Id id p
        else Grammar.markRest Id .expressionExpected id p)
      (fun phrase r => if kind = .temp && r.atEnd then phrase.finishLine r
        else phrase.markRest .expressionExpected r) := by
    intro old id p phrase r h
    dsimp only
    rw [h.reads.atEnd]
    split
    · exact finishLine_continues h
    · exact markRest_continues rfl h
  intro old id p phrase r h
  have hread := require_continues .variableNameExpected rfl variableName_refines
    (attempt_continues expression_refines finishLine_continues hmissing) h
  unfold Reader.declaration
  dsimp only at hread
  generalize Reader.variableName r = name at hread ⊢
  obtain ⟨_ | name, named⟩ := name
  · exact hread
  · dsimp only at hread ⊢
    generalize Reader.expression named = value at hread ⊢
    obtain ⟨_ | value, behind⟩ := value <;> exact hread

theorem labelDeclaration_continues : Continues site (Grammar.labelDeclaration Id) Reader.labelDeclaration := by
  intro old id p phrase r h
  exact h.requireRun rfl fun hq hholds => finishLine_continues ((hq.leaf .label).below hholds)

theorem jump_continues (takes : Bool) : Continues site (Grammar.jump Id takes) (Reader.jump takes) := by
  intro old id p phrase r h
  refine h.requireRun rfl fun hq hholds => ?_
  have hcreated := hq.holds_create .labelRef
  have hreference := ((hq.retree hcreated.source).leaf .label).below hcreated
  exact finishArguments_continues takes (hreference.below hholds)

/-- The reference to a label is made around the scene that was taken before it. -/
theorem Recuts.refer (h : p.Recuts site r) (hscene : p.tree.Holds site old part child) :
    Accords site old (refer child p)
      ((Phrase.around .labelRef part.start [part]).add (r.leafRun .label).1, (r.leafRun .label).2) := by
  obtain ⟨node, hnode, -, hoffset, -⟩ := hscene.node?
  have haround := hscene.around .labelRef part.start
  unfold Parser.refer
  dsimp only
  rw [hnode, Option.map_some, Option.getD_some, hoffset, Parser.createAt]
  dsimp only
  generalize p.tree.create .labelRef (site.line.start + part.start) = made at haround ⊢
  have hlabel := (h.retree haround.source).leaf .label
  rw [Parser.adopt]
  exact hlabel.below haround

theorem sceneJump_continues (takes : Bool) : Continues site (Grammar.sceneJump Id takes) (Reader.sceneJump takes) := by
  intro old id p phrase r h
  refine h.requireRun rfl fun {q} hq hholds => ?_
  have hscene := hq.leaf .sceneRef
  dsimp only
  by_cases hrest : (r.leafRun .sceneRef).2.rest = []
  · rw [hscene.reads.not_recut hrest, if_pos (Reader.atEnd_iff.mpr hrest)]
    exact finishArguments_continues takes (hscene.below hholds)
  · obtain ⟨s, hrecut, htree, hs⟩ := hscene.reads.recut hrest
    have hheld := hscene.holds
    rw [← htree] at hheld
    rw [hrecut, if_neg (mt Reader.atEnd_iff.mp hrest)]
    exact finishArguments_continues takes ((hs.refer hheld).below hholds)

theorem namesWithin_continues (budget : Nat) :
    Continues site (Grammar.namesWithin Id budget) (Reader.namesWithin budget) := by
  induction budget with
  | zero => exact fun _ _ _ _ _ h => h.finish
  | succ budget ih =>
      intro old id p phrase r h
      rw [Grammar.namesWithin, Course.counted_succ, Reader.namesWithin]
      rw [h.reads.atEnd]
      split
      · exact h.finish
      · exact require_continues .variableNameExpected rfl variableName_refines ih h

theorem names_continues : Continues site (fun id p => Grammar.namesWithin Id p.budget id p)
    fun phrase r => Reader.namesWithin r.budget phrase r := by
  intro old id p phrase r h
  dsimp only
  rw [h.reads.budget]
  exact namesWithin_continues _ h

/-- The target of an assignment is classified in a tree that has grown behind it. -/
theorem Agrees.assignedOperation (h : Agrees site old id p phrase r) {base : Nat}
    (htarget : p.tree.Has site.levels base (part.shift site.line.start)) (hopened : part.Opened) {op : Operator}
    (hop : r.operator? = some op) :
    Accords site p.tree (Grammar.assignedOperation Id ((part.shift site.line.start).idFrom base) op p)
      (Reader.assignedOperation part op r) := by
  have hcreated := h.reads.create (op.kind .unknown)
  have hsigned := hcreated.adopt (hcreated.reads.takeOperator (Reader.rest_ne_nil_of_operator? hop) op)
  have hfound := expression_refines hsigned.reads
  have hright := hsigned.adoptOr hfound .termExpected rfl
  have hlater := htarget.later hright.holds.stores
  have hoperand := operandWithin_eq (hopened.shift site.line.start) hlater hlater.size
  rw [Phrase.operand_shift] at hoperand
  have hwhole := (hright.setKind (op.kind (op.infer part.operand
    (Phrase.operand? (Reader.expression (r.takeOperator op).2).1)))).finish
  rw [← Phrase.addOr_setKind] at hwhole
  unfold Grammar.assignedOperation Reader.assignedOperation Parser.endOperation
  dsimp only [Course.bind_counted]
  rw [Parser.operand?, hoperand, hsigned.operand?_eq hfound (Reader.expression_values.types.opened _) hright
    (Phrase.addOr_before _ _ _ _) (Phrase.addOr_after _ _ _ _)]
  exact hwhole

theorem assignedValue_agrees (byReference : Bool) (h : Agrees site old id p phrase r) {base : Nat}
    (htarget : p.tree.Has site.levels base (part.shift site.line.start)) (hopened : part.Opened) :
    MayAgree site p r (Grammar.assignedValue Id byReference ((part.shift site.line.start).idFrom base) p)
      (Reader.assignedValue byReference part r) := by
  unfold Grammar.assignedValue Reader.assignedValue
  rw [h.reads.operator?]
  cases hop : r.operator?.filter fun op => op.opensAssignment && !byReference with
  | none => exact expression_refines h.reads
  | some op => exact .made (h.assignedOperation htarget hopened (Option.filter_eq_some_iff.mp hop).1)

theorem assignment_continues (byReference : Bool) :
    Continues site (Grammar.assignment Id byReference) (Reader.assignment byReference) := by
  intro old id p phrase r h
  have htarget : MayAgree site p r (Grammar.target Id byReference p)
      (if byReference then r.expression else r.assignable) := by
    cases byReference
    · exact assignable_refines h.reads
    · exact expression_refines h.reads
  have hopened : ∀ part ∈ (if byReference then r.expression else r.assignable).1, part.Opened := by
    cases byReference
    · exact Reader.assignable_types.opened r
    · exact Reader.expression_values.types.opened r
  unfold Grammar.assignment Reader.assignment
  dsimp only [Course.bind_counted]
  generalize Grammar.target Id byReference p = outcome at htarget ⊢
  generalize (if byReference then r.expression else r.assignable) = read at htarget hopened ⊢
  cases htarget with
  | none =>
      refine markRest_continues ?_ h
      cases byReference <;> rfl
  | made htarget =>
      have hadopted := h.adopt htarget
      obtain ⟨hhas, rfl⟩ := h.has_part htarget hadopted rfl rfl
      dsimp only
      rw [hadopted.reads.atEnd]
      split
      · exact (hadopted.complain .expressionExpected rfl).finish
      · exact hadopted.attempt (assignedValue_agrees byReference hadopted hhas (hopened _ rfl)) finishLine_continues
          (markRest_continues rfl)

end Gamebook.Parser
