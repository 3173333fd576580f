import Gamebook.Proofs.Grammar.Prose
import Gamebook.Proofs.Parser.Expression
import Gamebook.Proofs.Parser.Traceless

/-!
Prose by token and by lexeme. The words and constructs of prose are put into a node as the reading puts them
into its phrase; a construct that does not open is left to be read as prose.
-/

namespace Gamebook.Parser

variable {site : Site} {old : Tree} {p q : Parser} {r behind : Reader} {phrase part : Phrase} {id child : Nat}

/-- What the rule puts into a node is what the reading adds to its phrase. -/
def Continues (site : Site) (content : Nat → Parser → Parser) (reading : Phrase → Reader → Phrase × Reader) : Prop :=
  ∀ ⦃old : Tree⦄ ⦃id : Nat⦄ ⦃p : Parser⦄ ⦃phrase : Phrase⦄ ⦃r : Reader⦄, Agrees site old id p phrase r →
    Agrees site old id (content id p) (reading phrase r).1 (reading phrase r).2

theorem Reads.opensBrace (h : p.Reads site r) : p.opensBrace = r.opensBrace := by
  rw [Parser.opensBrace, Reader.opensBrace, h.sees rfl, h.followsDirectly]

theorem Agrees.bangs (h : Agrees site old id p phrase r) (budget : Nat) :
    (Grammar.bangs Id budget p).1 = (Reader.bangs budget r).1 ∧
      Agrees site old id (Grammar.bangs Id budget p).2 phrase (Reader.bangs budget r).2 := by
  induction budget generalizing p r with
  | zero => exact ⟨rfl, h⟩
  | succ budget ih =>
      rw [Grammar.bangs, Course.counted_succ, Reader.bangs]
      rw [h.reads.sees rfl, h.reads.followsDirectly]
      split
      · rename_i hbang
        rw [Bool.and_eq_true] at hbang
        obtain ⟨hcount, hmore⟩ := ih (h.next (Reader.rest_ne_nil_of_sees hbang.1))
        exact ⟨congrArg (· + 1) hcount, hmore⟩
      · exact ⟨rfl, h⟩

theorem Agrees.closeBrace (h : Agrees site old id p phrase r) :
    Agrees site old id ((Grammar.closeBrace Id id p).finish id) (Reader.closeBrace phrase r).1
      (Reader.closeBrace phrase r).2 := by
  unfold Grammar.closeBrace Reader.closeBrace
  rcases h.accepts .curlyR rfl with ⟨-, hp, hr, hnext⟩ | ⟨-, hp, hr⟩
  · rw [hp, hr]
    exact (hnext.switch .text).finish
  · rw [hp, hr]
    obtain ⟨-, hclosed⟩ := ((h.complain .rightCurlyExpected rfl).skipTo (· == .curlyR)).accept .curlyR rfl
    exact (hclosed.switch .text).finish

theorem replacement_agrees (h : p.Stands site r) (hrest : r.rest ≠ []) :
    MayAgree site p r (Grammar.replacement Id p) (Reader.replacement r) := by
  obtain ⟨hcount, hmarked⟩ := (h.begin hrest (.variableReplacement .none)).bangs r.rest.length
  have hback := (((p.follows_refl.create (.variableReplacement .none)).next).bangs r.rest.length).restore
  unfold Grammar.replacement Reader.replacement
  dsimp only [Course.bind_counted]
  rw [h.ahead, hcount, hback, hmarked.reads.opensBrace]
  cases Reader.foldOfBangs? (Reader.bangs r.rest.length r.next).1 with
  | none => exact .none
  | some fold =>
      dsimp only
      split
      · rename_i hbrace
        rw [Reader.opensBrace, Bool.and_eq_true] at hbrace
        have hopened := ((hmarked.setKind (.variableReplacement fold)).next
          (Reader.rest_ne_nil_of_sees hbrace.1)).switch .command
        exact .made (hopened.adoptOr (expression_refines hopened.reads) .expressionExpected rfl).closeBrace
      · exact .none

theorem branches_agrees {content : Nat → Parser → Parser} {reading : Phrase → Reader → Phrase × Reader}
    (hcontent : Continues site content reading) (budget : Nat) (h : Agrees site old id p phrase r) :
    (Grammar.branches Id content budget id p).1 = (Reader.branches reading budget phrase r).1 ∧
      Agrees site old id (Grammar.branches Id content budget id p).2 (Reader.branches reading budget phrase r).2.1
        (Reader.branches reading budget phrase r).2.2 := by
  induction budget generalizing p phrase r with
  | zero => exact ⟨rfl, h⟩
  | succ budget ih =>
      have hbranch := h.adopt (hcontent (h.reads.create .multiReplaceOption)).finish
      rw [Grammar.branches, Course.counted_succ, Reader.branches]
      dsimp only [Course.bind_counted] at hbranch ⊢
      rcases hbranch.accepts .pipe rfl with ⟨-, hp, hr, hnext⟩ | ⟨-, hp, hr⟩
      · rw [hp, hr]
        obtain ⟨hcount, hmore⟩ := ih hnext
        exact ⟨congrArg (· + 1) hcount, hmore⟩
      · rw [hp, hr]
        exact ⟨rfl, hbranch⟩

theorem multireplace_agrees {content : Nat → Parser → Parser} {reading : Phrase → Reader → Phrase × Reader}
    (hcontent : Continues site content reading) (budget : Nat) (h : p.Stands site r) (hrest : r.rest ≠ []) :
    MayAgree site p r (Grammar.multireplace Id budget content p) (Reader.multireplace budget reading r) := by
  have hsigned := h.begin hrest .multiReplace
  have hback := (p.follows_refl.create .multiReplace).next.restore
  unfold Grammar.multireplace Reader.multireplace
  dsimp only [Course.bind_counted]
  rw [hback, hsigned.reads.opensBrace]
  split
  · rename_i hbrace
    rw [Reader.opensBrace, Bool.and_eq_true] at hbrace
    have hopened := (hsigned.next (Reader.rest_ne_nil_of_sees hbrace.1)).switch .command
    have hselector := (hopened.adoptOr (term_refines hopened.reads) .expressionExpected rfl).switch .text
    obtain ⟨hcount, hbranches⟩ := branches_agrees hcontent budget hselector
    rw [hcount]
    split
    · exact .made (hbranches.flagWhole .notEnoughMultireplaceOptions).closeBrace
    · exact .made hbranches.closeBrace
  · exact .none

/-- What a part of prose makes is adopted, and what is no part of it passed over. -/
theorem adoptOrSkip_agrees {content : Nat → Parser → Parser} {reading : Phrase → Reader → Phrase × Reader}
    (hmore : Continues site content reading) (h : p.Stands site r) (hholds : p.tree.Holds site old phrase id)
    (hrest : r.rest ≠ []) {outcome : Option Nat × Parser} {found : Option Phrase × Reader} :
    MayAgree site p r outcome found → Agrees site old id
      (match outcome with
      | (some part, p) => content id (p.adopt id part)
      | (none, p) => content id p.next)
      (match found with
      | (some part, r) => reading (phrase.add part) r
      | (none, r) => reading phrase r.next).1
      (match found with
      | (some part, r) => reading (phrase.add part) r
      | (none, r) => reading phrase r.next).2 := by
  intro hpart
  cases hpart with
  | none => exact hmore ⟨h.next hrest, hholds⟩
  | made hpart => exact hmore (hpart.below hholds)

theorem Stands.prosePart {budget : Nat}
    (hcontent : Continues site (Grammar.proseWithin Id budget Reader.endsBranch)
      (Reader.proseWithin budget Reader.endsBranch)) (h : p.Stands site r) (hrest : r.rest ≠ []) :
    MayAgree site p r (Grammar.prosePart Id budget (Grammar.proseWithin Id budget Reader.endsBranch) p)
      (Reader.prosePart budget p.token.kind r) := by
  unfold Grammar.prosePart Reader.prosePart
  generalize p.token.kind = kind
  cases kind with
  | word => exact .made (h.leaf hrest .realWord)
  | dollar => exact replacement_agrees h hrest
  | atSign => exact multireplace_agrees hcontent budget h hrest
  | _ => exact .none

/-- A token of prose is taken, with the construct that it opens, after which the rest is read. -/
theorem proseWithin_begins {budget : Nat} {ends : TokenKind → Bool}
    (hmore : ∀ ends, Continues site (Grammar.proseWithin Id budget ends) (Reader.proseWithin budget ends))
    (h : p.Stands site r) (hholds : p.tree.Holds site old phrase id) (hrest : r.rest ≠ [])
    (hends : ends p.token.kind = false) :
    Agrees site old id (Grammar.proseWithin Id (budget + 1) ends id p) (Reader.proseWithin (budget + 1) ends phrase r).1
      (Reader.proseWithin (budget + 1) ends phrase r).2 := by
  have hend : p.atEnd = false := by
    rw [h.atEnd, ← Bool.not_eq_true, Reader.atEnd_iff]
    exact hrest
  rw [Grammar.proseWithin_succ, Reader.proseWithin_succ]
  simp only [h.kind?, hend, hends, Bool.or_self, Bool.false_eq_true, if_false]
  exact adoptOrSkip_agrees (hmore ends) h hholds hrest (h.prosePart (hmore Reader.endsBranch) hrest)

theorem proseWithin_continues (budget : Nat) (ends : TokenKind → Bool) :
    Continues site (Grammar.proseWithin Id budget ends) (Reader.proseWithin budget ends) := by
  induction budget generalizing ends with
  | zero => exact fun _ _ _ _ _ h => h
  | succ budget ih =>
      intro old id p phrase r h
      by_cases hrest : r.rest = []
      · have hend : p.atEnd = true := by rw [h.reads.atEnd, Reader.atEnd_iff, hrest]
        rw [Grammar.proseWithin_succ, Reader.proseWithin_succ]
        simp only [h.reads.kind?, hend, Bool.true_or, if_true]
        exact h
      · by_cases hends : ends p.token.kind = true
        · have hend : p.atEnd = false := by rwa [h.reads.atEnd, ← Bool.not_eq_true, Reader.atEnd_iff]
          rw [Grammar.proseWithin_succ, Reader.proseWithin_succ]
          simp only [h.reads.kind?, hend, hends, Bool.or_true, if_true, Bool.false_eq_true, if_false]
          exact h
        · exact proseWithin_begins ih h.reads.toStands h.holds hrest (Bool.not_eq_true _ ▸ hends)

theorem prose_continues : Continues site (Grammar.prose Id) Reader.prose := by
  intro old id p phrase r h
  unfold Grammar.prose Reader.prose
  rw [h.reads.budget]
  exact (proseWithin_continues r.budget (fun _ => false) h).finish

/-- Prose at the beginning of a line. -/
theorem prose_begins (h : p.Stands site r) (hholds : p.tree.Holds site old phrase id) (hrest : r.rest ≠ []) :
    Agrees site old id (Grammar.prose Id id p) (Reader.prose phrase r).1 (Reader.prose phrase r).2 := by
  unfold Grammar.prose Reader.prose
  rw [h.budget]
  exact (proseWithin_begins (proseWithin_continues r.rest.length) h hholds hrest rfl).finish

/-! ### Options -/

/-- The text of an option behind its number sign, which may begin the line. -/
theorem optionText_begins (h : p.Stands site r) (hholds : p.tree.Holds site old phrase id) (hhash : r.sees .hash = true) :
    Agrees site old id (Grammar.optionText Id id p) (Reader.optionText phrase r).1 (Reader.optionText phrase r).2 := by
  unfold Grammar.optionText Reader.optionText
  rcases h.accept .hash rfl with ⟨-, hp, hr, hnext⟩ | ⟨hsees, -, -⟩
  · rw [hp, hr]
    have hopened : Agrees site old id p.next phrase r.next := ⟨hnext, hholds⟩
    exact prose_continues (hopened.switch .text)
  · rw [hhash] at hsees
    cases hsees

/-- The nodes of the modifiers that were found are those of the phrases that were read. -/
structure Modify (site : Site) (old : Tree) (found : Modifiers) (p : Parser) (read : Reader.Modifiers) (r : Reader) :
    Prop where
  stands : p.Stands site r
  nodes : p.tree.HoldsAll site old read.phrases found.nodes
  reuse : found.reuse = read.reuse
  conditional : found.conditional = read.conditional

theorem modifiersWithin_agrees (budget : Nat) {found : Modifiers} {read : Reader.Modifiers}
    (h : Modify site old found p read r) :
    ((Grammar.modifiersWithin Id budget found p).1 = none ∧ Reader.modifiersWithin budget read r = none) ∨
      ∃ all behind, (Grammar.modifiersWithin Id budget found p).1 = some all ∧
        ∃ reading, Reader.modifiersWithin budget read r = some (reading, behind) ∧
          Modify site old all (Grammar.modifiersWithin Id budget found p).2 reading behind := by
  induction budget generalizing p r found read with
  | zero => exact .inr ⟨found, r, rfl, read, rfl, h⟩
  | succ budget ih =>
      rw [Grammar.modifiersWithin_succ, Reader.modifiersWithin, h.stands.sees rfl]
      by_cases hasterisk : r.sees .asterisk = true
      · have hname := h.stands.next (Reader.rest_ne_nil_of_sees hasterisk)
        rw [if_pos hasterisk, if_pos hasterisk]
        unfold Grammar.modifier
        dsimp only
        rw [hname.ident Command.isOptionModifier]
        by_cases hmodifier : (r.next.sees .ident && Command.isOptionModifier r.next.word) = true
        · rw [if_pos hmodifier, if_pos hmodifier]
          rw [Bool.and_eq_true] at hmodifier
          have hrest := Reader.rest_ne_nil_of_sees hmodifier.1
          have hend : r.next.atEnd = false := by rw [← Bool.not_eq_true, Reader.atEnd_iff]; exact hrest
          have hnamed := ((hname.createAt (.standardCommand r.next.word) r.offset).next hrest).finish
          rw [hname.word hend, h.stands.offset]
          unfold Grammar.modifierMeaning
          cases Reader.reuseOf? r.next.word with
          | some reuse =>
              dsimp only [Course.bind_counted, Course.pure_counted]
              exact ih ⟨hnamed.reads.toStands, h.nodes.snoc hnamed.holds, rfl, h.conditional⟩
          | none =>
              dsimp only [Course.bind_counted]
              have hcondition := expression_refines hnamed.reads
              generalize Grammar.expression Id _ = outcome at hcondition ⊢
              generalize Reader.expression _ = condition at hcondition ⊢
              cases hcondition with
              | none => exact .inl ⟨rfl, rfl⟩
              | made hcondition =>
                  have hadopted := hnamed.adopt hcondition
                  exact ih ⟨hadopted.reads.toStands, h.nodes.snoc hadopted.holds, h.reuse, rfl⟩
        · rw [if_neg hmodifier, if_neg hmodifier]
          exact .inl ⟨rfl, rfl⟩
      · rw [if_neg hasterisk, if_neg hasterisk]
        exact .inr ⟨found, r, rfl, read, rfl, h⟩

theorem foldl_adopt (nodes : List Nat) (id : Nat) (p : Parser) : nodes.foldl (fun q node => q.adopt id node) p =
    { p with tree := nodes.foldl (fun tree child => tree.adopt id child none) p.tree } := by
  induction nodes generalizing p with
  | nil => rfl
  | cons node more ih => rw [List.foldl_cons, ih, List.foldl_cons, tree_adopt, Parser.adopt]

theorem modifiedOption_agrees (context : Context) (h : p.Stands site r) :
    MayAgree site p r (Grammar.modifiedOption Id context p)
      ((Reader.modifiedOption context r).1.map (·.phrase), (Reader.modifiedOption context r).2) := by
  have hback := (p.follows_refl.modifiersWithin r.budget (show ∀ node ∈ ({} : Modifiers).nodes, _ from nofun)).1.restore
  have hnone : Modify site p.tree {} p {} r := ⟨h, Tree.holdsAll_nil h.source, rfl, rfl⟩
  have hmodifiers := modifiersWithin_agrees r.budget hnone
  unfold Grammar.modifiedOption Reader.modifiedOption
  rw [h.budget]
  generalize Grammar.modifiersWithin Id r.budget {} p = outcome at hback hmodifiers ⊢
  obtain ⟨found, q⟩ := outcome
  rcases hmodifiers with ⟨rfl, hread⟩ | ⟨all, behind, rfl, reading, hread, hall⟩
  · rw [hread]
    dsimp only [Course.bind_counted] at hback ⊢
    rw [hback]
    exact .none
  · rw [hread]
    dsimp only [Course.bind_counted] at hback hall ⊢
    rw [hall.stands.sees rfl]
    by_cases hhash : behind.sees .hash = true
    · rw [if_pos hhash, if_pos hhash, h.offset, hall.reuse, hall.conditional, foldl_adopt]
      have haround := hall.nodes.around (.choiceOption reading.reuse reading.conditional) r.offset
      have htext := optionText_begins (hall.stands.retree haround.source) haround hhash
      dsimp only
      rw [hall.stands.offset]
      by_cases hcontext : context = .choice
      · rw [if_pos hcontext, if_pos hcontext]
        exact .made htext
      · rw [if_neg hcontext, if_neg hcontext]
        exact .made (htext.flag rfl (.inl (hall.stands.succ_le (Reader.rest_ne_nil_of_sees hhash))))
    · rw [if_neg hhash, if_neg hhash, hback]
      exact .none

end Gamebook.Parser
