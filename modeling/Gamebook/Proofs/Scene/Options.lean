import Gamebook.Proofs.Scene.Roles
import Gamebook.Proofs.Tree.Inside

/-!
Options where they belong. While a scene is read, a line is told by the block around it whether it is to be an
option of a choice; here the same is read off the finished tree, from the nodes above the line. What is marked as
out of place is so by where it stands in the tree, and a choice is marked as without options if there is none
anywhere below it.

An option belongs to the nearest choice above it, and a choice is meant to be marked if no option belongs to it.
It is not where a choice inside it has an option.
-/

namespace Gamebook

namespace Tree

def Carries (tree : Tree) (rule : Rule) (id : Nat) : Prop := ∃ marker ∈ tree.issues id, marker.rule = rule

def OnLine (tree : Tree) (id : Nat) : Prop := ∃ kind ∈ tree.kind? id, kind.isLine = true

def IsOption (tree : Tree) (id : Nat) : Prop :=
  ∃ reuse conditional, tree.kind? id = some (.choiceOption reuse conditional)

def IsChoice (tree : Tree) (id : Nat) : Prop := ∃ fake, tree.kind? id = some (.choiceCommand fake)

/-- A line stands where a choice has its options: its parent is a choice, or a conditional on a line that stands
there. -/
inductive InChoice (tree : Tree) : Nat → Prop
  | choice {id above : Nat} (hparent : tree.parent? id = some above) (hchoice : tree.IsChoice above) :
      InChoice tree id
  | conditional {id above outer : Nat} {name : String} (hparent : tree.parent? id = some above)
      (hkind : tree.kind? above = some (.standardCommand name)) (hname : name ∈ ["if", "elseif", "elsif", "else"])
      (houter : tree.parent? above = some outer) (hline : tree.OnLine outer) (h : InChoice tree outer) :
      InChoice tree id

end Tree

namespace Phrase

variable {levels : Levels} {source : Text} {phrase : Phrase} {entry above inner : TreeEntry}

/-- A node is marked as its phrase is, unless the rule is switched off. -/
theorem carries_toTree {rule : Rule} (hlevel : levels.of rule ≠ .ignore) (hentry : entry ∈ phrase.entries none 0) :
    (phrase.toTree levels source).Carries rule entry.id ↔ ∃ issue ∈ entry.phrase.issues, issue.rule = rule := by
  have hissues : (phrase.toTree levels source).issues entry.id =
      entry.phrase.issues.filterMap (·.marker? levels entry.id) := by
    rw [Tree.issues, node?_toTree levels source hentry]
    rfl
  rw [Tree.Carries, hissues]
  constructor
  · rintro ⟨marker, hmarker, rfl⟩
    obtain ⟨issue, hissue, hfound⟩ := List.mem_filterMap.mp hmarker
    exact ⟨issue, hissue, by rw [Issue.eq_of_marker? hfound]; rfl⟩
  · rintro ⟨issue, hissue, rfl⟩
    exact ⟨_, List.mem_filterMap.mpr ⟨issue, hissue, by rw [Issue.marker?, if_neg hlevel]⟩, rfl⟩

/-- The ancestors of a node are those that it is inside of. -/
theorem mem_ancestors_iff (hentry : entry ∈ phrase.entries none 0) (hinner : inner ∈ phrase.entries none 0) :
    entry.id ∈ (phrase.toTree levels source).ancestors inner.id ↔ inner ∈ entry.below := by
  have hsubset : entry.inside ⊆ phrase.entries none 0 := @TreeEntry.inside_subset _ ⟨0, none, phrase⟩ hentry
  refine entries_induction_on (motive := fun inner =>
    entry.id ∈ (phrase.toTree levels source).ancestors inner.id ↔ inner ∈ entry.below) hinner ?_ ?_
  · have htop : TreeEntry.id ⟨0, none, phrase⟩ = phrase.idFrom 0 := rfl
    rw [htop, ancestors_top]
    refine ⟨fun hmem => absurd hmem List.not_mem_nil, fun hbelow => ?_⟩
    have hback : entry ∈ (⟨0, none, phrase⟩ : TreeEntry).inside := hentry
    rcases TreeEntry.mem_inside_iff.mp hback with rfl | hback
    · exact absurd hbelow (TreeEntry.not_mem_below_self _)
    · exact absurd hback (TreeEntry.not_mem_below_of_mem_below hbelow)
  · intro above habove ih part hpart
    rw [ancestors_part habove hpart, List.mem_cons, ih]
    constructor
    · rintro (hsame | hbelow)
      · rw [entry_eq_of_id_eq hentry habove hsame]
        exact TreeEntry.mem_below_of_mem_parts hpart
      · exact TreeEntry.mem_below_of_mem_inside
          (TreeEntry.mem_inside_iff.mpr (.inr (TreeEntry.mem_below_of_mem_parts hpart))) hbelow
    · intro hbelow
      have hinside : part ∈ entry.inside := TreeEntry.mem_inside_iff.mpr (.inr hbelow)
      rcases exists_parent hinside with rfl | ⟨holder, hholder, hin⟩
      · exact absurd hbelow (TreeEntry.not_mem_below_self _)
      · rw [holder_unique habove (hsubset hholder) hpart hin]
        exact (TreeEntry.mem_inside_iff.mp hholder).imp (congrArg TreeEntry.id ·.symm) id

theorem parent?_part (habove : above ∈ phrase.entries none 0) (hinner : inner ∈ above.parts) :
    (phrase.toTree levels source).parent? inner.id = some above.id := by
  rw [parent?_toTree levels source (parts_subset_entries none 0 phrase above habove hinner),
    TreeEntry.parent_of_mem_parts hinner]

theorem onLine_toTree (hentry : entry ∈ phrase.entries none 0) :
    (phrase.toTree levels source).OnLine entry.id ↔ entry.phrase.kind.isLine = true := by
  rw [Tree.OnLine, kind?_toTree levels source hentry]
  simp

theorem isOption_toTree (hentry : entry ∈ phrase.entries none 0) :
    (phrase.toTree levels source).IsOption entry.id ↔ entry.phrase.kind.isOption = true := by
  rw [Tree.IsOption, kind?_toTree levels source hentry]
  cases entry.phrase.kind <;> simp [Kind.isOption]

theorem isChoice_toTree (hentry : entry ∈ phrase.entries none 0) :
    (phrase.toTree levels source).IsChoice entry.id ↔ entry.phrase.kind.isChoice = true := by
  rw [Tree.IsChoice, kind?_toTree levels source hentry]
  cases entry.phrase.kind <;> simp [Kind.isChoice]

/-- Whether a line stands among the options of a choice shows in the statement that it is in. -/
theorem inChoice_part_iff (habove : above ∈ phrase.entries none 0) (hinner : inner ∈ above.parts) :
    (phrase.toTree levels source).InChoice inner.id ↔ above.phrase.kind.isChoice = true ∨
      above.phrase.kind.isConditional = true ∧ ∃ outer ∈ phrase.entries none 0, above ∈ outer.parts ∧
        outer.phrase.kind.isLine = true ∧ (phrase.toTree levels source).InChoice outer.id := by
  have hparent := @parent?_part levels source phrase above inner habove hinner
  constructor
  · intro h
    cases h with
    | choice hup hchoice =>
        obtain rfl : above.id = _ := Option.some.inj (hparent.symm.trans hup)
        exact .inl ((isChoice_toTree habove).mp hchoice)
    | @conditional _ _ outer _ hup hkind hname houter hline hchoice =>
        obtain rfl : above.id = _ := Option.some.inj (hparent.symm.trans hup)
        rw [kind?_toTree levels source habove, Option.some.injEq] at hkind
        have hconditional : above.phrase.kind.isConditional = true := by
          rw [hkind]
          exact List.contains_iff_mem.mpr hname
        rcases exists_parent habove with rfl | ⟨holder, hholder, hin⟩
        · rw [parent?_toTree levels source habove] at houter
          cases houter
        · obtain rfl : holder.id = outer := Option.some.inj ((parent?_part hholder hin).symm.trans houter)
          exact .inr ⟨hconditional, holder, hholder, hin, (onLine_toTree hholder).mp hline, hchoice⟩
  · rintro (hchoice | ⟨hconditional, outer, houter, hin, hline, hchoice⟩)
    · exact .choice hparent ((isChoice_toTree habove).mpr hchoice)
    · have hname : ∃ name ∈ Command.conditionals, above.phrase.kind = .standardCommand name := by
        cases hkind : above.phrase.kind <;> rw [hkind] at hconditional <;>
          first | exact ⟨_, List.contains_iff_mem.mp hconditional, rfl⟩ | cases hconditional
      obtain ⟨name, hmem, hkind⟩ := hname
      exact .conditional hparent (by rw [kind?_toTree levels source habove, hkind]) hmem (parent?_part houter hin)
        ((onLine_toTree houter).mpr hline) hchoice

end Phrase

namespace Scene

open Role (Of)

variable {source : Text} {name uri : Option String} {levels : Levels} {entry above : TreeEntry}

/-- What the context of a line says of its node, and of the line of its statement. -/
def Role.Agrees (levels : Levels) (source : Text) (name uri : Option String) (entry : TreeEntry) : Role → Prop
  | .line context _ _ => (parse source name uri levels).InChoice entry.id ↔ context = .choice
  | .statement context _ _ _ => ∃ above ∈ (Scene.phrase source name uri).entries none 0, entry ∈ above.parts ∧
      above.phrase.kind.isLine = true ∧ ((parse source name uri levels).InChoice above.id ↔ context = .choice)
  | _ => True

/-- A line is read among the options of a choice if it stands there in the tree. -/
theorem agrees_of {role : Role} (h : Of source name uri entry role) : role.Agrees levels source name uri entry := by
  induction h with
  | scene => trivial
  | @part above part outer inner habove hentry hpart hholds hphrase ih =>
      cases hholds with
      | top _ =>
          rw [Role.Agrees, parse, Phrase.inChoice_part_iff hentry hpart, habove.phrase_eq]
          constructor
          · rintro (hchoice | ⟨hconditional, _⟩)
            · cases hchoice
            · cases hconditional
          · rintro ⟨⟩
      | indentation _ => trivial
      | statement _ =>
          refine ⟨above, hentry, hpart, ?_, ih⟩
          rw [habove.kind_line]
          rfl
      | @block context inner line lower more lowers statement hopens _ =>
          obtain ⟨hlines, hfound⟩ := habove.proper
          obtain ⟨holder, hholder, hin, hline, hiff⟩ := ih
          have hfitted := (Reader.statement_fitted _ _ _ hfound).opens inner hopens
          rw [Role.Agrees, hfitted, parse, Phrase.inChoice_part_iff hentry hpart, habove.kind_statement]
          refine or_congr_right (and_congr_right fun _ => ⟨?_, fun hcontext => ?_⟩)
          · rintro ⟨other, hother, hinother, _, hchoice⟩
            rw [Phrase.holder_unique hother hholder hinother hin] at hchoice
            exact hiff.mp hchoice
          · exact ⟨holder, hholder, hin, hline, hiff.mpr hcontext⟩
      | part _ => trivial
      | deeper _ => trivial

/-! ### What is out of place -/

/-- Apart from missing options, a statement in the tree is marked as it was when it was read. -/
theorem filter_issues_stated {context : Context} {line : Line} {more : List Line} {statement : Statement} {rule : Rule}
    (h : Of source name uri entry (.statement context line more statement)) (hrule : rule ≠ .noChoiceOptions) :
    entry.phrase.issues.filter (·.rule == rule) =
      (statement.phrase.issues.filter (·.rule == rule)).map (·.shift line.start) := by
  have hown : (line.withBlock (block source context line more) statement).issues.filter (·.rule == rule) =
      (statement.phrase.issues.filter (·.rule == rule)).map (·.shift line.start) := by
    have hissues : (line.withBlock (block source context line more) statement).issues =
        statement.phrase.issues.map (·.shift line.start) := Phrase.shift_issues _ _
    rw [hissues, List.filter_map]
    rfl
  rw [h.phrase_eq, Role.phrase]
  rcases line.stated_eq (block source context line more) statement with heq | ⟨_, _, heq⟩
  · rw [heq, hown]
  · rw [heq, Phrase.flag_issues, List.filter_append, hown]
    simp [hrule.symm]

theorem exists_issue_stated {context : Context} {line : Line} {more : List Line} {statement : Statement} {rule : Rule}
    (h : Of source name uri entry (.statement context line more statement)) (hrule : rule ≠ .noChoiceOptions) :
    (∃ issue ∈ entry.phrase.issues, issue.rule = rule) ↔ ∃ issue ∈ statement.phrase.issues, issue.rule = rule := by
  have hmarked : ∀ issues : List Issue, (∃ issue ∈ issues, issue.rule = rule) ↔ issues.filter (·.rule == rule) ≠ [] := by
    simp [List.filter_eq_nil_iff]
  rw [hmarked, hmarked, filter_issues_stated h hrule, ne_eq, List.map_eq_nil_iff]

/-- What is marked as out of place is a statement. -/
theorem exists_statement_of_issue {role : Role} (h : Of source name uri entry role) {issue : Issue}
    (hissue : issue ∈ entry.phrase.issues) (hrule : issue.rule.isPlacement = true) :
    ∃ context line more statement, role = .statement context line more statement := by
  cases role with
  | scene =>
      rw [h.phrase_eq] at hissue
      cases hissue
  | line context line more =>
      rw [h.issues_line] at hissue
      cases hissue
  | indentation own =>
      rw [h.indentation.2.2 issue hissue] at hrule
      cases hrule
  | statement context line more statement => exact ⟨context, line, more, statement, rfl⟩
  | part line statement own =>
      rw [h.phrase_eq, Role.phrase, Phrase.shift_issues] at hissue
      obtain ⟨bare, hbare, rfl⟩ := List.mem_map.mp hissue
      have hrule : bare.rule.isPlacement = true := hrule
      have hinner := Rule.isLocal_of_isInner (h.genuine.1.issues bare hbare)
      rw [Rule.isLocal, hrule] at hinner
      cases hinner

/-- What is of no kind that stands inside statements is a statement. -/
theorem exists_statement_of_kind {role : Role} (h : Of source name uri entry role)
    (hcontent : entry.phrase.kind.isContent = true) (hpart : entry.phrase.kind.isPart = false) :
    ∃ context line more statement, role = .statement context line more statement := by
  cases role with
  | scene =>
      rw [h.phrase_eq] at hcontent
      cases hcontent
  | line context line more =>
      rw [h.kind_line] at hcontent
      cases hcontent
  | indentation own =>
      rw [h.indentation.1] at hcontent
      cases hcontent
  | statement context line more statement => exact ⟨context, line, more, statement, rfl⟩
  | part line statement own =>
      rw [h.phrase_eq, Role.phrase, Phrase.shift_kind, h.genuine.2.here.kind] at hpart
      cases hpart

/-- What is a line in the tree was read as one. -/
theorem exists_line_of_isLine {role : Role} (h : Of source name uri entry role)
    (hline : entry.phrase.kind.isLine = true) : ∃ context line more, role = .line context line more := by
  cases role with
  | scene =>
      rw [h.phrase_eq] at hline
      cases hline
  | line context line more => exact ⟨context, line, more, rfl⟩
  | indentation own =>
      rw [h.indentation.2.1] at hline
      cases hline
  | statement context line more statement =>
      rw [Kind.isLine_of_isContent h.isContent_statement] at hline
      cases hline
  | part line statement own =>
      rw [h.phrase_eq, Role.phrase, Phrase.shift_kind,
        Kind.isLine_of_isContent (Kind.isContent_of_isPart h.genuine.2.here.kind)] at hline
      cases hline

/-- The statement of a line, by the tree: what hangs below a line and is no indentation. -/
theorem of_statement_of_parent (habove : above ∈ (phrase source name uri).entries none 0)
    (hline : above.phrase.kind.isLine = true) (hentry : entry ∈ above.parts) (hkind : entry.phrase.kind.isContent = true) :
    ∃ context line more statement, Of source name uri entry (.statement context line more statement) := by
  obtain ⟨role, hrole⟩ := Role.exists_of (Phrase.parts_subset_entries none 0 _ above habove hentry)
  cases hrole with
  | scene =>
      have := TreeEntry.parent_of_mem_parts hentry
      cases this
  | @part holder _ outer inner hholder hmem hin hholds hphrase =>
      obtain rfl := Phrase.holder_unique hmem habove hin hentry
      obtain ⟨context, line, more, rfl⟩ := exists_line_of_isLine hholder hline
      cases hholds with
      | indentation hmargin =>
          have hrole : Of source name uri entry (.indentation _) :=
            .part hholder hmem hin (.indentation hmargin) hphrase
          rw [hrole.indentation.1] at hkind
          cases hkind
      | statement hfound => exact ⟨_, _, _, _, .part hholder hmem hin (.statement hfound) hphrase⟩

end Scene

namespace Tree

/-- Where options are expected and where they are found, as the nodes above a line say: an option is marked if its
line is not among the options of a choice, and everything else but comments and conditionals is marked if its line
is. Nothing but statements is marked so. -/
structure OptionsPlaced (tree : Tree) : Prop where
  option : ∀ id, tree.IsOption id → ∃ line, tree.parent? id = some line ∧ tree.OnLine line ∧
    (tree.Carries .optionOutsideChoice id ↔ ¬tree.InChoice line)
  statement : ∀ id line kind, tree.parent? id = some line → tree.OnLine line → tree.kind? id = some kind →
    kind.isContent = true → (tree.Carries .choiceOptionExpected id ↔ tree.InChoice line ∧ ¬tree.IsOption id ∧
      kind ≠ .comment ∧ ∀ name ∈ ["if", "elseif", "elsif", "else"], kind ≠ .standardCommand name)
  onlyOptions : ∀ id, tree.Carries .optionOutsideChoice id → tree.IsOption id
  onlyStatements : ∀ id, tree.Carries .choiceOptionExpected id → ∃ line kind, tree.parent? id = some line ∧
    tree.OnLine line ∧ tree.kind? id = some kind ∧ kind.isContent = true

/-- Choices without options are marked: those below which there is no option, and nothing else. If no option is in
a choice inside of it, a choice is marked just if it is the nearest choice above no option. -/
structure ChoicesMarked (tree : Tree) : Prop where
  choice : ∀ id, tree.IsChoice id → (tree.Carries .noChoiceOptions id ↔
    ∀ option, tree.IsOption option → id ∉ tree.ancestors option)
  only : ∀ id, tree.Carries .noChoiceOptions id → tree.IsChoice id
  nearest : ∀ id, tree.IsChoice id →
    (∀ option, tree.IsOption option → id ∈ tree.ancestors option → tree.ancestorWhere? option Kind.isChoice = some id) →
    (tree.Carries .noChoiceOptions id ↔
      ∀ option, tree.IsOption option → tree.ancestorWhere? option Kind.isChoice ≠ some id)

end Tree

namespace Scene

open Role (Of)

variable {source : Text} {name uri : Option String} {levels : Levels} {entry : TreeEntry} {context : Context}
  {line : Line} {more : List Line} {statement : Statement}

/-- The conditions of being out of place, with the line of a statement. -/
theorem exists_line_of_statement (levels : Levels) (hentry : entry ∈ (phrase source name uri).entries none 0)
    (h : Of source name uri entry (.statement context line more statement)) :
    ∃ above, (parse source name uri levels).parent? entry.id = some above ∧
      (parse source name uri levels).OnLine above ∧
      ((parse source name uri levels).Carries .optionOutsideChoice entry.id ↔ entry.phrase.kind.isOption = true ∧
        ¬(parse source name uri levels).InChoice above) ∧
      ((parse source name uri levels).Carries .choiceOptionExpected entry.id ↔
        (parse source name uri levels).InChoice above ∧ Reader.belongsInChoice entry.phrase.kind = false) := by
  obtain ⟨above, habove, hin, hline, hiff⟩ := @agrees_of source name uri levels entry _ h
  have hfitted := Reader.statement_fitted _ _ _ h.proper.2
  refine ⟨above.id, Phrase.parent?_part habove hin, (Phrase.onLine_toTree habove).mpr hline, ?_, ?_⟩
  · rw [parse, Phrase.carries_toTree (by simp [Levels.of]) hentry, exists_issue_stated h (by simp), hfitted.misplaced,
      h.kind_statement]
    exact and_congr_right fun _ => not_congr hiff.symm
  · rw [parse, Phrase.carries_toTree (by simp [Levels.of]) hentry, exists_issue_stated h (by simp), hfitted.unfit,
      h.kind_statement]
    exact and_congr_left fun _ => hiff.symm

theorem exists_entry_of_kind? {id : Nat} {kind : Kind} (h : (parse source name uri levels).kind? id = some kind) :
    ∃ entry ∈ (phrase source name uri).entries none 0, entry.id = id ∧ entry.phrase.kind = kind := by
  obtain ⟨node, hnode, rfl⟩ := Option.map_eq_some_iff.mp h
  obtain ⟨entry, hentry, rfl, rfl⟩ := Phrase.exists_entry_of_node? hnode
  exact ⟨entry, hentry, rfl, rfl⟩

/-- What hangs below a line in the tree, and is no indentation, is the statement of that line. -/
theorem exists_statement_below {above : Nat} (hentry : entry ∈ (phrase source name uri).entries none 0)
    (hparent : (parse source name uri levels).parent? entry.id = some above)
    (hline : (parse source name uri levels).OnLine above) (hkind : entry.phrase.kind.isContent = true) :
    ∃ context line more statement, Of source name uri entry (.statement context line more statement) ∧
      (parse source name uri levels).kind? above = some (.line line.number line.width line.type) := by
  obtain ⟨kind, hlinekind, hisline⟩ := hline
  obtain ⟨top, htop, rfl, rfl⟩ := exists_entry_of_kind? hlinekind
  rcases Phrase.exists_parent hentry with rfl | ⟨holder, hholder, hin⟩
  · cases hkind
  · have hsame : holder = top := by
      refine Phrase.entry_eq_of_id_eq hholder htop ?_
      exact Option.some.inj ((Phrase.parent?_part hholder hin).symm.trans hparent)
    subst hsame
    obtain ⟨context, line, more, statement, hrole⟩ := of_statement_of_parent htop hisline hin hkind
    refine ⟨context, line, more, statement, hrole, ?_⟩
    cases hrole with
    | part habove hmem hpart hholds _ =>
        obtain rfl := Phrase.holder_unique hmem htop hpart hin
        cases hholds with
        | statement _ => rw [hlinekind, habove.kind_line]

theorem exists_entry_of_carries {rule : Rule} {id : Nat} (h : (parse source name uri levels).Carries rule id) :
    ∃ entry ∈ (phrase source name uri).entries none 0, entry.id = id := by
  obtain ⟨marker, hmarker, _⟩ := h
  rw [Tree.issues] at hmarker
  cases hnode : (parse source name uri levels).node? id with
  | none =>
      rw [hnode] at hmarker
      cases hmarker
  | some node =>
      obtain ⟨entry, hentry, hid, _⟩ := Phrase.exists_entry_of_node? hnode
      exact ⟨entry, hentry, hid⟩

/-- What is marked for the place where it stands, or for the options that it does not have, is a statement. -/
theorem exists_statement_of_carries {rule : Rule} {id : Nat} (hplacement : rule.isPlacement = true)
    (h : (parse source name uri levels).Carries rule id) :
    ∃ entry ∈ (phrase source name uri).entries none 0, entry.id = id ∧ (∃ issue ∈ entry.phrase.issues, issue.rule = rule) ∧
      ∃ context line more statement, Of source name uri entry (.statement context line more statement) := by
  obtain ⟨entry, hentry, rfl⟩ := exists_entry_of_carries h
  have hlevel : levels.of rule ≠ .ignore := by
    cases rule <;> simp [Rule.isPlacement, Levels.of] at hplacement ⊢
  obtain ⟨issue, hissue, rfl⟩ := (Phrase.carries_toTree hlevel hentry).mp h
  obtain ⟨role, hrole⟩ := Role.exists_of hentry
  obtain ⟨context, line, more, statement, rfl⟩ := exists_statement_of_issue hrole hissue hplacement
  exact ⟨entry, hentry, rfl, ⟨issue, hissue, rfl⟩, context, line, more, statement, hrole⟩

theorem belongsInChoice_eq_false_iff {kind : Kind} : Reader.belongsInChoice kind = false ↔ kind.isOption = false ∧
    kind ≠ .comment ∧ ∀ name ∈ ["if", "elseif", "elsif", "else"], kind ≠ .standardCommand name := by
  rw [Reader.belongsInChoice_eq, Bool.or_eq_false_iff, Bool.or_eq_false_iff, and_assoc, beq_eq_false_iff_ne]
  refine and_congr_right fun _ => ?_
  rw [and_comm]
  refine and_congr_right fun _ => ?_
  rw [Bool.eq_false_iff]
  constructor
  · rintro h name hname rfl
    exact h (List.contains_iff_mem.mpr hname)
  · intro h hconditional
    cases kind <;> first | exact h _ (List.contains_iff_mem.mp hconditional) rfl | cases hconditional

/-- Where options belong is exactly determined by the tree. -/
theorem optionsPlaced_parse (source : Text) (name uri : Option String) (levels : Levels) :
    (parse source name uri levels).OptionsPlaced := by
  refine ⟨fun id hoption => ?_, fun id line kind hparent hline hkind hcontent => ?_, fun id hcarries => ?_,
    fun id hcarries => ?_⟩
  · obtain ⟨reuse, conditional, hfound⟩ := hoption
    obtain ⟨entry, hentry, rfl, hkind⟩ := exists_entry_of_kind? hfound
    obtain ⟨role, hrole⟩ := Role.exists_of hentry
    obtain ⟨context, line, more, statement, rfl⟩ :=
      exists_statement_of_kind hrole (by rw [hkind]; rfl) (by rw [hkind]; rfl)
    obtain ⟨above, hparent, hline, houtside, _⟩ := exists_line_of_statement levels hentry hrole
    refine ⟨above, hparent, hline, houtside.trans ⟨And.right, fun h => ⟨by rw [hkind]; rfl, h⟩⟩⟩
  · obtain ⟨entry, hentry, rfl, rfl⟩ := exists_entry_of_kind? hkind
    obtain ⟨context, line, more, statement, hrole, -⟩ := exists_statement_below hentry hparent hline hcontent
    obtain ⟨above, hup, _, _, hexpected⟩ := exists_line_of_statement levels hentry hrole
    obtain rfl := Option.some.inj (hup.symm.trans hparent)
    rw [hexpected, belongsInChoice_eq_false_iff, parse, Phrase.isOption_toTree hentry, Bool.not_eq_true]
  · obtain ⟨entry, hentry, rfl, -, context, line, more, statement, hrole⟩ := exists_statement_of_carries rfl hcarries
    obtain ⟨_, _, _, houtside, _⟩ := exists_line_of_statement levels hentry hrole
    exact (Phrase.isOption_toTree hentry).mpr (houtside.mp hcarries).1
  · obtain ⟨entry, hentry, rfl, -, context, line, more, statement, hrole⟩ := exists_statement_of_carries rfl hcarries
    obtain ⟨above, hparent, hline, _⟩ := exists_line_of_statement levels hentry hrole
    exact ⟨above, _, hparent, hline, Phrase.kind?_toTree levels source hentry, hrole.isContent_statement⟩

/-! ### Choices without options -/

/-- A choice is marked if it has no option in it, as far as its block goes. -/
theorem exists_missing_iff (h : Of source name uri entry (.statement context line more statement)) :
    (∃ issue ∈ entry.phrase.issues, issue.rule = .noChoiceOptions) ↔
      entry.phrase.kind.isChoice = true ∧ entry.phrase.any Kind.isOption = false := by
  obtain ⟨hlines, hfound⟩ := h.proper
  have hstates := Line.reading_states (Role.within_of_sublist hlines) hfound
  let whole := line.withBlock (block source context line more) statement
  have hkind : whole.kind = statement.phrase.kind := Phrase.shift_kind _ _
  have hown : ¬∃ issue ∈ whole.issues, issue.rule = .noChoiceOptions := by
    have hissues : whole.issues = statement.phrase.issues.map (·.shift line.start) := Phrase.shift_issues _ _
    rw [hissues]
    rintro ⟨issue, hissue, hrule⟩
    obtain ⟨bare, hbare, rfl⟩ := List.mem_map.mp hissue
    exact (Reader.statement_fitted _ _ _ hfound).issues bare hbare hrule
  have hphrase : entry.phrase = line.stated (block source context line more) statement := h.phrase_eq
  rw [h.kind_statement, hphrase, Line.stated]
  cases hchoice : statement.phrase.kind.isChoice with
  | false =>
      have hstated : (if statement.opens.isSome then Line.requireOptions whole else whole) = whole := by
        split
        · rw [Line.requireOptions_eq, hkind]
          cases hstatement : statement.phrase.kind <;> first | rfl | (rw [hstatement] at hchoice; cases hchoice)
        · rfl
      rw [hstated]
      exact ⟨fun hissue => absurd hissue hown, fun hfalse => absurd hfalse.1 Bool.false_ne_true⟩
  | true =>
      obtain ⟨fake, hfake⟩ : ∃ fake, statement.phrase.kind = .choiceCommand fake := by
        cases hstatement : statement.phrase.kind <;> rw [hstatement] at hchoice <;> first | exact ⟨_, rfl⟩ | cases hchoice
      have hopens : statement.opens.isSome = true := by
        rw [hstates.opens, hfake]
        rfl
      rw [if_pos hopens, Line.requireOptions_eq, hkind, hfake]
      dsimp only
      split
      · rename_i hany
        rw [hany]
        exact ⟨fun hissue => absurd hissue hown, fun hfalse => absurd hfalse.2 Bool.noConfusion⟩
      · rename_i hnone
        refine ⟨fun _ => ⟨rfl, ?_⟩, fun _ => ⟨_, List.mem_append_right _ (List.mem_singleton_self _), rfl⟩⟩
        have hsame : ∀ rule offset length,
            (whole.flag rule offset length).any Kind.isOption = whole.any Kind.isOption := by
          intro rule offset length
          rw [Phrase.any_eq, Phrase.any_eq]
          rfl
        rw [hsame]
        exact Bool.eq_false_iff.mpr hnone

/-- An option is below a choice in the tree if there is one in the phrase of the choice. -/
theorem any_isOption_iff (hentry : entry ∈ (phrase source name uri).entries none 0)
    (hchoice : entry.phrase.kind.isChoice = true) : entry.phrase.any Kind.isOption = false ↔
      ∀ option, (parse source name uri levels).IsOption option →
        entry.id ∉ (parse source name uri levels).ancestors option := by
  have hsubset : entry.inside ⊆ (phrase source name uri).entries none 0 :=
    @TreeEntry.inside_subset _ ⟨0, none, phrase source name uri⟩ hentry
  have hself : entry.phrase.kind.isOption = false := by
    cases hkind : entry.phrase.kind <;> rw [hkind] at hchoice <;> first | rfl | cases hchoice
  rw [← Phrase.any_entries Kind.isOption entry.parent entry.base, Bool.eq_false_iff, ne_eq, List.any_eq_true]
  constructor
  · rintro hnone option ⟨reuse, conditional, hfound⟩ hbelow
    obtain ⟨inner, hinner, rfl, hkind⟩ := exists_entry_of_kind? hfound
    refine hnone ⟨inner, TreeEntry.mem_inside_iff.mpr (.inr ((Phrase.mem_ancestors_iff hentry hinner).mp hbelow)), ?_⟩
    rw [hkind]
    rfl
  · rintro hnone ⟨inner, hinner, hoption⟩
    have hmem := hsubset hinner
    rcases TreeEntry.mem_inside_iff.mp hinner with rfl | hbelow
    · rw [hself] at hoption
      cases hoption
    · exact hnone inner.id ((Phrase.isOption_toTree hmem).mpr hoption) ((Phrase.mem_ancestors_iff hentry hmem).mpr hbelow)

/-- A choice is marked as one without options if no option is anywhere below it. -/
theorem choicesMarked_parse (source : Text) (name uri : Option String) (levels : Levels) :
    (parse source name uri levels).ChoicesMarked := by
  have hmarked : ∀ id, (parse source name uri levels).IsChoice id →
      ((parse source name uri levels).Carries .noChoiceOptions id ↔
        ∀ option, (parse source name uri levels).IsOption option →
          id ∉ (parse source name uri levels).ancestors option) := by
    rintro id ⟨fake, hfound⟩
    obtain ⟨entry, hentry, rfl, hkind⟩ := exists_entry_of_kind? hfound
    have hchoice : entry.phrase.kind.isChoice = true := by
      rw [hkind]
      rfl
    obtain ⟨role, hrole⟩ := Role.exists_of hentry
    obtain ⟨context, line, more, statement, rfl⟩ :=
      exists_statement_of_kind hrole (by rw [hkind]; rfl) (by rw [hkind]; rfl)
    rw [← any_isOption_iff hentry hchoice, parse, Phrase.carries_toTree (by simp [Levels.of]) hentry,
      exists_missing_iff hrole]
    exact ⟨And.right, fun h => ⟨hchoice, h⟩⟩
  refine ⟨hmarked, fun id hcarries => ?_, fun id hchoice hnearest => ?_⟩
  · obtain ⟨entry, hentry, rfl, hmissing, context, line, more, statement, hrole⟩ :=
      exists_statement_of_carries rfl hcarries
    exact (Phrase.isChoice_toTree hentry).mpr ((exists_missing_iff hrole).mp hmissing).1
  · rw [hmarked id hchoice]
    refine forall_congr' fun option => forall_congr' fun hoption => not_congr ⟨hnearest option hoption, fun hfound => ?_⟩
    exact List.mem_of_find?_eq_some hfound

/-- A choice whose only line is another choice has no option of its own, but is not marked if that one has one. -/
theorem nested_choice_unmarked : ¬∀ id, (parse "*choice\n  *choice\n    #a\n".toList none none {}).IsChoice id →
    ((parse "*choice\n  *choice\n    #a\n".toList none none {}).Carries .noChoiceOptions id ↔
      ∀ option, (parse "*choice\n  *choice\n    #a\n".toList none none {}).IsOption option →
        (parse "*choice\n  *choice\n    #a\n".toList none none {}).ancestorWhere? option Kind.isChoice ≠ some id) := by
  intro h
  have hkind : (parse "*choice\n  *choice\n    #a\n".toList none none {}).kind? 2 = some (.choiceCommand false) := by
    decide +kernel
  have hissues : (parse "*choice\n  *choice\n    #a\n".toList none none {}).issues 2 = [] := by decide +kernel
  have hnearest : ∀ id < (parse "*choice\n  *choice\n    #a\n".toList none none {}).size,
      (parse "*choice\n  *choice\n    #a\n".toList none none {}).ancestorWhere? id Kind.isChoice = some 2 →
        ((parse "*choice\n  *choice\n    #a\n".toList none none {}).kind? id).any Kind.isOption = false := by
    decide +kernel
  have hcarries := (h 2 ⟨false, hkind⟩).mpr ?_
  · obtain ⟨marker, hmarker, _⟩ := hcarries
    rw [hissues] at hmarker
    cases hmarker
  · rintro option ⟨reuse, conditional, hoption⟩ hfound
    have hsize : option < (parse "*choice\n  *choice\n    #a\n".toList none none {}).size := by
      obtain ⟨node, hnode, _⟩ := Option.map_eq_some_iff.mp hoption
      exact (Array.getElem?_eq_some_iff.mp hnode).1
    have hnone := hnearest option hsize hfound
    rw [hoption] at hnone
    cases hnone

end Scene

end Gamebook
