import Gamebook.Proofs.Grammar.Placement
import Gamebook.Proofs.Line.Alike
import Gamebook.Proofs.Scene.Lines

/-!
What the nodes of a scene stand for. The scene holds lines, a line its indentation and its statement, a statement
what it is made of and the lines of its block, and nothing else is in a tree: going down from the scene, every
node gets its role from the role of the node above it.
-/

namespace Gamebook

namespace Phrase

/-- An entry is a part of one entry only. -/
theorem holder_unique {phrase : Phrase} {left right part : TreeEntry} (hleft : left ∈ phrase.entries none 0)
    (hright : right ∈ phrase.entries none 0) (hinleft : part ∈ left.parts) (hinright : part ∈ right.parts) :
    left = right := by
  refine entry_eq_of_id_eq hleft hright (Option.some.inj ?_)
  rw [← TreeEntry.parent_of_mem_parts hinleft, TreeEntry.parent_of_mem_parts hinright]

end Phrase

namespace Scene

inductive Role where
  | scene
  /-- A line that is read in some context, with the lines behind it from which it takes its block. -/
  | line (context : Context) (line : Line) (more : List Line)
  | indentation (phrase : Phrase)
  /-- What such a line holds, with its block. -/
  | statement (context : Context) (line : Line) (more : List Line) (statement : Statement)
  /-- What stands inside the statement of a line, as it was read there. -/
  | part (line : Line) (statement : Statement) (phrase : Phrase)

/-- The lines of the block of a line, as phrases. -/
def block (source : Text) (context : Context) (line : Line) (more : List Line) : List Phrase :=
  Line.phrases (Line.establishedUnit? (Line.lines source)) (line.inner context) (line.below context more).1

namespace Role

variable (source : Text) (name uri : Option String)

def phrase : Role → Phrase
  | .scene => Scene.phrase source name uri
  | .line context own more =>
    own.phrase (Line.establishedUnit? (Line.lines source)) (own.reading context) (block source context own more)
  | .indentation phrase => phrase
  | .statement context own more held => own.stated (block source context own more) held
  | .part own _ phrase => phrase.shift own.start

inductive Holds : Role → Role → Prop
  | top {line : Line} {more : List Line} (hlines : (line :: more).Sublist (Line.lines source)) :
      Holds .scene (.line .scene line more)
  | indentation {context : Context} {line : Line} {more : List Line} {phrase : Phrase}
      (hphrase : phrase ∈ line.margin (Line.establishedUnit? (Line.lines source))) :
      Holds (.line context line more) (.indentation phrase)
  | statement {context : Context} {line : Line} {more : List Line} {statement : Statement}
      (hfound : (line.reading context).1 = some statement) :
      Holds (.line context line more) (.statement context line more statement)
  | block {context inner : Context} {line lower : Line} {more lowers : List Line} {statement : Statement}
      (hopens : statement.opens = some inner) (hlines : (lower :: lowers).Sublist (Line.lines source)) :
      Holds (.statement context line more statement) (.line inner lower lowers)
  | part {context : Context} {line : Line} {more : List Line} {statement : Statement} {phrase : Phrase}
      (hphrase : phrase ∈ statement.phrase.parts) :
      Holds (.statement context line more statement) (.part line statement phrase)
  | deeper {line : Line} {statement : Statement} {outer inner : Phrase} (hphrase : inner ∈ outer.parts) :
      Holds (.part line statement outer) (.part line statement inner)

/-- An entry of a scene has a role. -/
inductive Of : TreeEntry → Role → Prop
  | scene : Of ⟨0, none, Scene.phrase source name uri⟩ .scene
  | part {above part : TreeEntry} {outer inner : Role} (habove : Of above outer)
      (hentry : above ∈ (Scene.phrase source name uri).entries none 0) (hpart : part ∈ above.parts)
      (hholds : Holds source outer inner) (hphrase : part.phrase = inner.phrase source name uri) : Of part inner

variable {source name uri}

theorem exists_line_of_mem_phrases {unit : Option IndentUnit} (context : Context) {lines : List Line} :
    ∀ part ∈ Line.phrases unit context lines, ∃ line more, (line :: more).Sublist lines ∧
      part = line.phrase unit (line.reading context)
        (Line.phrases unit (line.inner context) (line.below context more).1) := by
  induction context, lines using Line.below_induction with
  | nil context =>
      intro part hpart
      rw [Line.phrases] at hpart
      cases hpart
  | cons context line more _ ihrest =>
      intro part hpart
      rw [Line.phrases_cons] at hpart
      rcases List.mem_cons.mp hpart with rfl | hpart
      · exact ⟨line, more, .refl _, rfl⟩
      · obtain ⟨lower, lowers, hlines, heq⟩ := ihrest part hpart
        exact ⟨lower, lowers, hlines.trans (Line.rest_sublist context line more), heq⟩

/-- A line that was read is a line of the source, and so are those behind it. -/
def Proper (source : Text) : Role → Prop
  | .line _ own more => (own :: more).Sublist (Line.lines source)
  | .statement context own more held =>
    (own :: more).Sublist (Line.lines source) ∧ (own.reading context).1 = some held
  | .indentation phrase => ∃ line ∈ Line.lines source, phrase ∈ line.margin (Line.establishedUnit? (Line.lines source))
  | .part own held _ => own ∈ Line.lines source ∧ ∃ context, (own.reading context).1 = some held
  | .scene => True

theorem Holds.proper {outer inner : Role} (h : Holds source outer inner) (houter : outer.Proper source) :
    inner.Proper source := by
  cases h with
  | top hlines => exact hlines
  | indentation hphrase => exact ⟨_, houter.subset List.mem_cons_self, hphrase⟩
  | statement hfound => exact ⟨houter, hfound⟩
  | block _ hlines => exact hlines
  | part _ => exact ⟨houter.1.subset List.mem_cons_self, _, houter.2⟩
  | deeper _ => exact houter

theorem Of.proper {entry : TreeEntry} {role : Role} (h : Of source name uri entry role) : role.Proper source := by
  induction h with
  | scene => trivial
  | part _ _ _ hholds _ ih => exact hholds.proper ih

theorem within_of_sublist {line : Line} {more : List Line} (h : (line :: more).Sublist (Line.lines source)) :
    line.Within source :=
  Line.within_of_mem_lines (h.subset List.mem_cons_self)

/-- Whatever is inside a phrase with a role has a role of its own. -/
theorem exists_holds {outer : Role} (hproper : outer.Proper source) {part : Phrase}
    (hpart : part ∈ (outer.phrase source name uri).parts) :
    ∃ inner, Holds source outer inner ∧ part = inner.phrase source name uri := by
  cases outer with
  | scene =>
      have hparts : (Scene.phrase source name uri).parts =
          Line.phrases (Line.establishedUnit? (Line.lines source)) .scene (Line.lines source) := rfl
      rw [phrase, hparts] at hpart
      obtain ⟨line, more, hlines, rfl⟩ := exists_line_of_mem_phrases .scene part hpart
      exact ⟨_, .top hlines, rfl⟩
  | line context line more =>
      rw [phrase, Line.parts_phrase (within_of_sublist hproper)] at hpart
      rcases List.mem_append.mp hpart with hpart | hpart
      · exact ⟨_, .indentation hpart, rfl⟩
      · obtain ⟨statement, hfound, rfl⟩ := Option.map_eq_some_iff.mp (Option.mem_toList.mp hpart)
        exact ⟨_, .statement hfound, rfl⟩
  | indentation indentation =>
      obtain ⟨line, _, hmargin⟩ := hproper
      obtain ⟨own, hown, rfl⟩ := Option.map_eq_some_iff.mp (Option.mem_toList.mp hmargin)
      rw [Line.indentation?_eq] at hown
      split at hown
      · cases hown
        cases hpart
      · cases hown
  | statement context line more statement =>
      obtain ⟨hlines, hfound⟩ := hproper
      rw [phrase, Line.stated_parts, Phrase.shift_parts] at hpart
      rcases List.mem_append.mp hpart with hpart | hpart
      · obtain ⟨own, hown, rfl⟩ := List.mem_map.mp hpart
        exact ⟨_, .part hown, rfl⟩
      · obtain ⟨lower, lowers, hbelow, rfl⟩ := exists_line_of_mem_phrases _ part hpart
        -- only a statement that opens a block has lines below it
        have hopened : line.opened? context = statement.opens := by
          rw [Line.opened?, hfound]
          rfl
        cases hopens : statement.opens with
        | none =>
            rw [Line.below, hopened, hopens, if_neg (by simp)] at hbelow
            cases hbelow
        | some inner =>
            have hinner : line.inner context = inner := by rw [Line.inner, hopened, hopens, Option.getD_some]
            rw [hinner]
            exact ⟨_, .block hopens (hbelow.trans ((Line.block_sublist context line more).trans hlines)), rfl⟩
  | part line statement own =>
      rw [phrase, Phrase.shift_parts] at hpart
      obtain ⟨inner, hinner, rfl⟩ := List.mem_map.mp hpart
      exact ⟨_, .deeper hinner, rfl⟩

theorem Of.phrase_eq {entry : TreeEntry} {role : Role} (h : Of source name uri entry role) :
    entry.phrase = role.phrase source name uri := by
  cases h with
  | scene => rfl
  | part _ _ _ _ hphrase => exact hphrase

/-- Every node of a scene has a role. -/
theorem exists_of {entry : TreeEntry} (hentry : entry ∈ (Scene.phrase source name uri).entries none 0) :
    ∃ role, Of source name uri entry role := by
  refine Phrase.entries_induction_on (motive := fun entry => ∃ role, Of source name uri entry role) hentry
    ⟨_, .scene⟩ ?_
  rintro above habove ⟨outer, houter⟩ part hpart
  have hmem := TreeEntry.phrase_mem_parts hpart
  rw [houter.phrase_eq] at hmem
  obtain ⟨inner, hholds, hphrase⟩ := exists_holds houter.proper hmem
  exact ⟨inner, .part houter habove hpart hholds hphrase⟩

theorem Of.kind_line {entry : TreeEntry} {context : Context} {line : Line} {more : List Line}
    (h : Of source name uri entry (.line context line more)) :
    entry.phrase.kind = .line line.number line.width line.type := by
  rw [h.phrase_eq]
  exact Line.kind_phrase (within_of_sublist h.proper) _

theorem Of.issues_line {entry : TreeEntry} {context : Context} {line : Line} {more : List Line}
    (h : Of source name uri entry (.line context line more)) : entry.phrase.issues = [] := by
  rw [h.phrase_eq]
  exact Line.issues_phrase (within_of_sublist h.proper) _

theorem Of.kind_statement {entry : TreeEntry} {context : Context} {line : Line} {more : List Line}
    {statement : Statement} (h : Of source name uri entry (.statement context line more statement)) :
    entry.phrase.kind = statement.phrase.kind := by
  rw [h.phrase_eq]
  exact Line.stated_kind _ _ _

theorem Of.isContent_statement {entry : TreeEntry} {context : Context} {line : Line} {more : List Line}
    {statement : Statement} (h : Of source name uri entry (.statement context line more statement)) :
    entry.phrase.kind.isContent = true := by
  rw [h.kind_statement]
  exact (Line.reading_content (within_of_sublist h.proper.1) h.proper.2).sound.here.kind

/-- Indentation is marked as mixed, if it is marked at all. -/
theorem Of.indentation {entry : TreeEntry} {own : Phrase} (h : Of source name uri entry (.indentation own)) :
    entry.phrase.kind.isContent = false ∧ entry.phrase.kind.isLine = false ∧
      ∀ issue ∈ entry.phrase.issues, issue.rule = .mixedIndentation := by
  obtain ⟨line, _, hmargin⟩ := h.proper
  obtain ⟨bare, hbare, rfl⟩ := Option.map_eq_some_iff.mp (Option.mem_toList.mp hmargin)
  rw [h.phrase_eq, phrase, Phrase.shift_kind, Phrase.shift_issues]
  rw [Line.indentation?_eq] at hbare
  split at hbare
  · cases hbare
    refine ⟨rfl, rfl, fun issue hissue => ?_⟩
    obtain ⟨issue, hissue, rfl⟩ := List.mem_map.mp hissue
    dsimp only at hissue
    split at hissue
    · cases hissue
    · rw [List.mem_singleton.mp hissue]
      rfl
  · cases hbare

/-! ### What is inside statements -/

/-- What stands inside a statement is read from the beginning of its line on, and is of kinds that stand inside
statements. -/
theorem Of.genuine {entry : TreeEntry} {line : Line} {statement : Statement} {own : Phrase}
    (h : Of source name uri entry (.part line statement own)) :
    own.Genuine (.ofLine line) ∧ own.Everywhere (Phrase.Sound (fun kind => kind.isPart = true) fun _ => True) := by
  generalize hrole : Role.part line statement own = role at h
  induction h generalizing own with
  | scene => cases hrole
  | part habove _ _ hholds _ ih =>
      subst hrole
      cases hholds with
      | part hphrase =>
          obtain ⟨hlines, hfound⟩ := habove.proper
          have hreads := (Line.reading_states (within_of_sublist hlines) hfound).reads
          exact ⟨(Reader.statement_fitted _ _ _ hfound).parts own hphrase, (hreads.parts_built own hphrase).sound⟩
      | deeper hphrase =>
          obtain ⟨hgenuine, hsound⟩ := ih rfl
          exact ⟨hgenuine.inside hphrase, hsound.part hphrase⟩

end Role

end Scene

end Gamebook
