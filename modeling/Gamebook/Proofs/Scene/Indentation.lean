import Gamebook.Proofs.Checked.Scene
import Gamebook.Proofs.Scene.Markers
import Gamebook.Proofs.Scene.Roles

/-!
Mixed indentation. The first line with content that is indented with spaces only or with tabs only sets the unit
of a scene, wherever it stands and however deep. Every other indentation in front of content is marked once, as a
whole, unless it is of that unit; nothing else is ever marked for it. A parser that goes from line to line and
remembers the unit by itself marks the same.
-/

namespace Gamebook

namespace IndentUnit

/-- A run of one character is of the unit of the character. -/
theorem ofRun_of_forall {run : Text} {c : Char} (hne : run ≠ []) (h : ∀ d ∈ run, d = c) : ofRun run = ofRun [c] := by
  have hcontains : ∀ d, run.contains d = [c].contains d := by
    intro d
    rw [Bool.eq_iff_iff, List.contains_iff_mem, List.contains_iff_mem, List.mem_singleton]
    obtain ⟨first, more, rfl⟩ := List.exists_cons_of_ne_nil hne
    refine ⟨fun hd => h d hd, fun hd => ?_⟩
    rw [hd, ← h first List.mem_cons_self]
    exact List.mem_cons_self
  rw [ofRun, ofRun, hcontains, hcontains]

theorem ofRun_eq_mixed_iff {run : Text} : ofRun run = .mixed ↔ ' ' ∈ run ∧ '\t' ∈ run := by
  simp only [ofRun, List.contains_iff_mem]
  by_cases htab : '\t' ∈ run <;> by_cases hspace : ' ' ∈ run <;> simp [htab, hspace]

/-- A run of blanks that is not mixed has one character only. -/
theorem exists_of_ne_mixed {run : Text} (hblank : ∀ c ∈ run, Text.isBlank c = true) (h : ofRun run ≠ .mixed) :
    ∃ c, ∀ d ∈ run, d = c := by
  have hchars : ∀ d ∈ run, d = ' ' ∨ d = '\t' := by simpa [Text.isBlank] using hblank
  rw [Ne, ofRun_eq_mixed_iff] at h
  by_cases hspace : ' ' ∈ run
  · exact ⟨' ', fun d hd => (hchars d hd).resolve_right fun htab => h ⟨hspace, htab ▸ hd⟩⟩
  · exact ⟨'\t', fun d hd => (hchars d hd).resolve_left fun heq => hspace (heq ▸ hd)⟩

theorem ofRun_singleton_inj {c d : Char} (hc : Text.isBlank c = true) (hd : Text.isBlank d = true) :
    ofRun [c] = ofRun [d] ↔ c = d := by
  have hchars : ∀ e, Text.isBlank e = true → e = ' ' ∨ e = '\t' := by simp [Text.isBlank]
  rcases hchars c hc with rfl | rfl <;> rcases hchars d hd with rfl | rfl <;> decide

end IndentUnit

namespace Line

/-- The line has content and is indented with one character only. -/
structure IndentedWith (c : Char) (line : Line) : Prop where
  content : line.isBlank = false
  indented : line.indent ≠ []
  only : ∀ d ∈ line.indent, d = c

/-- The first of the lines that have content and are indented with one character only is indented with the
given one. -/
def Establish (lines : List Line) (c : Char) : Prop :=
  ∃ above line below, lines = above ++ line :: below ∧ line.IndentedWith c ∧
    ∀ upper ∈ above, ∀ d, ¬upper.IndentedWith d

/-- The line has content, and its indentation has both spaces and tabs in it, or others than what the lines
establish. -/
def Deviates (lines : List Line) (line : Line) : Prop :=
  line.isBlank = false ∧ ((' ' ∈ line.indent ∧ '\t' ∈ line.indent) ∨
    ∃ c d, Establish lines c ∧ line.IndentedWith d ∧ d ≠ c)

variable {line : Line} {lines : List Line} {c : Char}

theorem IndentedWith.ofRun_eq (h : line.IndentedWith c) : IndentUnit.ofRun line.indent = .ofRun [c] :=
  IndentUnit.ofRun_of_forall h.indented h.only

theorem IndentedWith.isBlank (h : line.IndentedWith c) (hclean : line.Clean) : Text.isBlank c = true := by
  obtain ⟨first, more, hindent⟩ := List.exists_cons_of_ne_nil h.indented
  have hfirst : first ∈ line.indent := hindent ▸ List.mem_cons_self
  rw [← h.only first hfirst]
  exact hclean.indent first hfirst

/-- A line sets the unit when it has content and is indented, but not with both. -/
theorem exists_indentedWith_iff (hclean : line.Clean) : (∃ c, line.IndentedWith c) ↔
    ¬(line.isBlank || !line.isIndented || decide (IndentUnit.ofRun line.indent = .mixed)) = true := by
  rw [Bool.or_eq_true, Bool.or_eq_true, Bool.not_eq_true', decide_eq_true_eq, not_or, not_or, Bool.not_eq_true,
    Bool.not_eq_false, isIndented, Bool.not_eq_true', List.isEmpty_eq_false_iff]
  constructor
  · rintro ⟨c, h⟩
    refine ⟨⟨h.content, h.indented⟩, ?_⟩
    rw [h.ofRun_eq, IndentUnit.ofRun_eq_mixed_iff, List.mem_singleton, List.mem_singleton]
    rintro ⟨rfl, htab⟩
    cases htab
  · rintro ⟨⟨hcontent, hindented⟩, hmixed⟩
    obtain ⟨c, honly⟩ := IndentUnit.exists_of_ne_mixed hclean.indent hmixed
    exact ⟨c, hcontent, hindented, honly⟩

/-- The unit of a scene is that of the first line which sets one. -/
theorem establishedUnit?_eq_some_iff (hclean : ∀ line ∈ lines, line.Clean) {unit : IndentUnit} :
    establishedUnit? lines = some unit ↔ ∃ c, Establish lines c ∧ unit = .ofRun [c] := by
  have hsets (line : Line) (hline : line.Clean) : (if line.isBlank || !line.isIndented ||
      IndentUnit.ofRun line.indent = .mixed then none else some (IndentUnit.ofRun line.indent)) = some unit ↔
        ∃ c, line.IndentedWith c ∧ unit = .ofRun [c] := by
    constructor
    · intro h
      split at h
      · cases h
      · rename_i hcounts
        obtain ⟨c, hown⟩ := (exists_indentedWith_iff hline).mpr hcounts
        exact ⟨c, hown, by rw [← Option.some.inj h, hown.ofRun_eq]⟩
    · rintro ⟨c, hown, rfl⟩
      rw [if_neg ((exists_indentedWith_iff hline).mp ⟨c, hown⟩), hown.ofRun_eq]
  rw [establishedUnit?, List.findSome?_eq_some_iff]
  constructor
  · rintro ⟨above, line, below, rfl, hline, habove⟩
    obtain ⟨c, hown, hunit⟩ := (hsets line (hclean line (by simp))).mp hline
    refine ⟨c, ⟨above, line, below, rfl, hown, fun upper hupper d hother => ?_⟩, hunit⟩
    have hcounts := (exists_indentedWith_iff (hclean upper (by simp [hupper]))).mp ⟨d, hother⟩
    have hnone := habove upper hupper
    dsimp only at hnone
    rw [if_neg hcounts] at hnone
    cases hnone
  · rintro ⟨c, ⟨above, line, below, rfl, hown, habove⟩, hunit⟩
    refine ⟨above, line, below, rfl, (hsets line (hclean line (by simp))).mpr ⟨c, hown, hunit⟩, ?_⟩
    intro upper hupper
    refine if_pos (by_contra fun hcounts => ?_)
    obtain ⟨d, hother⟩ := (exists_indentedWith_iff (hclean upper (by simp [hupper]))).mpr hcounts
    exact habove upper hupper d hother

/-- Where a line sets a unit, the first one to do so sets that of the scene. -/
theorem exists_establish (hclean : ∀ line ∈ lines, line.Clean) (hline : line ∈ lines) (hown : line.IndentedWith c) :
    ∃ first, Establish lines first := by
  cases hunit : establishedUnit? lines with
  | some unit =>
      obtain ⟨first, hfirst, -⟩ := (establishedUnit?_eq_some_iff hclean).mp hunit
      exact ⟨first, hfirst⟩
  | none =>
      have hnone := List.findSome?_eq_none_iff.mp hunit line hline
      dsimp only at hnone
      rw [if_neg ((exists_indentedWith_iff (hclean line hline)).mp ⟨c, hown⟩)] at hnone
      cases hnone

theorem Establish.isBlank (h : Establish lines c) (hclean : ∀ line ∈ lines, line.Clean) : Text.isBlank c = true := by
  obtain ⟨above, line, below, rfl, hown, -⟩ := h
  exact hown.isBlank (hclean line (by simp))

/-- A line is marked when its indentation deviates from that of the scene. -/
theorem deviates_iff (hclean : ∀ line ∈ lines, line.Clean) (hline : line ∈ lines) (hindented : line.isIndented = true) :
    line.Deviates lines ↔ ¬(line.isBlank || establishedUnit? lines = some (.ofRun line.indent)) = true := by
  rw [Bool.or_eq_true, decide_eq_true_eq, not_or, Bool.not_eq_true]
  refine and_congr_right fun hcontent => ⟨?_, fun hother => ?_⟩
  · rintro (hboth | ⟨c, d, hc, hd, hne⟩) hunit
    · rw [IndentUnit.ofRun_eq_mixed_iff.mpr hboth] at hunit
      exact establishedUnit?_ne_mixed lines hunit
    · have hunits := Option.some.inj (hunit.symm.trans ((establishedUnit?_eq_some_iff hclean).mpr ⟨c, hc, rfl⟩))
      rw [hd.ofRun_eq, IndentUnit.ofRun_singleton_inj (hd.isBlank (hclean line hline)) (hc.isBlank hclean)] at hunits
      exact hne hunits
  · by_cases hmixed : IndentUnit.ofRun line.indent = .mixed
    · exact .inl (IndentUnit.ofRun_eq_mixed_iff.mp hmixed)
    · obtain ⟨d, hd⟩ := (exists_indentedWith_iff (hclean line hline)).mpr (by simp [hcontent, hindented, hmixed])
      obtain ⟨c, hc⟩ := exists_establish hclean hline hd
      refine .inr ⟨c, d, hc, hd, ?_⟩
      rintro rfl
      exact hother ((establishedUnit?_eq_some_iff hclean).mpr ⟨d, hc, hd.ofRun_eq⟩)

end Line

/-! ### The marked nodes -/

namespace Phrase

/-- Whatever is wrong with a statement, its indentation is not. -/
theorem Grows.issues {phrase grown : Phrase} {r behind : Reader} (h : phrase.Grows r grown behind)
    (hphrase : ∀ issue ∈ phrase.issues, issue.rule ≠ .mixedIndentation) :
    ∀ issue ∈ grown.issues, issue.rule ≠ .mixedIndentation := by
  induction h with
  | refl => exact hphrase
  | skip _ _ ih => exact ih hphrase
  | add _ _ _ ih _ => exact ih hphrase
  | settle _ ih => exact ih hphrase
  | finish _ ih => exact ih hphrase
  | flag _ _ _ hrule _ ih =>
      rw [flag_issues]
      refine List.forall_mem_append.mpr ⟨ih hphrase, List.forall_mem_singleton.mpr ?_⟩
      rintro rfl
      rcases hrule with herror | ⟨hmodulo, -⟩
      · cases herror
      · cases hmodulo

end Phrase

namespace Line

variable {source : Text} {line : Line} {context : Context} {statement : Statement}

theorem stated_issues (hwithin : line.Within source) (hfound : (line.reading context).1 = some statement)
    (block : List Phrase) : ∀ issue ∈ (line.stated block statement).issues, issue.rule ≠ .mixedIndentation := by
  obtain ⟨kind, begun, _, _, hgrows⟩ := (reading_states hwithin hfound).reads
  have hown := hgrows.issues (List.forall_mem_nil _)
  have hmoved : ∀ issue ∈ (line.withBlock block statement).issues, issue.rule ≠ .mixedIndentation := by
    have hissues : (line.withBlock block statement).issues = (statement.phrase.shift line.start).issues := rfl
    rw [hissues, Phrase.shift_issues]
    exact List.forall_mem_map.mpr hown
  rcases line.stated_eq block statement with heq | ⟨_, _, heq⟩ <;> rw [heq]
  · exact hmoved
  · rw [Phrase.flag_issues]
    exact List.forall_mem_append.mpr ⟨hmoved, List.forall_mem_singleton.mpr nofun⟩

end Line

namespace Scene.Role

variable {source : Text} {name uri : Option String} {entry : TreeEntry} {role : Role}

/-- Only indentation is marked as mixed. -/
theorem Of.exists_indentation (h : Of source name uri entry role) {issue : Issue} (hissue : issue ∈ entry.phrase.issues)
    (hrule : issue.rule = .mixedIndentation) : ∃ own, role = .indentation own := by
  cases role with
  | scene =>
      rw [h.phrase_eq] at hissue
      cases hissue
  | line context line more =>
      rw [h.issues_line] at hissue
      cases hissue
  | indentation own => exact ⟨own, rfl⟩
  | statement context line more statement =>
      obtain ⟨hlines, hfound⟩ := h.proper
      rw [h.phrase_eq] at hissue
      exact absurd hrule (Line.stated_issues (within_of_sublist hlines) hfound _ issue hissue)
  | part line statement own =>
      rw [h.phrase_eq, Role.phrase, Phrase.shift_issues] at hissue
      obtain ⟨bare, hbare, rfl⟩ := List.mem_map.mp hissue
      have hinner := h.genuine.1.issues bare hbare
      rw [show bare.rule = .mixedIndentation from hrule] at hinner
      cases hinner

/-- A node of the kind is the indentation of a line. -/
theorem Of.exists_indentation_of_kind (h : Of source name uri entry role) {depth : Nat} {unit : IndentUnit}
    (hkind : entry.phrase.kind = .indentation depth unit) : ∃ own, role = .indentation own := by
  cases role with
  | scene =>
      rw [h.phrase_eq] at hkind
      cases hkind
  | line context line more =>
      rw [h.kind_line] at hkind
      cases hkind
  | indentation own => exact ⟨own, rfl⟩
  | statement context line more statement =>
      have hcontent := h.isContent_statement
      rw [hkind] at hcontent
      cases hcontent
  | part line statement own =>
      have hpart := h.genuine.2.here.kind
      rw [h.phrase_eq, Role.phrase, Phrase.shift_kind] at hkind
      rw [hkind] at hpart
      cases hpart

/-- An indentation hangs below the node of its line. It covers the run of blanks, and is marked as a whole when the
line deviates from the lines of the scene. -/
structure Margin (source : Text) (name uri : Option String) (line : Line) (entry : TreeEntry) : Prop where
  mem : line ∈ Line.lines source
  indented : line.isIndented = true
  kind : entry.phrase.kind = .indentation line.width (.ofRun line.indent)
  start : entry.phrase.start = line.start
  stop : entry.phrase.stop = Text.bytes line.indent + line.start
  issues : entry.phrase.issues =
    if line.isBlank || Line.establishedUnit? (Line.lines source) = some (.ofRun line.indent) then []
    else [⟨.mixedIndentation, line.start, Text.bytes line.indent⟩]
  parent : ∃ above ∈ (Scene.phrase source name uri).entries none 0, entry.parent = some above.id ∧
    above.phrase.kind = .line line.number line.width line.type

theorem Of.exists_margin {own : Phrase} (h : Of source name uri entry (.indentation own)) :
    ∃ line, Margin source name uri line entry := by
  have hphrase : entry.phrase = own := h.phrase_eq
  cases h with
  | part habove hentry hpart hholds _ =>
      cases hholds with
      | @indentation context line more _ hmargin =>
          have hparent := TreeEntry.parent_of_mem_parts hpart
          obtain ⟨bare, hbare, rfl⟩ := Option.map_eq_some_iff.mp (Option.mem_toList.mp hmargin)
          rw [Line.indentation?_eq] at hbare
          split at hbare
          · rename_i hindented
            cases hbare
            refine ⟨line, habove.proper.subset List.mem_cons_self, hindented, ?_, ?_, ?_, ?_, _, hentry, hparent,
              habove.kind_line⟩ <;> rw [hphrase]
            · rfl
            · exact Nat.zero_add _
            · rfl
            · rw [Phrase.shift_issues]
              dsimp only
              split
              · rfl
              · rw [List.map_singleton, Issue.shift, Nat.zero_add]
          · cases hbare

end Scene.Role

namespace Scene.Role.Margin

variable {source : Text} {name uri : Option String} {entry : TreeEntry} {line : Line} {levels : Levels}

theorem deviates_iff (h : Margin source name uri line entry) : line.Deviates (Line.lines source) ↔
    ¬(line.isBlank || Line.establishedUnit? (Line.lines source) = some (.ofRun line.indent)) = true :=
  Line.deviates_iff (fun _ => Line.clean_of_mem_lines) h.mem h.indented

theorem marked (h : Margin source name uri line entry) (hlevel : levels.of .mixedIndentation ≠ .ignore)
    (hodd : line.Deviates (Line.lines source)) : (entry.node levels).markersOf .mixedIndentation =
      [.ofRule .mixedIndentation (levels.of .mixedIndentation) entry.id line.start (Text.bytes line.indent)] := by
  rw [entry.markersOf_node hlevel, h.issues, if_neg (h.deviates_iff.mp hodd)]
  rfl

theorem unmarked (h : Margin source name uri line entry) (hlevel : levels.of .mixedIndentation ≠ .ignore)
    (heven : ¬line.Deviates (Line.lines source)) : (entry.node levels).markersOf .mixedIndentation = [] := by
  rw [entry.markersOf_node hlevel, h.issues,
    if_pos (not_not.mp (mt h.deviates_iff.mpr heven))]
  rfl

end Scene.Role.Margin

/-- The markers for mixed indentation in the tree of a source. An indentation in front of content is marked as a
whole where it deviates from that of the lines, and nothing else is marked for it. -/
structure Tree.MarksMixed (source : Text) (level : Level) (tree : Tree) : Prop where
  indentation {id : Nat} {node : Node} {depth : Nat} {unit : IndentUnit} (hnode : tree.node? id = some node)
    (hkind : node.kind = .indentation depth unit) :
    ∃ line ∈ Line.lines source, node.parent.bind tree.kind? = some (.line line.number line.width line.type) ∧
      node.offset = line.start ∧ node.length = Text.bytes line.indent ∧
      (line.Deviates (Line.lines source) → node.markersOf .mixedIndentation =
        [.ofRule .mixedIndentation level id line.start (Text.bytes line.indent)]) ∧
      (¬line.Deviates (Line.lines source) → node.markersOf .mixedIndentation = [])
  other {id : Nat} {node : Node} (hnode : tree.node? id = some node)
    (hkind : ∀ depth unit, node.kind ≠ .indentation depth unit) : node.markersOf .mixedIndentation = []

theorem Scene.marksMixed_toTree (source : Text) (name uri : Option String) {levels : Levels}
    (hlevel : levels.of .mixedIndentation ≠ .ignore) :
    ((phrase source name uri).toTree levels source).MarksMixed source (levels.of .mixedIndentation) := by
  constructor
  · intro id node depth unit hnode hkind
    obtain ⟨entry, hentry, rfl, rfl⟩ := Phrase.exists_entry_of_node? hnode
    obtain ⟨role, hrole⟩ := Role.exists_of hentry
    obtain ⟨own, rfl⟩ := hrole.exists_indentation_of_kind hkind
    obtain ⟨line, hmargin⟩ := hrole.exists_margin
    obtain ⟨above, habove, hparent, hheld⟩ := hmargin.parent
    refine ⟨line, hmargin.mem, ?_, hmargin.start, ?_, hmargin.marked hlevel, hmargin.unmarked hlevel⟩
    · show entry.parent.bind _ = _
      rw [hparent, Option.bind_some, Phrase.kind?_toTree levels source habove, hheld]
    · show entry.phrase.stop - entry.phrase.start = _
      rw [hmargin.start, hmargin.stop, Nat.add_sub_cancel]
  · intro id node hnode hkind
    obtain ⟨entry, hentry, rfl, rfl⟩ := Phrase.exists_entry_of_node? hnode
    obtain ⟨role, hrole⟩ := Role.exists_of hentry
    rw [entry.markersOf_node hlevel, List.map_eq_nil_iff, List.filter_eq_nil_iff]
    intro issue hissue hrule
    obtain ⟨own, rfl⟩ := hrole.exists_indentation hissue (beq_iff_eq.mp hrule)
    obtain ⟨line, hmargin⟩ := hrole.exists_margin
    exact hkind _ _ hmargin.kind

/-- A parser that remembers the unit of the lines it has been through reads every source to its end, and marks mixed
indentation by what the first line that sets a unit says for the whole scene. -/
theorem Checked.parseScene_marksMixed (source : Text) (name uri : Option String) {levels : Levels}
    (hlevel : levels.mixedIndentation ≠ .ignore) :
    parseScene source name uri levels = some (Scene.parse source name uri levels) ∧
      (Scene.parse source name uri levels).MarksMixed source levels.mixedIndentation := by
  obtain ⟨q, hlines, hall⟩ := scene_stores source name uri levels
  have hreached := hall.reach (Text.bytes source)
  rw [Tree.id_entry_addAll] at hreached
  refine ⟨?_, Scene.marksMixed_toTree source name uri hlevel⟩
  exact Option.bind_eq_some_iff.mpr ⟨q, hlines, congrArg some hreached.eq_toTree⟩

theorem Checked.parseScene_marksMixed_tab :
    (Levels.mixedIndentation {} ≠ .ignore) ∧
      parseScene "*if true\n  Spaces\n*if false\n\tTab\n".toList none none {} =
        some (Scene.parse "*if true\n  Spaces\n*if false\n\tTab\n".toList none none {}) ∧
      (Scene.parse "*if true\n  Spaces\n*if false\n\tTab\n".toList none none {}).MarksMixed
        "*if true\n  Spaces\n*if false\n\tTab\n".toList .warning :=
  ⟨by decide, parseScene_marksMixed _ none none (by decide)⟩

end Gamebook
