import Mathlib.Data.List.TakeWhile
import Gamebook.Proofs.Lexeme.Apart
import Gamebook.Proofs.Scene.Declaration
import Gamebook.Proofs.Scene.Options
import Gamebook.Proofs.Scene.Replace
import Gamebook.Proofs.Scope.Creation

/-!
Names are names. The text of a variable is one identifier and the text of a label one run of characters between
blanks, whatever is wrong with the rest of the line; so is the text of a scene beside a label.

An entry in a list of scenes is a statement of its own, and so it is the entry that takes in what is marked on its
line. Its text begins with the name, but goes on behind it where something follows.
-/

namespace Gamebook

/-! ### Identifiers and runs -/

namespace Text

/-- One identifier and nothing else, which is not a word of the language. -/
structure IsIdentifier (text : Text) : Prop where
  single : Lexeme.first? .command text = some (⟨.ident, text⟩, [])
  free : Command.isReserved (String.ofList text) = false

/-- A text without blanks and line breaks, and not empty. -/
structure IsRun (text : Text) : Prop where
  nonempty : text ≠ []
  unbroken : ∀ c ∈ text, isBlank c = false ∧ c ≠ '\n'

/-- What is left of a text at its first blank. -/
def firstRun (text : Text) : Text := text.takeWhile (!isBlank ·)

theorem unbroken_of_continuesName {c : Char} (h : Pattern.continuesName c = true) : isBlank c = false ∧ c ≠ '\n' := by
  have hspace : Pattern.continuesName ' ' = false := by decide +kernel
  have htab : Pattern.continuesName '\t' = false := by decide +kernel
  have hfeed : Pattern.continuesName '\n' = false := by decide +kernel
  have hne {d : Char} (hd : Pattern.continuesName d = false) : c ≠ d := by
    rintro rfl
    rw [hd] at h
    cases h
  exact ⟨Bool.or_eq_false_iff.mpr ⟨beq_false_of_ne (hne hspace), beq_false_of_ne (hne htab)⟩, hne hfeed⟩

theorem continuesName_of_opensName {c : Char} (h : Pattern.opensName c = true) : Pattern.continuesName c = true := by
  rw [Pattern.opensName, Bool.or_eq_true] at h
  rw [Pattern.continuesName, Bool.or_eq_true, Bool.or_eq_true]
  tauto

theorem IsIdentifier.isRun {text : Text} (h : text.IsIdentifier) : text.IsRun := by
  obtain ⟨-, c, rest, rfl, hopens⟩ := Lexeme.opensName_of_first? h.single rfl
  have hsingle := h.single
  rw [Lexeme.first?_name hopens, Option.some.injEq, Prod.mk.injEq, Lexeme.mk.injEq, List.cons.injEq] at hsingle
  refine ⟨List.cons_ne_nil _ _, fun d hd => unbroken_of_continuesName ?_⟩
  rcases List.mem_cons.mp hd with rfl | hd
  · exact continuesName_of_opensName hopens
  · rw [← hsingle.1.2.2] at hd
    exact List.all_eq_true.mp List.all_takeWhile d hd

/-- A longer part of a text has the same first run. -/
theorem firstRun_of_prefix {text taken left : Text} (hsplit : text = taken ++ left)
    (hlong : bytes text.firstRun ≤ bytes taken) : taken.firstRun = text.firstRun := by
  have hwhole : text.firstRun ++ text.dropWhile (!isBlank ·) = text := List.takeWhile_append_dropWhile
  rcases List.append_eq_append_iff.mp (hwhole.trans hsplit) with ⟨more, htaken, hrest⟩ | ⟨more, hrun, hleft⟩
  · have hmore : firstRun more = [] := by
      cases more with
      | nil => rfl
      | cons c more =>
          have hblank := List.head?_dropWhile_not (!isBlank ·) text
          rw [hrest] at hblank
          exact List.takeWhile_cons_of_neg (by simpa using hblank)
    have hrun : ∀ c ∈ text.firstRun, (!isBlank c) = true := fun c hc => List.all_eq_true.mp List.all_takeWhile c hc
    rw [htaken, firstRun, List.takeWhile_append_of_pos hrun]
    exact (congrArg (text.firstRun ++ ·) hmore).trans (List.append_nil _)
  · rw [hrun, bytes_append] at hlong
    obtain rfl : more = [] := eq_nil_of_bytes_eq_zero (by omega)
    rw [List.append_nil] at hrun
    rw [← hrun]
    exact List.takeWhile_idem

/-- A text without the dollar sign in front, and the blanks behind the sign. -/
def behindDollar : Text → Text
  | '$' :: rest => rest.dropWhile isBlank
  | text => text

end Text

/-! ### What a reader takes as a name -/

namespace Reader

variable {r behind place : Reader}

theorem exists_first?_of_sees {kind : TokenKind} (h : r.sees kind = true) : ∃ lexeme left,
    Lexeme.first? r.mode r.rest = some (lexeme, left) ∧ lexeme.kind = kind ∧ r.text = lexeme.text := by
  obtain ⟨lexeme, hlexeme, hkind⟩ := Option.map_eq_some_iff.mp (beq_iff_eq.mp h)
  obtain ⟨⟨found, left⟩, hfirst, hsame⟩ := Option.map_eq_some_iff.mp hlexeme
  obtain rfl : found = lexeme := hsame
  exact ⟨found, left, hfirst, hkind, by rw [text, hlexeme]; rfl⟩

/-- A name is one identifier, as far as it goes. -/
theorem exists_of_seesName (h : place.seesName = true) : ∃ name left, name.IsIdentifier ∧ place.rest = name ++ left ∧
    Lexeme.first? .command (name ++ left) = some (⟨.ident, name⟩, left) ∧
    (place.leaf .var).1.start = place.offset ∧ (place.leaf .var).1.stop = place.offset + Text.bytes name := by
  rw [seesName, Bool.and_eq_true, Bool.not_eq_true'] at h
  obtain ⟨hsees, hfree⟩ := h
  obtain ⟨lexeme, left, hfirst, hkind, htext⟩ := exists_first?_of_sees hsees
  obtain ⟨hmode, c, rest, hrest, hopens⟩ := Lexeme.opensName_of_first? hfirst hkind
  rw [word, htext] at hfree
  have hnext : place.next = place.advance lexeme.text left := by rw [next, hfirst]
  have hstop : (place.leaf .var).1.stop = max place.offset (place.offset + Text.bytes lexeme.text) := by
    rw [leaf, hnext]
    rfl
  rw [hmode, hrest, Lexeme.first?_name hopens, Option.some.injEq, Prod.mk.injEq] at hfirst
  obtain ⟨rfl, rfl⟩ := hfirst
  rw [Nat.max_eq_right (Nat.le_add_right _ _)] at hstop
  have hsplit : (c :: rest.takeWhile Pattern.continuesName) ++ rest.dropWhile Pattern.continuesName = c :: rest :=
    congrArg (List.cons c) List.takeWhile_append_dropWhile
  have hdropped : (rest.takeWhile Pattern.continuesName).dropWhile Pattern.continuesName = [] :=
    List.dropWhile_eq_nil_iff.mpr fun d hd => List.all_eq_true.mp List.all_takeWhile d hd
  refine ⟨_, _, ⟨?_, hfree⟩, hrest.trans hsplit.symm, ?_, Phrase.reach_start _ _, hstop⟩
  · rw [Lexeme.first?_name hopens, List.takeWhile_idem, hdropped]
  · rw [hsplit, Lexeme.first?_name hopens]

/-- Behind a run that something follows there is a blank. -/
theorem runEnd_lt_nextRun (h : r.nextRun.rest ≠ []) : r.offset + Text.bytes r.run < r.nextRun.offset := by
  have hblank := r.head?_behind_run
  have hoffset : r.nextRun.offset =
      r.offset + Text.bytes r.run + ((r.rest.dropWhile (!Text.isBlank ·)).takeWhile Text.isBlank).length := rfl
  have hrest : r.nextRun.rest = (r.rest.dropWhile (!Text.isBlank ·)).dropWhile Text.isBlank := rfl
  rw [hrest] at h
  rw [hoffset]
  cases hleft : r.rest.dropWhile (!Text.isBlank ·) with
  | nil =>
      rw [hleft] at h
      exact absurd rfl h
  | cons c left =>
      rw [List.takeWhile_cons_of_pos (hblank c (by rw [hleft]; rfl)), List.length_cons]
      omega

/-! ### Entries in a list of scenes -/

theorem rest_acceptDollar (r : Reader) : (r.accept .dollar).2.rest = Text.behindDollar r.rest := by
  by_cases hdollar : ∃ rest, r.rest = '$' :: rest
  · obtain ⟨rest, hrest⟩ := hdollar
    have hfirst : Lexeme.first? r.mode r.rest = some (⟨.dollar, ['$']⟩, rest) := by
      rw [hrest]
      exact Lexeme.first?_sign r.mode (by decide) rest
    have hsees : r.sees .dollar = true := by
      rw [sees, kind?, lexeme?, hfirst]
      rfl
    rw [accept, if_pos hsees, next, hfirst, hrest]
    rfl
  · have hsees : ¬r.sees .dollar = true := by
      intro hsees
      obtain ⟨lexeme, left, hfirst, hkind, -⟩ := exists_first?_of_sees hsees
      have htext : lexeme.text = ['$'] := by
        refine Lexeme.text_eq_of_fixed hfirst (by simp [hkind]) ?_
        rw [hkind]
        cases r.mode <;>
          simp [Mode.patterns, Pattern.ofCommands, Pattern.ofProse, Pattern.signs, Pattern.fixed]
      have hsplit := Lexeme.append_of_first? hfirst
      rw [htext] at hsplit
      exact hdollar ⟨left, hsplit.symm⟩
    rw [accept, if_neg hsees]
    unfold Text.behindDollar
    split
    · rename_i rest hrest
      exact absurd ⟨rest, hrest⟩ hdollar
    · rfl

/-- What is marked from a reader to the end of its line ends ahead of it, also where nothing is skipped. -/
theorem ahead_max_skipLine {r : Reader} (hlast : r.lastEnd ≤ r.offset) : r.Ahead (max r.offset r.skipLine.lastEnd) := by
  rcases r.reaches_skipLine.site_lastEnd with hsame | hahead
  · rw [hsame, Nat.max_eq_left hlast]
    exact r.ahead_offset
  · rw [Nat.max_eq_right hahead.offset_le]
    exact hahead

/-- What an entry is, behind the dollar sign: it is marked if no name is there. Otherwise it begins with the name,
and goes on behind it just if something else follows, which is marked. -/
theorem sceneListEntry_cases (r : Reader) :
    ((r.accept .dollar).2.rest = [] ∧
      ∃ issue ∈ (sceneListEntry r).1.phrase.issues, issue.rule = .sceneNameExpected) ∨
    ((r.accept .dollar).2.rest ≠ [] ∧ (sceneListEntry r).1.phrase.start = (r.accept .dollar).2.offset ∧
      (∀ issue ∈ (sceneListEntry r).1.phrase.issues, issue.rule = .unexpectedToken) ∧
      ∃ taken left, (r.accept .dollar).2.rest = taken ++ left ∧
        (sceneListEntry r).1.phrase.stop = (r.accept .dollar).2.offset + Text.bytes taken ∧
        Text.bytes (r.accept .dollar).2.run ≤ Text.bytes taken ∧
        (taken = (r.accept .dollar).2.run ↔ (sceneListEntry r).1.phrase.issues = [])) := by
  simp only [sceneListEntry]
  generalize (r.accept .dollar).2 = named
  split
  · rename_i hend
    refine .inl ⟨atEnd_iff.mp hend, ?_⟩
    exact ⟨_, List.mem_append_right _ (List.mem_singleton_self _), rfl⟩
  · rename_i hend
    refine .inr ⟨fun hrest => hend (atEnd_iff.mpr hrest), ?_⟩
    obtain ⟨hstart, hstop⟩ := named.leafRun_range .sceneRef
    have hbehind : (named.leafRun .sceneRef).2 = named.nextRun := rfl
    have hissues : (named.leafRun .sceneRef).1.issues = [] := rfl
    rw [hbehind, Phrase.finishLine]
    split
    · have hlast : named.nextRun.lastEnd = named.offset + Text.bytes named.run := rfl
      refine ⟨(Phrase.reach_start _ _).trans hstart, fun issue hissue => absurd hissue List.not_mem_nil,
        named.run, _, named.run_append, ?_, Nat.le_refl _, by simp [Phrase.finish, Phrase.reach, Phrase.grow, hissues]⟩
      rw [Phrase.finish, Phrase.reach_stop, hstop, hlast, Nat.max_self]
    · rename_i hmore
      have hlt := runEnd_lt_nextRun fun hrest => hmore (atEnd_iff.mpr hrest)
      have hrun : named.nextRun.lastEnd = named.offset + Text.bytes named.run := rfl
      -- the entry goes on to the end of what is marked, and no less far than where the rest begins
      obtain ⟨taken, left, hsplit, hstopped⟩ := named.reaches_nextRun.ahead (ahead_max_skipLine (by omega))
      refine ⟨?_, ?_, taken, left, hsplit, ?_, by omega, ?_⟩
      · refine (Phrase.reach_start _ _).trans ?_
        rw [Phrase.flag_start, hstart]
        omega
      · rintro issue hissue
        rw [List.mem_singleton.mp hissue]
      · have hflagged : ((named.leafRun .sceneRef).1.flag .unexpectedToken named.nextRun.offset
            (named.nextRun.skipLine.lastEnd - named.nextRun.offset)).stop = max (named.leafRun .sceneRef).1.stop
              (named.nextRun.offset + (named.nextRun.skipLine.lastEnd - named.nextRun.offset)) := rfl
        refine (Phrase.reach_stop _ _).trans ?_
        rw [hflagged, hstop]
        omega
      · constructor
        · rintro rfl
          omega
        · intro hnone
          cases hnone

end Reader

/-! ### Names in a line -/

namespace Line

variable {line : Line} {source : Text} {place : Reader}

/-- A name stands in the line: an identifier that goes on as far as one can be read there. -/
structure HasName (line : Line) (name : Text) : Prop extends name.IsIdentifier where
  placed : ∃ front left, line.content = front ++ name ++ left ∧
    Lexeme.first? .command (name ++ left) = some (⟨.ident, name⟩, left)

/-- A run stands in the line: it goes on to a blank or to the end of the line. -/
structure HasRun (line : Line) (run : Text) : Prop extends run.IsRun where
  placed : ∃ front left, line.content = front ++ run ++ left ∧ ∀ c ∈ left.head?, Text.isBlank c = true

/-- The scene that a line names as an entry in a list of scenes: its first run, behind a dollar sign in front. -/
def listed (line : Line) : Text := (Text.behindDollar line.content).firstRun

theorem hasName_of_seesName (hreach : (Reader.ofLine line).Reaches place) {name left : Text}
    (hname : name.IsIdentifier) (hsplit : place.rest = name ++ left)
    (hfirst : Lexeme.first? .command (name ++ left) = some (⟨.ident, name⟩, left)) : line.HasName name := by
  obtain ⟨front, hrest, _⟩ := hreach.exists_front
  exact ⟨hname, front, left, by rw [List.append_assoc, ← hsplit]; exact hrest, hfirst⟩

theorem hasRun_of_reaches (hclean : line.Clean) (hreach : (Reader.ofLine line).Reaches place) (hrest : place.rest ≠ []) :
    line.HasRun place.run := by
  obtain ⟨front, hcontent, _⟩ := hreach.exists_front
  have hplaced : line.content = front ++ place.run ++ place.rest.dropWhile (!Text.isBlank ·) := by
    rw [List.append_assoc, ← place.run_append]
    exact hcontent
  refine ⟨⟨Reader.run_ne_nil (hreach.trimmed hclean.trimmed) hrest, fun c hc => ⟨?_, ?_⟩⟩, front, _, hplaced,
    place.head?_behind_run⟩
  · simpa using List.all_eq_true.mp List.all_takeWhile c hc
  · rintro rfl
    refine hclean.feed ?_
    rw [hplaced]
    exact List.mem_append_left _ (List.mem_append_right _ hc)

/-- What is left for a reader is in the source where the reader is. -/
theorem Within.exists_ahead (h : line.Within source) (hreach : (Reader.ofLine line).Reaches place) :
    ∃ front back, source = front ++ place.rest ++ back ∧ Text.bytes front = place.offset + line.start := by
  obtain ⟨front, hcontent, hoffset⟩ := hreach.exists_front
  obtain ⟨before, after, hsource, hbefore⟩ := h.split
  have hcontent : line.content = front ++ place.rest := hcontent
  have hoffset : place.offset = Text.bytes line.indent + Text.bytes front := hoffset
  refine ⟨before ++ line.indent ++ front, line.ending.text ++ after, ?_, ?_⟩
  · rw [hsource, whole, hcontent]
    simp only [List.append_assoc]
  · rw [Text.bytes_append, Text.bytes_append, hoffset, hbefore]
    omega

theorem Within.slice?_ahead (h : line.Within source) (hreach : (Reader.ofLine line).Reaches place) {taken left : Text}
    (hsplit : place.rest = taken ++ left) : Text.slice? (place.offset + line.start)
      (place.offset + Text.bytes taken + line.start) source = some taken := by
  obtain ⟨front, back, hsource, hbytes⟩ := h.exists_ahead hreach
  have hslice := Text.slice?_middle front taken (left ++ back)
  rwa [← List.append_assoc, List.append_assoc front, ← hsplit, ← hsource, hbytes, Nat.add_right_comm] at hslice

end Line

/-! ### Names in a tree -/

namespace Tree

/-- The node is an entry in a list of scenes, on a line that names the given one: it is marked if that is nothing.
Otherwise its text begins with the name, and goes on behind it just if something there is marked. -/
structure ListsScene (tree : Tree) (id : Nat) (line : Line) : Prop where
  nameless : tree.Carries .sceneNameExpected id ↔ line.listed = []
  named : line.listed ≠ [] → line.HasRun line.listed ∧ Text.firstRun (tree.text id) = line.listed ∧
    (tree.text id = line.listed ↔ ¬tree.Carries .unexpectedToken id)

/-- Names are names: variables are identifiers; labels, and scenes that are named on a line with something else,
are runs; and entries in lists of scenes begin with what their line names. -/
structure Named (tree : Tree) : Prop where
  var : ∀ id, tree.kind? id = some .var → ∃ line ∈ Line.split tree.source, line.HasName (tree.text id)
  label : ∀ id, tree.kind? id = some .label → ∃ line ∈ Line.split tree.source, line.HasRun (tree.text id)
  scene : ∀ id, tree.kind? id = some .sceneRef → (∀ above, tree.parent? id = some above → ¬tree.OnLine above) →
    ∃ line ∈ Line.split tree.source, line.HasRun (tree.text id)
  entry : ∀ id above, tree.kind? id = some .sceneRef → tree.parent? id = some above → tree.OnLine above →
    ∃ line ∈ Line.split tree.source, tree.kind? above = some (.line line.number line.width line.type) ∧
      tree.ListsScene id line
  beside : ∀ id scene, Lookup.qualifier? tree id = some scene →
    ∃ line ∈ Line.split tree.source, line.HasRun (tree.text scene)

end Tree

namespace Scene

variable {source : Text} {name uri : Option String} {levels : Levels} {entry : TreeEntry} {line : Line}
  {statement : Statement} {own : Phrase}

open Role (Of)

/-- The text of a node that covers what is in front of a reader. -/
theorem text_of_place (levels : Levels) (hentry : entry ∈ (phrase source name uri).entries none 0)
    (hwithin : line.Within source) {place : Reader} (hreach : (Reader.ofLine line).Reaches place) {taken left : Text}
    (hsplit : place.rest = taken ++ left) (hstart : entry.phrase.start = place.offset + line.start)
    (hstop : entry.phrase.stop = place.offset + Text.bytes taken + line.start) :
    (parse source name uri levels).text entry.id = taken := by
  have hslice := slice?_text levels hentry
  rw [hstart, hstop, hwithin.slice?_ahead hreach hsplit] at hslice
  exact (Option.some.inj hslice).symm

/-- What stands inside a statement and is a name, is one. -/
theorem named_of_part (levels : Levels) (hentry : entry ∈ (phrase source name uri).entries none 0)
    (h : Of source name uri entry (.part line statement own)) (hname : entry.phrase.kind.isName = true) :
    (entry.phrase.kind = .var ∧ line.HasName ((parse source name uri levels).text entry.id)) ∨
      ((entry.phrase.kind = .label ∨ entry.phrase.kind = .sceneRef) ∧
        line.HasRun ((parse source name uri levels).text entry.id)) := by
  have hline : line ∈ Line.lines source := h.proper.1
  have hwithin : line.Within source := Line.within_of_mem_lines hline
  have hclean := Line.clean_of_mem_lines hline
  have hphrase : entry.phrase = own.shift line.start := h.phrase_eq
  rw [hphrase, Phrase.shift_kind] at hname ⊢
  cases h.genuine.1 with
  | @name place hreach hsees =>
      obtain ⟨taken, left, hident, hsplit, hfirst, hstart, hstop⟩ := Reader.exists_of_seesName hsees
      refine .inl ⟨rfl, ?_⟩
      rw [text_of_place levels hentry hwithin hreach hsplit (by rw [hphrase, Phrase.shift_start, hstart])
        (by rw [hphrase, Phrase.shift_stop, hstop])]
      exact Line.hasName_of_seesName hreach hident hsplit hfirst
  | @run place kind hkind hreach hrest =>
      obtain ⟨hstart, hstop⟩ := place.leafRun_range kind
      refine .inr ⟨hkind, ?_⟩
      rw [text_of_place levels hentry hwithin hreach place.run_append (by rw [hphrase, Phrase.shift_start, hstart])
        (by rw [hphrase, Phrase.shift_stop, hstop])]
      exact Line.hasRun_of_reaches hclean hreach hrest
  | other hkind _ _ =>
      rw [hkind] at hname
      cases hname

/-- A statement that is a name is an entry in a list of scenes. -/
theorem eq_sceneListEntry {context : Context} {type : LineType} {r : Reader}
    (hfound : (r.statement context type).1 = some statement) (hname : statement.phrase.kind.isName = true) :
    statement = (Reader.sceneListEntry r).1 := by
  have hcontext : context = .sceneList := by
    refine (Reader.statement_fitted _ _ _ hfound).name.resolve_left fun hplain => ?_
    rw [hplain] at hname
    cases hname
  subst hcontext
  simp only [Reader.statement] at hfound
  split at hfound
  · cases hfound
  · split at hfound
    · cases hfound
      cases hname
    · cases hfound
      rfl

theorem kind_sceneListEntry (r : Reader) : (Reader.sceneListEntry r).1.phrase.kind = .sceneRef := by
  simp only [Reader.sceneListEntry]
  split
  · exact (Reader.markRest_gains (show Rule.isTrailing .sceneNameExpected = true from rfl) _ _).kind
  · exact (Reader.finishLine_gains _ _).kind

theorem listed_eq_run (line : Line) : line.listed = ((Reader.ofLine line).accept .dollar).2.run := by
  rw [Reader.run, Reader.rest_acceptDollar]
  rfl

theorem lists_of_statement (levels : Levels) {context : Context} {more : List Line}
    (hentry : entry ∈ (phrase source name uri).entries none 0)
    (h : Of source name uri entry (.statement context line more statement)) (hname : entry.phrase.kind.isName = true) :
    entry.phrase.kind = .sceneRef ∧ (parse source name uri levels).ListsScene entry.id line := by
  obtain ⟨hlines, hfound⟩ := h.proper
  have hline : line ∈ Line.lines source := hlines.subset List.mem_cons_self
  have hwithin : line.Within source := Line.within_of_mem_lines hline
  have hclean := Line.clean_of_mem_lines hline
  rw [h.kind_statement] at hname ⊢
  obtain rfl := eq_sceneListEntry hfound hname
  have hcarries {rule : Rule} (hlevel : levels.of rule ≠ .ignore) (hrule : rule ≠ .noChoiceOptions) :
      (parse source name uri levels).Carries rule entry.id ↔
        ∃ issue ∈ (Reader.sceneListEntry (.ofLine line)).1.phrase.issues, issue.rule = rule := by
    rw [parse, Phrase.carries_toTree hlevel hentry, exists_issue_stated h hrule]
  -- an entry opens no block, so that it is in the scene as it was read
  have hphrase : entry.phrase = (Reader.sceneListEntry (.ofLine line)).1.phrase.shift line.start := by
    have hclosed : line.opened? context = none := by
      rw [Line.opened?, hfound]
      rfl
    have hblock : block source context line more = [] := Line.phrases_of_opened?_eq_none hclosed
    rw [h.phrase_eq, Role.phrase, hblock]
    exact Phrase.addAll_nil _
  have hreach := (Reader.ofLine line).reaches_accept .dollar
  refine ⟨kind_sceneListEntry _, ?_⟩
  rcases Reader.sceneListEntry_cases (.ofLine line) with
    ⟨hrest, hissue⟩ | ⟨hrest, hstart, hissues, taken, left, hsplit, hstop, hlong, hwhole⟩
  · have hnone : line.listed = [] := by
      rw [listed_eq_run, Reader.run, hrest]
      rfl
    refine ⟨⟨fun _ => hnone, fun _ => (hcarries (by simp [Levels.of]) (by simp)).mpr hissue⟩, fun hsome => ?_⟩
    exact absurd hnone hsome
  · have hrun := Line.hasRun_of_reaches hclean hreach hrest
    rw [← listed_eq_run] at hrun
    have htext : (parse source name uri levels).text entry.id = taken :=
      text_of_place levels hentry hwithin hreach hsplit (by rw [hphrase, Phrase.shift_start, hstart])
        (by rw [hphrase, Phrase.shift_stop, hstop])
    refine ⟨⟨fun hnameless => ?_, fun hnone => absurd hnone hrun.nonempty⟩, fun _ => ⟨hrun, ?_, ?_⟩⟩
    · obtain ⟨issue, hissue, hrule⟩ := (hcarries (by simp [Levels.of]) (by simp)).mp hnameless
      rw [hissues issue hissue] at hrule
      cases hrule
    · rw [htext, Text.firstRun_of_prefix hsplit hlong, listed_eq_run]
      rfl
    · rw [htext, listed_eq_run, hwhole, hcarries (by simp [Levels.of]) (by simp)]
      constructor
      · rintro hnone ⟨issue, hissue, _⟩
        rw [hnone] at hissue
        cases hissue
      · intro hplain
        exact List.eq_nil_iff_forall_not_mem.mpr fun issue hissue => hplain ⟨issue, hissue, hissues issue hissue⟩

theorem isContent_of_isName {kind : Kind} (h : kind.isName = true) : kind.isContent = true := by
  cases kind <;> first | rfl | cases h

/-- A name in a tree stands inside a statement, or is an entry in a list of scenes. -/
theorem named_cases {id : Nat} {kind : Kind} (hkind : (parse source name uri levels).kind? id = some kind)
    (hname : kind.isName = true) :
    (∃ line ∈ Line.split (parse source name uri levels).source,
      (kind = .var ∧ line.HasName ((parse source name uri levels).text id)) ∨
        ((kind = .label ∨ kind = .sceneRef) ∧ line.HasRun ((parse source name uri levels).text id))) ∨
    kind = .sceneRef ∧ ∃ above, (parse source name uri levels).parent? id = some above ∧
      (parse source name uri levels).OnLine above := by
  obtain ⟨entry, hentry, rfl, rfl⟩ := exists_entry_of_kind? hkind
  have hcontent := isContent_of_isName hname
  obtain ⟨role, hrole⟩ := Role.exists_of hentry
  cases role with
  | scene =>
      rw [hrole.phrase_eq] at hname
      cases hname
  | line context line more =>
      rw [hrole.kind_line] at hname
      cases hname
  | indentation own =>
      rw [hrole.indentation.1] at hcontent
      cases hcontent
  | statement context line more statement =>
      obtain ⟨above, hparent, hline, -⟩ := exists_line_of_statement levels hentry hrole
      exact .inr ⟨(lists_of_statement levels hentry hrole hname).1, above, hparent, hline⟩
  | part line statement own =>
      exact .inl ⟨line, Line.mem_split_of_mem_lines hrole.proper.1, named_of_part levels hentry hrole hname⟩

/-- The scene beside a label is no entry in a list of scenes. -/
theorem not_onLine_of_qualifier? {id scene : Nat}
    (h : Lookup.qualifier? (parse source name uri levels) id = some scene) :
    (parse source name uri levels).kind? scene = some .sceneRef ∧
      ∀ above, (parse source name uri levels).parent? scene = some above →
        ¬(parse source name uri levels).OnLine above := by
  unfold Lookup.qualifier? at h
  split at h
  · split at h
    · cases h
    · rename_i top _
      split at h
      · rename_i hlabelRef
        have hchild : scene ∈ (parse source name uri levels).children top := List.mem_of_find?_eq_some h
        have htest := List.find?_some h
        obtain ⟨kind, hkind, hsame⟩ := (Option.any_eq_true _ _).mp htest
        obtain ⟨holder, hholder, rfl, part, hpart, rfl⟩ := Phrase.exists_entry_of_mem_children hchild
        refine ⟨by rw [hkind, beq_iff_eq.mp hsame], fun above hparent hline => ?_⟩
        obtain rfl := Option.some.inj ((Phrase.parent?_part hholder hpart).symm.trans hparent)
        obtain ⟨kind, hkind, hisline⟩ := hline
        obtain rfl := Option.some.inj (hlabelRef.symm.trans hkind)
        cases hisline
      · cases h
  · cases h

/-- Whatever the source, names are names in its tree. -/
theorem named_parse (source : Text) (name uri : Option String) (levels : Levels) :
    (parse source name uri levels).Named := by
  have hscene : ∀ id, (parse source name uri levels).kind? id = some .sceneRef →
      (∀ above, (parse source name uri levels).parent? id = some above → ¬(parse source name uri levels).OnLine above) →
        ∃ line ∈ Line.split (parse source name uri levels).source,
          line.HasRun ((parse source name uri levels).text id) := by
    intro id hkind hinside
    rcases named_cases hkind rfl with ⟨line, hline, ⟨hvar, -⟩ | ⟨-, hrun⟩⟩ | ⟨-, above, hparent, hline⟩
    · cases hvar
    · exact ⟨line, hline, hrun⟩
    · exact absurd hline (hinside above hparent)
  refine ⟨fun id hkind => ?_, fun id hkind => ?_, hscene, fun id above hkind hparent habove => ?_, fun id scene hbeside => ?_⟩
  · simpa using named_cases hkind rfl
  · simpa using named_cases hkind rfl
  · obtain ⟨entry, hentry, rfl, hsame⟩ := exists_entry_of_kind? hkind
    have hname : entry.phrase.kind.isName = true := by rw [hsame]; rfl
    obtain ⟨context, line, more, statement, hrole, hline⟩ :=
      exists_statement_below hentry hparent habove (isContent_of_isName hname)
    exact ⟨line, Line.mem_split_of_mem_lines (hrole.proper.1.subset List.mem_cons_self), hline,
      (lists_of_statement levels hentry hrole hname).2⟩
  · obtain ⟨hkind, hinside⟩ := not_onLine_of_qualifier? hbeside
    exact hscene scene hkind hinside

end Scene

/-! ### Symbols -/

/-- A symbol has a single name, of the kind of what it stands for. -/
def Symbol.Named (symbol : Symbol) : Prop :=
  (symbol.referenceType = .var ∧ Text.IsIdentifier symbol.name.toList) ∨
    (symbol.referenceType = .label ∧ Text.IsRun symbol.name.toList)

/-- The names in a tree are names, and so are those of what is declared in it. -/
structure Lookup.Named (lookup : Lookup) : Prop where
  tree : lookup.tree.Named
  symbols : ∀ binding ∈ lookup.scopes.allBindings, binding.symbol.Named

namespace Tree

variable {tree other : Tree}

/-- Names do not depend on what is noted in a tree. -/
theorem Named.of_bare_eq (h : tree.Named) (hbare : other.bare = tree.bare) : other.Named := by
  have hsource : other.source = tree.source := by
    show other.bare.source = tree.bare.source
    rw [hbare]
  have hkind (id : Nat) : other.kind? id = tree.kind? id := by rw [← kind?_bare, hbare, kind?_bare]
  have htext (id : Nat) : other.text id = tree.text id := by rw [← text_bare, hbare, text_bare]
  have hparent (id : Nat) : other.parent? id = tree.parent? id := by rw [← parent?_bare, hbare, parent?_bare]
  have hissues (id : Nat) : other.issues id = tree.issues id := by rw [← issues_bare, hbare, issues_bare]
  have hlists {id : Nat} {line : Line} (h : tree.ListsScene id line) : other.ListsScene id line := by
    refine ⟨?_, ?_⟩
    · rw [Carries, hissues]
      exact h.nameless
    · rw [Carries, hissues, htext]
      exact h.named
  refine ⟨fun id => ?_, fun id => ?_, fun id => ?_, fun id above => ?_, fun id scene => ?_⟩
  · rw [hkind, hsource, htext]
    exact h.var id
  · rw [hkind, hsource, htext]
    exact h.label id
  · simp only [OnLine, hkind, hsource, htext, hparent]
    exact h.scene id
  · simp only [OnLine, hkind, hsource, hparent]
    intro hown habove hline
    obtain ⟨line, hmem, hlinekind, h⟩ := h.entry id above hown habove hline
    exact ⟨line, hmem, hlinekind, hlists h⟩
  · rw [← qualifier?_bare, hbare, qualifier?_bare, hsource, htext]
    exact h.beside id scene

end Tree

namespace Scope

variable {tree : Tree} {id : Nat} {symbol : Symbol}

/-- Whatever a node declares has the text of a variable or of a label as its name. -/
theorem exists_name_of_mem_declared (h : symbol ∈ declared tree id) : ∃ name, symbol.name = tree.name name ∧
    (tree.kind? name = some .var ∧ symbol.referenceType = .var ∨
      tree.kind? name = some .label ∧ symbol.referenceType = .label) := by
  have hchild {kind : Kind} {name : Nat} (hfound : name ∈ (tree.childWhere? id (· == kind)).toList) :
      tree.kind? name = some kind := by
    have hfind : (tree.children id).find? (fun child => (tree.kind? child).any (· == kind)) = some name :=
      Option.mem_toList.mp hfound
    have htest := List.find?_some hfind
    obtain ⟨other, hother, hsame⟩ := (Option.any_eq_true _ _).mp htest
    rw [hother, beq_iff_eq.mp hsame]
  obtain ⟨node, hnode, -⟩ := exists_declares h
  rw [declared_eq hnode] at h
  split at h
  · split at h
    · obtain ⟨name, hname, rfl⟩ := List.mem_map.mp h
      exact ⟨name, rfl, .inl ⟨beq_iff_eq.mp (List.mem_filter.mp hname).2, rfl⟩⟩
    · cases h
  · obtain ⟨name, hname, rfl⟩ := List.mem_map.mp h
    exact ⟨name, rfl, .inl ⟨hchild hname, rfl⟩⟩
  · obtain ⟨name, hname, rfl⟩ := List.mem_map.mp h
    exact ⟨name, rfl, .inr ⟨hchild hname, rfl⟩⟩
  · cases h

theorem named_of_mem_declared (htree : tree.Named) (h : symbol ∈ declared tree id) : symbol.Named := by
  obtain ⟨name, hname, ⟨hkind, htype⟩ | ⟨hkind, htype⟩⟩ := exists_name_of_mem_declared h
  · obtain ⟨line, -, hnamed⟩ := htree.var name hkind
    refine .inl ⟨htype, ?_⟩
    rw [hname, Tree.name, String.toList_ofList]
    exact hnamed.toIsIdentifier
  · obtain ⟨line, -, hnamed⟩ := htree.label name hkind
    refine .inr ⟨htype, ?_⟩
    rw [hname, Tree.name, String.toList_ofList]
    exact hnamed.toIsRun

end Scope

/-- Whatever the source, names are names in its tree and in its scopes. -/
theorem Scene.named_lookup (source : Text) (name uri : Option String) (levels : Levels) :
    (lookup source name uri levels).Named := by
  have hparsed := named_parse source name uri levels
  refine ⟨hparsed.of_bare_eq (bare_lookup source name uri levels), fun binding hbinding => ?_⟩
  obtain ⟨id, hdeclared⟩ := Scope.exists_declared hbinding
  exact Scope.named_of_mem_declared hparsed hdeclared

end Gamebook
