import Gamebook.Proofs.Grammar.Products
import Gamebook.Proofs.Scene.Naming
import Gamebook.Proofs.Tree.Shape

/-!
Options behind modifiers, in the tree. On a line below a choice there is an option with all the modifiers in order if
and only if none but the last of them is a condition. The asterisk behind a condition is read as that of a product of
its group and the name of the next modifier.
-/

namespace Gamebook

/-- The line is made of modifiers, a number sign and words. -/
structure Line.Offers (line : Line) (modifiers : List Modifier) (words : List Text) : Prop where
  nonempty : modifiers ≠ []
  content : ∃ text, Modifier.Precede modifiers line.content ('#' :: text) ∧ Text.MadeOf words text

namespace Tree

/-- The node is a group: the text between parentheses, with what the text derives there. -/
structure Groups (tree : Tree) (id : Nat) (text : Text) : Prop where
  written : tree.text id = text.enclosed
  derives : ∃ node shape, tree.node? id = some node ∧
    Derives 0 (Lexeme.sequence .command (node.offset + 1) text) shape ∧ tree.Shows id (.term .group [shape])

/-- The node is the command of a modifier; that of a condition has a group as its only child. -/
structure Modifies (tree : Tree) (id : Nat) (modifier : Modifier) : Prop where
  kind : tree.kind? id = some (.standardCommand modifier.name)
  written : tree.text id = modifier.written
  reuse : modifier.isCondition = false → tree.children id = []
  condition : ∀ selectable gap text, modifier = .condition selectable gap text →
    ∃ group, tree.children id = [group] ∧ tree.Groups group text

structure IsWord (tree : Tree) (id : Nat) (word : Text) : Prop where
  kind : tree.kind? id = some .realWord
  written : tree.text id = word
  children : tree.children id = []

/-- The line holds an option and nothing else but its indentation. In the option are the modifiers and the words,
without an error anywhere, and the lines of its block. -/
structure Offers (tree : Tree) (line option : Nat) (modifiers : List Modifier) (words : List Text) : Prop where
  below : option ∈ tree.children line
  only : ∀ child ∈ tree.children line, child = option ∨ ∃ depth unit, tree.kind? child = some (.indentation depth unit)
  kind : tree.kind? option =
    some (.choiceOption (Modifier.lastReuse? modifiers) (modifiers.any Modifier.isCondition))
  faultless : ∀ marker ∈ tree.issues option, marker.level ≠ .error
  children : ∃ commands texts lines, tree.children option = commands ++ texts ++ lines ∧
    List.Forall₂ tree.Modifies commands modifiers ∧ List.Forall₂ tree.IsWord texts words ∧
    (∀ id ∈ lines, tree.OnLine id) ∧
    ∀ part ∈ commands ++ texts, ∀ id, id = part ∨ part ∈ tree.ancestors id →
      ∀ marker ∈ tree.issues id, marker.level ≠ .error

end Tree

namespace Scene

open Role (Of)

variable {source : Text} {name uri : Option String} {levels : Levels} {entry : TreeEntry} {line : Line} {own : Phrase}

/-- What was read of a line, in the tree: the phrase of the entry is moved to where the line is. -/
theorem text_of_covers (hentry : entry ∈ (phrase source name uri).entries none 0) (hwithin : line.Within source)
    (hphrase : entry.phrase = own.shift line.start) {taken : Text} (h : (Reader.ofLine line).Covers own taken) :
    (parse source name uri levels).text entry.id = taken := by
  obtain ⟨place, left, hreach, hsplit, hstart, hstop⟩ := h
  exact text_of_place levels hentry hwithin hreach hsplit (by rw [hphrase, Phrase.shift_start, hstart])
    (by rw [hphrase, Phrase.shift_stop, hstop])

theorem groups_of_encloses (hentry : entry ∈ (phrase source name uri).entries none 0) (hwithin : line.Within source)
    (hphrase : entry.phrase = own.shift line.start) {text : Text} (h : (Reader.ofLine line).Encloses own text) :
    (parse source name uri levels).Groups entry.id text := by
  have hsound := (phrase_built source name uri).sound
  obtain ⟨shape, hderives, hshows⟩ := h.derives
  have hmoved := hderives.shift line.start
  have hoffset : (entry.node levels).offset = own.start + line.start := by
    rw [← Phrase.shift_start, ← hphrase]
    rfl
  have hshown := hshows.shift line.start
  rw [Shape.shift_term, List.map_singleton, ← hphrase] at hshown
  refine ⟨text_of_covers hentry hwithin hphrase h.covers, entry.node levels, shape.shift line.start,
    Phrase.node?_toTree levels source hentry, ?_, ?_⟩
  · rwa [hoffset, Nat.add_right_comm, Lexeme.sequence_shift]
  · exact hshown.toTree (fun entry hentry => (hsound.entry hentry).ordered) hentry

theorem children_eq_nil (hentry : entry ∈ (phrase source name uri).entries none 0)
    (hparts : entry.phrase.parts = []) : (parse source name uri levels).children entry.id = [] := by
  rw [← TreeEntry.map_phrase_parts, List.map_eq_nil_iff] at hparts
  rw [parse, Phrase.children_toTree levels source hentry, hparts, List.map_nil]

theorem modifies_of_modified (hentry : entry ∈ (phrase source name uri).entries none 0) (hwithin : line.Within source)
    (hphrase : entry.phrase = own.shift line.start) {modifier : Modifier}
    (h : (Reader.ofLine line).Modified own modifier) : (parse source name uri levels).Modifies entry.id modifier := by
  refine ⟨?_, text_of_covers hentry hwithin hphrase h.covers, fun hreuse => ?_,
    fun selectable gap text hcondition => ?_⟩
  · rw [parse, Phrase.kind?_toTree levels source hentry, hphrase, Phrase.shift_kind, h.kind]
  · exact children_eq_nil hentry (by rw [hphrase, Phrase.shift_parts, h.reuse hreuse, List.map_nil])
  · obtain ⟨group, hparts, hencloses⟩ := h.condition selectable gap text hcondition
    have hmoved : entry.phrase.parts = [group.shift line.start] := by
      rw [hphrase, Phrase.shift_parts, hparts, List.map_singleton]
    obtain ⟨child, hchild, hsame, hchildren⟩ := Phrase.exists_child hentry hmoved
    exact ⟨child.id, hchildren, groups_of_encloses hchild hwithin hsame hencloses⟩

theorem isWord_of_worded (hentry : entry ∈ (phrase source name uri).entries none 0) (hwithin : line.Within source)
    (hphrase : entry.phrase = own.shift line.start) {word : Text} (h : (Reader.ofLine line).Worded own word) :
    (parse source name uri levels).IsWord entry.id word := by
  refine ⟨?_, text_of_covers hentry hwithin hphrase h.covers, ?_⟩
  · rw [parse, Phrase.kind?_toTree levels source hentry, hphrase, Phrase.shift_kind, h.kind]
  · exact children_eq_nil hentry (by rw [hphrase, Phrase.shift_parts, h.parts, List.map_nil])

theorem kind_margin {unit : Option IndentUnit} {part : Phrase} (h : part ∈ line.margin unit) :
    ∃ depth own, part.kind = .indentation depth own := by
  obtain ⟨indentation, hfound, rfl⟩ := Option.map_eq_some_iff.mp (Option.mem_toList.mp h)
  rw [Line.indentation?_eq] at hfound
  split at hfound
  · cases hfound
    exact ⟨_, _, Phrase.shift_kind _ _⟩
  · cases hfound

theorem isLine_block {context : Context} {more : List Line} (hlines : (line :: more).Sublist (Line.lines source))
    {part : Phrase} (h : part ∈ block source context line more) : part.kind.isLine = true := by
  obtain ⟨lower, lowers, hbelow, rfl⟩ := Role.exists_line_of_mem_phrases _ part h
  rw [Line.kind_phrase (Role.within_of_sublist (hbelow.trans ((Line.block_sublist context line more).trans hlines)))]
  rfl

/-- A line of the source is told by its number. -/
theorem eq_of_number_eq {other : Line} (hline : line ∈ Line.split source) (hother : other ∈ Line.split source)
    (hnumber : line.number = other.number) : line = other := by
  obtain ⟨index, hindex⟩ := List.mem_iff_getElem?.mp hline
  obtain ⟨index', hindex'⟩ := List.mem_iff_getElem?.mp hother
  rw [Line.number_of_getElem?_split hindex, Line.number_of_getElem?_split hindex'] at hnumber
  subst hnumber
  exact Option.some.inj (hindex.symm.trans hindex')

/-- The node of a line below a choice is that of the line as it is read there. -/
theorem exists_line_inChoice {id : Nat} (hline : line ∈ Line.split source)
    (hkind : (parse source name uri levels).kind? id = some (.line line.number line.width line.type))
    (hchoice : (parse source name uri levels).InChoice id) :
    ∃ entry ∈ (phrase source name uri).entries none 0, entry.id = id ∧
      ∃ more, Of source name uri entry (.line .choice line more) := by
  obtain ⟨entry, hentry, rfl, hsame⟩ := exists_entry_of_kind? hkind
  obtain ⟨role, hrole⟩ := Role.exists_of hentry
  obtain ⟨context, other, more, rfl⟩ := exists_line_of_isLine hrole (by rw [hsame]; rfl)
  obtain rfl : context = .choice := (agrees_of hrole).mp hchoice
  have hother := Line.mem_split_of_mem_lines (hrole.proper.subset List.mem_cons_self)
  have hnumber := hrole.kind_line.symm.trans hsame
  rw [Kind.line.injEq] at hnumber
  obtain rfl := eq_of_number_eq hother hline hnumber.1
  exact ⟨entry, hentry, rfl, more, hrole⟩

theorem levels_of_clean (hentry : entry ∈ (phrase source name uri).entries none 0)
    (hissues : ∀ issue ∈ entry.phrase.issues, ¬issue.rule.IsError) :
    ∀ marker ∈ (parse source name uri {}).issues entry.id, marker.level ≠ .error := by
  intro marker hmarker herror
  rw [parse, Tree.issues, Phrase.node?_toTree {} source hentry] at hmarker
  obtain ⟨issue, hissue, hfound⟩ := List.mem_filterMap.mp hmarker
  rw [Issue.eq_of_marker? hfound] at herror
  exact hissues issue hissue herror

/-- No error is anywhere inside a phrase that was read without one. -/
theorem levels_of_inside (hentry : entry ∈ (phrase source name uri).entries none 0)
    (hphrase : entry.phrase = own.shift line.start) (hclean : own.Clean) {id : Nat}
    (hinside : id = entry.id ∨ entry.id ∈ (parse source name uri {}).ancestors id) :
    ∀ marker ∈ (parse source name uri {}).issues id, marker.level ≠ .error := by
  intro marker hmarker
  obtain ⟨inner, hinner, rfl⟩ := exists_entry_of_carries ⟨marker, hmarker, rfl⟩
  have hmem : inner ∈ entry.inside := by
    refine TreeEntry.mem_inside_iff.mpr (hinside.imp (Phrase.entry_eq_of_id_eq hinner hentry) ?_)
    exact (Phrase.mem_ancestors_iff hentry hinner).mp
  have hmoved : entry.phrase.Clean := by
    rw [hphrase]
    refine Phrase.Everywhere.shift hclean fun part hpart issue hissue => ?_
    rw [Phrase.shift_issues] at hissue
    obtain ⟨bare, hbare, rfl⟩ := List.mem_map.mp hissue
    exact hpart bare hbare
  exact levels_of_clean hinner (hmoved.entry hmem) marker hmarker

/-- A line of modifiers is read as a command. -/
theorem reading_of_offers {modifiers : List Modifier} {words : List Text} (hline : line ∈ Line.split source)
    (hoffers : line.Offers modifiers words) :
    line.reading .choice = Reader.statement .choice .command (Reader.ofLine line) ∧
      (Reader.ofLine line).mode = .command ∧ (Reader.ofLine line).Trimmed := by
  obtain ⟨text, hprecede, -⟩ := hoffers.content
  have htype : line.type = .command := by
    rw [Line.type]
    generalize line.content = content at hprecede
    cases hprecede with
    | nil => exact absurd rfl hoffers.nonempty
    | cons _ _ _ => exact LineType.ofContent_written _ _
  refine ⟨by rw [Line.reading, htype], ?_, (Line.clean_of_mem_split hline).trimmed⟩
  rw [Reader.ofLine, htype]
  rfl

theorem statement_of_offers {modifiers : List Modifier} {words : List Text} (hline : line ∈ Line.split source)
    (hoffers : line.Offers modifiers words) (hlast : ∀ modifier ∈ modifiers.dropLast, modifier.isCondition = false) :
    ∃ option, (line.reading .choice).1 = some ⟨option, some .body⟩ ∧
      (Reader.ofLine line).Offers option modifiers words := by
  obtain ⟨text, hprecede, hwords⟩ := hoffers.content
  obtain ⟨hreading, hmode, htrimmed⟩ := reading_of_offers hline hoffers
  rw [hreading]
  exact Reader.statement_offers hprecede hlast hwords hmode htrimmed (Nat.le_refl _)

/-- What the phrases on a line are one by one, their nodes are. -/
theorem forall₂_nodes {β : Type} {relation : Phrase → β → Prop} {related : Nat → β → Prop} {entries : List TreeEntry}
    {phrases : List Phrase} {others : List β}
    (hentries : entries.map TreeEntry.phrase = phrases.map (Phrase.shift line.start))
    (h : List.Forall₂ relation phrases others)
    (himp : ∀ entry ∈ entries, ∀ own other, entry.phrase = own.shift line.start → relation own other →
      related entry.id other) : List.Forall₂ related (entries.map TreeEntry.id) others := by
  induction h generalizing entries with
  | nil =>
      rw [List.map_nil, List.map_eq_nil_iff] at hentries
      rw [hentries, List.map_nil]
      exact .nil
  | cons hfirst _ ih =>
      obtain ⟨entry, more, rfl, hphrase, hmore⟩ := List.map_eq_cons_iff.mp hentries
      exact .cons (himp entry List.mem_cons_self _ _ hphrase hfirst)
        (ih hmore fun entry hentry => himp entry (List.mem_cons_of_mem _ hentry))

/-- Of related lists the elements at one place are related, also where the first list goes on. -/
theorem rel_of_getElem? {α β : Type} {relation : α → β → Prop} {elements others : List α} {partners : List β}
    (h : List.Forall₂ relation elements partners) {index : Nat} {element : α} {partner : β}
    (helement : (elements ++ others)[index]? = some element) (hpartner : partners[index]? = some partner) :
    relation element partner := by
  induction h generalizing index with
  | nil => cases hpartner
  | cons hfirst _ ih =>
      cases index with
      | zero =>
          cases helement
          cases hpartner
          exact hfirst
      | succ index => exact ih helement hpartner

theorem clean_of_forall₂ {β : Type} {relation : Phrase → β → Prop} {entries : List TreeEntry} {phrases : List Phrase}
    {others : List β} (hentries : entries.map TreeEntry.phrase = phrases.map (Phrase.shift line.start))
    (h : List.Forall₂ relation phrases others)
    (hclean : ∀ (own : Phrase) (other : β), relation own other → own.Clean) :
    ∀ entry ∈ entries, ∃ own : Phrase, entry.phrase = own.shift line.start ∧ own.Clean := by
  intro entry hentry
  have hmem : entry.phrase ∈ phrases.map (Phrase.shift line.start) := hentries ▸ List.mem_map_of_mem hentry
  obtain ⟨own, hown, hsame⟩ := List.mem_map.mp hmem
  obtain ⟨index, hindex⟩ := List.mem_iff_getElem?.mp hown
  obtain ⟨hbound, hget⟩ := List.getElem?_eq_some_iff.mp hindex
  have hother := h.get hbound (h.length_eq ▸ hbound)
  exact ⟨own, hsame.symm, hclean own _ (by simpa [hget] using hother)⟩

/-- An option with its block is in the tree as it was read. -/
theorem offers_of_stated {modifiers : List Modifier} {words : List Text} {option : Phrase} {block : List Phrase}
    (hentry : entry ∈ (phrase source name uri).entries none 0) (hwithin : line.Within source)
    (hphrase : entry.phrase = line.stated block ⟨option, some .body⟩)
    (hoption : (Reader.ofLine line).Offers option modifiers words) (hblock : ∀ part ∈ block, part.kind.isLine = true)
    {above : Nat} (hbelow : entry.id ∈ (parse source name uri {}).children above)
    (honly : ∀ child ∈ (parse source name uri {}).children above, child = entry.id ∨
      ∃ depth unit, (parse source name uri {}).kind? child = some (.indentation depth unit)) :
    (parse source name uri {}).Offers above entry.id modifiers words := by
  have hentries := Phrase.parts_subset_entries none 0 _ entry hentry
  obtain ⟨commands, texts, hparts, hcommands, htexts⟩ := hoption.parts
  have hinside := congrArg Phrase.parts hphrase
  rw [Line.stated_parts, Phrase.shift_parts, hparts, List.map_append, ← TreeEntry.map_phrase_parts] at hinside
  obtain ⟨front, lines, hwhole, hfront, hlines⟩ := List.map_eq_append_iff.mp hinside
  obtain ⟨first, second, rfl, hfirst, hsecond⟩ := List.map_eq_append_iff.mp hfront
  rw [hwhole] at hentries
  refine ⟨hbelow, honly, ?_, levels_of_clean hentry fun issue hissue => ?_, first.map TreeEntry.id,
    second.map TreeEntry.id, lines.map TreeEntry.id, ?_, ?_, ?_, ?_, ?_⟩
  · rw [parse, Phrase.kind?_toTree {} source hentry, hphrase, Line.stated_kind, hoption.kind]
  · rcases line.stated_eq block ⟨option, some .body⟩ with hsame | ⟨fake, hchoice, -⟩
    · have hissues : entry.phrase.issues = option.issues.map (·.shift line.start) := by
        rw [hphrase, hsame]
        exact Phrase.shift_issues _ _
      rw [hissues, hoption.issues] at hissue
      cases hissue
    · cases hoption.kind.symm.trans hchoice
  · rw [parse, Phrase.children_toTree {} source hentry, hwhole, List.map_append, List.map_append]
  · refine forall₂_nodes hfirst hcommands fun part hpart own modifier hsame h => ?_
    exact modifies_of_modified (hentries (List.mem_append_left _ (List.mem_append_left _ hpart))) hwithin hsame h
  · refine forall₂_nodes hsecond htexts fun part hpart own word hsame h => ?_
    exact isWord_of_worded (hentries (List.mem_append_left _ (List.mem_append_right _ hpart))) hwithin hsame h
  · rintro _ hid
    obtain ⟨part, hpart, rfl⟩ := List.mem_map.mp hid
    refine (Phrase.onLine_toTree (hentries (List.mem_append_right _ hpart))).mpr (hblock _ ?_)
    rw [← hlines]
    exact List.mem_map_of_mem hpart
  · rintro part hpart id hinside
    rw [← List.map_append] at hpart
    obtain ⟨entry, hmember, rfl⟩ := List.mem_map.mp hpart
    obtain ⟨own, hsame, hclean⟩ : ∃ own : Phrase, entry.phrase = own.shift line.start ∧ own.Clean := by
      rcases List.mem_append.mp hmember with hmem | hmem
      · exact clean_of_forall₂ hfirst hcommands (fun _ _ h => h.clean) entry hmem
      · exact clean_of_forall₂ hsecond htexts (fun _ _ h => h.clean) entry hmem
    exact levels_of_inside (hentries (List.mem_append_left _ hmember)) hsame hclean hinside

/-- The parts of a line are its indentation and its statement. -/
theorem map_phrase_parts_line {more : List Line} (h : Of source name uri entry (.line .choice line more)) :
    entry.parts.map TreeEntry.phrase = line.margin (Line.establishedUnit? (Line.lines source)) ++
      ((line.reading .choice).1.map (line.stated (block source .choice line more))).toList := by
  rw [TreeEntry.map_phrase_parts, h.phrase_eq, Role.phrase, Line.parts_phrase (Role.within_of_sublist h.proper)]

/-- Where none but the last modifier is a condition, the line is an option behind all of them. -/
theorem exists_option_of_last {id : Nat} {modifiers : List Modifier} {words : List Text}
    (hline : line ∈ Line.split source) (hoffers : line.Offers modifiers words)
    (hkind : (parse source name uri {}).kind? id = some (.line line.number line.width line.type))
    (hchoice : (parse source name uri {}).InChoice id)
    (hlast : ∀ modifier ∈ modifiers.dropLast, modifier.isCondition = false) :
    ∃ option, (parse source name uri {}).Offers id option modifiers words := by
  obtain ⟨entry, hentry, rfl, more, hrole⟩ := exists_line_inChoice hline hkind hchoice
  have hwithin := Role.within_of_sublist hrole.proper
  obtain ⟨option, hfound, hoption⟩ := statement_of_offers hline hoffers hlast
  have hphrase := map_phrase_parts_line hrole
  rw [hfound, Option.map_some, Option.toList_some, List.map_eq_append_iff] at hphrase
  obtain ⟨margin, statement, hsplit, hmargin, hstatement⟩ := hphrase
  obtain ⟨held, rfl, hheld⟩ := List.map_eq_singleton_iff.mp hstatement
  have hentries := Phrase.parts_subset_entries none 0 _ entry hentry
  have hchildren : (parse source name uri {}).children entry.id = margin.map TreeEntry.id ++ [held.id] := by
    rw [parse, Phrase.children_toTree {} source hentry, hsplit, List.map_append, List.map_singleton]
  rw [hsplit] at hentries
  refine ⟨held.id, offers_of_stated (hentries (List.mem_append_right _ (List.mem_singleton_self held))) hwithin hheld
    hoption (fun part hpart => isLine_block hrole.proper hpart) ?_ fun child hchild => ?_⟩
  · rw [hchildren]
    exact List.mem_append_right _ (List.mem_singleton_self _)
  · rw [hchildren, List.mem_append, List.mem_singleton] at hchild
    refine hchild.symm.imp id fun hmem => ?_
    obtain ⟨part, hpart, rfl⟩ := List.mem_map.mp hmem
    have hmember : part.phrase ∈ line.margin (Line.establishedUnit? (Line.lines source)) := by
      rw [← hmargin]
      exact List.mem_map_of_mem hpart
    obtain ⟨depth, own, hindentation⟩ := kind_margin hmember
    refine ⟨depth, own, ?_⟩
    rw [parse, Phrase.kind?_toTree {} source (hentries (List.mem_append_left _ hpart)), hindentation]

/-- The option of a line was read as its statement. -/
theorem exists_option_phrase {more : List Line} {option : Nat} {reuse : Option Reuse} {conditional : Bool}
    (hentry : entry ∈ (phrase source name uri).entries none 0) (h : Of source name uri entry (.line .choice line more))
    (hbelow : option ∈ (parse source name uri levels).children entry.id)
    (hkind : (parse source name uri levels).kind? option = some (.choiceOption reuse conditional)) :
    ∃ part ∈ (phrase source name uri).entries none 0, part.id = option ∧ ∃ statement,
      (line.reading .choice).1 = some statement ∧ statement.phrase.kind.isOption = true ∧
      part.phrase = line.stated (block source .choice line more) statement := by
  have hentries := Phrase.parts_subset_entries none 0 _ entry hentry
  rw [parse, Phrase.children_toTree levels source hentry] at hbelow
  obtain ⟨part, hpart, rfl⟩ := List.mem_map.mp hbelow
  rw [parse, Phrase.kind?_toTree levels source (hentries hpart), Option.some.injEq] at hkind
  have hmember : part.phrase ∈ entry.parts.map TreeEntry.phrase := List.mem_map_of_mem hpart
  rw [map_phrase_parts_line h, List.mem_append, Option.mem_toList] at hmember
  rcases hmember with hmargin | hstatement
  · obtain ⟨depth, own, hindentation⟩ := kind_margin hmargin
    cases hindentation.symm.trans hkind
  · obtain ⟨statement, hstatement, hphrase⟩ := Option.map_eq_some_iff.mp hstatement
    refine ⟨part, hentries hpart, rfl, statement, hstatement, ?_, hphrase.symm⟩
    rw [← line.stated_kind (block source .choice line more) statement, hphrase, hkind]
    rfl

/-- The command of a condition holds a group if its node does. -/
theorem holdsGroup_of_modifies (hentry : entry ∈ (phrase source name uri).entries none 0) {modifier : Modifier}
    (h : (parse source name uri levels).Modifies entry.id modifier) (hcondition : modifier.isCondition = true) :
    entry.phrase.HoldsGroup := by
  cases modifier with
  | reuse own => cases hcondition
  | condition selectable gap text =>
      obtain ⟨group, hchildren, hgroup⟩ := h.condition selectable gap text rfl
      obtain ⟨_, _, _, _, hshows⟩ := hgroup.derives
      rw [parse, Phrase.children_toTree levels source hentry] at hchildren
      obtain ⟨child, hparts, rfl⟩ := List.map_eq_singleton_iff.mp hchildren
      have hchild : child ∈ (phrase source name uri).entries none 0 :=
        Phrase.parts_subset_entries none 0 _ entry hentry (hparts ▸ List.mem_singleton_self child)
      have hkind : child.phrase.kind.untyped = .term .unknown .group := by
        cases hshows with
        | node hkind _ =>
            rw [parse, Phrase.kind?_toTree levels source hchild] at hkind
            exact Option.some.inj hkind
      obtain ⟨type, htype⟩ : ∃ type, child.phrase.kind = .term type .group := by
        cases hsame : child.phrase.kind <;> rw [hsame] at hkind <;> cases hkind
        exact ⟨_, rfl⟩
      exact ⟨child.phrase, type, by rw [← TreeEntry.map_phrase_parts, hparts]; rfl, htype⟩

/-- Where a condition stands before another modifier, there is no option behind all the modifiers. -/
theorem last_of_offers {id option : Nat} {modifiers : List Modifier} {words : List Text}
    (hline : line ∈ Line.split source) (hoffers : line.Offers modifiers words)
    (hkind : (parse source name uri levels).kind? id = some (.line line.number line.width line.type))
    (hchoice : (parse source name uri levels).InChoice id)
    (h : (parse source name uri levels).Offers id option modifiers words) :
    ∀ modifier ∈ modifiers.dropLast, modifier.isCondition = false := by
  by_contra hnot
  have hearly : ∃ modifier ∈ modifiers.dropLast, modifier.isCondition = true := by simpa using hnot
  obtain ⟨entry, hentry, rfl, more, hrole⟩ := exists_line_inChoice hline hkind hchoice
  obtain ⟨part, hpart, rfl, statement, hfound, hoption, hphrase⟩ := exists_option_phrase hentry hrole h.below h.kind
  obtain ⟨text, hprecede, -⟩ := hoffers.content
  obtain ⟨hreading, hmode, htrimmed⟩ := reading_of_offers hline hoffers
  rw [hreading] at hfound
  obtain ⟨index, modifier, command, hmodifier, hcondition, hcommand, hgroup⟩ :=
    Reader.exists_product_of_statement hprecede hearly hmode htrimmed (Nat.le_refl _) hfound hoption
  obtain ⟨commands, texts, lines, hchildren, hcommands, -⟩ := h.children
  -- the command that holds no group is the part of the option at the place of the modifier
  have hmoved : part.phrase.parts[index]? = some (command.shift line.start) := by
    have hbound := (List.getElem?_eq_some_iff.mp hcommand).1
    rw [hphrase, Line.stated_parts, Phrase.shift_parts, List.getElem?_append_left (by simpa using hbound),
      List.getElem?_map, hcommand]
    rfl
  rw [← TreeEntry.map_phrase_parts, List.getElem?_map] at hmoved
  obtain ⟨inner, hinner, hsame⟩ := Option.map_eq_some_iff.mp hmoved
  have hentries := Phrase.parts_subset_entries none 0 _ part hpart (List.mem_of_getElem? hinner)
  have hnode : (commands ++ (texts ++ lines))[index]? = some inner.id := by
    rw [← List.append_assoc, ← hchildren, parse, Phrase.children_toTree levels source hpart, List.getElem?_map, hinner]
    rfl
  have hmodifies := rel_of_getElem? hcommands hnode hmodifier
  exact hgroup (hsame ▸ holdsGroup_of_modifies hentries hmodifies hcondition).of_shift

/-- Modifiers compose in order, if and only if none but the last is a condition. -/
theorem modifiers_parse {id : Nat} {modifiers : List Modifier} {words : List Text} (hline : line ∈ Line.split source)
    (hoffers : line.Offers modifiers words)
    (hkind : (parse source name uri {}).kind? id = some (.line line.number line.width line.type))
    (hchoice : (parse source name uri {}).InChoice id) :
    (∃ option, (parse source name uri {}).Offers id option modifiers words) ↔
      ∀ modifier ∈ modifiers.dropLast, modifier.isCondition = false := by
  constructor
  · rintro ⟨option, h⟩
    exact last_of_offers hline hoffers hkind hchoice h
  · exact exists_option_of_last hline hoffers hkind hchoice

theorem modifiers_parse_reuseFirst :
    ∃ option, (parse "*choice\n  *hide_reuse *if (a) #Go now\n".toList none none {}).Offers 3 option
      [.reuse .hide, .condition false [' '] ['a']] [['G', 'o'], ['n', 'o', 'w']] := by
  have hblank : ∀ c ∈ [' '], Text.isBlank c = true := List.forall_mem_singleton.mpr rfl
  have hcondition : Modifier.Proper (.condition false [' '] ['a']) :=
    ⟨hblank, _, Derives.name (by decide +kernel) (List.forall_mem_nil _) rfl (by decide)⟩
  have hprecede : Modifier.Precede [.reuse .hide, .condition false [' '] ['a']] _ "#Go now".toList :=
    .cons trivial hblank (.cons hcondition hblank .nil)
  have hnow : Text.MadeOf [['n', 'o', 'w']] ([' '] ++ (['n', 'o', 'w'] ++ [])) :=
    .cons hblank (Text.mem_word_of_all (by decide) (by decide)) (by rintro _ ⟨⟩) (.nil (List.forall_mem_nil _))
  have hwords : Text.MadeOf [['G', 'o'], ['n', 'o', 'w']] ([] ++ (['G', 'o'] ++ [' ', 'n', 'o', 'w'])) :=
    .cons (List.forall_mem_nil _) (Text.mem_word_of_all (by decide) (by decide)) (by rintro _ ⟨⟩; rfl) hnow
  have hchoice : (parse "*choice\n  *hide_reuse *if (a) #Go now\n".toList none none {}).InChoice 3 :=
    @Tree.InChoice.choice _ 3 2 (by decide +kernel) ⟨false, by decide +kernel⟩
  have hiff := @modifiers_parse "*choice\n  *hide_reuse *if (a) #Go now\n".toList none none
    ⟨1, 8, "  ".toList, "*hide_reuse *if (a) #Go now".toList, .lf⟩ 3 _ _ (by decide +kernel)
    ⟨by decide, _, hprecede, hwords⟩ (by decide +kernel) hchoice
  exact hiff.mpr (by decide)

/-- Behind a condition the asterisk of a further modifier is that of a product. -/
theorem reuse_behind_condition : ∃ line ∈ Line.split "*choice\n  *if (a) *hide_reuse #Go\n".toList,
    line.Offers [.condition false [' '] ['a'], .reuse .hide] [['G', 'o']] ∧
    (parse "*choice\n  *if (a) *hide_reuse #Go\n".toList none none {}).kind? 3 =
      some (.line line.number line.width line.type) ∧
    (parse "*choice\n  *if (a) *hide_reuse #Go\n".toList none none {}).InChoice 3 ∧
    ¬∃ option, (parse "*choice\n  *if (a) *hide_reuse #Go\n".toList none none {}).Offers 3 option
      [.condition false [' '] ['a'], .reuse .hide] [['G', 'o']] := by
  have hblank : ∀ c ∈ [' '], Text.isBlank c = true := List.forall_mem_singleton.mpr rfl
  have hcondition : Modifier.Proper (.condition false [' '] ['a']) :=
    ⟨hblank, _, Derives.name (by decide +kernel) (List.forall_mem_nil _) rfl (by decide)⟩
  have hprecede : Modifier.Precede [.condition false [' '] ['a'], .reuse .hide] _ "#Go".toList :=
    .cons hcondition hblank (.cons trivial hblank .nil)
  have hwords : Text.MadeOf [['G', 'o']] ([] ++ (['G', 'o'] ++ [])) :=
    .cons (List.forall_mem_nil _) (Text.mem_word_of_all (by decide) (by decide)) (by rintro _ ⟨⟩)
      (.nil (List.forall_mem_nil _))
  have hchoice : (parse "*choice\n  *if (a) *hide_reuse #Go\n".toList none none {}).InChoice 3 :=
    @Tree.InChoice.choice _ 3 2 (by decide +kernel) ⟨false, by decide +kernel⟩
  refine ⟨⟨1, 8, "  ".toList, "*if (a) *hide_reuse #Go".toList, .lf⟩, by decide +kernel,
    ⟨by decide, _, hprecede, hwords⟩, by decide +kernel, hchoice, ?_⟩
  rintro ⟨option, hoffers⟩
  have hchildren : (parse "*choice\n  *if (a) *hide_reuse #Go\n".toList none none {}).children 3 = [4, 13] := by
    decide +kernel
  have hkind : ∀ child ∈ [4, 13], (parse "*choice\n  *if (a) *hide_reuse #Go\n".toList none none {}).kind? child ≠
      some (.choiceOption (some .hide) true) := by
    decide +kernel
  exact hkind option (hchildren ▸ hoffers.below) hoffers.kind

end Scene

end Gamebook
