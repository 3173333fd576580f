import Gamebook.Proofs.Grammar.Literals
import Gamebook.Proofs.Scene.Commands
import Gamebook.Proofs.Scene.Modifiers
import Gamebook.Proofs.Scene.Words

/-!
Literal arguments in the tree. The children of a choice, of a chart or of a command without a form of its own are
its arguments and the lines of its block. The arguments tile what follows the name of the command on its line:
whatever stands between them is blank, and what each of them is can be read off the text that begins with it.
-/

namespace Gamebook

namespace Tree

/-- The arguments of a command: its children, without the lines of its block. -/
def arguments (tree : Tree) (id : Nat) : List Nat :=
  (tree.children id).filter fun child => !(tree.kind? child).any Kind.isLine

/-- The arguments of a node tile the range between two offsets of the source. -/
structure Tiles (tree : Tree) (id start stop : Nat) : Prop where
  ordered : (tree.arguments id).Pairwise tree.Precedes
  inside : ∀ argument ∈ tree.arguments id, ∃ node, tree.node? argument = some node ∧ start ≤ node.offset ∧
    node.offset < node.stop ∧ node.stop ≤ stop
  /-- Every byte that belongs to no argument is a blank. -/
  blank : ∀ offset, start ≤ offset → offset < stop → (∀ argument ∈ tree.arguments id, ∀ node,
    tree.node? argument = some node → ¬(node.offset ≤ offset ∧ offset < node.stop)) →
      ∃ c, Text.slice? offset (offset + 1) tree.source = some [c] ∧ Text.isBlank c = true
  /-- Every argument is the one at the front of what the range has from there on. -/
  literal : ∀ argument ∈ tree.arguments id, ∀ node, tree.node? argument = some node → ∃ text unclosed,
    Text.slice? node.offset stop tree.source = some text ∧
      Text.Literal node.kind text (tree.text argument) unclosed ∧
      (tree.Carries .missingClosingQuote argument ↔ unclosed = true)
  /-- Only the last argument can lack its closing quote, and ends with the range then. -/
  last : ∀ argument ∈ tree.arguments id, tree.Carries .missingClosingQuote argument →
    (tree.arguments id).getLast? = some argument ∧ ∃ node, tree.node? argument = some node ∧ node.stop = stop

end Tree

/-- In a text that is cut into arguments the last one is the one that ends with the text. -/
theorem Text.Tiled.behind_eq_nil {offset : Nat} {text : Text} {parts front back : List Phrase} {phrase : Phrase}
    (h : Text.Tiled offset text parts) (hsplit : parts = front ++ phrase :: back)
    (hstop : phrase.stop = offset + Text.bytes text) : back = [] := by
  cases back with
  | nil => rfl
  | cons next back =>
      subst hsplit
      have hmem : next ∈ front ++ phrase :: next :: back := by simp
      obtain ⟨-, hfilled, hinside⟩ := h.range hmem
      have hpairs := (List.pairwise_cons.mp (List.pairwise_append.mp h.pairwise).2.1).1 next List.mem_cons_self
      omega

theorem Line.Within.slice?_blank {source : Text} {line : Line} (h : line.Within source) {taken left : Text} {c : Char}
    (hblank : Text.isBlank c = true) (hsplit : line.content = taken ++ c :: left) :
    Text.slice? (line.contentStart + Text.bytes taken) (line.contentStart + Text.bytes taken + 1) source = some [c] := by
  have hbytes : Text.bytes [c] = 1 := Text.bytes_of_blank (by simpa using hblank)
  have hcontent : line.content = taken ++ [c] ++ left := by rw [hsplit, List.append_assoc, List.singleton_append]
  rw [← hbytes]
  exact h.slice?_content hcontent

/-- A line with such a command is an asterisk, the name, and a text that is cut into the arguments. -/
theorem Line.exists_literals {line : Line} {context : Context} {statement : Statement}
    (htrimmed : (Reader.ofLine line).Trimmed) (hfound : (line.reading context).1 = some statement)
    (hkind : statement.phrase.kind.takesLiterals = true) :
    ∃ name rest, statement.phrase.kind.commandName? = some name ∧ line.content = '*' :: (name.toList ++ rest) ∧
      Text.Tiled (Text.bytes line.indent + 1 + Text.bytes name.toList) rest statement.phrase.parts := by
  have hmode : line.type = .command → (Reader.ofLine line).mode = .command := fun htype => by
    rw [Reader.ofLine, htype]
    rfl
  obtain ⟨htype, hname, htiled⟩ := Reader.statement_lists htrimmed hmode hfound hkind
  obtain ⟨c, more, hc, hasterisk⟩ := Reader.first?_of_command htype
  have hoffset := Reader.next_offset_of_command htype
  have hcontent : line.content = '*' :: c :: more := (Lexeme.append_of_first? hasterisk).symm
  have hrest : (Reader.ofLine line).next.rest = c :: more := by
    rw [Reader.next_of_first? hasterisk]
    exact List.dropWhile_cons_of_neg (Bool.eq_false_iff.mp hc)
  generalize (Reader.ofLine line).next = named at htiled hname hoffset hrest
  obtain ⟨⟨lexeme, left⟩, hfirst⟩ : ∃ found, Lexeme.first? named.mode named.rest = some found := by
    refine Option.ne_none_iff_exists'.mp fun hnone => ?_
    rw [hrest] at hnone
    exact List.cons_ne_nil _ _ (Lexeme.first?_eq_none_iff.mp hnone)
  have hword : named.word.toList = lexeme.text := by
    rw [Reader.word, String.toList_ofList, Reader.text, Reader.lexeme?, hfirst]
    rfl
  refine ⟨named.word, left, hname, ?_, ?_⟩
  · rw [hword, Lexeme.append_of_first? hfirst, hrest, hcontent]
  · rw [Reader.next_of_first? hfirst] at htiled
    have hbehind := Reader.tiled_of_advance htiled
    rwa [hword, ← show named.offset = Text.bytes line.indent + 1 from hoffset]

namespace Scene

open Role (Of)

variable {source : Text} {name uri : Option String} {levels : Levels} {entry : TreeEntry} {context : Context}
  {line : Line} {more : List Line} {statement : Statement}

/-- A command with literal arguments is what its line holds, unless it is a modifier of an option. -/
theorem exists_statement_of_takesLiterals {role : Role} (h : Of source name uri entry role)
    (hkind : entry.phrase.kind.takesLiterals = true) (hmodifier : entry.phrase.kind.isModifier = true →
      ∀ above ∈ (phrase source name uri).entries none 0, entry ∈ above.parts → ¬above.phrase.kind.isOption = true) :
    ∃ context line more statement, role = .statement context line more statement := by
  rcases command_cases h (Kind.commandName?_of_takesLiterals hkind) with
    hstatement | ⟨line, statement, own, -, hinside⟩
  · exact hstatement
  · obtain ⟨context, more, above, habove, hmem, hpart⟩ := hinside.held
    exact absurd (habove.kind_statement ▸ hinside.option) (hmodifier hinside.modifier above hmem hpart)

/-- The children of a statement that are no lines are those that were read on its line. -/
theorem exists_arguments (h : Of source name uri entry (.statement context line more statement))
    (hentry : entry ∈ (phrase source name uri).entries none 0) :
    ∃ parts : List TreeEntry, (∀ part ∈ parts, part ∈ (phrase source name uri).entries none 0) ∧
      (parse source name uri levels).arguments entry.id = parts.map TreeEntry.id ∧
      parts.map TreeEntry.phrase = statement.phrase.parts.map (·.shift line.start) := by
  obtain ⟨hlines, hfound⟩ := h.proper
  have hsub := Phrase.parts_subset_entries none 0 (phrase source name uri) entry hentry
  have hreads := (Line.reading_states (Role.within_of_sublist hlines) hfound).reads
  have hparts := TreeEntry.map_phrase_parts entry
  rw [h.phrase_eq, Role.phrase, Line.stated_parts, Phrase.shift_parts] at hparts
  obtain ⟨front, back, hsplit, hfront, hback⟩ := List.map_eq_append_iff.mp hparts
  have hmem : ∀ part ∈ front ++ back, part ∈ (phrase source name uri).entries none 0 := hsplit ▸ hsub
  obtain ⟨hown, hblock⟩ := List.forall_mem_append.mp hmem
  have hline : ∀ {part}, part ∈ (phrase source name uri).entries none 0 →
      ((parse source name uri levels).kind? part.id).any Kind.isLine = part.phrase.kind.isLine := by
    intro part hpart
    rw [parse, Phrase.kind?_toTree levels source hpart, Option.any_some]
  refine ⟨front, hown, ?_, hfront⟩
  rw [Tree.arguments, parse, Phrase.children_toTree levels source hentry, hsplit, List.map_append, List.filter_append,
    List.filter_eq_self.mpr, List.filter_eq_nil_iff.mpr, List.append_nil]
  · rintro _ hid
    obtain ⟨part, hpart, rfl⟩ := List.mem_map.mp hid
    rw [← parse, hline (hblock part hpart), isLine_block hlines (hback ▸ List.mem_map_of_mem hpart)]
    exact Bool.false_ne_true
  · rintro _ hid
    obtain ⟨part, hpart, rfl⟩ := List.mem_map.mp hid
    obtain ⟨own, hmemOwn, hsame⟩ := List.mem_map.mp (hfront ▸ List.mem_map_of_mem hpart)
    have hcontent := Kind.isContent_of_isPart (hreads.parts_built own hmemOwn).sound.here.kind
    rw [← parse, hline (hown part hpart), ← hsame, Phrase.shift_kind, Kind.isLine_of_isContent hcontent]
    rfl

section Tiles

variable {front rest : Text} {parts : List TreeEntry} {part : TreeEntry} (hline : line.Within source)
  (hsplit : line.content = front ++ rest) (hparts : ∀ part ∈ parts, part ∈ (phrase source name uri).entries none 0)
  (htiled : Text.Tiled (line.contentStart + Text.bytes front) rest (parts.map TreeEntry.phrase))
include hline hsplit hparts htiled

/-- A node that was read as an argument is the one at the front of what its line has from there on. -/
theorem literal_node (hpart : part ∈ parts) : ∃ text unclosed,
    Text.slice? part.phrase.start line.contentEnd source = some text ∧
      Text.Literal part.phrase.kind text ((parse source name uri levels).text part.id) unclosed ∧
      ((parse source name uri levels).Carries .missingClosingQuote part.id ↔ unclosed = true) ∧
      (unclosed = true → part.phrase.stop = line.contentEnd) := by
  obtain ⟨before, token, left, unclosed, rfl, hliteral⟩ := htiled.exists_literal (List.mem_map_of_mem hpart)
  have hplace : part.phrase.start = line.contentStart + Text.bytes (front ++ before) := by
    rw [hliteral.start, Text.bytes_append, Nat.add_assoc]
  have hend : line.contentEnd = part.phrase.start + Text.bytes (token ++ left) := by
    rw [hplace, line.offsets.2.1, hsplit]
    simp only [Text.bytes_append, Nat.add_assoc]
  have hfrom : Text.slice? part.phrase.start line.contentEnd source = some (token ++ left) := by
    have hcontent : line.content = front ++ before ++ (token ++ left) ++ [] := by
      rw [hsplit, List.append_nil, List.append_assoc]
    rw [hend, hplace]
    exact hline.slice?_content hcontent
  have hown : Text.slice? part.phrase.start part.phrase.stop source = some token := by
    have hcontent : line.content = front ++ before ++ token ++ left := by
      rw [hsplit]
      simp only [List.append_assoc]
    rw [hliteral.stop, ← hliteral.start, hplace]
    exact hline.slice?_content hcontent
  rw [slice?_text levels (hparts part hpart), Option.some.injEq] at hown
  have herror : Rule.missingClosingQuote.IsError := rfl
  have hlevel : levels.of .missingClosingQuote ≠ .ignore := by
    rw [herror.of_eq_error levels]
    nofun
  refine ⟨_, unclosed, hfrom, hown ▸ hliteral.literal, ?_, ?_⟩
  · rw [parse, Phrase.carries_toTree hlevel (hparts part hpart)]
    exact hliteral.marked
  · rintro rfl
    rw [hend, hliteral.stop, ← hliteral.start, ← hliteral.literal.eq_of_unclosed]

omit hline in
/-- The node of an argument is where the argument was read, and takes something of its line. -/
theorem argument_node (hpart : part ∈ parts) :
    (parse source name uri levels).node? part.id = some (part.node levels) ∧
      (part.node levels).stop = part.phrase.stop ∧ line.contentStart + Text.bytes front ≤ part.phrase.start ∧
      part.phrase.start < part.phrase.stop ∧ part.phrase.stop ≤ line.contentEnd := by
  obtain ⟨hfrom, hfilled, hto⟩ := htiled.range (List.mem_map_of_mem hpart)
  rw [Nat.add_assoc, ← Text.bytes_append, ← hsplit] at hto
  exact ⟨Phrase.node?_toTree levels source (hparts part hpart), TreeEntry.node_stop hfilled.le, hfrom, hfilled, hto⟩

/-- Arguments that were read on a line tile what the line has from the first of them on. -/
theorem tiles_of_tiled {id : Nat} (harguments : (parse source name uri levels).arguments id = parts.map TreeEntry.id) :
    (parse source name uri levels).Tiles id (line.contentStart + Text.bytes front) line.contentEnd := by
  have hend : line.contentEnd = line.contentStart + Text.bytes front + Text.bytes rest := by
    rw [line.offsets.2.1, hsplit, Text.bytes_append, Nat.add_assoc]
  have hargument : ∀ argument ∈ (parse source name uri levels).arguments id, ∃ part ∈ parts, part.id = argument :=
    fun argument hmem => List.mem_map.mp (harguments ▸ hmem)
  constructor
  case ordered =>
    rw [harguments, List.pairwise_map]
    refine (List.pairwise_map.mp htiled.pairwise).imp_of_mem fun {left right} hleft hright hle => ?_
    obtain ⟨hfirst, hstop, -⟩ := argument_node hsplit hparts htiled hleft
    exact ⟨_, _, hfirst, (argument_node hsplit hparts htiled hright).1, hstop ▸ hle⟩
  case inside =>
    intro argument hmem
    obtain ⟨part, hpart, rfl⟩ := hargument argument hmem
    obtain ⟨hfound, hstop, hrange⟩ := argument_node hsplit hparts htiled hpart
    exact ⟨_, hfound, hstop ▸ hrange⟩
  case blank =>
    intro offset hfrom hto hfree
    rw [hend] at hto
    obtain ⟨before, c, behind, rfl, hblank, rfl⟩ := htiled.blank_of_uncovered hfrom hto fun own hown => by
      obtain ⟨part, hpart, rfl⟩ := List.mem_map.mp hown
      obtain ⟨hfound, hstop, -⟩ := argument_node hsplit hparts htiled hpart
      rw [← hstop]
      exact hfree part.id (harguments ▸ List.mem_map_of_mem hpart) _ hfound
    rw [← List.append_assoc] at hsplit
    have hslice := hline.slice?_blank hblank hsplit
    rw [Text.bytes_append, ← Nat.add_assoc] at hslice
    exact ⟨c, hslice, hblank⟩
  case literal =>
    intro argument hmem node hfound
    obtain ⟨part, hpart, rfl⟩ := hargument argument hmem
    obtain rfl := Option.some.inj ((argument_node hsplit hparts htiled hpart).1.symm.trans hfound)
    obtain ⟨text, unclosed, hslice, hliteral, hmarked, -⟩ := literal_node hline hsplit hparts htiled hpart
    exact ⟨text, unclosed, hslice, hliteral, hmarked⟩
  case last =>
    intro argument hmem hcarries
    obtain ⟨part, hpart, rfl⟩ := hargument argument hmem
    obtain ⟨-, unclosed, -, -, hmarked, hlast⟩ := literal_node hline hsplit hparts htiled hpart
    have hstop := hlast (hmarked.mp hcarries)
    obtain ⟨hfound, hsame, -⟩ := argument_node hsplit hparts htiled hpart
    refine ⟨?_, _, hfound, hsame.trans hstop⟩
    obtain ⟨before, behind, rfl⟩ := List.append_of_mem hpart
    have hnil : behind.map TreeEntry.phrase = [] :=
      htiled.behind_eq_nil (by rw [List.map_append, List.map_cons]) (hstop.trans hend)
    rw [harguments, List.map_eq_nil_iff.mp hnil, List.map_append]
    exact List.getLast?_concat

end Tiles

/-- A choice, a chart, an achievement, and every known command that has neither a form of its own nor prose behind
it, has the arguments that tile its line from the end of its name on. -/
theorem literals_tile (source : Text) (name uri : Option String) (levels : Levels) {id : Nat} {node : Node}
    (hnode : (parse source name uri levels).node? id = some node) (hkind : node.kind.takesLiterals = true)
    (hmodifier : node.kind.isModifier = true → ∀ above, (parse source name uri levels).parent? id = some above →
      ¬(parse source name uri levels).IsOption above) :
    ∃ line ∈ Line.lines source, ((parse source name uri levels).parent? id).bind (parse source name uri levels).kind? =
        some (.line line.number line.width line.type) ∧
      ∃ command rest, node.kind.commandName? = some command ∧ line.content = '*' :: (command.toList ++ rest) ∧
        (parse source name uri levels).Tiles id (line.contentStart + Text.bytes ('*' :: command.toList))
          line.contentEnd := by
  obtain ⟨entry, hentry, rfl, rfl⟩ := Phrase.exists_entry_of_node? hnode
  obtain ⟨role, hrole⟩ := Role.exists_of hentry
  obtain ⟨context, line, more, statement, rfl⟩ := exists_statement_of_takesLiterals hrole hkind
    fun hself above habove hpart hoption =>
      hmodifier hself above.id (Phrase.parent?_part habove hpart) ((Phrase.isOption_toTree habove).mpr hoption)
  obtain ⟨hlines, hfound⟩ := hrole.proper
  obtain ⟨above, habove, hin, hupper⟩ := hrole.exists_line
  have hwithin := Role.within_of_sublist hlines
  have hsame : (entry.node levels).kind = statement.phrase.kind := hrole.kind_statement
  have hparent := @Phrase.parent?_part levels source _ _ _ habove hin
  refine ⟨line, hlines.subset List.mem_cons_self, ?_, ?_⟩
  · rw [parse, hparent, Option.bind_some, Phrase.kind?_toTree levels source habove, hupper.kind_line]
  rw [hsame] at hkind ⊢
  obtain ⟨command, rest, hname, hcontent, htiled⟩ := Line.exists_literals hwithin.trimmed_ofLine hfound hkind
  obtain ⟨parts, hparts, harguments, hread⟩ := @exists_arguments source name uri levels _ _ _ _ _ hrole hentry
  refine ⟨command, rest, hname, hcontent, tiles_of_tiled hwithin hcontent hparts ?_ harguments⟩
  have hoffset : Text.bytes line.indent + 1 + Text.bytes command.toList + line.start =
      line.contentStart + Text.bytes ('*' :: command.toList) := by
    have hasterisk : Text.bytes ('*' :: command.toList) = 1 + Text.bytes command.toList := rfl
    rw [hasterisk, line.offsets.1]
    omega
  rw [hread, ← hoffset]
  exact htiled.shift line.start

theorem literals_tile_touching : ∃ id node,
    (parse "*choice \"a b\"x\"y\t-1.5 #0aF \"c \n".toList none none {}).node? id = some node ∧
      node.kind.takesLiterals = true ∧
      (node.kind.isModifier = true → ∀ above,
        (parse "*choice \"a b\"x\"y\t-1.5 #0aF \"c \n".toList none none {}).parent? id = some above →
          ¬(parse "*choice \"a b\"x\"y\t-1.5 #0aF \"c \n".toList none none {}).IsOption above) ∧
      ∃ line ∈ Line.lines "*choice \"a b\"x\"y\t-1.5 #0aF \"c \n".toList,
        ((parse "*choice \"a b\"x\"y\t-1.5 #0aF \"c \n".toList none none {}).parent? id).bind
          (parse "*choice \"a b\"x\"y\t-1.5 #0aF \"c \n".toList none none {}).kind? =
            some (.line line.number line.width line.type) ∧
        ∃ command rest, node.kind.commandName? = some command ∧ line.content = '*' :: (command.toList ++ rest) ∧
          (parse "*choice \"a b\"x\"y\t-1.5 #0aF \"c \n".toList none none {}).Tiles id
            (line.contentStart + Text.bytes ('*' :: command.toList)) line.contentEnd := by
  obtain ⟨node, hnode, hkind, hmodifier⟩ :
      ∃ node ∈ (parse "*choice \"a b\"x\"y\t-1.5 #0aF \"c \n".toList none none {}).node? 2,
        node.kind.takesLiterals = true ∧ ¬node.kind.isModifier = true := by
    decide +kernel
  exact ⟨2, node, hnode, hkind, fun hself => absurd hself hmodifier,
    literals_tile _ none none {} hnode hkind fun hself => absurd hself hmodifier⟩

/-- The arguments there, with what each of them takes: a quote inside a run begins no string. -/
example : ((parse "*choice \"a b\"x\"y\t-1.5 #0aF \"c \n".toList none none {}).arguments 2).map (fun argument =>
    (((parse "*choice \"a b\"x\"y\t-1.5 #0aF \"c \n".toList none none {}).node? argument).map fun node =>
      (node.kind, node.offset, node.stop))) =
    [some (.stringValue, 8, 13), some (.stringLiteral, 13, 16), some (.numericValue, 17, 21),
      some (.hexColorValue, 22, 26), some (.stringValue, 27, 30)] := by
  decide +kernel

end Scene

end Gamebook
