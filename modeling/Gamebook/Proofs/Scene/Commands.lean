import Gamebook.Proofs.Grammar.Commands
import Gamebook.Proofs.Scene.Laid
import Gamebook.Proofs.Scene.Levels
import Gamebook.Proofs.Scene.Naming

/-!
Commands in the tree. Whatever the source, a node for a command is where the command is written, and its kind is the
one that the tables have for the name. A command that is not known is marked as such on its name, and no other node
is marked so.
-/

namespace Gamebook

namespace Tree

/-- At the offset a command of the name is written: an asterisk, perhaps blanks, and the name. -/
def Writes (tree : Tree) (offset : Nat) (name : String) : Prop :=
  ∃ text, Text.slice? offset (Text.bytes tree.source) tree.source = some ('*' :: text) ∧
    name.toList ≠ [] ∧ name.toList <+: text.dropWhile Text.isBlank

/-- The commands of a tree agree with the tables of commands and with the source. -/
structure CommandsAgree (tree : Tree) : Prop where
  ordinary : ∀ id name, tree.kind? id = some (.standardCommand name) → Command.classify name = .ordinary
  flow : ∀ id name, tree.kind? id = some (.flowCommand name) → Command.classify name = .flow
  unknown : ∀ id name, tree.kind? id = some (.command name) → Command.classify name = .unknown
  /-- A node for a command begins where the command is written. -/
  written : ∀ id node name, tree.node? id = some node → node.kind.commandName? = some name →
    tree.Writes node.offset name
  /-- A command that is not known is marked once, on the name behind its asterisk. -/
  marked : ∀ id node name, tree.node? id = some node → node.kind = .command name →
    ∃ marker, node.markersOf .unknownCommand = [marker] ∧ marker.node = id ∧ marker.offset = node.offset + 1 ∧
      Text.slice? marker.offset marker.stop tree.source = some name.toList
  unmarked : ∀ id node, tree.node? id = some node → (∀ name, node.kind ≠ .command name) →
    node.markersOf .unknownCommand = []

end Tree

namespace Scene

open Role (Of)

variable {source : Text} {name uri : Option String} {levels : Levels} {entry : TreeEntry} {context : Context}
  {line : Line} {more : List Line} {statement : Statement} {own : Phrase}

/-! ### The source -/

theorem writes_of_calls (levels : Levels) (name uri : Option String) (hwithin : line.Within source) {offset : Nat}
    {command : String} (h : (Reader.ofLine line).Calls offset command.toList) :
    (parse source name uri levels).Writes (offset + line.start) command := by
  obtain ⟨place, text, rest, hreach, rfl, hplace, hne, hblank⟩ := h
  obtain ⟨front, tail, hsource, hbytes⟩ := hwithin.exists_ahead hreach
  refine ⟨text ++ tail, ?_, hne, rest ++ tail, ?_⟩
  · have hslice := Text.slice?_middle front (place.rest ++ tail) []
    rwa [List.append_nil, ← Text.bytes_append, ← List.append_assoc, ← hsource, hbytes, hplace] at hslice
  · have hsome : ¬(text.dropWhile Text.isBlank).isEmpty = true := by
      rw [hblank]
      simp [hne]
    rw [List.dropWhile_append, if_neg hsome, hblank, List.append_assoc]

/-! ### What commands are -/

theorem start_statement (h : Of source name uri entry (.statement context line more statement)) :
    entry.phrase.start = statement.phrase.start + line.start := by
  obtain ⟨hlines, hfound⟩ := h.proper
  have harranged := (Line.arranged_lines source).sublist hlines
  have hblock := harranged.sublist (Line.block_sublist context line more)
  rw [h.phrase_eq, Role.phrase]
  exact Line.stated_start (Role.within_of_sublist hlines) hfound
    (harranged.block_below (Line.phrases_starts _ hblock))

/-- The entry is for what was read as a modifier of the option that its line holds. -/
structure InOption (source : Text) (name uri : Option String) (entry : TreeEntry) (line : Line) (statement : Statement)
    (own : Phrase) : Prop where
  part : own ∈ statement.phrase.parts
  option : statement.phrase.kind.isOption = true
  modifier : entry.phrase.kind.isModifier = true
  held : ∃ context more above, Of source name uri above (.statement context line more statement) ∧
    above ∈ (phrase source name uri).entries none 0 ∧ entry ∈ above.parts

/-- A command is what its line holds, or a modifier of the option that its line holds. -/
theorem command_cases {role : Role} (h : Of source name uri entry role)
    (hname : entry.phrase.kind.commandName?.isSome = true) :
    (∃ context line more statement, role = .statement context line more statement) ∨
      ∃ line statement own, role = .part line statement own ∧ InOption source name uri entry line statement own := by
  cases role with
  | scene =>
      rw [h.phrase_eq] at hname
      cases hname
  | line context line more =>
      rw [h.kind_line] at hname
      cases hname
  | indentation own =>
      have hcontent := h.indentation.1
      rw [Kind.isContent_of_commandName? hname] at hcontent
      cases hcontent
  | statement context line more statement => exact .inl ⟨context, line, more, statement, rfl⟩
  | part line statement own =>
      cases h with
      | @part above _ outer _ habove hmem hpart hholds hphrase =>
          have hfits : above.phrase.Fits := (phrase_laid source name uri).entry hmem
          have hmodifier := fun hcontent => Kind.isModifier_of_admits_command hcontent hname
            (hfits.admits _ (TreeEntry.phrase_mem_parts hpart))
          cases hholds with
          | part hown =>
              obtain ⟨hoption, hself⟩ := hmodifier habove.isContent_statement
              rw [habove.kind_statement] at hoption
              exact .inr ⟨line, statement, own, rfl, hown, hoption, hself, _, _, above, habove, hmem, hpart⟩
          | @deeper _ _ holder _ hown =>
              -- what stands inside statements is no option, and so has no modifiers
              have hkind : above.phrase.kind = holder.kind := by
                rw [habove.phrase_eq, Role.phrase, Phrase.shift_kind]
              have hinside : holder.kind.isPart = true := habove.genuine.2.here.kind
              rw [hkind] at hmodifier
              obtain ⟨hoption, -⟩ := hmodifier (Kind.isContent_of_isPart hinside)
              rw [Kind.isOption_of_isPart hinside] at hoption
              cases hoption

/-- The kind of every node agrees with the tables. -/
theorem tabled_entry (hentry : entry ∈ (phrase source name uri).entries none 0) : entry.phrase.kind.Tabled := by
  cases hname : entry.phrase.kind.commandName? with
  | none => exact Kind.tabled_of_commandName?_eq_none hname
  | some command =>
      obtain ⟨role, hrole⟩ := Role.exists_of hentry
      rcases command_cases hrole (by rw [hname]; rfl) with
        ⟨context, line, more, statement, rfl⟩ | ⟨line, statement, own, -, hinside⟩
      · rw [hrole.kind_statement]
        exact Reader.statement_tabled hrole.proper.2
      · exact Kind.tabled_of_isModifier hinside.modifier

/-- A node for a command begins where the command is written. -/
theorem writes_entry (levels : Levels) (hentry : entry ∈ (phrase source name uri).entries none 0) {command : String}
    (hname : entry.phrase.kind.commandName? = some command) :
    (parse source name uri levels).Writes entry.phrase.start command := by
  obtain ⟨role, hrole⟩ := Role.exists_of hentry
  rcases command_cases hrole (by rw [hname]; rfl) with
    ⟨context, line, more, statement, rfl⟩ | ⟨line, statement, own, rfl, hinside⟩
  · obtain ⟨hlines, hfound⟩ := hrole.proper
    have hwithin := Role.within_of_sublist hlines
    rw [hrole.kind_statement] at hname
    rw [start_statement hrole]
    exact writes_of_calls levels name uri hwithin (Reader.statement_spells hwithin.trimmed_ofLine hfound command hname)
  · obtain ⟨hline, context, hfound⟩ := hrole.proper
    rw [hrole.phrase_eq, Role.phrase, Phrase.shift_kind] at hname
    rw [hrole.phrase_eq, Role.phrase, Phrase.shift_start]
    exact writes_of_calls levels name uri (Line.within_of_mem_lines hline)
      (Reader.statement_spells_parts (Nat.le_refl _) hfound hinside.option own hinside.part command hname)

/-! ### What is marked -/

/-- What is marked as not known is a command that is not known. -/
theorem isUnknown_of_issue (hentry : entry ∈ (phrase source name uri).entries none 0) {issue : Issue}
    (hissue : issue ∈ entry.phrase.issues) (hrule : issue.rule = .unknownCommand) :
    entry.phrase.kind.isUnknown = true := by
  obtain ⟨role, hrole⟩ := Role.exists_of hentry
  cases role with
  | scene =>
      rw [hrole.phrase_eq] at hissue
      cases hissue
  | line context line more =>
      rw [hrole.issues_line] at hissue
      cases hissue
  | indentation own => cases hrule.symm.trans (hrole.indentation.2.2 issue hissue)
  | statement context line more statement =>
      obtain ⟨own, hown, hsame⟩ := (exists_issue_stated hrole (by simp)).mp ⟨issue, hissue, hrule⟩
      rw [hrole.kind_statement]
      exact (Reader.statement_fitted _ _ _ hrole.proper.2).unknown own hown hsame
  | part line statement own =>
      rw [hrole.phrase_eq, Role.phrase, Phrase.shift_issues] at hissue
      obtain ⟨bare, hbare, rfl⟩ := List.mem_map.mp hissue
      have hinner := hrole.genuine.1.issues bare hbare
      rw [show bare.rule = .unknownCommand from hrule] at hinner
      cases hinner

/-- A command that is not known is marked as such once, on its name behind the asterisk. -/
theorem unknown_entry (hentry : entry ∈ (phrase source name uri).entries none 0) {command : String}
    (hkind : entry.phrase.kind = .command command) :
    entry.phrase.issues.filter (·.rule == .unknownCommand) =
        [⟨.unknownCommand, entry.phrase.start + 1, Text.bytes command.toList⟩] ∧
      Text.slice? (entry.phrase.start + 1) (entry.phrase.start + 1 + Text.bytes command.toList) source =
        some command.toList := by
  obtain ⟨role, hrole⟩ := Role.exists_of hentry
  rcases command_cases hrole (by rw [hkind]; rfl) with
    ⟨context, line, more, statement, rfl⟩ | ⟨line, statement, own, -, hinside⟩
  · obtain ⟨hlines, hfound⟩ := hrole.proper
    have hwithin := Role.within_of_sublist hlines
    have htrimmed := hwithin.trimmed_ofLine
    rw [hrole.kind_statement] at hkind
    obtain ⟨rfl, -, hstart⟩ := Reader.statement_name htrimmed hfound (by rw [hkind]; rfl)
    obtain ⟨left, hrest⟩ := (Reader.ofLine line).next.exists_text_append
    constructor
    · rw [filter_issues_stated hrole (by simp), start_statement hrole, Reader.statement_unknown htrimmed hfound hkind,
        Nat.add_right_comm]
      rfl
    · rw [start_statement hrole, Nat.add_right_comm, hstart, Nat.add_right_comm, Reader.toList_word]
      exact hwithin.slice?_ahead (Reader.reaches_next _) hrest
  · have hmodifier := hinside.modifier
    rw [hkind] at hmodifier
    cases hmodifier

/-- Whatever the source, the commands in its tree agree with the tables of commands and with the source. -/
theorem commandsAgree_parse (source : Text) (name uri : Option String) (levels : Levels) :
    (parse source name uri levels).CommandsAgree := by
  have htabled : ∀ id kind, (parse source name uri levels).kind? id = some kind → kind.Tabled := by
    intro id kind hkind
    obtain ⟨entry, hentry, -, rfl⟩ := exists_entry_of_kind? hkind
    exact tabled_entry hentry
  have hlevel : levels.of .unknownCommand ≠ .ignore := by simp [Levels.of]
  refine ⟨fun id _ => htabled id _, fun id _ => htabled id _, fun id _ => htabled id _,
    fun id node command hnode hname => ?_, fun id node command hnode hkind => ?_, fun id node hnode hknown => ?_⟩
  all_goals obtain ⟨entry, hentry, rfl, rfl⟩ := Phrase.exists_entry_of_node? hnode
  · exact writes_entry levels hentry hname
  · obtain ⟨hmarked, hslice⟩ := unknown_entry hentry hkind
    exact ⟨_, by rw [TreeEntry.markersOf_node entry hlevel, hmarked]; rfl, rfl, rfl, hslice⟩
  · rw [TreeEntry.markersOf_node entry hlevel, List.map_eq_nil_iff, List.filter_eq_nil_iff]
    intro issue hissue hrule
    have hunknown := isUnknown_of_issue hentry hissue (beq_iff_eq.mp hrule)
    cases hkind : entry.phrase.kind <;> rw [hkind] at hunknown <;> first
      | exact hknown _ hkind
      | cases hunknown

/-- A name may have any letters, and is marked as far as it goes. -/
example : ((parse "*größe 1\n".toList none none {}).node? 2).map (fun node =>
    (node.kind, (node.markersOf .unknownCommand).map fun marker => (marker.offset, marker.stop))) =
    some (.command "größe", [(1, 8)]) := by
  decide +kernel

end Scene

end Gamebook
