import Gamebook.Proofs.Phrase.Disjoint
import Gamebook.Proofs.Scene.Laid
import Gamebook.Proofs.Tree.Shape

/-!
Siblings. In the tree of a scene without errors the children of a node follow each other: each ends before the
next one begins. Lines do so anyway, a statement begins behind the indentation of its line, and the lines of its
block stand below it; in between, on the lines, it is the lack of errors that keeps phrases apart.
-/

namespace Gamebook

/-- One node ends before the other one begins, or where it begins. -/
def Tree.Precedes (tree : Tree) (left right : Nat) : Prop :=
  ∃ front back, tree.node? left = some front ∧ tree.node? right = some back ∧ front.stop ≤ back.offset

instance (tree : Tree) : DecidableRel tree.Precedes := fun left right =>
  decidable_of_iff (∃ front ∈ tree.node? left, ∃ back ∈ tree.node? right, front.stop ≤ back.offset)
    ⟨fun ⟨front, hfront, back, hback, hle⟩ => ⟨front, back, hfront, hback, hle⟩,
      fun ⟨front, back, hfront, hback, hle⟩ => ⟨front, hfront, back, hback, hle⟩⟩

namespace Line

variable {source : Text} {line : Line} {context : Context} {unit : Option IndentUnit} {block : List Phrase}
  {statement : Statement}

theorem clean_of_stated (hwithin : line.Within source) (hfound : (line.reading context).1 = some statement)
    (hclean : (line.stated block statement).Clean) : statement.phrase.Clean ∧ ∀ part ∈ block, part.Clean := by
  have hwhole : (line.withBlock block statement).Clean := by
    rcases line.stated_eq block statement with heq | ⟨_, _, heq⟩ <;> rw [heq] at hclean
    · exact hclean
    · exact (Phrase.clean_flag.mp hclean).1
  obtain ⟨hmoved, hblock⟩ := Phrase.clean_addAll.mp hwhole
  have hlaid := Reader.statement_laid context line.type (Nat.le_refl _) hwithin.trimmed_ofLine hfound
  exact ⟨hlaid.clean_of_shift hmoved, hblock⟩

theorem stated_disjoint (hwithin : line.Within source) (hfound : (line.reading context).1 = some statement)
    (hclean : (line.stated block statement).Clean) (hblock : ∀ part ∈ block, part.Clean → part.Disjoint)
    (hbelow : ∀ part ∈ block, line.stop ≤ part.start)
    (hpairs : block.Pairwise fun left right => left.stop ≤ right.start) : (line.stated block statement).Disjoint := by
  obtain ⟨hstatement, hcleanBlock⟩ := clean_of_stated hwithin hfound hclean
  have hreads := (reading_states hwithin hfound).reads
  have hordered : (Reader.ofLine line).Ordered := Nat.le_refl _
  have hown := (Phrase.disjoint_of_reads hreads hordered hstatement).shift line.start
  obtain ⟨hownPairs, hinner⟩ := Phrase.disjoint_iff.mp hown
  have hsound := (reading_content hwithin hfound).sound.here
  rw [Phrase.disjoint_iff, stated_parts]
  refine ⟨List.pairwise_append.mpr ⟨hownPairs, hpairs, ?_⟩, List.forall_mem_append.mpr ⟨hinner, ?_⟩⟩
  · intro left hleft right hright
    rw [Phrase.shift_parts] at hleft
    obtain ⟨part, hpart, rfl⟩ := List.mem_map.mp hleft
    calc (part.shift line.start).stop = part.stop + line.start := Phrase.shift_stop _ _
      _ ≤ statement.phrase.stop + line.start := Nat.add_le_add_right (hsound.parts part hpart).2 _
      _ ≤ line.stop := hsound.stop.le_stop
      _ ≤ right.start := hbelow right hright
  · exact fun part hpart => hblock part hpart (hcleanBlock part hpart)

theorem margin_disjoint {part : Phrase} (hpart : part ∈ line.margin unit) : part.Disjoint := by
  obtain ⟨indentation, hfound, rfl⟩ := Option.map_eq_some_iff.mp (Option.mem_toList.mp hpart)
  rw [indentation?_eq] at hfound
  split at hfound
  · cases hfound
    exact Phrase.disjoint_iff.mpr ⟨.nil, nofun⟩
  · cases hfound

theorem phrase_disjoint (hwithin : line.Within source)
    (hclean : (line.phrase unit (line.reading context) block).Clean)
    (hblock : ∀ part ∈ block, part.Clean → part.Disjoint) (hbelow : ∀ part ∈ block, line.stop ≤ part.start)
    (hpairs : block.Pairwise fun left right => left.stop ≤ right.start) :
    (line.phrase unit (line.reading context) block).Disjoint := by
  have hparts := ((Phrase.clean_iff _).mp hclean).2
  rw [Phrase.disjoint_iff]
  rw [parts_phrase hwithin] at hparts ⊢
  refine ⟨List.pairwise_append.mpr ⟨?_, ?_, ?_⟩, List.forall_mem_append.mpr ⟨fun _ => margin_disjoint, ?_⟩⟩
  · rw [margin]
    cases line.indentation? unit <;> simp
  · cases (line.reading context).1 <;> simp
  · -- The statement begins with the content of its line.
    intro left hleft right hright
    obtain ⟨statement, hfound, rfl⟩ := Option.map_eq_some_iff.mp (Option.mem_toList.mp hright)
    have hplace := (reading_content hwithin hfound).sound.here.start
    rw [margin_stop hleft, stated_start hwithin hfound hbelow]
    exact hplace.within_content.1
  · intro part hpart
    obtain ⟨statement, hfound, rfl⟩ := Option.map_eq_some_iff.mp (Option.mem_toList.mp hpart)
    exact stated_disjoint hwithin hfound (hparts _ (List.mem_append_right _ hpart)) hblock hbelow hpairs

theorem phrases_disjoint (context : Context) {lines : List Line} (harranged : Arranged source lines) :
    ∀ part ∈ phrases unit context lines, part.Clean → part.Disjoint := by
  induction context, lines using below_induction with
  | nil context =>
      intro part hpart
      rw [phrases] at hpart
      cases hpart
  | cons context line more ihblock ihrest =>
      have hblock := harranged.sublist (block_sublist context line more)
      rw [phrases_cons]
      refine List.forall_mem_cons.mpr ⟨fun hclean => ?_, ihrest (harranged.sublist (rest_sublist context line more))⟩
      exact phrase_disjoint (harranged.within line List.mem_cons_self) hclean (ihblock hblock)
        (harranged.block_below (phrases_starts _ hblock)) (phrases_behind _ hblock)

end Line

namespace Scene

variable (source : Text) (name uri : Option String)

theorem phrase_disjoint (hclean : (phrase source name uri).Clean) : (phrase source name uri).Disjoint := by
  have harranged := Line.arranged_lines source
  obtain ⟨-, hlines⟩ := Phrase.clean_addAll.mp ((Phrase.clean_reach _).mp hclean)
  rw [Phrase.disjoint_iff, parts_phrase]
  exact ⟨Line.phrases_behind .scene harranged,
    fun part hpart => Line.phrases_disjoint .scene harranged part hpart (hlines part hpart)⟩

end Scene

theorem Phrase.Disjoint.precedes {phrase : Phrase} (h : phrase.Disjoint) {levels : Levels} {source : Text}
    (hordered : ∀ entry ∈ phrase.entries none 0, entry.phrase.start ≤ entry.phrase.stop) (id : Nat) :
    ((phrase.toTree levels source).children id).Pairwise (phrase.toTree levels source).Precedes := by
  unfold Tree.children
  cases hnode : (phrase.toTree levels source).node? id with
  | none => exact .nil
  | some node =>
      obtain ⟨entry, hentry, rfl, rfl⟩ := exists_entry_of_node? hnode
      have hparts := Phrase.parts_subset_entries none 0 phrase entry hentry
      have hpairs : (entry.parts.map TreeEntry.phrase).Pairwise fun left right => left.stop ≤ right.start := by
        rw [TreeEntry.map_phrase_parts]
        exact Phrase.Everywhere.entry h hentry
      show (entry.parts.map TreeEntry.id).Pairwise _
      rw [List.pairwise_map]
      refine (List.pairwise_map.mp hpairs).imp_of_mem fun hleft hright hle => ?_
      refine ⟨_, _, node?_toTree levels source (hparts hleft), node?_toTree levels source (hparts hright), ?_⟩
      rw [TreeEntry.node_stop (hordered _ (hparts hleft))]
      exact hle

/-- In a tree without errors no node reaches into the one behind it that has the same parent. -/
theorem Scene.siblings_apart (source : Text) (name uri : Option String) (levels : Levels)
    (hfaultless : (parse source name uri levels).Faultless) (id : Nat) :
    ((parse source name uri levels).children id).Pairwise (parse source name uri levels).Precedes := by
  have hsound := (phrase_built source name uri).sound
  exact (phrase_disjoint source name uri (Phrase.clean_of_faultless hsound hfaultless)).precedes
    (fun entry hentry => (Phrase.Everywhere.entry hsound hentry).ordered) id

theorem Scene.siblings_apart_multireplace :
    (parse "*if a\n  Hi @\x7bb one|\x7d $\x7bc\x7d\nBye\n".toList none none {}).Faultless ∧
      ∀ id, ((parse "*if a\n  Hi @\x7bb one|\x7d $\x7bc\x7d\nBye\n".toList none none {}).children id).Pairwise
        (parse "*if a\n  Hi @\x7bb one|\x7d $\x7bc\x7d\nBye\n".toList none none {}).Precedes := by
  have hfaultless :
      (parse "*if a\n  Hi @\x7bb one|\x7d $\x7bc\x7d\nBye\n".toList none none {}).Faultless := by
    decide +kernel
  exact ⟨hfaultless, siblings_apart _ none none {} hfaultless⟩

end Gamebook
