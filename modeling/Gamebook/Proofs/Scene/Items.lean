import Gamebook.Proofs.Grammar.Items
import Gamebook.Proofs.Line.Cutting
import Gamebook.Proofs.Scene.Single

/-!
Scenes whose only line is prose put together from items. The line is read back as it was put together, and
nothing on it is marked as an error.
-/

namespace Gamebook

/-! ### The line -/

namespace Item

theorem unbroken_followed {items : List Item} (h : ∀ item ∈ items, '\n' ∉ item.text) : '\n' ∉ followed items := by
  induction items with
  | nil => rw [followed]; exact List.not_mem_nil
  | cons item more ih =>
      obtain ⟨hitem, hmore⟩ := List.forall_mem_cons.mp h
      simp [followed, hitem, ih hmore]

theorem unbroken_spaced {items : List Item} (h : ∀ item ∈ items, '\n' ∉ item.text) : '\n' ∉ spaced items := by
  cases items with
  | nil => rw [spaced]; exact List.not_mem_nil
  | cons item more =>
      obtain ⟨hitem, hmore⟩ := List.forall_mem_cons.mp h
      simp [spaced, hitem, unbroken_followed hmore]

theorem unbroken_barred {more : List (List Item)} (h : ∀ branch ∈ more, ∀ item ∈ branch, '\n' ∉ item.text) :
    '\n' ∉ barred more := by
  induction more with
  | nil => rw [barred]; exact List.not_mem_nil
  | cons branch more ih =>
      obtain ⟨hbranch, hmore⟩ := List.forall_mem_cons.mp h
      simp [barred, unbroken_spaced hbranch, ih hmore]

/-- Items stand on one line. -/
theorem unbroken (item : Item) : '\n' ∉ item.text := by
  induction item using induction with
  | word own =>
      have hfeed : Pattern.continuesWord '\n' = false := by decide +kernel
      intro hmem
      rw [text] at hmem
      rw [Text.continuesWord_of_mem_word own.spelled _ hmem] at hfeed
      cases hfeed
  | replacement fold value => simp [text, value.unbroken]
  | multireplace selector first second more ih =>
      obtain ⟨hfirst, hothers⟩ := List.forall_mem_cons.mp ih
      obtain ⟨hsecond, hmore⟩ := List.forall_mem_cons.mp hothers
      simp [text, selector.unbroken, unbroken_spaced hfirst, unbroken_spaced hsecond, unbroken_barred hmore]

theorem exists_cons_spaced {items : List Item} (hne : items ≠ []) :
    ∃ c rest, spaced items = c :: rest ∧ (opens c || c == '|') = true := by
  obtain ⟨item, more, rfl⟩ := List.exists_cons_of_ne_nil hne
  obtain ⟨c, rest, hcons, hopens⟩ := item.exists_cons
  exact ⟨c, rest ++ followed more, by rw [spaced, hcons]; rfl, by rw [hopens]; rfl⟩

end Item

/-- What begins neither with an asterisk nor with a number sign is prose. -/
theorem LineType.ofContent_cons {c : Char} (hasterisk : c ≠ '*') (hhash : c ≠ '#') (rest : Text) :
    ofContent (c :: rest) = .text := by
  unfold ofContent
  split
  · rename_i heq
    exact absurd (List.cons.inj heq).1 hasterisk
  · rename_i heq
    exact absurd (List.cons.inj heq).1 hhash
  · rfl

variable {items : List Item}

/-- A line of prose has the items as its parts. -/
theorem Reader.textLine_items {r : Reader} {offset : Nat} (h : r.Faces .text offset (Item.spaced items))
    (hne : items ≠ []) : (textLine r).1.phrase.Clean ∧
      (textLine r).1.phrase.Shows (.node .textLine (Item.shapes offset items)) := by
  rw [← List.append_nil (Item.spaced items)] at h
  have hends {r : Reader} {offset : Nat} (h : r.Faces .text offset []) : ∀ kind ∈ r.kind?, false = true := by
    rw [kind?_eq_none_iff.mpr h.rest]
    exact nofun
  obtain ⟨parts, behind, hrun, hclean, hshown, -⟩ := takes_spaced (fun _ _ => rfl) (by nofun) hends
    (fun item _ => legible item) h (Nat.lt_succ_self _) (.begin .textLine r)
  have hshown : List.Forall₂ Phrase.Shows parts (Item.shapes offset items) := hshown
  have hline : (textLine r).1.phrase = ((Phrase.begin .textLine r).addAll parts).finish behind := by
    simp only [textLine, prose, budget, hrun]
  have hparts : (textLine r).1.phrase.parts = parts := by
    rw [hline]
    exact Phrase.addAll_parts (.begin .textLine r) parts
  refine ⟨?_, Phrase.shows_node (by rw [hline]; rfl) ?_ (hparts ▸ hshown)⟩
  · rw [hline, Phrase.clean_finish, Phrase.clean_addAll]
    exact ⟨Phrase.clean_begin _ _, hclean⟩
  · obtain ⟨item, more, rfl⟩ := List.exists_cons_of_ne_nil hne
    rw [hparts]
    rintro rfl
    rw [Item.shapes] at hshown
    cases hshown

/-! ### The scene -/

/-- The tree of a scene whose only line holds the items. -/
def Tree.Tells (tree : Tree) (items : List Item) : Prop :=
  ∃ line statement, tree.children Tree.root = [line] ∧ tree.children line = [statement] ∧
    tree.Shows statement (.node .textLine (Item.shapes 0 items))

namespace Scene

theorem single_spaced (hne : items ≠ []) :
    Single (Item.spaced items) (Reader.textLine ⟨.text, 0, Item.spaced items, 0⟩).1 := by
  obtain ⟨c, rest, hcons, hopens⟩ := Item.exists_cons_spaced hne
  obtain ⟨hblank, hasterisk, hhash⟩ := Item.ne_of_opens hopens
  have htrimmed : ∀ c ∈ (Item.spaced items).head?, Text.isBlank c = false := by
    rw [hcons]
    rintro _ ⟨⟩
    exact hblank
  have hfilled : Item.spaced items ≠ [] := hcons ▸ List.cons_ne_nil c rest
  refine ⟨?_, htrimmed, ?_, rfl⟩
  · rw [Line.lines, Line.cut_unbroken hfilled (Item.unbroken_spaced fun item _ => item.unbroken)]
    rfl
  · obtain ⟨htake, hdrop⟩ := Text.trimmed_iff.mp htrimmed
    have htype : (Line.ofBody 0 0 (Item.spaced items) .none).type = .text := by
      rw [Line.type, Line.ofBody, hdrop, hcons, LineType.ofContent_cons hasterisk hhash]
    have hreader : Reader.ofLine (Line.ofBody 0 0 (Item.spaced items) .none) = ⟨.text, 0, Item.spaced items, 0⟩ := by
      rw [Reader.ofLine, htype]
      simp only [Line.ofBody, htake, hdrop]
      rfl
    have hend : ¬(Reader.mk .text 0 (Item.spaced items) 0).atEnd = true := by
      rw [Reader.atEnd_iff]
      exact hfilled
    rw [Line.reading, htype, hreader, Reader.statement, if_neg hend]
    rfl

/-- Prose is read back as it was put together: its line holds a part for each item, with the expressions, terms and
branches in them, and no error is marked. -/
theorem parse_spaced (hne : items ≠ []) (name uri : Option String) :
    (parse (Item.spaced items) name uri {}).Faultless ∧ (parse (Item.spaced items) name uri {}).Tells items := by
  have hsingle := single_spaced hne
  have hfaces : Reader.Faces ⟨.text, 0, Item.spaced items, 0⟩ .text 0 (Item.spaced items) := by
    obtain ⟨htake, hdrop⟩ := Text.trimmed_iff.mp hsingle.trimmed
    exact ⟨rfl, hdrop.symm, by rw [htake]; rfl, Nat.le_refl _⟩
  obtain ⟨hclean, hshown⟩ := Reader.textLine_items hfaces hne
  have hsound := (phrase_built (Item.spaced items) name uri).sound
  obtain ⟨line, entry, hentry, hstatement, hlines, hstatements⟩ := exists_statement name uri hsingle {}
  refine ⟨?_, line, entry.id, hlines, hstatements, ?_⟩
  · rw [parse, Phrase.faultless_toTree hsound, clean_single name uri hsingle]
    exact hclean
  · rw [← hstatement] at hshown
    exact hshown.toTree (fun entry hentry => (hsound.entry hentry).ordered) hentry

/-- The name of a variable, where an expression of some level is expected. -/
def named (level : Nat) : Written level :=
  ⟨['n'], _, .name (by decide +kernel) (List.forall_mem_nil _) rfl (by decide), by decide⟩

def sum : Written 0 where
  text := "1 + 2".toList
  shape := .operation .add (.term .literal [.leaf .numericValue 0 1]) ⟨⟨.delim '+', ['+']⟩, 2⟩
    (.term .literal [.leaf .numericValue 4 5])
  derives := by
    have hlexemes : Lexeme.sequence .command 0 "1 + 2".toList =
        [⟨⟨.num, ['1']⟩, 0⟩] ++ ⟨⟨.delim '+', ['+']⟩, 2⟩ :: [⟨⟨.num, ['2']⟩, 4⟩] := by
      decide +kernel
    rw [hlexemes]
    exact @Derives.operation 0 .add _ _ ⟨⟨.delim '+', ['+']⟩, 2⟩ _ _ rfl (Nat.zero_le _)
      (@Derives.literal _ ⟨⟨.num, ['1']⟩, 0⟩ .numericValue rfl)
      (@Derives.literal _ ⟨⟨.num, ['2']⟩, 4⟩ .numericValue rfl)
  unbroken := by decide

/-- A multireplace in the last branch of another one, and branches without items in both. -/
def sample : List Item :=
  [.word ⟨"Hi".toList, Text.mem_word_of_all (by decide) (by decide)⟩, .replacement .capitalize (named 0),
    .multireplace (named 6) []
      [.word ⟨"a".toList, Text.mem_word_of_all (by decide) (by decide)⟩, .replacement .upper sum]
      [[.multireplace (named 6) [.replacement .none (named 0)] [] []]]]

theorem parse_spaced_nested : sample ≠ [] ∧
    Item.spaced sample = "Hi $!\x7bn\x7d @\x7bn |a $!!\x7b1 + 2\x7d|@\x7bn $\x7bn\x7d|\x7d\x7d".toList ∧
    (parse (Item.spaced sample) none none {}).Faultless ∧ (parse (Item.spaced sample) none none {}).Tells sample := by
  have hne : sample ≠ [] := List.cons_ne_nil _ _
  exact ⟨hne, by decide +kernel, parse_spaced hne none none⟩

end Scene

end Gamebook
