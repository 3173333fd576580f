import Gamebook.Proofs.Phrase.Order
import Gamebook.Proofs.Scene.Lines

/-!
A cursor in a scene. From an offset inside a token the search for the node at the offset leads to the
token: wherever several children touch the offset, the last of them is the one that holds the token,
because no child begins before the tokens of the children in front of it end.
-/

namespace Gamebook

open Phrase (TokensBy InOrder)

namespace Line

variable {source : Text} {line : Line} {context : Context} {unit : Option IndentUnit} {limit : Nat}

/-! ### The tokens of a line -/

theorem margin_tokens {part : Phrase} (hpart : part ∈ line.margin unit) :
    part.InOrder ∧ part.TokensBy line.contentStart := by
  obtain ⟨indentation, hfound, rfl⟩ := Option.map_eq_some_iff.mp (Option.mem_toList.mp hpart)
  have hown : indentation.parts = [] ∧ indentation.stop ≤ Text.bytes line.indent := by
    simp only [indentation?] at hfound
    split at hfound
    · cases hfound
      split
      · exact ⟨rfl, by simp [Phrase.empty]⟩
      · exact ⟨rfl, by simp [Phrase.flagWhole, Phrase.flag, Phrase.grow, Phrase.empty, Phrase.length,
          Issue.stop]⟩
    · cases hfound
  have hparts : (indentation.shift line.start).parts = [] := by rw [Phrase.shift_parts, hown.1, List.map_nil]
  constructor
  · rw [Phrase.inOrder_iff, hparts]
    exact ⟨.nil, List.forall_mem_nil _⟩
  · rw [Phrase.tokensBy_iff, hparts, Phrase.shift_stop, contentStart, Nat.add_comm line.start]
    exact ⟨fun _ => Nat.add_le_add_right hown.2 _, List.forall_mem_nil _⟩

/-- The tokens of a statement are in order, stand behind the indentation and end with the line. -/
theorem statement_tokens (hwithin : line.Within source) {statement : Statement}
    (hfound : (line.reading context).1 = some statement) :
    (statement.phrase.shift line.start).InOrder ∧ (statement.phrase.shift line.start).TokensBy line.stop ∧
      line.contentStart ≤ (statement.phrase.shift line.start).start := by
  have hreads := (reading_states hwithin hfound).reads
  obtain ⟨hfollows, hle⟩ := Phrase.follows_of_reads hreads (Nat.le_refl _)
  have hplace : line.Place (line.reading context).2.offset :=
    place_of_site (.inr ((reaches_reading context hwithin).ahead (Reader.ahead_offset _)))
  refine ⟨hfollows.inOrder.shift _, (hfollows.tokensBy.shift _).mono hplace.le_stop, ?_⟩
  rw [Phrase.shift_start, contentStart, Nat.add_comm]
  exact Nat.add_le_add_right hle _

section Block

variable {block : List Phrase} {statement : Statement}

theorem stated_tokensBy (hwithin : line.Within source) (hfound : (line.reading context).1 = some statement)
    (hstop : line.stop ≤ limit) (hblock : ∀ part ∈ block, part.TokensBy limit) :
    (line.stated block statement).TokensBy limit := by
  obtain ⟨_, htokens, _⟩ := statement_tokens hwithin hfound
  obtain ⟨hself, hparts⟩ := Phrase.tokensBy_iff.mp (htokens.mono hstop)
  rw [Phrase.tokensBy_iff, stated_parts]
  refine ⟨?_, List.forall_mem_append.mpr ⟨hparts, hblock⟩⟩
  rintro ⟨hnone, hleaf⟩
  rw [stated_parts, List.append_eq_nil_iff] at hnone
  rw [stated_kind] at hleaf
  rcases line.stated_eq block statement with heq | ⟨fake, hchoice, _⟩
  · rw [heq, withBlock, hnone.2, Phrase.addAll_nil]
    exact hself ⟨hnone.1, by rwa [Phrase.shift_kind]⟩
  · rw [hchoice] at hleaf
    cases hleaf

variable (hpairs : block.Pairwise fun left right => left.TokensBy right.start)
  (hinner : ∀ part ∈ block, part.InOrder) (hbelow : ∀ part ∈ block, line.stop ≤ part.start)
include hpairs hinner hbelow

theorem stated_inOrder (hwithin : line.Within source) (hfound : (line.reading context).1 = some statement) :
    (line.stated block statement).InOrder := by
  obtain ⟨horder, htokens, _⟩ := statement_tokens hwithin hfound
  obtain ⟨hown, hparts⟩ := Phrase.inOrder_iff.mp horder
  rw [Phrase.inOrder_iff, stated_parts]
  refine ⟨List.pairwise_append.mpr ⟨hown, hpairs, ?_⟩, List.forall_mem_append.mpr ⟨hparts, hinner⟩⟩
  intro left hleft right hright
  exact ((Phrase.tokensBy_iff.mp htokens).2 left hleft).mono (hbelow right hright)

theorem phrase_inOrder (hwithin : line.Within source) :
    (line.phrase unit (line.reading context) block).InOrder := by
  have hmargin : (line.margin unit).Pairwise fun left right => left.TokensBy right.start := by
    rw [margin]
    cases line.indentation? unit with
    | none => exact .nil
    | some indentation => exact List.pairwise_singleton _ _
  rw [Phrase.inOrder_iff, parts_phrase hwithin]
  cases hfound : (line.reading context).1 with
  | none =>
      rw [Option.map_none, Option.toList_none, List.append_nil]
      exact ⟨hmargin, fun part hpart => (margin_tokens hpart).1⟩
  | some statement =>
      rw [Option.map_some, Option.toList_some]
      refine ⟨List.pairwise_append.mpr ⟨hmargin, List.pairwise_singleton _ _, ?_⟩,
        List.forall_mem_append.mpr ⟨fun part hpart => (margin_tokens hpart).1,
          List.forall_mem_singleton.mpr (stated_inOrder hpairs hinner hbelow hwithin hfound)⟩⟩
      intro left hleft right hright
      obtain ⟨_, _, hstart⟩ := statement_tokens hwithin hfound
      rw [Phrase.shift_start, ← stated_start hwithin hfound hbelow] at hstart
      rw [List.mem_singleton.mp hright]
      exact (margin_tokens hleft).2.mono hstart

omit hpairs hinner hbelow

theorem phrase_tokensBy (hwithin : line.Within source) (hstop : line.stop ≤ limit)
    (hblock : ∀ part ∈ block, part.TokensBy limit) :
    (line.phrase unit (line.reading context) block).TokensBy limit := by
  have hcontent : line.contentStart ≤ line.stop := by
    rw [stop, contentEnd, Nat.add_assoc]
    exact Nat.le_add_right _ _
  rw [Phrase.tokensBy_iff, parts_phrase hwithin]
  refine ⟨?_, List.forall_mem_append.mpr
    ⟨fun part hpart => (margin_tokens hpart).2.mono (Nat.le_trans hcontent hstop), ?_⟩⟩
  · rintro ⟨_, hleaf⟩
    rw [kind_phrase hwithin] at hleaf
    cases hleaf
  · intro part hpart
    obtain ⟨statement, hfound, rfl⟩ := Option.map_eq_some_iff.mp (Option.mem_toList.mp hpart)
    exact stated_tokensBy hwithin hfound hstop hblock

end Block

/-! ### The tokens of a scene -/

theorem phrases_tokensBy (context : Context) {lines : List Line} (harranged : Arranged source lines)
    (hstop : ∀ line ∈ lines, line.stop ≤ limit) :
    ∀ part ∈ phrases unit context lines, part.TokensBy limit := by
  induction context, lines using below_induction with
  | nil context =>
      intro part hpart
      rw [phrases] at hpart
      cases hpart
  | cons context line more ihblock ihrest =>
      have hblock := block_sublist context line more
      have hrest := rest_sublist context line more
      rw [phrases_cons]
      refine List.forall_mem_cons.mpr ⟨?_, ?_⟩
      · exact phrase_tokensBy (harranged.within line List.mem_cons_self) (hstop line List.mem_cons_self)
          (ihblock (harranged.sublist hblock) fun lower hlower => hstop lower (hblock.subset hlower))
      · exact ihrest (harranged.sublist hrest) fun lower hlower => hstop lower (hrest.subset hlower)

/-- No line begins before the tokens of the lines above it end, those in blocks included. -/
theorem phrases_inOrder (context : Context) {lines : List Line} (harranged : Arranged source lines) :
    (phrases unit context lines).Pairwise (fun left right => left.TokensBy right.start) ∧
      ∀ part ∈ phrases unit context lines, part.InOrder := by
  induction context, lines using below_induction with
  | nil context =>
      rw [phrases]
      exact ⟨.nil, List.forall_mem_nil _⟩
  | cons context line more ihblock ihrest =>
      have hwithin := harranged.within line List.mem_cons_self
      have hblock := harranged.sublist (block_sublist context line more)
      have hrest := harranged.sublist (rest_sublist context line more)
      obtain ⟨hblockPairs, hblockInner⟩ := ihblock hblock
      obtain ⟨hrestPairs, hrestInner⟩ := ihrest hrest
      rw [phrases_cons]
      refine ⟨.cons ?_ hrestPairs, List.forall_mem_cons.mpr ⟨?_, hrestInner⟩⟩
      · intro right hright
        obtain ⟨lower, hlower, hstart⟩ := phrases_starts context hrest right hright
        obtain ⟨hupper, hsorted⟩ := List.pairwise_cons.mp harranged.sorted
        rw [← below_append context line more] at hupper hsorted
        have hbetween := (List.pairwise_append.mp hsorted).2.2
        rw [hstart]
        exact phrase_tokensBy hwithin (hupper lower (List.mem_append_right _ hlower))
          (phrases_tokensBy _ hblock fun inner hinner => hbetween inner hinner lower hlower)
      · exact phrase_inOrder hblockPairs hblockInner (harranged.block_below (phrases_starts _ hblock)) hwithin

end Line

theorem Scene.phrase_inOrder (source : Text) (name uri : Option String) :
    (Scene.phrase source name uri).InOrder := by
  rw [Phrase.inOrder_iff]
  exact Line.phrases_inOrder .scene (Line.arranged_lines source)

/-! ### The way down to a token -/

namespace Phrase

theorem count_le_countAll {part : Phrase} {parts : List Phrase} (h : part ∈ parts) :
    part.count ≤ countAll parts := by
  induction parts with
  | nil => cases h
  | cons first more ih =>
      rw [countAll]
      rcases List.mem_cons.mp h with rfl | h
      · exact Nat.le_add_right _ _
      · exact Nat.le_trans (ih h) (Nat.le_add_left _ _)

theorem count_lt_of_mem_parts {phrase part : Phrase} (h : part ∈ phrase.parts) :
    part.count < phrase.count := by
  rw [count_eq phrase]
  rcases List.mem_append.mp h with h | h
  · have := count_le_countAll h
    omega
  · have := count_le_countAll h
    omega

end Phrase

namespace TreeEntry

/-- The entries on the way from an entry down to one inside it, without the first. -/
inductive Descent : TreeEntry → List TreeEntry → TreeEntry → Prop
  | nil (entry : TreeEntry) : Descent entry [] entry
  | cons {entry part inner : TreeEntry} {way : List TreeEntry} (hpart : part ∈ entry.parts)
      (hway : Descent part way inner) : Descent entry (part :: way) inner

variable {entry inner : TreeEntry} {way : List TreeEntry}

theorem Descent.step {part : TreeEntry} (h : Descent entry way inner) (hpart : part ∈ inner.parts) :
    Descent entry (way ++ [part]) part := by
  induction h with
  | nil entry => exact .cons hpart (.nil part)
  | cons hfirst _ ih => exact .cons hfirst (ih hpart)

theorem Descent.getLast? (h : Descent entry way inner) : (entry :: way).getLast? = some inner := by
  induction h with
  | nil entry => rfl
  | cons _ _ ih => rw [List.getLast?_cons_cons, ih]

theorem Descent.length_lt (h : Descent entry way inner) : way.length < entry.phrase.count := by
  induction h with
  | nil entry =>
      rw [Phrase.count_eq]
      exact Nat.lt_of_lt_of_le (Nat.succ_pos _) (Nat.le_add_right _ _)
  | cons hpart _ ih =>
      have hlt := Phrase.count_lt_of_mem_parts (phrase_mem_parts hpart)
      rw [List.length_cons]
      omega

theorem Descent.everywhere {property : Phrase → Prop} (h : Descent entry way inner)
    (hentry : entry.phrase.Everywhere property) : inner.phrase.Everywhere property := by
  induction h with
  | nil entry => exact hentry
  | cons hpart _ ih => exact ih (hentry.part (phrase_mem_parts hpart))

theorem Descent.enclosed {kinds : Kind → Prop} {places : Nat → Prop} (h : Descent entry way inner)
    (hentry : entry.phrase.Everywhere (Phrase.Sound kinds places)) :
    entry.phrase.start ≤ inner.phrase.start ∧ inner.phrase.stop ≤ entry.phrase.stop := by
  induction h with
  | nil entry => exact ⟨Nat.le_refl _, Nat.le_refl _⟩
  | cons hpart _ ih =>
      obtain ⟨hfrom, hto⟩ := hentry.here.parts _ (phrase_mem_parts hpart)
      obtain ⟨hfrom', hto'⟩ := ih (hentry.part (phrase_mem_parts hpart))
      exact ⟨Nat.le_trans hfrom hfrom', Nat.le_trans hto' hto⟩

end TreeEntry

namespace Phrase

open TreeEntry (Descent phrase_mem_parts)

variable {levels : Levels} {source : Text} {phrase : Phrase} {entry part inner : TreeEntry}
  {way : List TreeEntry}

theorem exists_descent {parent : Option Nat} {base : Nat} (hentry : entry ∈ phrase.entries parent base) :
    ∃ way, Descent ⟨base, parent, phrase⟩ way entry := by
  refine entries_induction_on (motive := fun inner => ∃ way, Descent ⟨base, parent, phrase⟩ way inner) hentry
    ⟨[], .nil _⟩ ?_
  rintro above _ ⟨way, hway⟩ part hpart
  exact ⟨way ++ [part], hway.step hpart⟩

theorem Everywhere.inside {property : Phrase → Prop} {parent : Option Nat} {base : Nat}
    (h : phrase.Everywhere property) (hentry : entry ∈ phrase.entries parent base) :
    entry.phrase.Everywhere property := by
  obtain ⟨way, hway⟩ := exists_descent hentry
  exact hway.everywhere h

/-- Going up from an entry leads back along the way that goes down to it. -/
theorem ancestorsWithin_descent (h : Descent entry way inner) (hentry : entry ∈ phrase.entries none 0)
    (budget : Nat) :
    (phrase.toTree levels source).ancestorsWithin (way.length + budget) inner.id =
      ((entry :: way).map TreeEntry.id).dropLast.reverse ++
        (phrase.toTree levels source).ancestorsWithin budget entry.id := by
  induction h generalizing budget with
  | nil entry =>
      rw [List.length_nil, Nat.zero_add]
      rfl
  | @cons entry part inner way hpart _ ih =>
      have hinner := parts_subset_entries none 0 phrase entry hentry hpart
      have hparent : (phrase.toTree levels source).parent? part.id = some entry.id := by
        rw [parent?_toTree levels source hinner, TreeEntry.parent_of_mem_parts hpart]
      rw [List.length_cons, Nat.add_assoc, Nat.add_comm 1, ih hinner (budget + 1), Tree.ancestorsWithin,
        hparent, List.map_cons, List.map_cons, List.map_cons, List.dropLast_cons_cons, List.reverse_cons,
        List.append_assoc]
      rfl

theorem ancestors_descent (h : Descent ⟨0, none, phrase⟩ way inner) :
    ((phrase.toTree levels source).ancestors inner.id).reverse ++ [inner.id] =
      phrase.idFrom 0 :: way.map TreeEntry.id := by
  have htop := mem_entries_self none 0 phrase
  have hlength : way.length < phrase.count := h.length_lt
  have hbudget : phrase.count = way.length + (phrase.count - way.length) := by omega
  have hfree : (phrase.toTree levels source).ancestorsWithin (phrase.count - way.length) (phrase.idFrom 0) =
      [] := by
    have hparent := parent?_toTree levels source htop
    rw [TreeEntry.id] at hparent
    cases phrase.count - way.length with
    | zero => rfl
    | succ budget => rw [Tree.ancestorsWithin, hparent]
  have hlast : (phrase.idFrom 0 :: way.map TreeEntry.id).getLast? = some inner.id := by
    have hgetLast := congrArg (Option.map TreeEntry.id) h.getLast?
    rwa [← List.getLast?_map] at hgetLast
  rw [Tree.ancestors, size_toTree, hbudget, ancestorsWithin_descent h htop]
  show (_ ++ (phrase.toTree levels source).ancestorsWithin _ (phrase.idFrom 0)).reverse ++ _ = _
  rw [hfree, List.append_nil, List.reverse_reverse]
  exact List.dropLast_append_getLast? _ hlast

variable {kinds : Kind → Prop} {places : Nat → Prop} (hbuilt : phrase.Built kinds places)
include hbuilt

theorem touches_iff (hentry : entry ∈ phrase.entries none 0) (offset : Nat) :
    (phrase.toTree levels source).touches entry.id offset = true ↔
      entry.phrase.start ≤ offset ∧ offset ≤ entry.phrase.stop := by
  rw [Tree.touches, node?_toTree levels source hentry, Option.any_some, Node.touches,
    TreeEntry.node_stop (hbuilt.sound.entry hentry).ordered, Bool.and_eq_true, decide_eq_true_eq,
    decide_eq_true_eq]
  rfl

variable {offset : Nat} (horder : phrase.InOrder) (htoken : inner.phrase.IsToken)
  (hfrom : inner.phrase.start ≤ offset) (hto : offset < inner.phrase.stop)
include horder htoken hfrom hto

/-- The last child that touches an offset inside a token is the one that holds the token. -/
theorem childAt?_of_token (hentry : entry ∈ phrase.entries none 0) (hpart : part ∈ entry.parts)
    (hway : Descent part way inner) :
    (phrase.toTree levels source).childAt? entry.id offset = some part.id := by
  have hsub := parts_subset_entries none 0 phrase entry hentry
  obtain ⟨left, right, hsplit⟩ := List.append_of_mem hpart
  have hpairs := Everywhere.entry horder hentry
  rw [← TreeEntry.map_phrase_parts, List.pairwise_map, hsplit] at hpairs
  have hbehind := (List.pairwise_cons.mp (List.pairwise_append.mp hpairs).2.1).1
  have hlater : (right.map TreeEntry.id).reverse.find?
      ((phrase.toTree levels source).touches · offset) = none := by
    rw [List.find?_eq_none]
    intro id hid htouches
    obtain ⟨later, hmem, rfl⟩ := List.mem_map.mp (List.mem_reverse.mp hid)
    have hlater := hsub (hsplit ▸ List.mem_append_right _ (List.mem_cons_of_mem _ hmem))
    have hstart := ((touches_iff hbuilt hlater offset).mp htouches).1
    have hstop := (hway.everywhere (hbehind later hmem)).here htoken
    omega
  have hown : (phrase.toTree levels source).touches part.id offset = true := by
    obtain ⟨hfrom', hto'⟩ := hway.enclosed (hbuilt.sound.inside (hsub hpart))
    exact (touches_iff hbuilt (hsub hpart) offset).mpr ⟨by omega, by omega⟩
  rw [Tree.childAt?, children_toTree levels source hentry, hsplit, List.map_append, List.map_cons,
    List.reverse_append, List.reverse_cons, List.append_assoc, List.find?_append, hlater, Option.none_or]
  exact List.find?_cons_of_pos hown

theorem descend_descent (h : Descent entry way inner) (hentry : entry ∈ phrase.entries none 0) {budget : Nat}
    (hbudget : way.length ≤ budget) :
    (phrase.toTree levels source).descend offset budget entry.id = way.map TreeEntry.id := by
  induction h generalizing budget with
  | nil entry =>
      have hnone : (phrase.toTree levels source).childAt? entry.id offset = none := by
        have hparts := TreeEntry.map_phrase_parts entry
        rw [htoken.1, List.map_eq_nil_iff] at hparts
        rw [Tree.childAt?, children_toTree levels source hentry, hparts]
        rfl
      cases budget with
      | zero => rfl
      | succ budget => rw [Tree.descend, hnone, List.map_nil]
  | cons hpart hway ih =>
      cases budget with
      | zero => cases hbudget
      | succ budget =>
          have hinner := parts_subset_entries none 0 phrase _ hentry hpart
          rw [Tree.descend, childAt?_of_token hbuilt horder htoken hfrom hto hentry hpart hway]
          exact congrArg _ (ih htoken hfrom hto hinner (Nat.le_of_succ_le_succ hbudget))

theorem path_descent (h : Descent ⟨0, none, phrase⟩ way inner) (hfirst : phrase.before = []) :
    (phrase.toTree levels source).path offset = phrase.idFrom 0 :: way.map TreeEntry.id := by
  have htop := mem_entries_self none 0 phrase
  have hroot : phrase.idFrom 0 = Tree.root := by
    rw [idFrom, hfirst]
    rfl
  have hlength : way.length < phrase.count := h.length_lt
  have hsize := size_toTree levels source phrase
  have hne : (phrase.toTree levels source).isEmpty = false := by
    rw [Tree.isEmpty, Array.isEmpty_eq_false_iff_exists_mem]
    exact ⟨_, Array.mem_of_getElem? (node?_toTree levels source htop)⟩
  rw [Tree.path, hne, if_neg Bool.false_ne_true, hsize, ← hroot]
  exact congrArg _ (descend_descent hbuilt horder htoken hfrom hto h htop (Nat.le_of_lt hlength))

end Phrase

/-- From every offset inside a leaf that stands for a token the search for the node at the offset leads to
the leaf, along the ancestors of the leaf. -/
theorem Scene.path_parse (source : Text) (name uri : Option String) (levels : Levels) {id : Nat} {node : Node}
    (hnode : (Scene.parse source name uri levels).node? id = some node) (hleaf : node.children = [])
    (hkind : node.kind.isLeaf = true) {offset : Nat} (hfrom : node.offset ≤ offset)
    (hto : offset < node.stop) :
    (Scene.parse source name uri levels).nodeAt? offset = some id ∧
      (Scene.parse source name uri levels).path offset =
        ((Scene.parse source name uri levels).ancestors id).reverse ++ [id] := by
  have hbuilt := Scene.phrase_built source name uri
  have horder := Scene.phrase_inOrder source name uri
  obtain ⟨entry, hentry, rfl, rfl⟩ := Phrase.exists_entry_of_node? hnode
  obtain ⟨way, hway⟩ := Phrase.exists_descent hentry
  rw [TreeEntry.node_stop (hbuilt.sound.entry hentry).ordered] at hto
  have htoken : entry.phrase.IsToken := by
    rw [TreeEntry.node, List.map_eq_nil_iff] at hleaf
    refine ⟨?_, hkind⟩
    rw [← TreeEntry.map_phrase_parts, hleaf, List.map_nil]
  have hpath : (Scene.parse source name uri levels).path offset =
      ((Scene.parse source name uri levels).ancestors entry.id).reverse ++ [entry.id] :=
    (Phrase.path_descent hbuilt horder htoken hfrom hto hway rfl).trans (Phrase.ancestors_descent hway).symm
  refine ⟨?_, hpath⟩
  rw [Tree.nodeAt?, hpath, List.getLast?_concat]

/-- For instance the second of two arguments where the first lacks its closing brace, so that its range
includes the second. -/
theorem Scene.path_parse_overlap :
    ∃ node, (Scene.parse "*gosub l \x7ba b".toList none none {}).node? 9 = some node ∧ node.children = [] ∧
      node.kind.isLeaf = true ∧ node.offset ≤ 12 ∧ 12 < node.stop ∧
      (Scene.parse "*gosub l \x7ba b".toList none none {}).nodeAt? 12 = some 9 ∧
      (Scene.parse "*gosub l \x7ba b".toList none none {}).path 12 =
        ((Scene.parse "*gosub l \x7ba b".toList none none {}).ancestors 9).reverse ++ [9] := by
  have hfound : ((Scene.parse "*gosub l \x7ba b".toList none none {}).node? 9).any (fun node =>
      node.children = [] ∧ node.kind.isLeaf = true ∧ node.offset ≤ 12 ∧ 12 < node.stop) = true := by
    decide +kernel
  obtain ⟨node, hnode, hsite⟩ := (Option.any_eq_true _ _).mp hfound
  obtain ⟨hleaf, hkind, hfrom, hto⟩ := of_decide_eq_true hsite
  exact ⟨node, hnode, hleaf, hkind, hfrom, hto, Scene.path_parse _ none none {} hnode hleaf hkind hfrom hto⟩

end Gamebook
