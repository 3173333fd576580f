import Gamebook.Tree.Query
import Gamebook.Proofs.Scene.Lines
import Mathlib.Data.List.Find

/-!
Blocks and indentation. Which block a line stands in is decided line by line while the scene is read, each
block knowing the line that opened it and no other. Here the same is said of all lines at once: a line lies
in the block of a line above it when all the way down a line deeper than that one comes next, and its node
hangs below the statement of the nearest line in whose block it lies.
-/

namespace Gamebook

namespace Line

/-- The first line with content at an index or below it. -/
def next? (lines : List Line) (index : Nat) : Option Line :=
  (lines.drop index).find? fun line => !line.isBlank

/-- A line lies in the block of a line above it: from there down to the line, a line that is deeper than
the one above always comes next. -/
def InBlock (lines : List Line) (opener index : Nat) : Prop :=
  opener < index ∧ ∃ above, lines[opener]? = some above ∧ ∀ between, opener < between → between ≤ index →
    ∃ next, next? lines between = some next ∧ above.width < next.width

theorem continues_drop_iff {lines : List Line} {index width : Nat} :
    continues width (lines.drop index) = true ↔
      ∃ next, next? lines index = some next ∧ width < next.width := by
  rw [continues_iff, nextWidth?_eq]
  constructor
  · rintro ⟨_, hnext, hlt⟩
    obtain ⟨next, hfound, rfl⟩ := Option.map_eq_some_iff.mp hnext
    exact ⟨next, hfound, hlt⟩
  · rintro ⟨next, hfound, hlt⟩
    exact ⟨next.width, Option.map_eq_some_iff.mpr ⟨next, hfound, rfl⟩, hlt⟩

theorem continues_of_not_isBlank {line : Line} {more : List Line} {width : Nat}
    (hblank : line.isBlank = false) (h : continues width (line :: more) = true) : width < line.width := by
  obtain ⟨next, hnext, hlt⟩ := continues_iff.mp h
  rw [nextWidth?, hblank] at hnext
  cases hnext
  exact hlt

/-! ### Segments -/

/-- Some lines in a row, from the index `first` on, for which the lines behind them do not count: wherever
one looks for the next line with content, it is among them if it is anywhere. -/
structure Segment (all lines behind : List Line) (first : Nat) : Prop where
  drop : all.drop first = lines ++ behind
  closed : ∀ suffix, suffix <:+ lines → suffix ≠ [] → nextWidth? (suffix ++ behind) = nextWidth? suffix

variable {all behind more : List Line} {first : Nat} {line : Line}

theorem segment_all (all : List Line) : Segment all all [] 0 :=
  ⟨by simp, fun suffix _ _ => by rw [List.append_nil]⟩

theorem Segment.getElem? {lines : List Line} {index : Nat} (h : Segment all lines behind first)
    (hline : lines[index]? = some line) : all[first + index]? = some line := by
  have hlt := (List.getElem?_eq_some_iff.mp hline).1
  rw [← List.getElem?_drop, h.drop, List.getElem?_append_left hlt]
  exact hline

theorem Segment.head (h : Segment all (line :: more) behind first) : all[first]? = some line := by
  have hindex : (line :: more)[0]? = some line := rfl
  exact h.getElem? hindex

theorem Segment.drop_below (context : Context) (h : Segment all (line :: more) behind first) :
    all.drop (first + 1) = (line.below context more).1 ++ ((line.below context more).2 ++ behind) := by
  rw [← List.append_assoc, below_append, ← List.drop_drop, h.drop]
  rfl

theorem continues_block {context : Context} {suffix : List Line}
    (hsuffix : suffix <:+ (line.below context more).1) (hne : suffix ≠ []) :
    continues line.width suffix = true := by
  unfold below at hsuffix
  split at hsuffix
  · exact continues_of_suffix hsuffix hne
  · exact absurd (List.suffix_nil.mp hsuffix) hne

theorem Segment.block (context : Context) (h : Segment all (line :: more) behind first) :
    Segment all (line.below context more).1 ((line.below context more).2 ++ behind) (first + 1) := by
  refine ⟨h.drop_below context, ?_⟩
  intro suffix hsuffix hne
  obtain ⟨next, hnext, _⟩ := continues_iff.mp (continues_block hsuffix hne)
  rw [nextWidth?_append hnext, hnext]

theorem Segment.rest (context : Context) (h : Segment all (line :: more) behind first) :
    Segment all (line.below context more).2 behind (first + 1 + (line.below context more).1.length) := by
  refine ⟨?_, ?_⟩
  · rw [← List.drop_drop, h.drop_below context, List.drop_left]
  · intro suffix hsuffix hne
    refine h.closed suffix (hsuffix.trans ?_) hne
    have happend := List.suffix_append (line.below context more).1 (line.below context more).2
    rw [below_append] at happend
    exact happend.trans (List.suffix_cons line more)

theorem Segment.continues_within (context : Context) (h : Segment all (line :: more) behind first)
    {index : Nat} (hlow : first < index)
    (hhigh : index ≤ first + (line.below context more).1.length) :
    continues line.width (all.drop index) = true := by
  obtain ⟨steps, rfl⟩ := Nat.exists_eq_add_of_lt hlow
  have hsteps : steps < (line.below context more).1.length := by omega
  have hne : (line.below context more).1.drop steps ≠ [] := by
    rw [ne_eq, List.drop_eq_nil_iff]
    omega
  obtain ⟨next, hnext, hlt⟩ := continues_iff.mp (continues_block (List.drop_suffix steps _) hne)
  rw [show first + steps + 1 = first + 1 + steps by omega, ← List.drop_drop, h.drop_below context,
    List.drop_append_of_le_length (by omega)]
  exact continues_iff.mpr ⟨next, nextWidth?_append hnext _, hlt⟩

theorem Segment.not_continues_behind {context : Context} (h : Segment all (line :: more) behind first)
    (hopened : (line.opened? context).isSome) (hrest : (line.below context more).2 ≠ []) :
    continues line.width (all.drop (first + 1 + (line.below context more).1.length)) = false := by
  have hsegment := h.rest context
  rw [hsegment.drop, continues, hsegment.closed _ List.suffix_rfl hrest, ← continues, below, if_pos hopened]
  exact not_continues_splitBlock line.width more

theorem continues_mono {lines : List Line} {width wider : Nat} (hle : width ≤ wider)
    (h : continues wider lines = true) : continues width lines = true := by
  obtain ⟨next, hnext, hlt⟩ := continues_iff.mp h
  exact continues_iff.mpr ⟨next, hnext, Nat.lt_of_le_of_lt hle hlt⟩

theorem inBlock_iff {lines : List Line} {opener index : Nat} :
    InBlock lines opener index ↔ opener < index ∧ ∃ above, lines[opener]? = some above ∧
      ∀ between, opener < between → between ≤ index → continues above.width (lines.drop between) = true := by
  simp only [InBlock, continues_drop_iff]

theorem Segment.inBlock (context : Context) (h : Segment all (line :: more) behind first) {index : Nat}
    (hlow : first < index) (hhigh : index ≤ first + (line.below context more).1.length) :
    InBlock all first index := by
  refine inBlock_iff.mpr ⟨hlow, line, ?_, ?_⟩
  · exact h.head
  · intro between hbetween hle
    exact h.continues_within context hbetween (by omega)

/-- The lines behind its block do not lie in the block of a line, or of a deeper line above them. -/
theorem Segment.not_inBlock {context : Context} (h : Segment all (line :: more) behind first)
    (hopened : (line.opened? context).isSome) (hrest : (line.below context more).2 ≠ []) {upper index : Nat}
    {above : Line} (habove : all[upper]? = some above) (hdeep : line.width ≤ above.width)
    (hlow : upper < first + 1 + (line.below context more).1.length)
    (hhigh : first + 1 + (line.below context more).1.length ≤ index) : ¬InBlock all upper index := by
  intro hin
  obtain ⟨_, above', habove', hdeeper⟩ := inBlock_iff.mp hin
  rw [habove] at habove'
  cases habove'
  have hgoes := continues_mono hdeep (hdeeper _ hlow hhigh)
  rw [h.not_continues_behind hopened hrest] at hgoes
  cases hgoes

end Line

namespace TreeEntry

def number (entry : TreeEntry) : Nat :=
  match entry.phrase.kind with
  | .line number _ _ => number
  | _ => 0

/-- The line has a statement with the given number that opens a block. -/
def Opens (entry : TreeEntry) (statement : Nat) : Prop :=
  ∃ part, entry.statement? = some part ∧ part.id = statement ∧ part.phrase.kind.opensBlock = true

/-- Among some entries of lines, the parent of a line is the statement of the last line in whose block it
lies, and the given parent when there is none. -/
def Placed (all : List Line) (entries : List TreeEntry) (parent : Option Nat) (entry : TreeEntry) : Prop :=
  (∃ above ∈ entries, ∃ statement, above.Opens statement ∧ Line.InBlock all above.number entry.number ∧
    (∀ other ∈ entries, ∀ owner, other.Opens owner → Line.InBlock all other.number entry.number →
      other.number ≤ above.number) ∧ entry.parent = some statement) ∨
  (∀ other ∈ entries, ∀ owner, other.Opens owner → ¬Line.InBlock all other.number entry.number) ∧
    entry.parent = parent

variable {all : List Line} {block rest : List TreeEntry} {head entry : TreeEntry} {parent : Option Nat}

theorem Placed.of_block {owner : Nat} (h : Placed all block (some owner) entry) (hhead : head.Opens owner)
    (hin : Line.InBlock all head.number entry.number) (hlow : ∀ other ∈ block, head.number < other.number)
    (hhigh : ∀ other ∈ rest, entry.number < other.number) :
    Placed all (head :: (block ++ rest)) parent entry := by
  rcases h with ⟨above, habove, statement, hopens, hinner, hlast, hparent⟩ | ⟨hnone, hparent⟩
  · refine .inl ⟨above, by simp [habove], statement, hopens, hinner, ?_, hparent⟩
    intro other hother owner hopener hblock
    rcases List.mem_cons.mp hother with rfl | hother
    · exact Nat.le_of_lt (hlow above habove)
    rcases List.mem_append.mp hother with hother | hother
    · exact hlast other hother owner hopener hblock
    · exact absurd (hhigh other hother) (Nat.lt_asymm hblock.1)
  · refine .inl ⟨head, List.mem_cons_self, owner, hhead, hin, ?_, hparent⟩
    intro other hother statement hopener hblock
    rcases List.mem_cons.mp hother with rfl | hother
    · exact Nat.le_refl _
    rcases List.mem_append.mp hother with hother | hother
    · exact absurd hblock (hnone other hother statement hopener)
    · exact absurd (hhigh other hother) (Nat.lt_asymm hblock.1)

theorem Placed.of_rest (h : Placed all rest parent entry)
    (hlow : ∀ other ∈ rest, ∀ upper ∈ head :: block, upper.number ≤ other.number)
    (hout : ∀ upper ∈ head :: block, ∀ owner, upper.Opens owner →
      ¬Line.InBlock all upper.number entry.number) :
    Placed all (head :: (block ++ rest)) parent entry := by
  rw [← List.cons_append]
  rcases h with ⟨above, habove, statement, hopens, hinner, hlast, hparent⟩ | ⟨hnone, hparent⟩
  · refine .inl ⟨above, List.mem_append_right _ habove, statement, hopens, hinner, ?_, hparent⟩
    intro other hother owner hopener hblock
    rcases List.mem_append.mp hother with hother | hother
    · exact hlow above habove other hother
    · exact hlast other hother owner hopener hblock
  · refine .inr ⟨?_, hparent⟩
    intro other hother owner hopener
    rcases List.mem_append.mp hother with hother | hother
    · exact hout other hother owner hopener
    · exact hnone other hother owner hopener

end TreeEntry

namespace Line

variable {source : Text} {unit : Option IndentUnit} {all behind : List Line} {first : Nat} {line : Line}
  {entry : TreeEntry}

theorem Shows.number_eq (h : line.Shows entry) : entry.number = line.number := by
  rw [TreeEntry.number, h.kind]

theorem Shows.isBlank_eq_false (h : line.Shows entry) {statement : Nat} (hopens : entry.Opens statement) :
    line.isBlank = false := by
  obtain ⟨part, hpart, _⟩ := hopens
  rw [Bool.eq_false_iff]
  intro hblank
  rw [h.blank hblank] at hpart
  cases hpart

/-- Lines whose numbers are their indices. -/
def Numbered (all : List Line) : Prop :=
  ∀ (index : Nat) (line : Line), all[index]? = some line → line.number = index

/-- Entries of lines with numbers from `first` on, fewer than `size` further. -/
def Covers (all : List Line) (first size : Nat) (entries : List TreeEntry) : Prop :=
  ∀ entry ∈ entries, ∃ line, all[entry.number]? = some line ∧ line.Shows entry ∧ first ≤ entry.number ∧
    entry.number < first + size

theorem Segment.covers {lines : List Line} {entries : List TreeEntry} (h : Segment all lines behind first)
    (hnumbered : Numbered all) (hshows : List.Forall₂ Shows lines entries) :
    Covers all first lines.length entries := by
  intro entry hentry
  obtain ⟨index, hindex, rfl⟩ := List.mem_iff_getElem.mp hentry
  have hlt : index < lines.length := hshows.length_eq ▸ hindex
  have hshown : lines[index].Shows entries[index] := hshows.get hlt hindex
  have hline := h.getElem? (List.getElem?_eq_getElem hlt)
  rw [hshown.number_eq.trans (hnumbered _ _ hline)]
  exact ⟨lines[index], hline, hshown, by omega, by omega⟩

theorem isSome_opened?_iff (unit : Option IndentUnit) (context : Context) (more : List Line)
    (hwithin : line.Within source) (parent : Option Nat) (base : Nat) :
    (line.opened? context).isSome = true ↔ ∃ part,
      (line.headEntry unit context more parent base).statement? = some part ∧
        part.phrase.kind.opensBlock = true := by
  rw [headEntry, statement?_phrase hwithin, opened?]
  cases hfound : (line.reading context).1 with
  | none => simp
  | some statement =>
      have hopens := (reading_states hwithin hfound).opens
      have hkind := stated_kind line (phrases unit (line.inner context) (line.below context more).1) statement
      rw [Option.bind_some, hopens, ← hkind]
      simp [statementEntry]

section Step

variable {context : Context} {more : List Line} {block rest : List TreeEntry} {head : TreeEntry} {size : Nat}

theorem placed_head {others : List TreeEntry} (hcovers : Covers all first size (head :: others))
    (hhead : head.number = first) : head.Placed all (head :: others) head.parent := by
  refine .inr ⟨?_, rfl⟩
  intro other hother owner _ hin
  obtain ⟨_, _, _, hlow, _⟩ := hcovers other hother
  have hlt := hin.1
  omega

theorem Covers.isSome_opened? (hblock : Covers all (first + 1) (line.below context more).1.length block)
    (hentry : entry ∈ block) : (line.opened? context).isSome = true := by
  obtain ⟨_, _, _, hlow, hhigh⟩ := hblock entry hentry
  by_contra hnot
  have hlength : (line.below context more).1.length = 0 := by
    rw [below, if_neg hnot]
    rfl
  omega

theorem placed_of_block (hsegment : Segment all (line :: more) behind first)
    (hblock : Covers all (first + 1) (line.below context more).1.length block)
    (hrest : Covers all (first + 1 + (line.below context more).1.length) size rest)
    (hhead : head.number = first) {owner : Nat} (hopens : head.Opens owner) (hentry : entry ∈ block)
    (hplaced : entry.Placed all block (some owner)) {parent : Option Nat} :
    entry.Placed all (head :: (block ++ rest)) parent := by
  obtain ⟨_, _, _, hlow, hhigh⟩ := hblock entry hentry
  refine hplaced.of_block hopens ?_ ?_ ?_
  · rw [hhead]
    exact hsegment.inBlock context (by omega) (by omega)
  · intro other hother
    obtain ⟨_, _, _, hother, _⟩ := hblock other hother
    omega
  · intro other hother
    obtain ⟨_, _, _, hother, _⟩ := hrest other hother
    omega

/-- An opener in the block of a line is deeper than the line. -/
theorem width_lt_of_opens (hsegment : Segment all (line :: more) behind first)
    (hblock : Covers all (first + 1) (line.below context more).1.length block) (hentry : entry ∈ block)
    {owner : Nat} (hopens : entry.Opens owner) :
    ∃ above, all[entry.number]? = some above ∧ line.width < above.width := by
  obtain ⟨above, habove, hshows, hlow, hhigh⟩ := hblock entry hentry
  have hgoes : continues line.width (all.drop entry.number) = true :=
    hsegment.continues_within context (by omega) (by omega)
  obtain ⟨hlt, rfl⟩ := List.getElem?_eq_some_iff.mp habove
  rw [List.drop_eq_getElem_cons hlt] at hgoes
  exact ⟨_, habove, continues_of_not_isBlank (hshows.isBlank_eq_false hopens) hgoes⟩

theorem placed_of_rest (hsegment : Segment all (line :: more) behind first)
    (hblock : Covers all (first + 1) (line.below context more).1.length block)
    (hrest : Covers all (first + 1 + (line.below context more).1.length)
      (line.below context more).2.length rest)
    (hhead : head.number = first) (hopener : ∀ owner, head.Opens owner → (line.opened? context).isSome)
    (hentry : entry ∈ rest) {parent : Option Nat} (hplaced : entry.Placed all rest parent) :
    entry.Placed all (head :: (block ++ rest)) parent := by
  obtain ⟨_, _, _, hlow, hhigh⟩ := hrest entry hentry
  have hne : (line.below context more).2 ≠ [] := List.ne_nil_of_length_pos (by omega)
  refine hplaced.of_rest ?_ ?_
  · intro other hother upper hupper
    obtain ⟨_, _, _, hother, _⟩ := hrest other hother
    rcases List.mem_cons.mp hupper with rfl | hupper
    · omega
    · obtain ⟨_, _, _, _, hupper⟩ := hblock upper hupper
      omega
  · intro upper hupper owner hopens
    rcases List.mem_cons.mp hupper with rfl | hupper
    · rw [hhead]
      exact hsegment.not_inBlock (hopener owner hopens) hne hsegment.head
        (Nat.le_refl _) (by omega) hlow
    · obtain ⟨_, _, _, hfrom, hto⟩ := hblock upper hupper
      obtain ⟨above, habove, hdeep⟩ := width_lt_of_opens hsegment hblock hupper hopens
      exact hsegment.not_inBlock (hblock.isSome_opened? hupper) hne habove (Nat.le_of_lt hdeep) hto hlow

end Step

/-- In the phrases of a segment every line is placed. -/
theorem placed_phrases (context : Context) {lines : List Line} (harranged : Arranged source lines)
    (hnumbered : Numbered all) (hsegment : Segment all lines behind first) (parent : Option Nat)
    (base : Nat) :
    ∀ entry ∈ (Phrase.entriesOf parent base (phrases unit context lines)).filter TreeEntry.isLine,
      entry.Placed all
        ((Phrase.entriesOf parent base (phrases unit context lines)).filter TreeEntry.isLine) parent := by
  induction context, lines using below_induction generalizing behind first parent base with
  | nil context =>
      rw [phrases, Phrase.entriesOf]
      intro entry hentry
      cases hentry
  | cons context line more ihblock ihrest =>
      have hwithin := harranged.within line List.mem_cons_self
      have hblock := harranged.sublist (block_sublist context line more)
      have hrest := harranged.sublist (rest_sublist context line more)
      have hopened := isSome_opened?_iff unit context more hwithin parent base
      have hshows := forall₂_shows unit context harranged parent base
      obtain ⟨owner, start, after, hfilter, hstatement⟩ :=
        filter_isLine_phrases_cons unit context more hwithin parent base
      rw [hfilter] at hshows ⊢
      have hcovers := hsegment.covers hnumbered hshows
      have hblockCovers := (hsegment.block context).covers hnumbered
        (forall₂_shows unit (line.inner context) hblock (some owner) start)
      have hrestCovers := (hsegment.rest context).covers hnumbered
        (forall₂_shows unit context hrest parent after)
      have hhead : (line.headEntry unit context more parent base).number = first :=
        (List.forall₂_cons.mp hshows).1.number_eq.trans (hnumbered _ _ hsegment.head)
      intro entry hentry
      rcases List.mem_cons.mp hentry with rfl | hentry
      · exact placed_head hcovers hhead
      rcases List.mem_append.mp hentry with hentry | hentry
      · obtain ⟨part, hpart, hkind⟩ := hopened.mp (hblockCovers.isSome_opened? hentry)
        exact placed_of_block hsegment hblockCovers hrestCovers hhead
          ⟨part, hpart, hstatement part hpart, hkind⟩ hentry
          (ihblock hblock (hsegment.block context) (some owner) start entry hentry)
      · refine placed_of_rest hsegment hblockCovers hrestCovers hhead ?_ hentry
          (ihrest hrest (hsegment.rest context) parent after entry hentry)
        rintro _ ⟨part, hpart, _, hkind⟩
        exact hopened.mpr ⟨part, hpart, hkind⟩

/-! ### Blank lines -/

theorem next?_of_isBlank {lines : List Line} {index : Nat} (hline : lines[index]? = some line)
    (hblank : line.isBlank = true) : next? lines index = next? lines (index + 1) := by
  obtain ⟨hlt, rfl⟩ := List.getElem?_eq_some_iff.mp hline
  rw [next?, List.drop_eq_getElem_cons hlt, List.find?_cons, hblank]
  rfl

/-- A blank line lies in the same blocks as the line below it. -/
theorem inBlock_succ_iff {lines : List Line} {opener index : Nat} (hline : lines[index]? = some line)
    (hblank : line.isBlank = true) (hne : opener ≠ index) :
    InBlock lines opener (index + 1) ↔ InBlock lines opener index := by
  constructor
  · rintro ⟨hlt, above, habove, hdeeper⟩
    exact ⟨by omega, above, habove, fun between hlow hhigh => hdeeper between hlow (by omega)⟩
  · rintro ⟨hlt, above, habove, hdeeper⟩
    refine ⟨by omega, above, habove, ?_⟩
    intro between hlow hhigh
    rcases Nat.lt_or_ge index between with hlast | hle
    · rw [show between = index + 1 by omega, ← next?_of_isBlank hline hblank]
      exact hdeeper index hlt (Nat.le_refl _)
    · exact hdeeper between hlow hle

theorem not_inBlock_of_next?_eq_none {lines : List Line} {opener index : Nat}
    (hnone : next? lines index = none) : ¬InBlock lines opener index := by
  rintro ⟨hlt, above, _, hdeeper⟩
  obtain ⟨next, hnext, _⟩ := hdeeper index hlt (Nat.le_refl _)
  rw [hnone] at hnext
  cases hnext

end Line

namespace Tree

def IsLine (tree : Tree) (number id : Nat) : Prop :=
  ∃ width type, tree.kind? id = some (.line number width type)

/-- The line with the given number has the given statement, and it is of a kind that opens a block. -/
def Opens (tree : Tree) (number statement : Nat) : Prop :=
  ∃ line kind, tree.IsLine number line ∧ tree.childWhere? line Kind.isContent = some statement ∧
    tree.kind? statement = some kind ∧ kind.opensBlock = true

/-- The parent that a line is to have by indentation: the statement of the last opener in whose block it
lies, and the root when there is none. -/
def ParentOf (tree : Tree) (lines : List Line) (number : Nat) (parent : Option Nat) : Prop :=
  (∃ opener statement, tree.Opens opener statement ∧ Line.InBlock lines opener number ∧
    (∀ other owner, tree.Opens other owner → Line.InBlock lines other number → other ≤ opener) ∧
    parent = some statement) ∨
  (∀ other owner, tree.Opens other owner → ¬Line.InBlock lines other number) ∧ parent = some root

/-- The lines of the source hang in the tree as their indentation says. In particular a blank line does
not end a block, and blank lines at the end of the source are in none. -/
structure Nested (source : Text) (tree : Tree) : Prop where
  present : source ≠ [] → ∀ number < (Line.split source).length, ∃ id, tree.IsLine number id
  unique : ∀ number left right, tree.IsLine number left → tree.IsLine number right → left = right
  parent : ∀ number id, tree.IsLine number id → tree.ParentOf (Line.split source) number (tree.parent? id)
  blank : ∀ number line id below, (Line.split source)[number]? = some line → line.isBlank = true →
    tree.IsLine number id → tree.IsLine (number + 1) below → tree.parent? id = tree.parent? below
  trailing : ∀ number id, tree.IsLine number id → Line.next? (Line.split source) number = none →
    tree.parent? id = some root

end Tree

theorem Phrase.childWhere?_toTree (levels : Levels) (source : Text) {phrase : Phrase} {entry : TreeEntry}
    (hentry : entry ∈ phrase.entries none 0) (test : Kind → Bool) :
    (phrase.toTree levels source).childWhere? entry.id test =
      (entry.parts.find? fun part => test part.phrase.kind).map TreeEntry.id := by
  rw [Tree.childWhere?, Phrase.children_toTree levels source hentry, List.find?_map]
  refine congrArg _ (List.find?_congr ?_)
  intro part hpart
  have hmem := Phrase.parts_subset_entries none 0 phrase entry hentry hpart
  show ((phrase.toTree levels source).kind? part.id).any test = test part.phrase.kind
  rw [Phrase.kind?_toTree levels source hmem]
  rfl

namespace Scene

variable {source : Text} {name uri : Option String} {levels : Levels}

theorem isLine_iff {number id : Nat} : (parse source name uri levels).IsLine number id ↔
    ∃ entry ∈ lineEntries source name uri, entry.id = id ∧ entry.number = number := by
  constructor
  · rintro ⟨width, type, hkind⟩
    obtain ⟨node, hnode, hline⟩ := Option.map_eq_some_iff.mp hkind
    obtain ⟨entry, hentry, rfl, rfl⟩ := Phrase.exists_entry_of_node? hnode
    have hline : entry.phrase.kind = .line number width type := hline
    refine ⟨entry, List.mem_filter.mpr ⟨hentry, ?_⟩, rfl, ?_⟩
    · rw [TreeEntry.isLine, hline]
      rfl
    · rw [TreeEntry.number, hline]
  · rintro ⟨entry, hentry, rfl, rfl⟩
    obtain ⟨_, line, _, _, hshows⟩ := exists_line hentry
    refine ⟨line.width, line.type, ?_⟩
    rw [hshows.number_eq, ← hshows.kind]
    exact Phrase.kind?_toTree levels source (List.mem_filter.mp hentry).1

theorem opens_iff {number statement : Nat} : (parse source name uri levels).Opens number statement ↔
    ∃ entry ∈ lineEntries source name uri, entry.number = number ∧ entry.Opens statement := by
  constructor
  · rintro ⟨line, kind, hline, hchild, hkind, hopens⟩
    obtain ⟨entry, hentry, rfl, hnumber⟩ := isLine_iff.mp hline
    have hmem := (List.mem_filter.mp hentry).1
    rw [parse, Phrase.childWhere?_toTree levels source hmem] at hchild
    obtain ⟨part, hpart, rfl⟩ := Option.map_eq_some_iff.mp hchild
    have hinner := Phrase.parts_subset_entries none 0 _ entry hmem (List.mem_of_find?_eq_some hpart)
    rw [parse, Phrase.kind?_toTree levels source hinner, Option.some.injEq] at hkind
    exact ⟨entry, hentry, hnumber, part, hpart, rfl, hkind ▸ hopens⟩
  · rintro ⟨entry, hentry, hnumber, part, hpart, rfl, hopens⟩
    have hmem := (List.mem_filter.mp hentry).1
    have hinner := Phrase.parts_subset_entries none 0 _ entry hmem (List.mem_of_find?_eq_some hpart)
    refine ⟨entry.id, part.phrase.kind, isLine_iff.mpr ⟨entry, hentry, rfl, hnumber⟩, ?_, ?_, hopens⟩
    · rw [parse, Phrase.childWhere?_toTree levels source hmem]
      exact congrArg (Option.map TreeEntry.id) hpart
    · exact Phrase.kind?_toTree levels source hinner

theorem parentOf_parse {entry : TreeEntry} (hentry : entry ∈ lineEntries source name uri) :
    (parse source name uri levels).ParentOf (Line.lines source) entry.number entry.parent := by
  have hplaced : entry.Placed (Line.lines source) (lineEntries source name uri) (some Tree.root) := by
    rw [lineEntries_eq] at hentry ⊢
    exact Line.placed_phrases .scene (Line.arranged_lines source) (fun _ _ => Line.number_of_getElem?_lines)
      (Line.segment_all _) (some Tree.root) 1 entry hentry
  rcases hplaced with ⟨above, habove, statement, hopens, hin, hlast, hparent⟩ | ⟨hnone, hparent⟩
  · refine .inl ⟨above.number, statement, opens_iff.mpr ⟨above, habove, rfl, hopens⟩, hin, ?_, hparent⟩
    intro number owner hother
    obtain ⟨other, hmem, rfl, hopener⟩ := opens_iff.mp hother
    exact hlast other hmem owner hopener
  · refine .inr ⟨?_, hparent⟩
    intro number owner hother
    obtain ⟨other, hmem, rfl, hopener⟩ := opens_iff.mp hother
    exact hnone other hmem owner hopener

theorem exists_line_of_number {entry : TreeEntry} (hentry : entry ∈ lineEntries source name uri) :
    (lineEntries source name uri)[entry.number]? = some entry ∧
      ∃ line, (Line.lines source)[entry.number]? = some line ∧ line.Shows entry := by
  obtain ⟨index, line, hline, hindex, hshows⟩ := exists_line hentry
  rw [hshows.number_eq, Line.number_of_getElem?_lines hline]
  exact ⟨hindex, line, hline, hshows⟩

theorem lineEntry_eq {left right : TreeEntry} (hleft : left ∈ lineEntries source name uri)
    (hright : right ∈ lineEntries source name uri) (hnumber : left.number = right.number) : left = right := by
  have hsame := (exists_line_of_number hleft).1
  rw [hnumber, (exists_line_of_number hright).1] at hsame
  exact (Option.some.inj hsame).symm

theorem opens_unique {number left right : Nat} (hleft : (parse source name uri levels).Opens number left)
    (hright : (parse source name uri levels).Opens number right) : left = right := by
  obtain ⟨entry, hentry, rfl, part, hpart, rfl, _⟩ := opens_iff.mp hleft
  obtain ⟨other, hother, hnumber, part', hpart', rfl, _⟩ := opens_iff.mp hright
  rw [lineEntry_eq hother hentry hnumber, hpart, Option.some.injEq] at hpart'
  rw [hpart']

theorem ne_nil_of_mem_lineEntries {entry : TreeEntry} (hentry : entry ∈ lineEntries source name uri) :
    source ≠ [] := by
  obtain ⟨_, line, hline, _⟩ := exists_line_of_number hentry
  rintro rfl
  cases hline

theorem parentOf_of_isLine {number id : Nat} (hline : (parse source name uri levels).IsLine number id) :
    source ≠ [] ∧ (parse source name uri levels).ParentOf (Line.split source) number
      ((parse source name uri levels).parent? id) := by
  obtain ⟨entry, hentry, rfl, rfl⟩ := isLine_iff.mp hline
  have hsource := ne_nil_of_mem_lineEntries hentry
  have hparent := Phrase.parent?_toTree levels source (List.mem_filter.mp hentry).1
  refine ⟨hsource, ?_⟩
  rw [Line.split_eq_lines hsource, parse, hparent]
  exact parentOf_parse hentry

theorem isBlank_eq_false_of_opens {number statement : Nat} {line : Line}
    (hopens : (parse source name uri levels).Opens number statement)
    (hline : (Line.lines source)[number]? = some line) : line.isBlank = false := by
  obtain ⟨entry, hentry, rfl, hopener⟩ := opens_iff.mp hopens
  obtain ⟨_, own, hown, hshows⟩ := exists_line_of_number hentry
  rw [hline] at hown
  cases hown
  exact hshows.isBlank_eq_false hopener

end Scene

theorem Tree.ParentOf.unique {tree : Tree} {lines : List Line} {left right : Nat} {parent other : Option Nat}
    (hopens : ∀ number first second, tree.Opens number first → tree.Opens number second → first = second)
    (hleft : tree.ParentOf lines left parent) (hright : tree.ParentOf lines right other)
    (hsame : ∀ opener statement, tree.Opens opener statement →
      (Line.InBlock lines opener left ↔ Line.InBlock lines opener right)) : parent = other := by
  rcases hleft with ⟨opener, statement, hopener, hin, hlast, rfl⟩ | ⟨hnone, rfl⟩
  · rcases hright with ⟨opener', statement', hopener', hin', hlast', rfl⟩ | ⟨hnone', rfl⟩
    · have hle := hlast opener' statement' hopener' ((hsame opener' statement' hopener').mpr hin')
      have hge := hlast' opener statement hopener ((hsame opener statement hopener).mp hin)
      obtain rfl : opener = opener' := Nat.le_antisymm hge hle
      rw [hopens opener statement statement' hopener hopener']
    · exact absurd ((hsame opener statement hopener).mp hin) (hnone' opener statement hopener)
  · rcases hright with ⟨opener', statement', hopener', hin', _, rfl⟩ | ⟨_, rfl⟩
    · exact absurd ((hsame opener' statement' hopener').mpr hin') (hnone opener' statement' hopener')
    · rfl

/-- The lines of every scene hang in its tree as their indentation says. -/
theorem Scene.nested_parse (source : Text) (name uri : Option String) (levels : Levels) :
    (Scene.parse source name uri levels).Nested source := by
  refine ⟨?_, ?_, fun number id hline => (Scene.parentOf_of_isLine hline).2, ?_, ?_⟩
  · intro hsource number hnumber
    rw [Line.split_eq_lines hsource] at hnumber
    have hlt : number < (Scene.lineEntries source name uri).length :=
      (Scene.forall₂_lineEntries source name uri).length_eq ▸ hnumber
    have hline := List.getElem?_eq_getElem hnumber
    have hshows := Scene.shows_of_getElem? hline (List.getElem?_eq_getElem hlt)
    exact ⟨_, Scene.isLine_iff.mpr ⟨_, List.getElem_mem hlt, rfl,
      hshows.number_eq.trans (Line.number_of_getElem?_lines hline)⟩⟩
  · intro number left right hleft hright
    obtain ⟨entry, hentry, rfl, hnumber⟩ := Scene.isLine_iff.mp hleft
    obtain ⟨other, hother, rfl, hsame⟩ := Scene.isLine_iff.mp hright
    rw [Scene.lineEntry_eq hentry hother (hnumber.trans hsame.symm)]
  · intro number line id below hline hblank hid hbelow
    obtain ⟨hsource, hleft⟩ := Scene.parentOf_of_isLine hid
    refine hleft.unique (fun _ _ _ => Scene.opens_unique) (Scene.parentOf_of_isLine hbelow).2 ?_
    intro opener statement hopens
    refine (Line.inBlock_succ_iff hline hblank ?_).symm
    rintro rfl
    rw [Line.split_eq_lines hsource] at hline
    rw [Scene.isBlank_eq_false_of_opens hopens hline] at hblank
    cases hblank
  · intro number id hid hnone
    rcases (Scene.parentOf_of_isLine hid).2 with ⟨opener, _, _, hin, _⟩ | ⟨_, hroot⟩
    · exact absurd hin (Line.not_inBlock_of_next?_eq_none hnone)
    · exact hroot

end Gamebook
