import Gamebook.Proofs.Grammar.Laid
import Gamebook.Proofs.Line.Alike
import Gamebook.Proofs.Scene.Blocks
import Gamebook.Proofs.Scope.Declared

/-!
Lines replaced. Where the content of one line gives way to another one, and neither opens a block, all
other lines keep their nodes, with their markers and what they declare; behind the line these only move.
Whatever is wrong with a line stays on it. What the line stands in as the last one ends where the node of
the line ends, which need not be the end of the content: blanks behind the last word belong to no node.
-/

namespace Gamebook

/-- Some bytes at an edge give way to some others: what is in front of them stays, what is behind them
moves. What stands there ends at `last`, what takes its place at `last'`, and so does what ends with them. -/
def Correspondence.across (edge before after last last' : Nat) : Correspondence where
  lines := 0
  range start stop start' stop' := start ≤ stop ∧
    (stop ≤ edge ∧ start' = start ∧ stop' = stop ∨
      edge + before < start ∧ start' + before = start + after ∧ stop' + before = stop + after)
  ends stop stop' := stop ≤ edge ∧ stop' = stop ∨ edge + before < stop ∧ stop' + before = stop + after ∨
    (edge < stop ∧ stop ≤ edge + before ∧ edge < stop' ∧ stop' ≤ edge + after) ∧ stop = last ∧ stop' = last'
  shown _ := true
  ends_of_range := by omega
  ends_max := by
    rintro left left' right right' (hleft | hleft | hleft) (hright | hright | hright)
    all_goals omega

open Correspondence (across)

namespace Tree

/-- Neither the node nor any node below it is a line. -/
inductive Lineless (tree : Tree) : Nat → Prop
  | intro {id : Nat} (hkind : (tree.kind? id).any Kind.isLine = false)
      (hchildren : ∀ child ∈ tree.children id, Lineless tree child) : Lineless tree id

/-- The nodes stand for the line with the given number, at the same place and equally deep, and no other
lines are below them. They end at `last` and `last'`. -/
def Swapped (left right : Tree) (number last last' id other : Nat) : Prop :=
  ∃ node node' width type type', left.node? id = some node ∧ right.node? other = some node' ∧
    node.kind = .line number width type ∧ node'.kind = .line number width type' ∧
    node'.offset = node.offset ∧ node.stop = last ∧ node'.stop = last' ∧
    (∀ child ∈ node.children, left.Lineless child) ∧ ∀ child ∈ node'.children, right.Lineless child

/-- The nodes correspond, cover the same text if no line can stand in them, and declare the same. -/
structure Kept (c : Correspondence) (left right : Tree) (id other : Nat) : Prop where
  agrees : left.Agrees c right id other
  text : (left.kind? id).any Kind.holdsLines = false → right.text other = left.text id
  symbols : List.Forall₂ (Symbol.Alike c other) (Scope.declared left id) (Scope.declared right other)

/-- The trees are the same but for the line with the given number, which ends at `last` in one of them and at
`last'` in the other: their roots are, and below them all other nodes correspond one by one. -/
structure Replaced (c : Correspondence) (left right : Tree) (number last last' : Nat) : Prop where
  scene : ∃ node node', left.node? root = some node ∧ right.node? root = some node' ∧ node'.kind = node.kind ∧
    node'.offset = node.offset ∧ node.issues = [] ∧ node'.issues = []
  lines : List.Forall₂ (left.Alike right (Kept c left right) (Swapped left right number last last'))
    (left.children root) (right.children root)

end Tree

theorem TreeEntry.map_phrase_statement? (entry : TreeEntry) :
    entry.statement?.map TreeEntry.phrase = entry.phrase.parts.find? (·.kind.isContent) := by
  rw [← TreeEntry.map_phrase_parts, List.find?_map]
  rfl

namespace Phrase

/-- What can stand on one line only. -/
def Inline : Phrase → Prop := Everywhere fun inner => inner.kind.isLine = false ∧ inner.kind.isOption = false

/-- The phrases are those of the line with the given number, at the same place and equally deep, end at `last`
and `last'`, where the correspondence has an end, and hold neither lines nor options. -/
structure Swapped (c : Correspondence) (number last last' : Nat) (left right : Phrase) : Prop where
  kind : ∃ width type type', left.kind = .line number width type ∧ right.kind = .line number width type'
  start : right.start = left.start
  stop : left.stop = last
  stop' : right.stop = last'
  ends : c.ends last last'
  inline : ∀ part ∈ left.parts, part.Inline
  inline' : ∀ part ∈ right.parts, part.Inline

variable {c : Correspondence} {number last last' : Nat} {phrase : Phrase}

theorem Inline.any_isOption (h : phrase.Inline) : phrase.any Kind.isOption = false := by
  induction h with
  | intro here _ ih =>
      rw [any_eq, here.2, Bool.false_or, List.any_eq_false]
      exact fun part hpart => Bool.eq_false_iff.mp (ih part hpart)

theorem gaps_swapped : Gaps c (Swapped c number last last') where
  stop h := by rw [h.stop, h.stop']; exact h.ends
  option := by
    intro left right h
    obtain ⟨width, type, type', hkind, hkind'⟩ := h.kind
    have hnone : ∀ part : Phrase, part.Inline → ¬part.any Kind.isOption = true :=
      fun part hpart => Bool.eq_false_iff.mp hpart.any_isOption
    rw [any_eq, any_eq, hkind, hkind', List.any_eq_false.mpr fun part hpart => hnone part (h.inline part hpart),
      List.any_eq_false.mpr fun part hpart => hnone part (h.inline' part hpart)]
    rfl

theorem Inline.lineless {levels : Levels} {source : Text} {entry : TreeEntry}
    (hentry : entry ∈ phrase.entries none 0) (h : entry.phrase.Inline) :
    (phrase.toTree levels source).Lineless entry.id := by
  generalize hinner : entry.phrase = inner at h
  induction h generalizing entry with
  | intro here _ ih =>
      subst hinner
      refine .intro ?_ ?_
      · rw [kind?_toTree levels source hentry]
        exact here.1
      · intro child hchild
        rw [children_toTree levels source hentry] at hchild
        obtain ⟨part, hpart, rfl⟩ := List.mem_map.mp hchild
        exact ih part.phrase (TreeEntry.phrase_mem_parts hpart)
          (parts_subset_entries none 0 phrase entry hentry hpart) rfl

theorem addAll_stop_le {parts : List Phrase} {limit : Nat} (hstop : phrase.stop ≤ limit)
    (hparts : ∀ part ∈ parts, part.stop ≤ limit) : (phrase.addAll parts).stop ≤ limit := by
  induction parts generalizing phrase with
  | nil => rwa [addAll_nil]
  | cons part more ih =>
      obtain ⟨hpart, hmore⟩ := List.forall_mem_cons.mp hparts
      rw [addAll_cons]
      exact ih (Nat.max_le.mpr ⟨hstop, hpart⟩) hmore

theorem stop_le_addAll (parts : List Phrase) : phrase.stop ≤ (phrase.addAll parts).stop := by
  induction parts generalizing phrase with
  | nil => rw [addAll_nil]
  | cons part more ih =>
      have hadd : phrase.stop ≤ (phrase.add part).stop := Nat.le_max_left _ _
      rw [addAll_cons]
      exact Nat.le_trans hadd ih

end Phrase

namespace Line

variable {source source' : Text} {line other : Line} {context : Context} {unit unit' : Option IndentUnit}
  {c : Correspondence}

/-- Content that a line can have: it is not empty, begins with no blank and has no line break in it. -/
structure IsContent (content : Text) : Prop where
  ne_nil : content ≠ []
  trimmed : ∀ c ∈ content.head?, Text.isBlank c = false
  no_feed : '\n' ∉ content
  no_return : '\r' ∉ content

/-- A phrase that is the line with the given number has no statement that opens a block. -/
def Closed (number : Nat) (phrase : Phrase) : Prop :=
  ∀ width type, phrase.kind = .line number width type →
    ∀ statement ∈ phrase.parts.find? (·.kind.isContent), statement.kind.opensBlock = false

theorem opened?_eq_none (hwithin : line.Within source) {block : List Phrase}
    (hclosed : Closed line.number (line.phrase unit (line.reading context) block)) :
    line.opened? context = none := by
  have hstatement := TreeEntry.map_phrase_statement? ⟨0, none, line.phrase unit (line.reading context) block⟩
  rw [statement?_phrase hwithin] at hstatement
  cases hfound : (line.reading context).1 with
  | none => rw [opened?, hfound, Option.bind_none]
  | some statement =>
      rw [hfound, Option.map_some, Option.map_some] at hstatement
      have hkind := hclosed _ _ (kind_phrase hwithin block) _ hstatement.symm
      have hstated : (line.stated block statement).kind.opensBlock = false := hkind
      rw [stated_kind, ← (reading_states hwithin hfound).opens] at hstated
      rw [opened?, hfound, Option.bind_some]
      exact Option.not_isSome_iff_eq_none.mp (Bool.eq_false_iff.mp hstated)

theorem margin_stop {part : Phrase} (hpart : part ∈ line.margin unit) : part.stop = line.contentStart := by
  obtain ⟨indentation, hfound, rfl⟩ := Option.map_eq_some_iff.mp (Option.mem_toList.mp hpart)
  rw [indentation?_eq] at hfound
  split at hfound
  · cases hfound
    exact Nat.add_comm _ _
  · cases hfound

theorem margin_inline (hwithin : line.Within source) {part : Phrase} (hpart : part ∈ line.margin unit) :
    part.Inline := by
  have hbuilt : part.Built (fun kind => kind.isLine = false ∧ kind.isOption = false) (Text.IsCut source) :=
    margin_built hwithin (fun _ _ => ⟨rfl, rfl⟩) part hpart
  exact hbuilt.sound.mono fun _ hsound => hsound.kind

theorem statement_inline (hwithin : line.Within source) {statement : Statement}
    (hfound : (line.reading context).1 = some statement) (hnone : statement.opens = none) :
    statement.phrase.Inline := by
  have hstates := reading_states hwithin hfound
  have hopens := hstates.opens
  rw [hnone] at hopens
  refine .intro ⟨Kind.isLine_of_isContent (reading_content hwithin hfound).sound.here.kind, ?_⟩ ?_
  · rw [Bool.eq_false_iff]
    intro hoption
    have hblock : statement.phrase.kind.opensBlock = true := by
      cases hkind : statement.phrase.kind <;> rw [hkind] at hoption <;> first | rfl | cases hoption
    rw [hblock] at hopens
    cases hopens
  · intro part hpart
    refine (hstates.reads.parts_built part hpart).sound.mono fun inner hsound => ?_
    have hkind := hsound.kind
    cases hinner : inner.kind <;> rw [hinner] at hkind <;> first | exact ⟨rfl, rfl⟩ | cases hkind

/-- A line that has content and opens no block ends in its content, and all that stands on it is in one line. -/
theorem phrase_of_opened?_eq_none (unit : Option IndentUnit) (hwithin : line.Within source)
    (hcontent : line.content ≠ []) (hnone : line.opened? context = none) :
    line.contentStart < (line.phrase unit (line.reading context) []).stop ∧
      (line.phrase unit (line.reading context) []).stop ≤ line.contentEnd ∧
      ∀ part ∈ (line.phrase unit (line.reading context) []).parts, part.Inline := by
  have hreach := reaches_reading context hwithin
  have htaken := hreach.offset_lt_lastEnd (Nat.le_refl _) hwithin.trimmed_ofLine hcontent (reading_rest hwithin)
  have hlast := (place_of_site hreach.site_lastEnd).within_content.2
  have hle : line.contentStart ≤ line.contentEnd := Nat.le_add_right _ _
  have hstated : ∀ part ∈ ((line.reading context).1.map (line.stated [])).toList,
      part.stop ≤ line.contentEnd ∧ part.Inline := by
    intro part hpart
    obtain ⟨statement, hfound, rfl⟩ := Option.map_eq_some_iff.mp (Option.mem_toList.mp hpart)
    have hopens : statement.opens = none := by rwa [opened?, hfound, Option.bind_some] at hnone
    have hplace := (reading_content hwithin hfound).sound.here.stop
    rw [stated, hopens, if_neg (by simp), withBlock, Phrase.addAll_nil, Phrase.shift_stop]
    exact ⟨hplace.within_content.2, (statement_inline hwithin hfound hopens).shift fun inner hinner => by
      rwa [Phrase.shift_kind]⟩
  refine ⟨?_, ?_, ?_⟩
  · rw [phrase_eq (reading_rest hwithin)]
    refine Nat.lt_of_lt_of_le ?_ (Phrase.stop_le_addAll _)
    refine Nat.lt_of_lt_of_le ?_ (Nat.le_max_right _ _)
    rw [contentStart, Nat.add_comm]
    exact Nat.add_lt_add_right htaken _
  · rw [phrase_eq (reading_rest hwithin)]
    refine Phrase.addAll_stop_le (Nat.max_le.mpr ⟨Phrase.addAll_stop_le ?_ ?_, hlast⟩)
      fun part hpart => (hstated part hpart).1
    · exact Nat.le_trans (Nat.le_add_right _ _) hle
    · exact fun part hpart => (margin_stop hpart).trans_le hle
  · rw [parts_phrase hwithin]
    exact List.forall_mem_append.mpr
      ⟨fun part hpart => margin_inline hwithin hpart, fun part hpart => (hstated part hpart).2⟩

/-- A phrase that is the line with the given number ends at `last`. -/
def Lasts (number last : Nat) (phrase : Phrase) : Prop :=
  ∀ width type, phrase.kind = .line number width type → phrase.stop = last

theorem phrase_swapped {number last last' : Nat} (hwithin : line.Within source) (hwithin' : other.Within source')
    (hnumber : line.number = number) (hnumber' : other.number = number) (hstart : other.start = line.start)
    (hwidth : other.width = line.width) (hcontent : line.content ≠ []) (hcontent' : other.content ≠ [])
    (hnone : line.opened? context = none) (hnone' : other.opened? context = none)
    (hlast : Lasts number last (line.phrase unit (line.reading context) []))
    (hlast' : Lasts number last' (other.phrase unit' (other.reading context) []))
    (hends : line.contentStart < last → last ≤ line.contentEnd → other.contentStart < last' →
      last' ≤ other.contentEnd → c.ends last last') :
    (line.phrase unit (line.reading context) []).Swapped c number last last'
      (other.phrase unit' (other.reading context) []) := by
  obtain ⟨hfrom, hto, hinline⟩ := phrase_of_opened?_eq_none unit hwithin hcontent hnone
  obtain ⟨hfrom', hto', hinline'⟩ := phrase_of_opened?_eq_none unit' hwithin' hcontent' hnone'
  have hstop := hlast _ _ (by rw [kind_phrase hwithin, hnumber])
  have hstop' := hlast' _ _ (by rw [kind_phrase hwithin', hnumber'])
  rw [hstop] at hfrom hto
  rw [hstop'] at hfrom' hto'
  refine ⟨⟨line.width, line.type, other.type, ?_, ?_⟩, ?_, hstop, hstop', hends hfrom hto hfrom' hto', hinline,
    hinline'⟩
  · rw [kind_phrase hwithin, hnumber]
  · rw [kind_phrase hwithin', hnumber', hwidth]
  · rw [phrase_start hwithin' (by simp), phrase_start hwithin (by simp), hstart]

/-! ### The lines of the two scenes -/

variable {front indent content content' back : Text}

/-- The lines are those with the two contents, between the same lines. -/
def Differ (front indent content content' : Text) (line other : Line) : Prop :=
  ∃ ending, line = ofBody (front.count '\n') (Text.bytes front) (indent ++ content) ending ∧
    other = ofBody (front.count '\n') (Text.bytes front) (indent ++ content') ending

theorem ofBody_content (hindent : ∀ c ∈ indent, Text.isBlank c = true) (hcontent : IsContent content)
    (number start : Nat) (ending : LineEnding) :
    ofBody number start (indent ++ content) ending = ⟨number, start, indent, content, ending⟩ := by
  obtain ⟨htake, hdrop⟩ := Text.trimmed_iff.mp hcontent.trimmed
  rw [ofBody, List.takeWhile_append_of_pos hindent, List.dropWhile_append_of_pos hindent, htake, hdrop,
    List.append_nil]

theorem not_mem_of_isBlank (hindent : ∀ c ∈ indent, Text.isBlank c = true) {c : Char}
    (hc : Text.isBlank c = false) : c ∉ indent := by
  intro hmem
  rw [hindent c hmem] at hc
  cases hc

section Scenes

variable (hfront : EndsLine front) (hindent : ∀ c ∈ indent, Text.isBlank c = true) (hcontent : IsContent content)
  (hcontent' : IsContent content') (hback : BeginsBreak back)
include hfront hindent hcontent hcontent' hback

theorem forall₂_lines_replace (last last' : Nat) : List.Forall₂
    (fun line other => line.Alike
        (across (Text.bytes (front ++ indent)) (Text.bytes content) (Text.bytes content') last last') other ∨
      Differ front indent content content' line other)
    (lines (front ++ indent ++ content ++ back)) (lines (front ++ indent ++ content' ++ back)) := by
  obtain ⟨ending, more, hnil, hcut⟩ := exists_cut_line hback
  have hlines : ∀ content, IsContent content → lines (front ++ indent ++ content ++ back) =
      lines front ++ ofBody (front.count '\n') (Text.bytes front) (indent ++ content) ending ::
        layOut (front.count '\n' + 1)
          (Text.bytes front + Text.bytes (indent ++ content) + Text.bytes ending.text) more := by
    intro content hcontent
    have hbody : cut (indent ++ content ++ back) = (indent ++ content, ending) :: more := by
      refine hcut _ (List.append_ne_nil_of_right_ne_nil _ hcontent.ne_nil) ?_ ?_
      · rw [List.mem_append, not_or]
        exact ⟨not_mem_of_isBlank hindent rfl, hcontent.no_feed⟩
      · rw [List.mem_append, not_or]
        exact ⟨not_mem_of_isBlank hindent rfl, hcontent.no_return⟩
    rw [List.append_assoc front, List.append_assoc front, lines_append hfront, hbody, layOut]
  rw [hlines content hcontent, hlines content' hcontent']
  refine List.rel_append ?_ (.cons (.inr ⟨ending, rfl, rfl⟩) ?_)
  · refine List.Forall₂.imp (fun _ _ => Or.inl) (forall₂_layOut rfl fun first last hle hlast => ?_)
    rw [bytesOf, flatMap_cut] at hlast
    rw [Text.bytes_append]
    exact ⟨by omega, .inl ⟨by omega, rfl, rfl⟩⟩
  · by_cases hending : ending.text = []
    · rw [hnil hending, layOut, layOut]
      exact .nil
    · have hbreak := Text.bytes_pos hending
      refine List.Forall₂.imp (fun _ _ => Or.inl) (forall₂_layOut rfl fun first last hle _ => ?_)
      simp only [Text.bytes_append]
      exact ⟨by omega, .inr ⟨by omega, by omega, by omega⟩⟩

end Scenes

theorem Differ.eq (hindent : ∀ c ∈ indent, Text.isBlank c = true) (hcontent : IsContent content)
    (hcontent' : IsContent content') (h : Differ front indent content content' line other) :
    ∃ ending, line = ⟨front.count '\n', Text.bytes front, indent, content, ending⟩ ∧
      other = ⟨front.count '\n', Text.bytes front, indent, content', ending⟩ := by
  obtain ⟨ending, rfl, rfl⟩ := h
  exact ⟨ending, ofBody_content hindent hcontent _ _ _, ofBody_content hindent hcontent' _ _ _⟩

/-- A line that differs is as deep as it was, and no blank line. -/
theorem Differ.indent_eq (hindent : ∀ c ∈ indent, Text.isBlank c = true) (hcontent : IsContent content)
    (hcontent' : IsContent content') (h : Differ front indent content content' line other) :
    other.indent = line.indent ∧ other.isBlank = line.isBlank := by
  obtain ⟨ending, rfl, rfl⟩ := h.eq hindent hcontent hcontent'
  refine ⟨rfl, ?_⟩
  rw [isBlank, isBlank, List.isEmpty_eq_false_iff.mpr hcontent.ne_nil,
    List.isEmpty_eq_false_iff.mpr hcontent'.ne_nil]

theorem establishedUnit?_forall₂ {relation : Line → Line → Prop}
    (hrelation : ∀ line other, relation line other → other.indent = line.indent ∧ other.isBlank = line.isBlank)
    {lines others : List Line} (h : List.Forall₂ relation lines others) :
    establishedUnit? others = establishedUnit? lines := by
  induction h with
  | nil => rfl
  | @cons line other _ _ hfirst _ ih =>
      obtain ⟨hindent, hblank⟩ := hrelation _ _ hfirst
      have hindented : other.isIndented = line.isIndented := by rw [isIndented, hindent, isIndented]
      rw [establishedUnit?, establishedUnit?] at ih ⊢
      simp only [List.findSome?_cons, ih, hindent, hblank, hindented]

end Line

namespace Scene

variable {front indent content content' back : Text} {name uri : Option String} {levels : Levels} {source : Text}
  {number last last' : Nat}

theorem everywhere_closed
    (hcloses : ∀ statement, ¬(parse source name uri levels).Opens number statement) :
    (phrase source name uri).Everywhere (Line.Closed number) := by
  refine Phrase.everywhere_of_entries ?_ (Phrase.mem_entries_self none 0 _) (phrase_built source name uri).sound
  intro entry hentry width type hkind statement hstatement
  rw [← TreeEntry.map_phrase_statement?] at hstatement
  obtain ⟨part, hpart, rfl⟩ := Option.map_eq_some_iff.mp hstatement
  rw [Bool.eq_false_iff]
  intro hopens
  refine hcloses part.id (opens_iff.mpr ⟨entry, List.mem_filter.mpr ⟨hentry, ?_⟩, ?_, part, hpart, rfl, hopens⟩)
  · rw [TreeEntry.isLine, hkind]
    rfl
  · rw [TreeEntry.number, hkind]

/-- There is one line with a number, and so one place where it ends. -/
theorem exists_lasts (source : Text) (name uri : Option String) (number : Nat) :
    ∃ last, (phrase source name uri).Everywhere (Line.Lasts number last) := by
  refine ⟨((lineEntries source name uri)[number]?.map (·.phrase.stop)).getD 0,
    Phrase.everywhere_of_entries ?_ (Phrase.mem_entries_self none 0 _) (phrase_built source name uri).sound⟩
  intro entry hentry width type hkind
  have hline : entry ∈ lineEntries source name uri := by
    refine List.mem_filter.mpr ⟨hentry, ?_⟩
    rw [TreeEntry.isLine, hkind]
    rfl
  have hnumber : entry.number = number := by rw [TreeEntry.number, hkind]
  rw [← hnumber, (exists_line_of_number hline).1]
  rfl

section Replaced

variable (hfront : Line.EndsLine front) (hindent : ∀ c ∈ indent, Text.isBlank c = true)
  (hcontent : Line.IsContent content) (hcontent' : Line.IsContent content') (hback : Line.BeginsBreak back)
  (hcloses : ∀ statement, ¬(parse (front ++ indent ++ content ++ back) name uri levels).Opens
    (front.count '\n') statement)
  (hcloses' : ∀ statement, ¬(parse (front ++ indent ++ content' ++ back) name uri levels).Opens
    (front.count '\n') statement)
  (hlast : (phrase (front ++ indent ++ content ++ back) name uri).Everywhere (Line.Lasts (front.count '\n') last))
  (hlast' : (phrase (front ++ indent ++ content' ++ back) name uri).Everywhere
    (Line.Lasts (front.count '\n') last'))
include hfront hindent hcontent hcontent' hback hcloses hcloses' hlast hlast'

theorem forall₂_parts_replace : List.Forall₂
    (Phrase.Alike (across (Text.bytes (front ++ indent)) (Text.bytes content) (Text.bytes content') last last')
      (Phrase.Swapped (across (Text.bytes (front ++ indent)) (Text.bytes content) (Text.bytes content') last last')
        (front.count '\n') last last'))
    (phrase (front ++ indent ++ content ++ back) name uri).parts
    (phrase (front ++ indent ++ content' ++ back) name uri).parts := by
  have hlines := Line.forall₂_lines_replace hfront hindent hcontent hcontent' hback last last'
  have hunit := Line.establishedUnit?_forall₂
    (fun _ _ h => h.elim (fun h => ⟨h.indent, h.isBlank_eq⟩) (·.indent_eq hindent hcontent hcontent')) hlines
  have hclosed := (everywhere_closed hcloses).and hlast
  have hclosed' := (everywhere_closed hcloses').and hlast'
  rw [parts_phrase, parts_phrase]
  refine Line.phrases_alike (Line.Differ front indent content content') _ _ Phrase.gaps_swapped (.inl hunit.symm)
    ?_ ?_ ?_ .scene (Line.arranged_lines _) (Line.arranged_lines _) hlines
    (fun part hpart => hclosed.part hpart) (fun part hpart => hclosed'.part hpart)
  · intro line other hdiffer
    obtain ⟨ending, rfl, rfl⟩ := hdiffer.eq hindent hcontent hcontent'
    exact ⟨rfl, (hdiffer.indent_eq hindent hcontent hcontent').2⟩
  · intro context line other block block' hdiffer hwithin hwithin' hhere hhere'
    obtain ⟨ending, rfl, rfl⟩ := hdiffer.eq hindent hcontent hcontent'
    exact ⟨Line.opened?_eq_none hwithin hhere.1, Line.opened?_eq_none hwithin' hhere'.1⟩
  · intro context line other hdiffer hwithin hwithin' hnone hnone' hhere hhere'
    obtain ⟨ending, rfl, rfl⟩ := hdiffer.eq hindent hcontent hcontent'
    refine Line.phrase_swapped hwithin hwithin' rfl rfl rfl rfl hcontent.ne_nil hcontent'.ne_nil hnone hnone'
      hhere.2 hhere'.2 ?_
    intro hfrom hto hfrom' hto'
    rw [Line.contentEnd] at hto hto'
    rw [Line.contentStart] at hfrom hto hfrom' hto'
    rw [Text.bytes_append]
    exact .inr (.inr ⟨⟨hfrom, hto, hfrom', hto'⟩, rfl, rfl⟩)

end Replaced

/-! ### The trees of the two scenes -/

theorem slice?_across {front content content' : Text} (back : Text) {last last' start stop start' stop' : Nat}
    (h : (across (Text.bytes front) (Text.bytes content) (Text.bytes content') last last').range start stop start' stop') :
    Text.slice? start' stop' (front ++ content' ++ back) = Text.slice? start stop (front ++ content ++ back) := by
  obtain ⟨hle, ⟨hstop, rfl, rfl⟩ | ⟨hstart, hmoved, hmoved'⟩⟩ := h
  · rw [List.append_assoc, List.append_assoc, Text.slice?_append_left hle hstop,
      Text.slice?_append_left hle hstop]
  · have hstart := Nat.le_of_lt hstart
    obtain ⟨from_, rfl⟩ := Nat.exists_eq_add_of_le hstart
    obtain ⟨to_, rfl⟩ := Nat.exists_eq_add_of_le (Nat.le_trans hstart hle)
    obtain rfl : start' = Text.bytes (front ++ content') + from_ := by
      rw [Text.bytes_append]
      omega
    obtain rfl : stop' = Text.bytes (front ++ content') + to_ := by
      rw [Text.bytes_append]
      omega
    rw [Text.slice?_append_right, ← Text.bytes_append, Text.slice?_append_right]

variable {entry entry' : TreeEntry}

theorem slice?_text (levels : Levels) (hentry : entry ∈ (phrase source name uri).entries none 0) :
    Text.slice? entry.phrase.start entry.phrase.stop source = some ((parse source name uri levels).text entry.id) := by
  have hsound := (phrase_built source name uri).sound.entry hentry
  have hstop : (entry.node levels).stop = entry.phrase.stop := TreeEntry.node_stop hsound.ordered
  rw [← hstop]
  refine Tree.slice?_eq_text (Phrase.node?_toTree levels source hentry) hsound.start ?_
  rw [hstop]
  exact hsound.stop

section Trees

variable (hentry : entry ∈ (phrase (front ++ content ++ back) name uri).entries none 0)
  (hentry' : entry' ∈ (phrase (front ++ content' ++ back) name uri).entries none 0)
include hentry hentry'

theorem text_across (h : (across (Text.bytes front) (Text.bytes content) (Text.bytes content') last last').range
      entry.phrase.start entry.phrase.stop entry'.phrase.start entry'.phrase.stop) :
    (parse (front ++ content' ++ back) name uri levels).text entry'.id =
      (parse (front ++ content ++ back) name uri levels).text entry.id := by
  have hslice := slice?_across back h
  rw [slice?_text levels hentry, slice?_text levels hentry', Option.some.injEq] at hslice
  exact hslice

theorem sameWord_across (h : entry.phrase.Alike
      (across (Text.bytes front) (Text.bytes content) (Text.bytes content') last last')
      (Phrase.Swapped (across (Text.bytes front) (Text.bytes content) (Text.bytes content') last last') number last
        last')
      entry'.phrase) :
    (parse (front ++ content ++ back) name uri levels).SameWord
      (parse (front ++ content' ++ back) name uri levels) entry.id entry'.id := by
  have hkind? := Phrase.kind?_toTree levels (front ++ content ++ back) hentry
  have hkind?' := Phrase.kind?_toTree levels (front ++ content' ++ back) hentry'
  cases h with
  | gap h =>
      obtain ⟨width, type, type', hkind, hkind'⟩ := h.kind
      rw [hkind] at hkind?
      rw [hkind'] at hkind?'
      constructor
      · intro kind hholds
        rw [parse, parse, hkind?, hkind?']
        constructor <;> rintro ⟨rfl⟩ <;> cases hholds
      · intro kind hholds hline
        rw [parse, hkind?] at hline
        cases hline
        cases hholds
  | agree h _ _ =>
      have hsame : entry'.phrase.kind = entry.phrase.kind := h.kind.trans (Kind.renumber_zero _)
      constructor
      · intro kind _
        rw [parse, parse, hkind?, hkind?', hsame]
      · intro kind hholds hword
        rw [parse, hkind?, Option.some.injEq] at hword
        rw [Tree.name, Tree.name, text_across hentry hentry' (h.whole (by rwa [hword]))]

theorem kept_across (h : entry.phrase.Agrees
      (across (Text.bytes front) (Text.bytes content) (Text.bytes content') last last') entry'.phrase)
    (hparts : List.Forall₂ (Phrase.Alike
      (across (Text.bytes front) (Text.bytes content) (Text.bytes content') last last')
      (Phrase.Swapped (across (Text.bytes front) (Text.bytes content) (Text.bytes content') last last') number last
        last'))
      entry.phrase.parts entry'.phrase.parts) :
    Tree.Kept (across (Text.bytes front) (Text.bytes content) (Text.bytes content') last last')
      (parse (front ++ content ++ back) name uri levels) (parse (front ++ content' ++ back) name uri levels)
      entry.id entry'.id := by
  refine ⟨agrees_toTree _ _ _ _ hentry hentry' h, ?_, ?_⟩
  · intro hholds
    rw [parse, Phrase.kind?_toTree levels _ hentry] at hholds
    exact text_across hentry hentry' (h.whole hholds)
  · refine Scope.forall₂_declared (Phrase.node?_toTree levels _ hentry) (Phrase.node?_toTree levels _ hentry')
      ?_ h.start (h.kind.trans (Kind.renumber_zero _))
    rw [← TreeEntry.map_phrase_parts, ← TreeEntry.map_phrase_parts, List.forall₂_map_left_iff,
      List.forall₂_map_right_iff, List.forall₂_iff_zip] at hparts
    rw [TreeEntry.node, TreeEntry.node, List.forall₂_map_left_iff, List.forall₂_map_right_iff,
      List.forall₂_iff_zip]
    refine ⟨hparts.1, fun hpair => ?_⟩
    obtain ⟨hpart, hpart'⟩ := List.of_mem_zip hpair
    exact sameWord_across (Phrase.parts_subset_entries none 0 _ entry hentry hpart)
      (Phrase.parts_subset_entries none 0 _ entry' hentry' hpart') (hparts.2 hpair)

theorem swapped_toTree {c : Correspondence} (h : entry.phrase.Swapped c number last last' entry'.phrase) :
    (parse (front ++ content ++ back) name uri levels).Swapped
      (parse (front ++ content' ++ back) name uri levels) number last last' entry.id entry'.id := by
  obtain ⟨width, type, type', hkind, hkind'⟩ := h.kind
  have hordered := ((phrase_built _ name uri).sound.entry hentry).ordered
  have hordered' := ((phrase_built _ name uri).sound.entry hentry').ordered
  refine ⟨_, _, width, type, type', Phrase.node?_toTree levels _ hentry, Phrase.node?_toTree levels _ hentry',
    hkind, hkind', h.start, (TreeEntry.node_stop hordered).trans h.stop,
    (TreeEntry.node_stop hordered').trans h.stop', ?_, ?_⟩
  · exact List.forall_mem_map.mpr fun part hpart => Phrase.Inline.lineless
      (Phrase.parts_subset_entries none 0 _ entry hentry hpart) (h.inline _ (TreeEntry.phrase_mem_parts hpart))
  · exact List.forall_mem_map.mpr fun part hpart => Phrase.Inline.lineless
      (Phrase.parts_subset_entries none 0 _ entry' hentry' hpart) (h.inline' _ (TreeEntry.phrase_mem_parts hpart))

end Trees

/-- Whether the line with the given number opens no block can be checked node by node. -/
theorem not_opens_of_all {tree : Tree} {number : Nat}
    (h : (tree.ids.all fun id => ((tree.childWhere? id Kind.isContent).bind tree.kind?).all (!·.opensBlock) ||
      (tree.kind? id).all fun kind => match kind with
        | .line own _ _ => own != number
        | _ => true) = true) (statement : Nat) : ¬tree.Opens number statement := by
  rintro ⟨line, kind, ⟨width, type, hline⟩, hchild, hkind, hopens⟩
  have hlt : line < tree.size := by
    obtain ⟨node, hnode, _⟩ := Option.map_eq_some_iff.mp hline
    exact (Array.getElem?_eq_some_iff.mp hnode).1
  have hown := List.all_eq_true.mp h line (List.mem_range.mpr hlt)
  rw [hline, hchild, Option.bind_some, hkind] at hown
  simp [hopens] at hown

end Scene

end Gamebook
