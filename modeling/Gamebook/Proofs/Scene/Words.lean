import Gamebook.Proofs.Grammar.Words
import Gamebook.Proofs.Scanner.Walk
import Gamebook.Proofs.Scene.Options
import Gamebook.Proofs.Scene.Siblings

/-!
The words of a line of prose. A scanner that reads the line as prose and passes over its constructs meets the words
that the line has in the tree, no more and no less; where the line is cut like a command this begins behind the
first construct. What can spoil it is a construct that an error stretches over the words behind it.
-/

namespace Gamebook

/-- Where the parts of some kinds begin and end, on a line that begins at the given offset. -/
def Phrase.spans (test : Kind → Bool) (start : Nat) (parts : List Phrase) : List (Nat × Nat) :=
  (parts.filter (test ·.kind)).map fun part => (part.start + start, part.stop + start)

theorem Phrase.spans_construct {part : Phrase} (hkind : part.kind.isConstruct = true) (start : Nat)
    (parts : List Phrase) : spans Kind.isConstruct start (part :: parts) =
      (part.start + start, part.stop + start) :: spans Kind.isConstruct start parts := by
  have hcons : (part :: parts).filter (·.kind.isConstruct) = part :: parts.filter (·.kind.isConstruct) :=
    List.filter_cons_of_pos hkind
  rw [spans, hcons]
  rfl

theorem Phrase.spans_word {part : Phrase} (hkind : part.kind.isConstruct = true) (start : Nat) (parts : List Phrase) :
    spans Kind.isWord start (part :: parts) = spans Kind.isWord start parts := by
  have hcons : (part :: parts).filter (·.kind.isWord) = parts.filter (·.kind.isWord) :=
    List.filter_cons_of_neg (by rw [Kind.isWord_of_isConstruct hkind]; exact Bool.false_ne_true)
  rw [spans, hcons]
  rfl

theorem Phrase.spans_shift (test : Kind → Bool) (distance : Nat) (parts : List Phrase) :
    spans test 0 (parts.map (·.shift distance)) = spans test distance parts := by
  unfold spans
  induction parts with
  | nil => rfl
  | cons part more ih =>
      rw [List.map_cons, List.filter_cons, List.filter_cons, shift_kind]
      split
      · rw [List.map_cons, List.map_cons, ih, shift_start, shift_stop]
        rfl
      · exact ih

theorem Phrase.spans_append (test : Kind → Bool) (start : Nat) (front back : List Phrase) :
    spans test start (front ++ back) = spans test start front ++ spans test start back := by
  rw [spans, List.filter_append, List.map_append]
  rfl

namespace Reader

variable {site : Gamebook.Site} {r behind : Reader}

/-- On the line there are only blanks between what was taken last and what is left. -/
def Spaced (site : Gamebook.Site) (r : Reader) : Prop :=
  ∃ blanks, (∀ c ∈ blanks, Text.isBlank c = true) ∧ r.offset = r.lastEnd + Text.bytes blanks ∧
    site.Place (site.line.start + r.lastEnd) (blanks ++ r.rest)

theorem Spaced.place (h : r.Spaced site) : site.Place (site.line.start + r.offset) r.rest := by
  obtain ⟨blanks, -, hoffset, hplace⟩ := h
  rw [hoffset, ← Nat.add_assoc]
  exact hplace.advance

theorem spaced_ofLine (site : Gamebook.Site) : (ofLine site.line).Spaced site :=
  ⟨[], nofun, rfl, [], rfl, rfl⟩

theorem Reaches.spaced (h : r.Reaches behind) (hspaced : r.Spaced site) : behind.Spaced site := by
  induction h with
  | refl => exact hspaced
  | @advance middle taken left _ hsplit ih =>
      have hplace := ih.place
      rw [hsplit] at hplace
      refine ⟨left.takeWhile Text.isBlank, List.all_eq_true.mp List.all_takeWhile, ?_, ?_⟩
      · rw [Text.bytes_takeWhile_isBlank]
        rfl
      · show site.Place (site.line.start + (middle.offset + Text.bytes taken))
          (left.takeWhile Text.isBlank ++ left.dropWhile Text.isBlank)
        rw [List.takeWhile_append_dropWhile, ← Nat.add_assoc]
        exact hplace.advance
  | switch _ _ ih => exact ih

end Reader

namespace Site

/-- Parts of the line that stand one behind the other, with something in each, and end at the given place at the
latest. -/
structure Arranged (site : Site) (stop : Nat) (parts : List Phrase) : Prop where
  stops : ∀ part ∈ parts, part.stop + site.line.start ≤ stop ∧ ∃ left, site.Place (part.stop + site.line.start) left
  filled : ∀ part ∈ parts, part.start < part.stop
  pairs : parts.Pairwise fun left right => left.stop ≤ right.start

/-- A scanner at a place of the line follows prose that is read on the line: it has come to the reader over nothing
but what is no word, or is ahead of it, and the parts that are still to be read lie ahead of both. -/
structure Follows (site : Site) (gaps : List (Nat × Nat)) (stop : Nat) (r : Reader) (parts : List Phrase)
    (place : Nat) : Prop where
  mode : r.mode = .text
  trimmed : r.Trimmed
  spaced : r.Spaced site
  between : ∃ left, site.Place place left ∧ ∀ front, left = front ++ r.rest → front.Wordless
  arranged : site.Arranged stop parts
  ahead : ∀ part ∈ parts, place ≤ part.start + site.line.start
  pending : ∀ gap ∈ gaps, place ≤ gap.1 → gap ∈ Phrase.spans Kind.isConstruct site.line.start parts
  found : ∀ part ∈ parts, part.kind.isConstruct = true →
    gaps.lookup (part.start + site.line.start) = some (part.stop + site.line.start)

variable {site : Site} {gaps : List (Nat × Nat)} {stop place : Nat} {r behind : Reader} {part : Phrase}
  {parts : List Phrase}

theorem Arranged.more (h : site.Arranged stop (part :: parts)) : site.Arranged stop parts :=
  ⟨(List.forall_mem_cons.mp h.stops).2, (List.forall_mem_cons.mp h.filled).2, (List.pairwise_cons.mp h.pairs).2⟩

theorem Arranged.next (h : site.Arranged stop (part :: parts)) : ∀ inner ∈ parts, part.stop ≤ inner.start :=
  (List.pairwise_cons.mp h.pairs).1

/-- Where the next part is what the reader stands before, nothing of interest is on the way there. -/
theorem Follows.reach (hcomment : site.line.type ≠ .comment) (h : site.Follows gaps stop r (part :: parts) place)
    (hstart : part.start = r.offset) (hnumeral : ∀ c ∈ r.rest.head?, Text.isNumeral c = false)
    {words : List (Nat × Nat)} (hmore : Scanner.Meets gaps stop (site.proseAt (site.line.start + r.offset)) words) :
    Scanner.Meets gaps stop (site.proseAt place) words := by
  obtain ⟨left, hplace, hwordless⟩ := h.between
  have hahead := h.ahead part List.mem_cons_self
  rw [hstart, Nat.add_comm] at hahead
  obtain ⟨front, rfl, hfront⟩ := hplace.split h.spaced.place hahead
  have hstop := (h.arranged.stops part List.mem_cons_self).1
  have hfilled := h.arranged.filled part List.mem_cons_self
  refine meets_wordless hcomment hplace (hwordless front rfl) hnumeral ?_ ?_ ?_
  · intro gap hgap hle
    obtain ⟨inner, hinner, rfl⟩ := List.mem_map.mp (h.pending gap hgap hle)
    rw [← hfront]
    rcases List.mem_cons.mp (List.mem_filter.mp hinner).1 with rfl | hinner
    · rw [hstart, Nat.add_comm]
    · have hle := h.arranged.next inner hinner
      dsimp only
      omega
  · omega
  · rwa [← hfront]

theorem Follows.done (hcomment : site.line.type ≠ .comment) (h : site.Follows gaps stop r [] place)
    (hrest : r.rest = []) (hend : stop ≤ site.line.contentEnd) :
    Scanner.Meets gaps stop (site.proseAt place) [] := by
  obtain ⟨left, hplace, hwordless⟩ := h.between
  have hfront := hwordless left (by rw [hrest, List.append_nil])
  obtain ⟨taken, hsplit, hoffset⟩ := hplace
  have hplace : site.Place place (left ++ []) := ⟨taken, by rw [List.append_nil, hsplit], hoffset⟩
  have hstop : stop ≤ place + Text.bytes left := by
    rwa [hoffset, Nat.add_assoc, ← Text.bytes_append, ← hsplit]
  refine meets_wordless hcomment hplace hfront nofun ?_ (absurd rfl) (meets_nil hplace.advance hstop)
  intro gap hgap hle
  exact absurd (h.pending gap hgap hle) List.not_mem_nil

/-- Behind what both have come to, the same parts are left. -/
theorem Follows.past (h : site.Follows gaps stop r (part :: parts) place) (hreach : r.Reaches behind)
    (hmode : behind.mode = .text) (hstop : behind.lastEnd ≤ part.stop) :
    site.Follows gaps stop behind parts (part.stop + site.line.start) := by
  obtain ⟨-, left, hplace⟩ := h.arranged.stops part List.mem_cons_self
  have hfilled := h.arranged.filled part List.mem_cons_self
  have hspaced := hreach.spaced h.spaced
  refine ⟨hmode, hreach.trimmed h.trimmed, hspaced, ⟨left, hplace, ?_⟩, h.arranged.more, ?_, ?_, ?_⟩
  · -- Up to the reader there are only blanks.
    obtain ⟨blanks, hblanks, -, hlast⟩ := hspaced
    obtain ⟨between, hbetween, -⟩ := hlast.split hplace (by omega)
    rintro front rfl
    rw [← List.append_assoc] at hbetween
    obtain rfl := List.append_cancel_right hbetween
    exact Text.wordless_of_blank fun c hc => hblanks c (List.mem_append_right _ hc)
  · exact fun inner hinner => Nat.add_le_add_right (h.arranged.next inner hinner) _
  · intro gap hgap hle
    have hahead := h.ahead part List.mem_cons_self
    obtain ⟨inner, hinner, rfl⟩ := List.mem_map.mp (h.pending gap hgap (by omega))
    obtain ⟨hmem, hkind⟩ := List.mem_filter.mp hinner
    rcases List.mem_cons.mp hmem with rfl | hmem
    · dsimp only at hle
      omega
    · exact List.mem_map.mpr ⟨inner, List.mem_filter.mpr ⟨hmem, hkind⟩, rfl⟩
  · exact fun inner hinner => h.found inner (List.mem_cons_of_mem _ hinner)

/-- What is neither a word nor a construct is passed over. -/
theorem Follows.other (h : site.Follows gaps stop r parts place) {kind : TokenKind} (hkind : r.kind? = some kind)
    (hword : kind ≠ .word) : site.Follows gaps stop r.next parts place := by
  have hspaced := r.reaches_next.spaced h.spaced
  refine ⟨r.next_mode.trans h.mode, r.reaches_next.trimmed h.trimmed, hspaced, ?_, h.arranged, h.ahead, h.pending,
    h.found⟩
  obtain ⟨lexeme, more, hfirst, rfl, hnext⟩ := Reader.exists_of_kind? hkind
  obtain ⟨left, hplace, hwordless⟩ := h.between
  rw [h.mode] at hfirst
  -- What is taken holds no word, nor do the blanks behind it.
  obtain ⟨taken, hrest, htaken⟩ : ∃ taken, r.rest = taken ++ r.next.rest ∧ taken.Wordless := by
    refine ⟨lexeme.text ++ more.takeWhile Text.isBlank, ?_, (Lexeme.wordless_of_kind hfirst hword).append
      (Text.wordless_of_blank (List.all_eq_true.mp List.all_takeWhile))⟩
    rw [hnext, Reader.advance, List.append_assoc, List.takeWhile_append_dropWhile]
    exact (Lexeme.append_of_first? hfirst).symm
  refine ⟨left, hplace, ?_⟩
  rintro front rfl
  rw [hrest] at hwordless
  rcases Nat.le_total place (site.line.start + r.offset) with hle | hle
  · obtain ⟨between, hbetween, -⟩ := hplace.split h.spaced.place hle
    rw [hrest, ← List.append_assoc] at hbetween
    obtain rfl := List.append_cancel_right hbetween
    exact (hwordless between (List.append_assoc _ _ _)).append htaken
  · obtain ⟨between, hbetween, -⟩ := h.spaced.place.split hplace hle
    rw [hrest, ← List.append_assoc] at hbetween
    obtain rfl := List.append_cancel_right hbetween
    exact fun c hc => htaken c (List.mem_append_right _ hc)

theorem Follows.lookup_none (h : site.Follows gaps stop r (part :: parts) place)
    (hkind : part.kind.isConstruct = false) :
    gaps.lookup (part.start + site.line.start) = none := by
  refine List.lookup_eq_none_iff.mpr fun gap hgap => ?_
  rw [bne_iff_ne]
  intro hsame
  have hahead := h.ahead part List.mem_cons_self
  have hfilled := h.arranged.filled part List.mem_cons_self
  obtain ⟨inner, hinner, heq⟩ := List.mem_map.mp (h.pending gap hgap (hsame ▸ hahead))
  obtain ⟨hmem, hconstruct⟩ := List.mem_filter.mp hinner
  rw [← heq] at hsame
  rcases List.mem_cons.mp hmem with rfl | hmem
  · cases hkind.symm.trans hconstruct
  · have hle := h.arranged.next inner hmem
    dsimp only at hsame
    omega

/-- At a word the scanner meets it. -/
theorem Follows.meets_word (hcomment : site.line.type ≠ .comment)
    (h : site.Follows gaps stop r ((r.leaf .realWord).1 :: parts) place) (hkind : r.kind? = some .word)
    (hmore : ∀ ⦃further⦄, site.Follows gaps stop r.next parts further →
      Scanner.Meets gaps stop (site.proseAt further) (Phrase.spans Kind.isWord site.line.start parts)) :
    Scanner.Meets gaps stop (site.proseAt place)
      (Phrase.spans Kind.isWord site.line.start ((r.leaf .realWord).1 :: parts)) := by
  obtain ⟨lexeme, more, hfirst, hword, hnext⟩ := Reader.exists_of_kind? hkind
  have hstart : (r.leaf .realWord).1.start = r.offset := Nat.min_self _
  have hstop : (r.leaf .realWord).1.stop = r.offset + Text.bytes lexeme.text := by
    show max r.offset r.next.lastEnd = _
    rw [hnext]
    exact Nat.max_eq_right (Nat.le_add_right _ _)
  have hlast : r.next.lastEnd ≤ (r.leaf .realWord).1.stop := Nat.le_max_right _ _
  have hpast := hmore (h.past r.reaches_next (r.next_mode.trans h.mode) hlast)
  have hnone := h.lookup_none rfl
  have hwithin := (h.arranged.stops _ List.mem_cons_self).1
  have hfilled := h.arranged.filled _ List.mem_cons_self
  have hplace := h.spaced.place
  rw [h.mode] at hfirst
  obtain ⟨c, left, hrest, hletter⟩ := Lexeme.letter_of_word hfirst hword
  have hhead : ∀ d ∈ r.rest.head?, d = c := by rw [hrest]; exact fun d hd => (Option.some.inj hd).symm
  have hblank : Text.isBlank c = false := h.trimmed c (by rw [hrest]; rfl)
  have hnumeral : Text.isNumeral c = false := by
    refine Bool.eq_false_iff.mpr fun hnumeral => ?_
    rw [Text.isLetter_of_isNumeral hnumeral] at hletter
    cases hletter
  refine h.reach hcomment hstart (fun d hd => hhead d hd ▸ hnumeral) ?_
  have hspans : Phrase.spans Kind.isWord site.line.start ((r.leaf .realWord).1 :: parts) =
      ((r.leaf .realWord).1.start + site.line.start, (r.leaf .realWord).1.stop + site.line.start) ::
        Phrase.spans Kind.isWord site.line.start parts := rfl
  rw [hspans]
  rw [hstart, hstop] at *
  rw [Nat.add_comm] at hnone
  rw [hrest] at hfirst hplace
  rw [Nat.add_right_comm, Nat.add_comm r.offset] at hpast ⊢
  exact Site.meets_word hcomment hplace hblank hfirst hword (by omega) hnone hpast

/-- At a construct it goes on behind it. -/
theorem Follows.meets_construct (hcomment : site.line.type ≠ .comment)
    (h : site.Follows gaps stop r (part :: parts) place) (hsign : r.kind? = some .dollar ∨ r.kind? = some .atSign)
    (hpart : r.Interrupted part behind)
    (hmore : ∀ ⦃further⦄, site.Follows gaps stop behind parts further →
      Scanner.Meets gaps stop (site.proseAt further) (Phrase.spans Kind.isWord site.line.start parts)) :
    Scanner.Meets gaps stop (site.proseAt place) (Phrase.spans Kind.isWord site.line.start (part :: parts)) := by
  obtain ⟨lexeme, more, hfirst, hnumeral⟩ : ∃ lexeme more, Lexeme.first? .text r.rest = some (lexeme, more) ∧
      ∀ c ∈ r.rest.head?, Text.isNumeral c = false := by
    rcases hsign with hkind | hkind <;> obtain ⟨lexeme, more, hfirst, hsign, -⟩ := Reader.exists_of_kind? hkind <;>
      rw [h.mode] at hfirst
    · exact ⟨lexeme, more, hfirst, Lexeme.isNumeral_of_sign hfirst (.inl hsign)⟩
    · exact ⟨lexeme, more, hfirst, Lexeme.isNumeral_of_sign hfirst (.inr hsign)⟩
  have hrest : r.rest ≠ [] := fun hnil => by rw [hnil] at hfirst; cases hfirst
  have hfilled := h.arranged.filled part List.mem_cons_self
  have hfound := h.found part List.mem_cons_self hpart.kind
  have hwithin := (h.arranged.stops _ List.mem_cons_self).1
  have hplace := h.spaced.place
  have hpast := hmore (h.past (r.reaches_next.trans hpart.taken) hpart.mode hpart.stop)
  obtain ⟨c, left, hcons⟩ := List.exists_cons_of_ne_nil hrest
  have hblank : Text.isBlank c = false := h.trimmed c (by rw [hcons]; rfl)
  rw [hpart.start, Nat.add_comm] at hfound
  have hstart := hpart.start
  rw [hcons] at hplace
  rw [Phrase.spans_word hpart.kind]
  exact h.reach hcomment hpart.start hnumeral (meets_jump hcomment hplace hblank (by omega) hfound hpast)

/-- A scanner that follows prose meets its words. -/
theorem Follows.meets (hcomment : site.line.type ≠ .comment) (hend : stop ≤ site.line.contentEnd)
    (hpasses : r.Passes parts) (h : site.Follows gaps stop r parts place) :
    Scanner.Meets gaps stop (site.proseAt place) (Phrase.spans Kind.isWord site.line.start parts) := by
  induction hpasses generalizing place with
  | done hrest => exact h.done hcomment hrest hend
  | word hkind _ ih => exact h.meets_word hcomment hkind fun _ => ih
  | construct hsign hpart _ ih => exact h.meets_construct hcomment hsign hpart fun _ => ih
  | other hkind hword _ ih => exact ih (h.other hkind hword)

/-! ### The start of a walk -/

/-- A construct is found where it begins. -/
theorem Arranged.lookup (h : site.Arranged stop parts) (hpart : part ∈ parts)
    (hkind : part.kind.isConstruct = true) :
    (Phrase.spans Kind.isConstruct site.line.start parts).lookup (part.start + site.line.start) =
      some (part.stop + site.line.start) := by
  obtain ⟨front, back, rfl⟩ := List.mem_iff_append.mp hpart
  have hbefore := (List.pairwise_append.mp h.pairs).2.2
  refine List.lookup_eq_some_iff.mpr ⟨Phrase.spans Kind.isConstruct site.line.start front,
    Phrase.spans Kind.isConstruct site.line.start back, ?_, ?_⟩
  · rw [Phrase.spans_append, Phrase.spans_construct hkind]
  · intro gap hgap
    obtain ⟨inner, hinner, rfl⟩ := List.mem_map.mp hgap
    have hmem := (List.mem_filter.mp hinner).1
    have hlt := h.filled inner (List.mem_append_left _ hmem)
    have hle := hbefore inner hmem part List.mem_cons_self
    rw [bne_iff_ne]
    dsimp only
    omega

/-- A walk can begin where a reader of the prose does. -/
theorem Arranged.follows (h : site.Arranged stop parts) (hmode : r.mode = .text) (htrimmed : r.Trimmed)
    (hspaced : r.Spaced site) (hfirst : ∀ part ∈ parts, r.offset ≤ part.start) :
    site.Follows (Phrase.spans Kind.isConstruct site.line.start parts) stop r parts (r.offset + site.line.start) where
  mode := hmode
  trimmed := htrimmed
  spaced := hspaced
  between := by
    refine ⟨r.rest, Nat.add_comm _ _ ▸ hspaced.place, fun front hfront => ?_⟩
    rw [List.self_eq_append_left.mp hfront]
    exact nofun
  arranged := h
  ahead part hpart := Nat.add_le_add_right (hfirst part hpart) _
  pending gap hgap _ := hgap
  found part hpart hkind := h.lookup hpart hkind

/-- On a line that is cut like a command the walk begins behind the first construct. -/
theorem Arranged.meets_command (h : site.Arranged stop parts) (hcomment : site.line.type ≠ .comment)
    (hend : stop ≤ site.line.contentEnd) (hstop : ∃ left, site.Place stop left)
    (hmode : (Reader.ofLine site.line).mode = .command) (hpasses : (Reader.ofLine site.line).Passes parts) :
    Scanner.Meets (Phrase.spans Kind.isConstruct site.line.start parts) stop
      (site.proseAt (((Phrase.spans Kind.isConstruct site.line.start parts).head?.map (·.2)).getD stop))
      (Phrase.spans Kind.isWord site.line.start parts) := by
  rcases hpasses.command hmode with rfl | ⟨before, behind, part, more, hreach, hcut, hpart, hmore, rfl⟩
  · obtain ⟨left, hplace⟩ := hstop
    exact .done (Site.le_offset_scan hcomment hplace)
  · -- The construct is read as if the line were cut like prose in front of it already.
    have hprose := hreach.switch .text
    have hback : (before.switch .text).Reaches behind := by
      have hsame : (before.switch .text).switch .command = before := by rw [← hcut]; rfl
      have hagain : (before.switch .text).Reaches ((before.switch .text).switch .command) := .switch .refl .command
      rw [hsame] at hagain
      exact (hagain.trans before.reaches_next).trans hpart.taken
    have hfirst : ∀ inner ∈ part :: more, before.offset ≤ inner.start := by
      have hlt := h.filled part List.mem_cons_self
      have hstart := hpart.start
      refine List.forall_mem_cons.mpr ⟨hstart.ge, fun inner hinner => ?_⟩
      have hle := h.next inner hinner
      omega
    have hfollows := h.follows rfl (hprose.trimmed site.within.trimmed_ofLine)
      (hprose.spaced (Reader.spaced_ofLine site)) hfirst
    have hmeets := (hfollows.past hback hpart.mode hpart.stop).meets hcomment hend hmore
    rw [Phrase.spans_construct hpart.kind] at hmeets ⊢
    rw [Phrase.spans_word hpart.kind]
    exact hmeets

/-- Elsewhere the walk begins with the prose. -/
theorem Arranged.meets_text (h : site.Arranged stop parts) (hcomment : site.line.type ≠ .comment)
    (hend : stop ≤ site.line.contentEnd) (hfirst : ∀ part ∈ parts, (Reader.ofLine site.line).offset ≤ part.start)
    (hmode : (Reader.ofLine site.line).mode = .text) (hpasses : (Reader.ofLine site.line).Passes parts) :
    Scanner.Meets (Phrase.spans Kind.isConstruct site.line.start parts) stop
      (site.proseAt ((Reader.ofLine site.line).offset + site.line.start))
      (Phrase.spans Kind.isWord site.line.start parts) :=
  (h.follows hmode site.within.trimmed_ofLine (Reader.spaced_ofLine site) hfirst).meets hcomment hend hpasses

end Site

/-- Where a walk over prose begins whose constructs and ends are given: with the prose, and on a line that is cut like
a command, where there are no words before the first construct, behind this. -/
def LineType.proseStart (type : LineType) (constructs : List (Nat × Nat)) (start stop : Nat) : Nat :=
  match type with
  | .command => (constructs.head?.map (·.2)).getD stop
  | _ => start

/-- A place of the content of a line is a place of the source. -/
theorem Site.place_of_content (site : Site) {offset : Nat} (h : site.line.Place offset) :
    ∃ left, site.Place (offset + site.line.start) left := by
  obtain ⟨taken, left, hsplit, hoffset⟩ := h
  refine ⟨left, taken, hsplit, ?_⟩
  rw [hoffset, Line.contentStart]
  omega

/-- A line of prose has the words that are met on it. -/
theorem Site.meets_statement (site : Site) {context : Context} {statement : Statement}
    (hfound : (site.line.reading context).1 = some statement) (hkind : statement.phrase.kind = .textLine)
    (hpairs : statement.phrase.parts.Pairwise fun left right => left.stop ≤ right.start) :
    Scanner.Meets (Phrase.spans Kind.isConstruct site.line.start statement.phrase.parts)
      (statement.phrase.stop + site.line.start)
      (site.proseAt (site.line.type.proseStart
        (Phrase.spans Kind.isConstruct site.line.start statement.phrase.parts)
        (statement.phrase.start + site.line.start) (statement.phrase.stop + site.line.start)))
      (Phrase.spans Kind.isWord site.line.start statement.phrase.parts) := by
  obtain ⟨hcomment, hpasses, hstart⟩ := Reader.statement_passes site.within.trimmed_ofLine hfound hkind
  have hsound := (Line.reading_content site.within hfound).sound
  have hend := hsound.here.stop.within_content.2
  have hinside {part : Phrase} (hpart : part ∈ statement.phrase.parts) := (hsound.part hpart).here
  have harranged : site.Arranged (statement.phrase.stop + site.line.start) statement.phrase.parts :=
    ⟨fun part hpart => ⟨Nat.add_le_add_right (hsound.here.parts part hpart).2 _,
      site.place_of_content (hinside hpart).stop⟩, hpasses.filled (Nat.le_refl _), hpairs⟩
  by_cases hcommand : site.line.type = .command
  · have hmode : (Reader.ofLine site.line).mode = .command := by
      show Mode.ofLineType site.line.type = .command
      rw [hcommand]
      rfl
    rw [hcommand]
    exact harranged.meets_command hcomment hend (site.place_of_content hsound.here.stop) hmode hpasses
  · have hmode : (Reader.ofLine site.line).mode = .text := by
      show Mode.ofLineType site.line.type = .text
      cases htype : site.line.type <;> first | rfl | contradiction
    have hplace : site.line.type.proseStart (Phrase.spans Kind.isConstruct site.line.start statement.phrase.parts)
        (statement.phrase.start + site.line.start) (statement.phrase.stop + site.line.start) =
        (Reader.ofLine site.line).offset + site.line.start := by
      rw [← hstart]
      cases htype : site.line.type <;> first | rfl | contradiction
    rw [hplace]
    refine harranged.meets_text hcomment hend (fun part hpart => ?_) hmode hpasses
    obtain ⟨taken, left, -, hoffset⟩ := (hinside hpart).start
    rw [hoffset]
    exact Nat.le_add_right _ _

def Tree.spans (tree : Tree) (test : Kind → Bool) (ids : List Nat) : List (Nat × Nat) :=
  ids.filterMap fun id => ((tree.node? id).filter (test ·.kind)).map fun node => (node.offset, node.stop)

namespace Scene

variable {source : Text} {name uri : Option String} {levels : Levels}

theorem ordered_parts {entry : TreeEntry} (hentry : entry ∈ (Scene.phrase source name uri).entries none 0) :
    ∀ part ∈ entry.parts, part.phrase.start ≤ part.phrase.stop := by
  have hsound := (phrase_built source name uri).sound
  exact fun part hpart =>
    (Phrase.Everywhere.entry hsound (Phrase.parts_subset_entries none 0 _ entry hentry hpart)).ordered

section Parts

variable {entry : TreeEntry} (hordered : ∀ part ∈ entry.parts, part.phrase.start ≤ part.phrase.stop)
include hordered

theorem spans_toTree {phrase : Phrase} (hentry : entry ∈ phrase.entries none 0) (test : Kind → Bool) :
    (phrase.toTree levels source).spans test (entry.parts.map TreeEntry.id) =
      Phrase.spans test 0 entry.phrase.parts := by
  have hparts := Phrase.parts_subset_entries none 0 phrase entry hentry
  rw [← TreeEntry.map_phrase_parts]
  generalize entry.parts = parts at hparts hordered
  induction parts with
  | nil => rfl
  | cons part more ih =>
      obtain ⟨hpart, hmore⟩ := List.forall_mem_cons.mp hordered
      have hnode := Phrase.node?_toTree levels source (hparts List.mem_cons_self)
      have hrest := ih (fun inner hinner => hparts (List.mem_cons_of_mem _ hinner)) hmore
      have hstop := @TreeEntry.node_stop levels part hpart
      have hkind : (part.node levels).kind = part.phrase.kind := rfl
      have hstart : (part.node levels).offset = part.phrase.start := rfl
      rw [Tree.spans, Phrase.spans] at hrest ⊢
      by_cases htest : test part.phrase.kind = true
      · simp [hnode, hkind, hstart, hstop, htest, hrest]
      · simp [hnode, hkind, htest, hrest]

theorem pairs_of_precedes {phrase : Phrase} (hentry : entry ∈ phrase.entries none 0)
    (h : (entry.parts.map TreeEntry.id).Pairwise (phrase.toTree levels source).Precedes) :
    entry.phrase.parts.Pairwise fun left right => left.stop ≤ right.start := by
  have hparts := Phrase.parts_subset_entries none 0 phrase entry hentry
  rw [← TreeEntry.map_phrase_parts, List.pairwise_map]
  refine (List.pairwise_map.mp h).imp_of_mem fun hleft hright hle => ?_
  obtain ⟨front, back, hfront, hback, hle⟩ := hle
  rw [Phrase.node?_toTree levels source (hparts hleft)] at hfront
  rw [Phrase.node?_toTree levels source (hparts hright)] at hback
  cases hfront
  cases hback
  rwa [TreeEntry.node_stop (hordered _ hleft)] at hle

end Parts

section Statement

variable {entry : TreeEntry} {context : Context} {line : Line} {more : List Line} {statement : Statement}
  (h : Role.Of source name uri entry (.statement context line more statement))
include h

theorem Role.Of.exists_line : ∃ above ∈ (Scene.phrase source name uri).entries none 0, entry ∈ above.parts ∧
    Role.Of source name uri above (.line context line more) := by
  cases h with
  | part habove hentry hpart hholds =>
      cases hholds with
      | statement => exact ⟨_, hentry, hpart, habove⟩

variable (hkind : statement.phrase.kind = .textLine)
include hkind

/-- Prose has no block below it, and so nothing in it but what was read on its line. -/
theorem Role.Of.prose : entry.phrase = statement.phrase.shift line.start := by
  obtain ⟨hlines, hfound⟩ := h.proper
  have hopens := (Line.reading_states (Role.within_of_sublist hlines) hfound).opens
  have hnone : ¬statement.opens.isSome = true := by
    rw [hopens, hkind]
    exact Bool.false_ne_true
  have hopened : line.opened? context = statement.opens := by
    rw [Line.opened?, hfound]
    rfl
  rw [h.phrase_eq, Role.phrase, Line.stated, if_neg hnone, Line.withBlock, block, Line.below, hopened, if_neg hnone,
    Line.phrases, Phrase.addAll_nil]

variable (hentry : entry ∈ (Scene.phrase source name uri).entries none 0)
include hentry

/-- The nodes of prose are where its parts were read. -/
theorem Role.Of.spans_prose (test : Kind → Bool) :
    (parse source name uri levels).spans test (entry.node levels).children =
      Phrase.spans test line.start statement.phrase.parts := by
  rw [← Phrase.spans_shift, ← Phrase.shift_parts, ← h.prose hkind]
  exact spans_toTree (ordered_parts hentry) hentry test

theorem Role.Of.pairs_prose (hapart : (entry.node levels).children.Pairwise (parse source name uri levels).Precedes) :
    statement.phrase.parts.Pairwise fun left right => left.stop ≤ right.start := by
  have hbeside := pairs_of_precedes (ordered_parts hentry) hentry hapart
  rw [h.prose hkind, Phrase.shift_parts, List.pairwise_map] at hbeside
  refine hbeside.imp fun hle => ?_
  rw [Phrase.shift_stop, Phrase.shift_start] at hle
  exact Nat.le_of_add_le_add_right hle

end Statement

/-- Where a line of prose has its constructs one behind the other, the words that it has are those that a scanner
meets between them. -/
theorem words_met (source : Text) (name uri : Option String) (levels : Levels) {id : Nat} {node : Node}
    (hnode : (parse source name uri levels).node? id = some node) (hkind : node.kind = .textLine)
    (hapart : node.children.Pairwise (parse source name uri levels).Precedes) :
    ∃ line ∈ Line.lines source, ((parse source name uri levels).parent? id).bind (parse source name uri levels).kind? =
        some (.line line.number line.width line.type) ∧
      Scanner.Meets ((parse source name uri levels).spans Kind.isConstruct node.children) node.stop
        ((Scanner.ofText source).moveTo ⟨line.number, line.type.proseStart
          ((parse source name uri levels).spans Kind.isConstruct node.children) node.offset node.stop, true, .text⟩)
        ((parse source name uri levels).spans Kind.isWord node.children) := by
  obtain ⟨entry, hentry, rfl, rfl⟩ := Phrase.exists_entry_of_node? hnode
  obtain ⟨role, hrole⟩ := Role.exists_of hentry
  have hkind : entry.phrase.kind = .textLine := hkind
  obtain ⟨context, line, more, statement, rfl⟩ :=
    exists_statement_of_kind hrole (by rw [hkind]; rfl) (by rw [hkind]; rfl)
  obtain ⟨hlines, hfound⟩ := hrole.proper
  have hline : line ∈ Line.lines source := hlines.subset List.mem_cons_self
  obtain ⟨above, habove, hin, hupper⟩ := hrole.exists_line
  have hparent := @Phrase.parent?_part levels source _ _ _ habove hin
  refine ⟨line, hline, ?_, ?_⟩
  · rw [parse, hparent, Option.bind_some, Phrase.kind?_toTree levels source habove, hupper.kind_line]
  rw [hrole.kind_statement] at hkind
  have hpairs := hrole.pairs_prose hkind hentry hapart
  have hordered : entry.phrase.start ≤ entry.phrase.stop :=
    (Phrase.Everywhere.entry (phrase_built source name uri).sound hentry).ordered
  obtain ⟨index, hindex⟩ := List.mem_iff_getElem?.mp (Line.mem_split_of_mem_lines hline)
  obtain rfl := Line.number_of_getElem?_split hindex
  have hmeets := Site.meets_statement ⟨source, levels, line, hindex⟩ hfound hkind hpairs
  have hoffset : (entry.node levels).offset = statement.phrase.start + line.start := by
    show entry.phrase.start = _
    rw [hrole.prose hkind, Phrase.shift_start]
  rw [hrole.spans_prose hkind hentry, hrole.spans_prose hkind hentry, TreeEntry.node_stop hordered, hoffset,
    hrole.prose hkind, Phrase.shift_stop]
  exact hmeets

theorem words_met_unclosed : ∃ id node,
    (parse "You @\x7bb see|\x7d it's $\x7bc d\n".toList none none {}).node? id = some node ∧ node.kind = .textLine ∧
      node.children.Pairwise (parse "You @\x7bb see|\x7d it's $\x7bc d\n".toList none none {}).Precedes ∧
      ∃ line ∈ Line.lines "You @\x7bb see|\x7d it's $\x7bc d\n".toList,
        ((parse "You @\x7bb see|\x7d it's $\x7bc d\n".toList none none {}).parent? id).bind
          (parse "You @\x7bb see|\x7d it's $\x7bc d\n".toList none none {}).kind? =
            some (.line line.number line.width line.type) ∧
        Scanner.Meets
          ((parse "You @\x7bb see|\x7d it's $\x7bc d\n".toList none none {}).spans Kind.isConstruct node.children)
          node.stop
          ((Scanner.ofText "You @\x7bb see|\x7d it's $\x7bc d\n".toList).moveTo ⟨line.number, line.type.proseStart
            ((parse "You @\x7bb see|\x7d it's $\x7bc d\n".toList none none {}).spans Kind.isConstruct node.children)
            node.offset node.stop, true, .text⟩)
          ((parse "You @\x7bb see|\x7d it's $\x7bc d\n".toList none none {}).spans Kind.isWord node.children) := by
  obtain ⟨node, hnode, hkind, hapart⟩ :
      ∃ node ∈ (parse "You @\x7bb see|\x7d it's $\x7bc d\n".toList none none {}).node? 2, node.kind = .textLine ∧
        node.children.Pairwise (parse "You @\x7bb see|\x7d it's $\x7bc d\n".toList none none {}).Precedes := by
    decide +kernel
  exact ⟨2, node, hnode, hkind, hapart, words_met _ none none {} hnode hkind hapart⟩

/-- What a walk from the start of a line of prose meets, and the words that the line has. On a line of a chart that is
cut like a command all of them are lost. A computed name that is not closed is marked over the string in front of which
its brace is missing, and so the construct that it is in covers words behind its own end. -/
theorem words_lost :
    (∃ node, (parse "*stat_chart\n  *foo bar\n".toList none none {}).node? 5 = some node ∧ node.kind = .textLine ∧
      Scanner.Meets ((parse "*stat_chart\n  *foo bar\n".toList none none {}).spans Kind.isConstruct node.children)
        node.stop ((Scanner.ofText "*stat_chart\n  *foo bar\n".toList).moveTo ⟨1, node.offset, true, .text⟩)
        [(15, 18), (19, 22)] ∧
      (parse "*stat_chart\n  *foo bar\n".toList none none {}).spans Kind.isWord node.children = []) ∧
    ∃ node, (parse "@\x7b\x7ba \"b\x7dc\"|d\x7d\n".toList none none {}).node? 2 = some node ∧ node.kind = .textLine ∧
      Scanner.Meets
        ((parse "@\x7b\x7ba \"b\x7dc\"|d\x7d\n".toList none none {}).spans Kind.isConstruct node.children)
        node.stop ((Scanner.ofText "@\x7b\x7ba \"b\x7dc\"|d\x7d\n".toList).moveTo ⟨0, node.offset, true, .text⟩)
        [(11, 12)] ∧
      (parse "@\x7b\x7ba \"b\x7dc\"|d\x7d\n".toList none none {}).spans Kind.isWord node.children =
        [(8, 9), (11, 12)] := by
  constructor
  · obtain ⟨node, hnode, hkind, hwalk, hwords⟩ :
        ∃ node ∈ (parse "*stat_chart\n  *foo bar\n".toList none none {}).node? 5, node.kind = .textLine ∧
          Scanner.walk ((parse "*stat_chart\n  *foo bar\n".toList none none {}).spans Kind.isConstruct node.children)
            node.stop 4 ((Scanner.ofText "*stat_chart\n  *foo bar\n".toList).moveTo ⟨1, node.offset, true, .text⟩) =
              some [(15, 18), (19, 22)] ∧
          (parse "*stat_chart\n  *foo bar\n".toList none none {}).spans Kind.isWord node.children = [] := by
      decide +kernel
    exact ⟨node, hnode, hkind, Scanner.meets_of_walk hwalk, hwords⟩
  · obtain ⟨node, hnode, hkind, hwalk, hwords⟩ :
        ∃ node ∈ (parse "@\x7b\x7ba \"b\x7dc\"|d\x7d\n".toList none none {}).node? 2, node.kind = .textLine ∧
          Scanner.walk
            ((parse "@\x7b\x7ba \"b\x7dc\"|d\x7d\n".toList none none {}).spans Kind.isConstruct node.children)
            node.stop 5
            ((Scanner.ofText "@\x7b\x7ba \"b\x7dc\"|d\x7d\n".toList).moveTo ⟨0, node.offset, true, .text⟩) =
              some [(11, 12)] ∧
          (parse "@\x7b\x7ba \"b\x7dc\"|d\x7d\n".toList none none {}).spans Kind.isWord node.children =
            [(8, 9), (11, 12)] := by
      decide +kernel
    exact ⟨node, hnode, hkind, Scanner.meets_of_walk hwalk, hwords⟩

end Scene

end Gamebook
