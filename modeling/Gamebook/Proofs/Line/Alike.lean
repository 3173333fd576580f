import Gamebook.Proofs.Line.Append
import Gamebook.Proofs.Phrase.Alike
import Gamebook.Proofs.Scene.Lines

/-!
Lines that say the same. A line is read without regard to where it stands, and which lines are in its
block depends on their indentation only. So lines that correspond one by one give phrases that do, also
where some pairs of lines differ, as long as these open no block.
-/

namespace Gamebook.Line

open Phrase (Gaps)

structure Alike (c : Correspondence) (line other : Line) : Prop where
  number : other.number = line.number + c.lines
  indent : other.indent = line.indent
  content : other.content = line.content
  ending : other.ending = line.ending
  range : ∀ start stop, start ≤ stop → stop ≤ Text.bytes line.whole →
    c.range (start + line.start) (stop + line.start) (start + other.start) (stop + other.start)

variable {c : Correspondence} {gap : Phrase → Phrase → Prop} {line other : Line} {source source' : Text}
  {context : Context} {unit unit' : Option IndentUnit}

theorem forall₂_layOut {number number' start start' : Nat} (hnumber : number' = number + c.lines)
    {cuts : List (Text × LineEnding)}
    (hrange : ∀ first last, first ≤ last → last ≤ bytesOf cuts →
      c.range (first + start) (last + start) (first + start') (last + start')) :
    List.Forall₂ (Alike c) (layOut number start cuts) (layOut number' start' cuts) := by
  induction cuts generalizing number number' start start' with
  | nil => exact .nil
  | cons part more ih =>
      obtain ⟨body, ending⟩ := part
      have hbytes := bytesOf_cons body ending more
      refine .cons ⟨hnumber, rfl, rfl, rfl, ?_⟩ (ih (by omega) ?_)
      · intro first last hle hlast
        rw [whole_ofBody, Text.bytes_append] at hlast
        exact hrange first last hle (by omega)
      · intro first last hle hlast
        have hbehind := hrange (first + (Text.bytes body + Text.bytes ending.text))
          (last + (Text.bytes body + Text.bytes ending.text)) (by omega) (by omega)
        have hmove : ∀ offset start, offset + (Text.bytes body + Text.bytes ending.text) + start =
            offset + (start + Text.bytes body + Text.bytes ending.text) := by omega
        rw [hmove, hmove, hmove, hmove] at hbehind
        exact hbehind

theorem indentation?_eq (unit : Option IndentUnit) (line : Line) :
    line.indentation? unit = if line.isIndented then
      some ⟨.indentation line.width (.ofRun line.indent), 0, Text.bytes line.indent,
        if line.isBlank || unit = some (.ofRun line.indent) then []
        else [⟨.mixedIndentation, 0, Text.bytes line.indent⟩], [], []⟩
    else none := by
  simp only [indentation?]
  split
  · split <;> simp [Phrase.empty, Phrase.reach, Phrase.grow, Phrase.flagWhole, Phrase.flag, Phrase.length,
      Issue.stop]
  · rfl

theorem requireOptions_eq (phrase : Phrase) :
    requireOptions phrase = match phrase.kind with
      | .choiceCommand _ =>
        if phrase.any Kind.isOption then phrase
        else phrase.flag .noChoiceOptions phrase.start
          ((phrase.kind.commandName?.map (·.utf8ByteSize)).getD 0 + 1)
      | _ => phrase := rfl

section Reading

variable (h : line.Alike c other)
include h

theorem Alike.width_eq : other.width = line.width := by rw [width, h.indent, width]

theorem Alike.isBlank_eq : other.isBlank = line.isBlank := by rw [isBlank, h.content, isBlank]

theorem Alike.type_eq : other.type = line.type := by rw [type, h.content, type]

theorem Alike.reading_eq (context : Context) : other.reading context = line.reading context := by
  have hreader : Reader.ofLine other = Reader.ofLine line := by
    rw [Reader.ofLine, Reader.ofLine, h.type_eq, h.indent, h.content]
  rw [reading, reading, hreader, h.type_eq]

theorem Alike.opened?_eq (context : Context) : other.opened? context = line.opened? context := by
  rw [opened?, opened?, h.reading_eq]

theorem Alike.inner_eq (context : Context) : other.inner context = line.inner context := by
  rw [inner, inner, h.opened?_eq]

theorem Alike.range_of_place {start stop : Nat} (hstop : line.Place stop)
    (hle : start ≤ stop) :
    c.range (start + line.start) (stop + line.start) (start + other.start) (stop + other.start) := by
  have hwhole := hstop.le_stop
  rw [← bytes_whole] at hwhole
  exact h.range start stop hle (by omega)

/-! ### The phrase of a line -/

theorem Alike.isIndented_eq : other.isIndented = line.isIndented := by
  rw [isIndented, h.indent, isIndented]

/-- The indentation is alike, apart from a mark that only counts if the scenes are indented alike. -/
theorem Alike.margin (hunit : unit = unit' ∨ c.shown .mixedIndentation = false) :
    List.Forall₂ (Phrase.Alike c gap) (line.margin unit) (other.margin unit') := by
  have hindent : Text.bytes line.indent ≤ Text.bytes line.whole := by
    rw [whole, Text.bytes_append, Text.bytes_append, Nat.add_assoc]
    exact Nat.le_add_right _ _
  have hwhole := h.range 0 (Text.bytes line.indent) (Nat.zero_le _) hindent
  have hstart := h.range 0 0 (Nat.le_refl _) (Nat.zero_le _)
  rw [Line.margin, Line.margin, indentation?_eq, indentation?_eq, h.isIndented_eq, h.indent, h.width_eq,
    h.isBlank_eq]
  split
  · rw [Option.map_some, Option.map_some, Option.toList_some, Option.toList_some, List.forall₂_cons,
      Phrase.shift, Phrase.shift]
    refine ⟨Phrase.alike_of_forall₂ ⟨rfl, hstart, c.ends_of_range hwhole, fun _ => hwhole, ?_⟩ .nil, .nil⟩
    have hmark : Issue.Alike c (Issue.shift line.start ⟨.mixedIndentation, 0, Text.bytes line.indent⟩)
        (Issue.shift other.start ⟨.mixedIndentation, 0, Text.bytes line.indent⟩) := by
      have hstop : Issue.stop ⟨.mixedIndentation, 0, Text.bytes line.indent⟩ = Text.bytes line.indent :=
        Nat.zero_add _
      refine ⟨rfl, rfl, ?_⟩
      rw [Issue.shift_stop, Issue.shift_stop, hstop]
      exact hwhole
    rcases hunit with rfl | hhidden
    · split
      · exact .nil
      · cases hshown : c.shown .mixedIndentation with
        | false => simp [Issue.shift, hshown]
        | true => simpa [Issue.shift, hshown] using hmark
    · have hnone : ∀ issues distance, issues = [] ∨ issues = [⟨.mixedIndentation, 0, Text.bytes line.indent⟩] →
          (List.map (Issue.shift distance) issues).filter (c.shown ·.rule) = [] := by
        rintro issues distance (rfl | rfl)
        · rfl
        · simp [Issue.shift, hhidden]
      rw [hnone _ _ (by split <;> simp), hnone _ _ (by split <;> simp)]
      exact .nil
  · exact .nil

section Statement

variable (hwithin : line.Within source) {statement : Statement}
  (hfound : (line.reading context).1 = some statement)
include hwithin hfound

theorem Alike.agrees_statement :
    (statement.phrase.shift line.start).Agrees c (statement.phrase.shift other.start) :=
  Phrase.agrees_shift (fun _ => Kind.renumber_of_isContent _)
    (fun _ _ _ hstop => h.range_of_place hstop) (reading_content hwithin hfound).sound.here

theorem Alike.shift_statement :
    (statement.phrase.shift line.start).Alike c gap (statement.phrase.shift other.start) :=
  Phrase.alike_shift (fun _ => Kind.renumber_of_isContent _)
    (fun _ _ _ hstop => h.range_of_place hstop) (reading_content hwithin hfound).sound

theorem Alike.shift_parts : List.Forall₂ (Phrase.Alike c gap) (statement.phrase.shift line.start).parts
    (statement.phrase.shift other.start).parts :=
  Phrase.alike_shift_parts (fun _ => Kind.renumber_of_isContent _)
    (fun _ _ _ hstop => h.range_of_place hstop) (reading_content hwithin hfound).sound

end Statement

section Block

variable {block block' : List Phrase} (hwithin : line.Within source) (hwithin' : other.Within source')
  (hgaps : Gaps c gap) (hblock : List.Forall₂ (Phrase.Alike c gap) block block')
  (hbelow : ∀ part ∈ block, line.stop ≤ part.start) (hbelow' : ∀ part ∈ block', other.stop ≤ part.start)
include hwithin hwithin' hgaps hblock hbelow hbelow'

/-- A statement that opens a block is alike with its block. -/
theorem Alike.withBlock {statement : Statement} (hfound : (line.reading context).1 = some statement)
    (hopens : statement.phrase.kind.opensBlock = true) :
    (line.withBlock block statement).Agrees c (other.withBlock block' statement) ∧
      List.Forall₂ (Phrase.Alike c gap) (line.withBlock block statement).parts
        (other.withBlock block' statement).parts := by
  have hfound' : (other.reading context).1 = some statement := by rw [h.reading_eq, hfound]
  have hholds : (statement.phrase.shift line.start).kind.holdsLines = true := by
    rw [Phrase.shift_kind]
    exact Kind.holdsLines_of_opensBlock hopens
  constructor
  · refine (h.agrees_statement hwithin hfound).addAll hholds (hblock.imp fun _ _ hpart => hpart.stop hgaps) ?_ ?_
    · intro part hpart
      rw [Phrase.shift_start]
      exact Nat.le_trans (reading_content hwithin hfound).sound.here.start.le_stop (hbelow part hpart)
    · intro part hpart
      rw [Phrase.shift_start]
      exact Nat.le_trans (reading_content hwithin' hfound').sound.here.start.le_stop (hbelow' part hpart)
  · rw [Line.withBlock, Line.withBlock, Phrase.addAll_parts, Phrase.addAll_parts]
    exact List.rel_append (h.shift_parts hwithin hfound) hblock

omit hwithin hwithin' hblock hbelow hbelow' h in
theorem requireOptions_alike {phrase phrase' : Phrase} (hagrees : phrase.Agrees c phrase')
    (hparts : List.Forall₂ (Phrase.Alike c gap) phrase.parts phrase'.parts) (hkind : phrase'.kind = phrase.kind)
    (hholds : phrase.kind.holdsLines = true)
    (hheader : ∀ fake, phrase.kind = .choiceCommand fake →
      c.range phrase.start (phrase.start + ((phrase.kind.commandName?.map (·.utf8ByteSize)).getD 0 + 1))
        phrase'.start (phrase'.start + ((phrase.kind.commandName?.map (·.utf8ByteSize)).getD 0 + 1))) :
    (requireOptions phrase).Alike c gap (requireOptions phrase') := by
  have halike := Phrase.alike_of_forall₂ hagrees hparts
  have hany : phrase.any Kind.isOption = phrase'.any Kind.isOption := halike.any_isOption hgaps
  rw [requireOptions_eq, requireOptions_eq, ← hany, hkind]
  split
  · rename_i fake hchoice
    split
    · exact halike
    · exact Phrase.alike_of_forall₂ (hagrees.flagStart hholds (hheader fake hchoice)) hparts
  · exact halike

theorem Alike.stated {statement : Statement} (hfound : (line.reading context).1 = some statement)
    (hnone : statement.opens = none → block = [] ∧ block' = []) :
    (line.stated block statement).Alike c gap (other.stated block' statement) := by
  have hfound' : (other.reading context).1 = some statement := by rw [h.reading_eq, hfound]
  have hstates := reading_states hwithin hfound
  have hopens := hstates.opens
  rw [Line.stated, Line.stated]
  split
  · rename_i hsome
    rw [hsome] at hopens
    obtain ⟨hagrees, hparts⟩ := h.withBlock hwithin hwithin' hgaps hblock hbelow hbelow' hfound hopens.symm
    have hkind : ∀ (line : Line) block, (line.withBlock block statement).kind = statement.phrase.kind :=
      fun _ _ => Phrase.shift_kind _ _
    refine requireOptions_alike hgaps hagrees hparts ?_ ?_ ?_
    · rw [hkind, hkind]
    · rw [hkind]
      exact Kind.holdsLines_of_opensBlock hopens.symm
    · intro fake hchoice
      rw [hkind] at hchoice
      have hplace := place_of_site (hstates.header fake hchoice)
      have hrange := h.range_of_place hplace (Nat.le_add_right _ _)
      rw [Nat.add_right_comm, Nat.add_right_comm _ _ other.start] at hrange
      rw [hkind, withBlock_start hwithin hfound hbelow, withBlock_start hwithin' hfound' hbelow']
      exact hrange
  · rename_i hsome
    obtain ⟨rfl, rfl⟩ := hnone (Option.not_isSome_iff_eq_none.mp hsome)
    rw [Line.withBlock, Line.withBlock, Phrase.addAll_nil, Phrase.addAll_nil]
    exact h.shift_statement hwithin hfound

theorem Alike.phrase (hunit : unit = unit' ∨ c.shown .mixedIndentation = false)
    (hnone : line.opened? context = none → block = [] ∧ block' = []) :
    (line.phrase unit (line.reading context) block).Alike c gap
      (other.phrase unit' (other.reading context) block') := by
  have hreading := h.reading_eq context
  have hmargin : List.Forall₂ (Phrase.Alike c gap) (line.margin unit) (other.margin unit') := h.margin hunit
  have hstated : List.Forall₂ (Phrase.Alike c gap) ((line.reading context).1.map (line.stated block)).toList
      ((other.reading context).1.map (other.stated block')).toList := by
    rw [hreading]
    cases hfound : (line.reading context).1 with
    | none => exact .nil
    | some statement =>
        refine .cons (h.stated hwithin hwithin' hgaps hblock hbelow hbelow' hfound ?_) .nil
        intro hopens
        exact hnone (by rw [opened?, hfound, Option.bind_some, hopens])
  refine Phrase.alike_of_forall₂ ?_ ?_
  · have hkind : Kind.line other.number other.width other.type =
        (Kind.line line.number line.width line.type).renumber c.lines := by
      rw [h.number, h.width_eq, h.type_eq]
      rfl
    have hempty := h.range 0 0 (Nat.le_refl _) (Nat.zero_le _)
    rw [Nat.zero_add, Nat.zero_add] at hempty
    have hlast := h.range_of_place (place_of_site (reaches_reading context hwithin).site_lastEnd) (Nat.le_refl _)
    rw [phrase_eq (reading_rest hwithin), phrase_eq (reading_rest hwithin'), hkind]
    refine Phrase.Agrees.addAll (Phrase.Agrees.reach (Phrase.Agrees.addAll (Phrase.agrees_empty hempty) rfl
      (hmargin.imp fun _ _ hpart => hpart.stop hgaps) ?_ ?_) rfl ?_) rfl
      (hstated.imp fun _ _ hpart => hpart.stop hgaps) ?_ ?_
    · exact fun part hpart => margin_start hpart
    · exact fun part hpart => margin_start hpart
    · rw [hreading]
      exact c.ends_of_range hlast
    · obtain ⟨hstart, hparts⟩ := stated_starts hwithin hbelow
      rwa [hstart]
    · obtain ⟨hstart, hparts⟩ := stated_starts hwithin' hbelow'
      rwa [hstart]
  · rw [Phrase.parts, before_phrase hwithin, after_phrase hwithin, Phrase.parts, before_phrase hwithin',
      after_phrase hwithin']
    exact List.rel_append hmargin hstated

end Block

end Reading

/-! ### The lines of a scene -/

section Lines

variable {relation : Line → Line → Prop}
  (hrelation : ∀ line other, relation line other → other.width = line.width ∧ other.isBlank = line.isBlank)
include hrelation

theorem nextWidth?_forall₂ {lines others : List Line} (h : List.Forall₂ relation lines others) :
    nextWidth? others = nextWidth? lines := by
  induction h with
  | nil => rfl
  | cons hfirst _ ih =>
      obtain ⟨hwidth, hblank⟩ := hrelation _ _ hfirst
      rw [nextWidth?, nextWidth?, ih, hwidth, hblank]

theorem splitBlock_forall₂ (width : Nat) {lines others : List Line} (h : List.Forall₂ relation lines others) :
    List.Forall₂ relation (splitBlock width lines).1 (splitBlock width others).1 ∧
      List.Forall₂ relation (splitBlock width lines).2 (splitBlock width others).2 := by
  induction h with
  | nil => exact ⟨.nil, .nil⟩
  | @cons line other more others hfirst hmore ih =>
      have hnext := nextWidth?_forall₂ hrelation (.cons hfirst hmore)
      rw [splitBlock, splitBlock, continues, continues, hnext]
      split
      · exact ⟨.cons hfirst ih.1, ih.2⟩
      · exact ⟨.nil, .cons hfirst hmore⟩

theorem below_forall₂ {line other : Line} {more others : List Line} (hwidth : other.width = line.width)
    (hopened : (other.opened? context).isSome = (line.opened? context).isSome)
    (hmore : List.Forall₂ relation more others) :
    List.Forall₂ relation (line.below context more).1 (other.below context others).1 ∧
      List.Forall₂ relation (line.below context more).2 (other.below context others).2 := by
  rw [below, below, hopened, hwidth]
  split
  · exact splitBlock_forall₂ hrelation line.width hmore
  · exact ⟨.nil, hmore⟩

end Lines

theorem below_of_opened?_eq_none {more : List Line} (h : line.opened? context = none) :
    line.below context more = ([], more) := by
  rw [below, h]
  rfl

theorem phrases_of_opened?_eq_none {more : List Line} (h : line.opened? context = none) :
    phrases unit (line.inner context) (line.below context more).1 = [] := by
  rw [below_of_opened?_eq_none h, phrases]

/-- What holds everywhere in the phrase of a line holds in the phrases of its block. -/
theorem everywhere_block {property : Phrase → Prop} {more : List Line} (hwithin : line.Within source)
    (h : (line.phrase unit (line.reading context)
      (phrases unit (line.inner context) (line.below context more).1)).Everywhere property) :
    ∀ part ∈ phrases unit (line.inner context) (line.below context more).1, part.Everywhere property := by
  intro part hpart
  cases hfound : (line.reading context).1 with
  | none =>
      have hopened : line.opened? context = none := by rw [opened?, hfound, Option.bind_none]
      rw [phrases_of_opened?_eq_none hopened] at hpart
      cases hpart
  | some statement =>
      have hmem : line.stated (phrases unit (line.inner context) (line.below context more).1) statement ∈
          (line.phrase unit (line.reading context)
            (phrases unit (line.inner context) (line.below context more).1)).parts := by
        rw [parts_phrase hwithin, hfound]
        exact List.mem_append_right _ List.mem_cons_self
      refine (h.part hmem).part ?_
      rw [stated_parts]
      exact List.mem_append_right _ hpart

/-- Lines that are alike one by one have phrases that are, apart from lines that differ: these open no block
and leave a gap. -/
theorem phrases_alike (differ : Line → Line → Prop) (closed closed' : Phrase → Prop) (hgaps : Gaps c gap)
    (hunit : unit = unit' ∨ c.shown .mixedIndentation = false)
    (hdiffer : ∀ line other, differ line other → other.width = line.width ∧ other.isBlank = line.isBlank)
    (hopened : ∀ context line other block block', differ line other → line.Within source → other.Within source' →
      closed (line.phrase unit (line.reading context) block) →
      closed' (other.phrase unit' (other.reading context) block') →
      line.opened? context = none ∧ other.opened? context = none)
    (hgap : ∀ context line other, differ line other → line.Within source → other.Within source' →
      line.opened? context = none → other.opened? context = none →
      closed (line.phrase unit (line.reading context) []) →
      closed' (other.phrase unit' (other.reading context) []) →
      gap (line.phrase unit (line.reading context) []) (other.phrase unit' (other.reading context) []))
    (context : Context) {lines others : List Line} (harranged : Arranged source lines)
    (harranged' : Arranged source' others)
    (hlines : List.Forall₂ (fun line other => line.Alike c other ∨ differ line other) lines others)
    (hclosed : ∀ part ∈ phrases unit context lines, part.Everywhere closed)
    (hclosed' : ∀ part ∈ phrases unit' context others, part.Everywhere closed') :
    List.Forall₂ (Phrase.Alike c gap) (phrases unit context lines) (phrases unit' context others) := by
  have hrelation : ∀ line other, line.Alike c other ∨ differ line other →
      other.width = line.width ∧ other.isBlank = line.isBlank :=
    fun line other h => h.elim (fun h => ⟨h.width_eq, h.isBlank_eq⟩) (hdiffer line other)
  induction context, lines using below_induction generalizing others with
  | nil context =>
      cases hlines
      rw [phrases, phrases]
      exact .nil
  | cons context line more ihblock ihrest =>
      cases hlines with
      | @cons _ other _ others hfirst hmore =>
          have hwithin := harranged.within line List.mem_cons_self
          have hwithin' := harranged'.within other List.mem_cons_self
          rw [phrases_cons] at hclosed hclosed' ⊢
          rw [phrases_cons]
          obtain ⟨hhead, hbehind⟩ := List.forall_mem_cons.mp hclosed
          obtain ⟨hhead', hbehind'⟩ := List.forall_mem_cons.mp hclosed'
          have hrest := harranged.sublist (rest_sublist context line more)
          have hrest' := harranged'.sublist (rest_sublist context other others)
          rcases hfirst with halike | hdiff
          · have hopened : (other.opened? context).isSome = (line.opened? context).isSome := by
              rw [halike.opened?_eq]
            obtain ⟨hlow, hhigh⟩ := below_forall₂ hrelation halike.width_eq hopened hmore
            have hblock := harranged.sublist (block_sublist context line more)
            have hblock' := harranged'.sublist (block_sublist context other others)
            have hinner := ihblock hblock hblock' hlow (everywhere_block hwithin hhead)
              (halike.inner_eq context ▸ everywhere_block hwithin' hhead')
            rw [← halike.inner_eq] at hinner ⊢
            refine .cons (halike.phrase hwithin hwithin' hgaps hinner
              (harranged.block_below (phrases_starts _ hblock))
              (harranged'.block_below (phrases_starts _ hblock')) hunit ?_)
              (ihrest hrest hrest' hhigh hbehind hbehind')
            intro hnone
            have hnone' : other.opened? context = none := by rw [halike.opened?_eq, hnone]
            rw [below_of_opened?_eq_none hnone, below_of_opened?_eq_none hnone', phrases, phrases]
            exact ⟨rfl, rfl⟩
          · obtain ⟨hnone, hnone'⟩ :=
              hopened context line other _ _ hdiff hwithin hwithin' hhead.here hhead'.here
            rw [phrases_of_opened?_eq_none hnone] at hhead ⊢
            rw [phrases_of_opened?_eq_none hnone'] at hhead' ⊢
            rw [below_of_opened?_eq_none hnone] at hrest hbehind ihrest ⊢
            rw [below_of_opened?_eq_none hnone'] at hrest' hbehind' ⊢
            exact .cons (.gap (hgap context line other hdiff hwithin hwithin' hnone hnone' hhead.here hhead'.here))
              (ihrest hrest hrest' hmore hbehind hbehind')

end Gamebook.Line
