import Gamebook.Proofs.Grammar.Statement
import Gamebook.Proofs.Line.Block
import Gamebook.Proofs.Line.Tiling

/-!
The phrase of a line. It holds the indentation of the line, if there is any, and the statement, with the
lines of its block inside; a statement is read to the end of its line, so that nothing is left over to be
marked on the line itself. All ends of the phrase are cuts of the source, and it begins with its line.
-/

namespace Gamebook.Line

variable {source : Text} {line : Line} {context : Context} {unit : Option IndentUnit}

/-! ### Reading a line -/

theorem reading_states (hwithin : line.Within source) {statement : Statement}
    (hfound : (line.reading context).1 = some statement) :
    (Reader.ofLine line).States (statement, (line.reading context).2) :=
  Reader.statement_states context hwithin.trimmed_ofLine (Prod.ext hfound rfl)

theorem reading_content (hwithin : line.Within source) {statement : Statement}
    (hfound : (line.reading context).1 = some statement) : statement.phrase.Content line.Place :=
  (reading_states hwithin hfound).reads.content fun _ => place_of_site

theorem reading_none (hnone : (line.reading context).1 = none) :
    line.content = [] ∧ (line.reading context).2 = Reader.ofLine line :=
  Reader.statement_none (Prod.ext hnone rfl)

theorem reading_of_isBlank (hblank : line.isBlank = true) : (line.reading context).1 = none := by
  have hend : (Reader.ofLine line).atEnd = true := hblank
  simp only [reading, Reader.statement, hend, if_true]

/-- A line is always read to its end. -/
theorem reading_rest (hwithin : line.Within source) : (line.reading context).2.rest = [] := by
  cases hfound : (line.reading context).1 with
  | none =>
      obtain ⟨hcontent, hbehind⟩ := reading_none hfound
      rw [hbehind]
      exact hcontent
  | some statement => exact (reading_states hwithin hfound).rest

theorem reaches_reading (context : Context) (hwithin : line.Within source) :
    (Reader.ofLine line).Reaches (line.reading context).2 := by
  cases hfound : (line.reading context).1 with
  | none =>
      rw [(reading_none hfound).2]
      exact .refl
  | some statement => exact (reading_states hwithin hfound).reads.reaches

/-! ### The parts of a line -/

/-- A statement with the lines of its block, where the scene has it. -/
def withBlock (line : Line) (block : List Phrase) (statement : Statement) : Phrase :=
  (statement.phrase.shift line.start).addAll block

/-- A statement with the lines of its block, marked if options are missing there. -/
def stated (line : Line) (block : List Phrase) (statement : Statement) : Phrase :=
  if statement.opens.isSome then requireOptions (line.withBlock block statement)
  else line.withBlock block statement

/-- Only a choice is marked for what is missing in its block. -/
theorem stated_eq (line : Line) (block : List Phrase) (statement : Statement) :
    line.stated block statement = line.withBlock block statement ∨
      ∃ fake, statement.phrase.kind = .choiceCommand fake ∧
        line.stated block statement = (line.withBlock block statement).flag .noChoiceOptions
          (line.withBlock block statement).start
          ((statement.phrase.kind.commandName?.map (·.utf8ByteSize)).getD 0 + 1) := by
  have hkind : (line.withBlock block statement).kind = statement.phrase.kind := Phrase.shift_kind _ _
  unfold stated
  split
  · simp only [requireOptions]
    rw [hkind]
    split
    · rename_i fake hchoice
      split
      · exact .inl rfl
      · exact .inr ⟨fake, hchoice, rfl⟩
    · exact .inl rfl
  · exact .inl rfl

theorem stated_kind (line : Line) (block : List Phrase) (statement : Statement) :
    (line.stated block statement).kind = statement.phrase.kind := by
  rcases line.stated_eq block statement with heq | ⟨_, _, heq⟩ <;> rw [heq] <;> exact Phrase.shift_kind _ _

theorem stated_before (line : Line) (block : List Phrase) (statement : Statement) :
    (line.stated block statement).before = (statement.phrase.shift line.start).before := by
  rcases line.stated_eq block statement with heq | ⟨_, _, heq⟩ <;> rw [heq] <;> rfl

theorem stated_after (line : Line) (block : List Phrase) (statement : Statement) :
    (line.stated block statement).after = (statement.phrase.shift line.start).after ++ block := by
  rcases line.stated_eq block statement with heq | ⟨_, _, heq⟩ <;> rw [heq] <;> rfl

theorem stated_parts (line : Line) (block : List Phrase) (statement : Statement) :
    (line.stated block statement).parts = (statement.phrase.shift line.start).parts ++ block := by
  rw [Phrase.parts, stated_before, stated_after, ← List.append_assoc]
  rfl

/-- The indentation of a line as its phrase has it. -/
def margin (unit : Option IndentUnit) (line : Line) : List Phrase :=
  ((line.indentation? unit).map (·.shift line.start)).toList

/-- When nothing is left unread, a line is its indentation and its statement. -/
theorem phrase_eq {found : Option Statement × Reader} (hrest : found.2.rest = []) (block : List Phrase) :
    line.phrase unit found block =
      (((Phrase.empty (.line line.number line.width line.type) line.start).addAll (line.margin unit)).reach
        (found.2.lastEnd + line.start)).addAll (found.1.map (line.stated block)).toList := by
  have hbare : (line.bare unit found.2).shift line.start =
      ((Phrase.empty (.line line.number line.width line.type) line.start).addAll (line.margin unit)).reach
        (found.2.lastEnd + line.start) := by
    rw [bare, margin, Phrase.finishLine, if_pos (Reader.atEnd_iff.mpr hrest), Phrase.finish,
      Phrase.shift_reach]
    cases line.indentation? unit with
    | none =>
        rw [Phrase.shift_empty, Nat.zero_add, Option.map_none, Option.toList_none, Phrase.addAll_nil]
    | some indentation =>
        rw [Phrase.shift_add, Phrase.shift_empty, Nat.zero_add, Option.map_some, Option.toList_some,
          Phrase.addAll_singleton]
  simp only [phrase]
  rw [hbare]
  cases found.1 with
  | none => exact (Phrase.addAll_nil _).symm
  | some statement => exact (Phrase.addAll_singleton _ _).symm

/-! ### The range of a line -/

theorem indentation?_built {kinds : Kind → Prop} {places : Nat → Prop} {indentation : Phrase}
    (hfound : line.indentation? unit = some indentation)
    (hkinds : ∀ depth own, kinds (.indentation depth own)) (hstart : places 0)
    (hstop : places (Text.bytes line.indent)) : indentation.Built kinds places := by
  have hbuilt : ((Phrase.empty (.indentation line.width (.ofRun line.indent)) 0).reach
      (Text.bytes line.indent)).Built kinds places := .reach (.empty (hkinds _ _) hstart) hstop
  simp only [indentation?] at hfound
  split at hfound
  · cases hfound
    split
    · exact hbuilt
    · exact hbuilt.flagWhole
  · cases hfound

theorem margin_built (hwithin : line.Within source) {kinds : Kind → Prop}
    (hkinds : ∀ depth own, kinds (.indentation depth own)) :
    ∀ part ∈ line.margin unit, part.Built kinds (Text.IsCut source) := by
  intro part hpart
  obtain ⟨indentation, hfound, rfl⟩ := Option.map_eq_some_iff.mp (Option.mem_toList.mp hpart)
  let places (offset : Nat) := Text.IsCut source (offset + line.start)
  have hstart : places 0 := by
    show Text.IsCut source (0 + line.start)
    rw [Nat.zero_add]
    exact hwithin.isCut_start
  exact (indentation?_built hfound hkinds hstart (hwithin.isCut line.place_indent)).shift fun _ h => h

theorem margin_start {part : Phrase} (hpart : part ∈ line.margin unit) : line.start ≤ part.start := by
  obtain ⟨indentation, _, rfl⟩ := Option.map_eq_some_iff.mp (Option.mem_toList.mp hpart)
  rw [Phrase.shift_start]
  exact Nat.le_add_left _ _

theorem withBlock_start (hwithin : line.Within source) {block : List Phrase} {statement : Statement}
    (hfound : (line.reading context).1 = some statement) (hbelow : ∀ part ∈ block, line.stop ≤ part.start) :
    (line.withBlock block statement).start = statement.phrase.start + line.start := by
  have hplace := (reading_content hwithin hfound).sound.here.start
  rw [withBlock, Phrase.addAll_start, Phrase.shift_start]
  intro part hpart
  rw [Phrase.shift_start]
  exact Nat.le_trans hplace.le_stop (hbelow part hpart)

theorem stated_built (hwithin : line.Within source) {block : List Phrase} {statement : Statement}
    (hfound : (line.reading context).1 = some statement)
    (hblock : ∀ part ∈ block, part.Built (fun _ => True) (Text.IsCut source))
    (hbelow : ∀ part ∈ block, line.stop ≤ part.start) :
    (line.stated block statement).Built (fun _ => True) (Text.IsCut source) := by
  have hcontent : statement.phrase.Built (fun _ => True) line.Place :=
    (reading_content hwithin hfound).mono (fun _ _ => trivial) fun _ h => h
  have hwhole : (line.withBlock block statement).Built (fun _ => True) (Text.IsCut source) :=
    (hcontent.shift fun _ => hwithin.isCut).addAll hblock
  rcases line.stated_eq block statement with heq | ⟨fake, hkind, heq⟩
  · rw [heq]
    exact hwhole
  · rw [heq]
    refine .flag hwhole hwhole.sound.here.start ?_
    have hheader := hwithin.isCut (place_of_site ((reading_states hwithin hfound).header fake hkind))
    rw [withBlock_start hwithin hfound hbelow, Nat.add_right_comm]
    exact hheader

theorem stated_start (hwithin : line.Within source) {block : List Phrase} {statement : Statement}
    (hfound : (line.reading context).1 = some statement) (hbelow : ∀ part ∈ block, line.stop ≤ part.start) :
    (line.stated block statement).start = statement.phrase.start + line.start := by
  rw [← withBlock_start hwithin hfound hbelow]
  rcases line.stated_eq block statement with heq | ⟨_, _, heq⟩
  · rw [heq]
  · rw [heq]
    exact Nat.min_self _

/-- All ends in the phrase of a line are cuts of the source. -/
theorem phrase_built (hwithin : line.Within source) {block : List Phrase}
    (hblock : ∀ part ∈ block, part.Built (fun _ => True) (Text.IsCut source))
    (hbelow : ∀ part ∈ block, line.stop ≤ part.start) :
    (line.phrase unit (line.reading context) block).Built (fun _ => True) (Text.IsCut source) := by
  rw [phrase_eq (reading_rest hwithin)]
  have hmargin : ∀ part ∈ line.margin unit, part.Built (fun _ => True) (Text.IsCut source) :=
    margin_built hwithin fun _ _ => trivial
  have hbehind := hwithin.isCut (place_of_site (reaches_reading context hwithin).site_lastEnd)
  refine .addAll (.reach (.addAll (.empty trivial hwithin.isCut_start) hmargin) hbehind) ?_
  intro part hpart
  obtain ⟨statement, hfound, rfl⟩ := Option.map_eq_some_iff.mp (Option.mem_toList.mp hpart)
  exact stated_built hwithin hfound hblock hbelow

theorem stated_starts {kind : Kind} {stop : Nat} (hwithin : line.Within source) {block : List Phrase}
    (hbelow : ∀ part ∈ block, line.stop ≤ part.start) :
    (((Phrase.empty kind line.start).addAll (line.margin unit)).reach stop).start = line.start ∧
      ∀ part ∈ ((line.reading context).1.map (line.stated block)).toList, line.start ≤ part.start := by
  constructor
  · rw [Phrase.reach_start]
    exact Phrase.addAll_start fun part hpart => margin_start hpart
  · intro part hpart
    obtain ⟨statement, hfound, rfl⟩ := Option.map_eq_some_iff.mp (Option.mem_toList.mp hpart)
    rw [stated_start hwithin hfound hbelow]
    exact Nat.le_add_left _ _

theorem phrase_start (hwithin : line.Within source) {block : List Phrase}
    (hbelow : ∀ part ∈ block, line.stop ≤ part.start) :
    (line.phrase unit (line.reading context) block).start = line.start := by
  obtain ⟨hstart, hparts⟩ := stated_starts hwithin hbelow
  rw [phrase_eq (reading_rest hwithin), Phrase.addAll_start, hstart]
  rwa [hstart]

end Gamebook.Line
