import Gamebook.Proofs.Parser.Scene

/-!
Places of parsers. The next token of a parser is located in the source by its offset, so that a parser has got
on as soon as its next token begins behind that of another one. On a line this is so when less of the line is left.
-/

namespace Gamebook.Parser

/-- The parser reads the source, and its next token is located there. -/
structure On (source : Text) (p : Parser) : Prop where
  index : p.scanner.index = .ofText source
  position : p.token.position = (LineIndex.ofText source).position p.token.offset
  offset_le : p.token.offset ≤ Text.bytes source

variable {source : Text} {levels : Levels} {number later : Nat} {site : Site} {p q : Parser} {r behind : Reader}

theorem On.advances (hp : p.On source) (hq : q.On source) (h : p.token.offset < q.token.offset) : p.Advances q := by
  refine ⟨?_, ?_⟩
  · have hmono := LineIndex.line_position_mono source (Nat.le_of_lt h)
    rw [← hp.position, ← hq.position] at hmono
    exact (Nat.lt_or_eq_of_le hmono).imp id fun hline => ⟨hline, h⟩
  · have hle := hq.offset_le
    rw [unread, unread, hp.index, hq.index, LineIndex.ofText]
    dsimp only
    omega

/-! ### On a line -/

theorem Stands.on (h : p.Stands site r) : p.On site.source := by
  refine ⟨h.onSource.index, ?_, ?_⟩
  · rcases h.cases with ⟨-, htoken, -⟩ | ⟨lexeme, left, -, htoken, -⟩
    · rw [htoken, Site.ending]
      split <;> rfl
    · rw [htoken]
      rfl
  · obtain ⟨taken, hsplit, hoffset⟩ := h.place
    have hstop := site.within.stop_le
    rw [Line.stop, Line.contentEnd, hsplit, Text.bytes_append] at hstop
    rw [h.offset, hoffset]
    omega

/-- The less is left of the line, the later the next token begins. -/
theorem Stands.offset_lt (h : p.Stands site r) (hbehind : q.Stands site behind)
    (hshorter : behind.rest.length < r.rest.length) : p.token.offset < q.token.offset := by
  obtain ⟨taken, hsplit, hoffset⟩ := h.place
  obtain ⟨front, hfront, hlater⟩ := hbehind.place
  obtain ⟨between, hbetween⟩ : ∃ between, r.rest = between ++ behind.rest := by
    have hwhole : r.rest <:+ site.line.content := ⟨taken, hsplit.symm⟩
    obtain ⟨between, hbetween⟩ := List.suffix_of_suffix_length_le ⟨front, hfront.symm⟩ hwhole (Nat.le_of_lt hshorter)
    exact ⟨between, hbetween.symm⟩
  have hsame : front = taken ++ between := by
    rw [hsplit, hbetween, ← List.append_assoc] at hfront
    exact (List.append_cancel_right hfront).symm
  have hpos : 0 < Text.bytes between := by
    refine Text.bytes_pos fun hnil => ?_
    rw [hbetween, hnil, List.nil_append] at hshorter
    exact Nat.lt_irrefl _ hshorter
  rw [h.offset, hbehind.offset, hoffset, hlater, hsame, Text.bytes_append]
  omega

theorem Stands.advances (h : p.Stands site r) (hbehind : q.Stands site behind)
    (hshorter : behind.rest.length < r.rest.length) : p.Advances q :=
  h.on.advances hbehind.on (h.offset_lt hbehind hshorter)

/-- Where nothing is left of the line, it ends. -/
theorem Stands.ends (h : p.Stands site r) (hnone : r.rest.length ≤ 0) : p.atEnd = true :=
  h.atEnd.trans (Reader.atEnd_iff.mpr (List.eq_nil_of_length_eq_zero (Nat.le_zero.mp hnone)))

theorem Stands.not_sees (h : p.Stands site r) (hnone : r.rest.length ≤ 0) {kind : TokenKind}
    (hkind : kind.endsLine = false) : ¬p.sees kind = true := by
  rw [h.sees hkind]
  exact fun hsees => Reader.rest_ne_nil_of_sees hsees (List.eq_nil_of_length_eq_zero (Nat.le_zero.mp hnone))

/-! ### From line to line -/

theorem Begins.on (h : p.Begins source levels number) : p.On source := by
  obtain ⟨cursor, -, -, hlooks⟩ := h.looks
  cases hfound : (Line.split source)[number]? with
  | none =>
      have htoken := h.token_behind hfound
      refine ⟨hlooks.onSource.index, ?_, ?_⟩
      · rw [htoken]
        rfl
      · rw [htoken]
        exact Nat.le_refl _
  | some line =>
      obtain rfl := Line.number_of_getElem?_split hfound
      let site : Site := ⟨source, levels, line, hfound⟩
      have hoffset : p.token.offset = line.start := @Begins.offset site p h
      have hstop := ((Line.arranged_split source).within line (List.mem_of_getElem? hfound)).stop_le
      have hstart := line.start_le_stop
      exact ⟨hlooks.onSource.index, (@Begins.token_of site p h).sane.position, by omega⟩

/-- A parser before a line gets on when it comes to a later one, or to the end. -/
theorem Begins.advances (h : p.Begins site.source site.levels site.line.number)
    (hbehind : q.Begins site.source site.levels later) (hlater : site.line.number < later) (hsource : site.source ≠ []) :
    p.Advances q := by
  have hmem := List.mem_of_getElem? site.found
  have hlt := Line.start_lt_stop hsource hmem
  refine h.on.advances hbehind.on ?_
  rw [h.offset]
  cases hfound : (Line.split site.source)[later]? with
  | none =>
      have hstop := site.within.stop_le
      rw [hbehind.token_behind hfound]
      exact Nat.lt_of_lt_of_le hlt hstop
  | some line =>
      obtain rfl := Line.number_of_getElem?_split hfound
      let below : Site := ⟨site.source, site.levels, line, hfound⟩
      have hoffset : q.token.offset = line.start := @Begins.offset below q hbehind
      obtain ⟨hupper, hat⟩ := List.getElem?_eq_some_iff.mp site.found
      obtain ⟨hlower, hbelow⟩ := List.getElem?_eq_some_iff.mp hfound
      have hsorted := List.pairwise_iff_getElem.mp (Line.arranged_split site.source).sorted _ _ hupper hlower hlater
      rw [hat, hbelow] at hsorted
      omega

/-! ### Nodes do not matter -/

theorem Reads.finish (h : p.Reads site r) (id : Nat) : (p.finish id).Reads site r := by
  rw [finish_eq_retree]
  exact h.retree ((source_finish p id).trans h.source)

theorem Reads.setKind (h : p.Reads site r) (id : Nat) (kind : Kind) : (p.setKind id kind).Reads site r :=
  h.retree h.source

theorem Stands.adopt (h : p.Stands site r) (parent child : Nat) : (p.adopt parent child).Stands site r :=
  h.retree ((Tree.source_adopt _ _ _ _).trans h.source)

theorem Reads.adopt (h : p.Reads site r) (parent child : Nat) : (p.adopt parent child).Reads site r :=
  h.retree ((Tree.source_adopt _ _ _ _).trans h.source)

theorem Stands.adoptAll (h : p.Stands site r) (id : Nat) (nodes : List Nat) :
    (nodes.foldl (fun q node => q.adopt id node) p).Stands site r := by
  induction nodes generalizing p with
  | nil => exact h
  | cons node more ih => exact ih (h.adopt id node)

theorem Reads.flag (h : p.Reads site r) (id : Nat) (rule : Rule) (offset length : Nat) :
    (p.flag id rule offset length).Reads site r := by
  unfold Parser.flag
  split
  · exact h
  · exact h.retree ((Tree.source_mark _ _ _).trans h.source)

theorem Reads.flagWhole (h : p.Reads site r) (id : Nat) (rule : Rule) : (p.flagWhole id rule).Reads site r := by
  unfold Parser.flagWhole
  split
  · exact h
  · exact h.flag _ _ _ _

theorem Reads.flagWhole_ite (h : p.Reads site r) (few : Prop) [Decidable few] (id : Nat) (rule : Rule) :
    (if few then p.flagWhole id rule else p).Reads site r := by
  split
  · exact h.flagWhole id rule
  · exact h

theorem Reads.complain (h : p.Reads site r) (id : Nat) (rule : Rule) : (p.complain id rule).Reads site r :=
  h.flag _ _ _ _

theorem Reads.adoptOr (h : p.Reads site r) (id : Nat) (child : Option Nat) (rule : Rule) :
    (p.adoptOr id child rule).Reads site r := by
  cases child with
  | none => exact h.complain id rule
  | some child => exact h.adopt id child

theorem close_of_accepts {id : Nat} {kind : TokenKind} {rule : Rule} (h : Grammar.close Id id kind rule p = (true, q)) :
    p.sees kind = true ∧ q = p.next := by
  unfold Grammar.close Parser.accept at h
  cases hsees : p.sees kind with
  | true =>
      rw [hsees] at h
      exact ⟨rfl, (congrArg (·.2) h).symm⟩
  | false =>
      rw [hsees] at h
      exact absurd (congrArg (·.1) h) Bool.false_ne_true

theorem Reads.finishLine (h : p.Reads site r) (id : Nat) : ∃ behind, (Grammar.finishLine Id id p).Reads site behind := by
  unfold Grammar.finishLine
  split
  · exact ⟨r, h.finish id⟩
  · exact ⟨r.skipLine, (h.skipLine.flag _ _ _ _).finish id⟩

/-- Where a rule has been applied, the parser stands where the reading ends. -/
theorem Refines.reads {rule : Parsing} {reading : Reading} (hrule : Refines site rule reading) (h : p.Reads site r) :
    (rule p).2.Reads site (reading r).2 := by
  have hmay := hrule h
  generalize rule p = outcome at hmay ⊢
  generalize reading r = found at hmay ⊢
  cases hmay with
  | none => exact h
  | made hmade => exact hmade.reads

end Gamebook.Parser
