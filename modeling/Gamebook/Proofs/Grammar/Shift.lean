import Gamebook.Proofs.Lexeme.Apart
import Gamebook.Proofs.Phrase.Shape

/-!
Expressions in other places. A text has the same lexemes wherever it begins, and derives the same expression, moved
along with it. Between parentheses it keeps both: what derives an expression holds no string without its closing
quote, which alone would take the closing parenthesis in.
-/

namespace Gamebook

def Located.shift (distance : Nat) (sign : Located) : Located := { sign with offset := sign.offset + distance }

@[simp] theorem Located.shift_stop (distance : Nat) (sign : Located) :
    (sign.shift distance).stop = sign.stop + distance :=
  Nat.add_right_comm _ _ _

/-! ### Lexemes -/

namespace Lexeme

theorem sequence_shift (mode : Mode) (offset distance : Nat) (text : Text) :
    sequence mode (offset + distance) text = (sequence mode offset text).map (Located.shift distance) := by
  induction hlength : text.length using Nat.strongRecOn generalizing offset text with
  | ind size ih =>
      cases hfirst : first? mode (text.dropWhile Text.isBlank) with
      | none => rw [sequence_of_first?_eq_none hfirst, sequence_of_first?_eq_none hfirst, List.map_nil]
      | some found =>
          obtain ⟨lexeme, rest⟩ := found
          rw [sequence_of_first? hfirst, sequence_of_first? hfirst, List.map_cons, Nat.add_right_comm offset distance,
            Nat.add_right_comm _ distance, ih rest.length (hlength ▸ length_lt_of_first? hfirst) _ rest rfl]
          rfl

/-- In front of a separator a text without open strings has the lexemes that it has alone. -/
theorem sequence_before {text : Text} {offset : Nat}
    (hclosed : ∀ sign ∈ sequence .command offset text, sign.lexeme.kind ≠ .badString) {c : Char}
    (hseparates : Pattern.separates c = true) (more : Text) :
    sequence .command offset (text ++ c :: more) =
      sequence .command offset text ++ sequence .command (offset + Text.bytes text) (c :: more) := by
  induction hlength : text.length using Nat.strongRecOn generalizing offset text with
  | ind size ih =>
      have hsplit : text.takeWhile Text.isBlank ++ text.dropWhile Text.isBlank = text := List.takeWhile_append_dropWhile
      have hblanks : ∀ d ∈ text.takeWhile Text.isBlank, Text.isBlank d = true := List.all_eq_true.mp List.all_takeWhile
      have hbytes : Text.bytes text =
          (text.takeWhile Text.isBlank).length + Text.bytes (text.dropWhile Text.isBlank) := by
        rw [← Text.bytes_takeWhile_isBlank, ← Text.bytes_append, hsplit]
      cases hfirst : first? .command (text.dropWhile Text.isBlank) with
      | none =>
          rw [first?_eq_none_iff.mp hfirst, List.append_nil] at hsplit
          rw [first?_eq_none_iff.mp hfirst, Text.bytes_nil, Nat.add_zero] at hbytes
          rw [sequence_of_first?_eq_none hfirst, List.nil_append, hbytes, ← sequence_blanks hblanks, hsplit]
      | some found =>
          obtain ⟨lexeme, rest⟩ := found
          rw [sequence_of_first? hfirst] at hclosed ⊢
          obtain ⟨hkind, hrest⟩ := List.forall_mem_cons.mp hclosed
          have hlonger := first?_before hfirst hkind hseparates more
          have hne : text.dropWhile Text.isBlank ≠ [] := fun hnil => by simp [hnil, first?] at hfirst
          obtain ⟨htake, hdrop⟩ := Text.trimmed_iff.mp (show ∀ d ∈ (text.dropWhile Text.isBlank ++ c :: more).head?,
              Text.isBlank d = false by
            rw [List.head?_append_of_ne_nil _ hne]
            exact Text.trimmed_dropWhile text)
          have hwhole : text ++ c :: more =
              text.takeWhile Text.isBlank ++ (text.dropWhile Text.isBlank ++ c :: more) := by
            rw [← List.append_assoc, hsplit]
          rw [← append_of_first? hfirst, Text.bytes_append] at hbytes
          rw [hwhole, sequence_blanks hblanks, sequence_of_first? (hdrop.symm ▸ hlonger), htake,
            List.length_nil, Nat.add_zero, ih rest.length (hlength ▸ length_lt_of_first? hfirst) hrest rfl, hbytes]
          simp only [List.cons_append, Nat.add_assoc]

end Lexeme

/-! ### Shapes -/

namespace Shape

mutual

def shift (distance : Nat) : Shape → Shape
  | leaf kind start stop => leaf kind (start + distance) (stop + distance)
  | node kind parts => node kind (shiftAll distance parts)

def shiftAll (distance : Nat) : List Shape → List Shape
  | [] => []
  | shape :: more => shift distance shape :: shiftAll distance more

end

theorem shiftAll_eq_map (distance : Nat) (shapes : List Shape) :
    shiftAll distance shapes = shapes.map (shift distance) := by
  induction shapes with
  | nil => rw [shiftAll, List.map_nil]
  | cons shape more ih => rw [shiftAll, ih, List.map_cons]

theorem shift_ofSign (distance : Nat) (kind : Kind) (sign : Located) :
    (ofSign kind sign).shift distance = ofSign kind (sign.shift distance) := by
  rw [ofSign, shift, ofSign, Located.shift_stop]
  rfl

theorem shift_term (distance : Nat) (form : TermForm) (parts : List Shape) :
    (term form parts).shift distance = term form (parts.map (shift distance)) := by
  rw [term, shift, shiftAll_eq_map, term]

theorem shift_named (distance : Nat) (name : Located) (indices : List Shape) :
    (named name indices).shift distance = named (name.shift distance) (indices.map (shift distance)) := by
  rw [named, shift_term, List.map_cons, shift_ofSign, named]
  simp only [List.map_eq_nil_iff]

theorem shift_operation (distance : Nat) (op : Operator) (left right : Shape) (sign : Located) :
    (operation op left sign right).shift distance =
      operation op (left.shift distance) (sign.shift distance) (right.shift distance) := by
  rw [operation, shift, shiftAll_eq_map, operation, List.map_cons, List.map_cons, List.map_singleton, shift_ofSign]

end Shape

theorem Phrase.Shows.shift {phrase : Phrase} {shape : Shape} (h : phrase.Shows shape) (distance : Nat) :
    (phrase.shift distance).Shows (shape.shift distance) := by
  induction h with
  | leaf hkind hstart hstop hparts =>
      subst hkind hstart hstop
      rw [Shape.shift]
      exact .leaf (shift_kind _ _) (shift_start _ _) (shift_stop _ _) (by rw [shift_parts, hparts, List.map_nil])
  | node hkind hne hlength _ ih =>
      rw [Shape.shift, Shape.shiftAll_eq_map]
      refine .node ((congrArg Kind.untyped (shift_kind _ _)).trans hkind) ?_ ?_ ?_
      · rw [shift_parts]
        exact fun hnil => hne (List.map_eq_nil_iff.mp hnil)
      · rw [shift_parts, List.length_map, List.length_map, hlength]
      · rw [shift_parts, List.zip_map]
        rintro _ hpair
        obtain ⟨pair, hmem, rfl⟩ := List.mem_map.mp hpair
        exact ih pair hmem

/-! ### Derivations -/

namespace Index

def shift (distance : Nat) (index : Index) : Index where
  opening := index.opening.shift distance
  inner := index.inner.map (Located.shift distance)
  closing := index.closing.shift distance
  shape := index.shape.shift distance

theorem lexemes_shift (distance : Nat) (index : Index) :
    (index.shift distance).lexemes = index.lexemes.map (Located.shift distance) := by
  rw [lexemes, lexemes, List.map_cons, List.map_append, List.map_singleton]
  rfl

theorem Adjoin.shift {stop : Nat} {indices : List Index} (h : Adjoin stop indices) (distance : Nat) :
    Adjoin (stop + distance) (indices.map (Index.shift distance)) := by
  induction indices generalizing stop with
  | nil => trivial
  | cons index more ih =>
      obtain ⟨hopening, rfl, hclosing, hmore⟩ := h
      refine ⟨hopening, rfl, hclosing, ?_⟩
      rw [show (index.shift distance).closing.stop = index.closing.stop + distance from Located.shift_stop _ _]
      exact ih hmore

theorem Adjoin.brackets {stop : Nat} {indices : List Index} (h : Adjoin stop indices) :
    ∀ index ∈ indices, index.opening.lexeme.kind = .bracketL ∧ index.closing.lexeme.kind = .bracketR := by
  induction indices generalizing stop with
  | nil => exact List.forall_mem_nil _
  | cons index more ih =>
      obtain ⟨hopening, -, hclosing, hmore⟩ := h
      exact List.forall_mem_cons.mpr ⟨⟨hopening, hclosing⟩, ih hmore⟩

end Index

namespace Derives

variable {level : Nat} {lexemes : List Located} {shape : Shape}

theorem shift (h : Derives level lexemes shape) (distance : Nat) :
    Derives level (lexemes.map (Located.shift distance)) (shape.shift distance) := by
  induction h with
  | literal hkind =>
      rw [Shape.shift_term, List.map_singleton, List.map_singleton, Shape.shift_ofSign]
      exact .literal hkind
  | @named _ name indices hname hadjoin _ ih =>
      have hlexemes : (indices.flatMap Index.lexemes).map (Located.shift distance) =
          (indices.map (Index.shift distance)).flatMap Index.lexemes := by
        rw [List.map_flatMap, List.flatMap_map]
        simp only [Index.lexemes_shift]
      have hshapes : (indices.map Index.shape).map (Shape.shift distance) =
          (indices.map (Index.shift distance)).map Index.shape := by
        rw [List.map_map, List.map_map]
        rfl
      rw [Shape.shift_named, List.map_cons, hlexemes, hshapes]
      refine .named hname ?_ ?_
      · rw [Located.shift_stop]
        exact hadjoin.shift distance
      · rintro _ hindex
        obtain ⟨index, hmem, rfl⟩ := List.mem_map.mp hindex
        exact ih index hmem
  | group hopening _ hclosing ih =>
      rw [Shape.shift_term, List.map_cons, List.map_append, List.map_singleton, List.map_singleton]
      exact .group hopening ih hclosing
  | computed hopening _ hclosing ih =>
      rw [Shape.shift_term, List.map_cons, List.map_append, List.map_singleton, List.map_singleton]
      exact .computed hopening ih hclosing
  | call hname hopening _ hclosing ih =>
      rw [Shape.shift_term, List.map_cons, List.map_cons, List.map_append, List.map_singleton, List.map_singleton]
      exact .call hname hopening ih hclosing
  | operation hsign hlevel _ _ ihleft ihright =>
      rw [Shape.shift_operation, List.map_append, List.map_cons]
      exact .operation hsign hlevel ihleft ihright

/-- No string in a derivation is without its closing quote. -/
theorem ne_badString (h : Derives level lexemes shape) : ∀ sign ∈ lexemes, sign.lexeme.kind ≠ .badString := by
  have hbetween {opening closing : Located} {inner : List Located} {left right : TokenKind}
      (hopening : opening.lexeme.kind = left) (hleft : left ≠ .badString) (hclosing : closing.lexeme.kind = right)
      (hright : right ≠ .badString) (hinner : ∀ sign ∈ inner, sign.lexeme.kind ≠ .badString) :
      ∀ sign ∈ opening :: (inner ++ [closing]), sign.lexeme.kind ≠ .badString :=
    List.forall_mem_cons.mpr ⟨hopening ▸ hleft,
      List.forall_mem_append.mpr ⟨hinner, List.forall_mem_singleton.mpr (hclosing ▸ hright)⟩⟩
  induction h with
  | literal hkind =>
      refine List.forall_mem_singleton.mpr fun hbad => ?_
      rw [Lexeme.literal?, hbad] at hkind
      cases hkind
  | @named _ name indices hname hadjoin _ ih =>
      refine List.forall_mem_cons.mpr ⟨fun hbad => ?_, fun sign hsign => ?_⟩
      · rw [Lexeme.isName, hbad] at hname
        cases hname
      · obtain ⟨index, hindex, hmem⟩ := List.mem_flatMap.mp hsign
        obtain ⟨hopening, hclosing⟩ := hadjoin.brackets index hindex
        exact hbetween hopening (by decide) hclosing (by decide) (ih index hindex) sign hmem
  | group hopening _ hclosing ih => exact hbetween hopening (by decide) hclosing (by decide) ih
  | computed hopening _ hclosing ih => exact hbetween hopening (by decide) hclosing (by decide) ih
  | @call _ name _ _ function _ _ hname hopening _ hclosing ih =>
      refine List.forall_mem_cons.mpr ⟨?_, hbetween hopening (by decide) hclosing (by decide) ih⟩
      rw [hname]
      cases function <;> decide
  | @operation _ op _ _ _ _ _ hsign _ _ _ ihleft ihright =>
      refine List.forall_mem_append.mpr ⟨ihleft, List.forall_mem_cons.mpr ⟨?_, ihright⟩⟩
      rw [hsign]
      cases op <;> decide

/-- A name that is not reserved is an expression. -/
theorem name {level offset : Nat} {c : Char} {letters : Text} (hopens : Pattern.opensName c = true)
    (hletters : ∀ d ∈ letters, Pattern.continuesName d = true) (hblank : Text.isBlank c = false)
    (hfree : Command.isReserved (String.ofList (c :: letters)) = false) :
    Derives level (Lexeme.sequence .command offset (c :: letters)) (.named ⟨⟨.ident, c :: letters⟩, offset⟩ []) := by
  have hfirst : Lexeme.first? .command ((c :: letters).dropWhile Text.isBlank) = some (⟨.ident, c :: letters⟩, []) := by
    rw [Text.dropWhile_of_head hblank]
    have h := @Lexeme.first?_name_apart c letters [] hopens hletters (by rintro d ⟨⟩)
    rwa [List.append_nil] at h
  have hskip : (c :: letters).takeWhile Text.isBlank = [] :=
    List.takeWhile_cons_of_neg (by rw [hblank]; exact Bool.false_ne_true)
  have hname : Lexeme.isName ⟨.ident, c :: letters⟩ = true := by
    rw [Lexeme.isName, Lexeme.word, hfree]
    rfl
  rw [Lexeme.sequence_of_first? hfirst, hskip, Lexeme.sequence_nil]
  exact @Derives.named level ⟨⟨.ident, c :: letters⟩, offset⟩ [] hname trivial (by rintro index ⟨⟩)

/-- What a text derives it derives wherever it begins. -/
theorem moved {text : Text} (h : Derives level (Lexeme.sequence .command 0 text) shape) (offset : Nat) :
    Derives level (Lexeme.sequence .command offset text) (shape.shift offset) := by
  have hmoved := h.shift offset
  rwa [← Lexeme.sequence_shift, Nat.zero_add] at hmoved

/-- What a text derives it derives between parentheses, wherever they stand. -/
theorem enclosed {text : Text} (h : Derives 0 (Lexeme.sequence .command 0 text) shape) (offset : Nat) (more : Text) :
    Derives 0 (Lexeme.sequence .command (offset + 1) text) (shape.shift (offset + 1)) ∧
      Lexeme.sequence .command offset ('(' :: (text ++ ')' :: more)) = ⟨⟨.parenL, ['(']⟩, offset⟩ ::
        (Lexeme.sequence .command (offset + 1) text ++ ⟨⟨.parenR, [')']⟩, offset + 1 + Text.bytes text⟩ ::
          Lexeme.sequence .command (offset + 1 + Text.bytes text + 1) more) := by
  have hinner := h.moved (offset + 1)
  have hopening : Lexeme.first? .command (('(' :: (text ++ ')' :: more)).dropWhile Text.isBlank) =
      some (⟨.parenL, ['(']⟩, text ++ ')' :: more) :=
    Lexeme.first?_sign .command (by decide) _
  refine ⟨hinner, ?_⟩
  have hclosing : Lexeme.first? .command ((')' :: more).dropWhile Text.isBlank) = some (⟨.parenR, [')']⟩, more) :=
    Lexeme.first?_sign .command (by decide) more
  rw [Lexeme.sequence_of_first? hopening]
  refine congrArg (List.cons _) ?_
  exact (Lexeme.sequence_before hinner.ne_badString Pattern.separates_parenR more).trans
    (congrArg (_ ++ ·) (Lexeme.sequence_of_first? hclosing _))

end Derives

end Gamebook
