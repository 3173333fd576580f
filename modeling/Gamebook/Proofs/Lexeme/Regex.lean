import Mathlib.Computability.Language
import Gamebook.Lexeme

/-!
Regular expressions and the patterns of the two modes as they are declared: each kind of lexeme with the
expression that its texts match. A length is the longest match of an expression when it is reached by a match
and no match goes further.
-/

namespace Gamebook

open Computability

/-- A regular expression over characters. -/
inductive Regex where
  /-- One character of a class. -/
  | one (accepts : Char → Bool)
  | empty
  | seq (first second : Regex)
  | alt (first second : Regex)
  | star (inner : Regex)

namespace Regex

/-- The texts that an expression matches. -/
def language : Regex → Language Char
  | one accepts => fun text => ∃ c, accepts c = true ∧ text = [c]
  | empty => 1
  | seq first second => first.language * second.language
  | alt first second => first.language + second.language
  | star inner => inner.language∗

def plus (inner : Regex) : Regex := .seq inner (.star inner)

def optional (inner : Regex) : Regex := .alt inner .empty

def char (c : Char) : Regex := .one (· == c)

def literal (spelling : Text) : Regex := spelling.foldr (fun c rest => .seq (.char c) rest) .empty

variable {accepts : Char → Bool} {first second inner regex : Regex} {c : Char} {text : Text}

theorem mem_one : text ∈ (one accepts).language ↔ ∃ c, accepts c = true ∧ text = [c] := Iff.rfl

theorem mem_seq : text ∈ (seq first second).language ↔
    ∃ front ∈ first.language, ∃ back ∈ second.language, front ++ back = text := Language.mem_mul

theorem mem_alt : text ∈ (alt first second).language ↔ text ∈ first.language ∨ text ∈ second.language :=
  Language.mem_add _ _ _

theorem mem_optional : text ∈ (optional inner).language ↔ text ∈ inner.language ∨ text = [] := mem_alt

theorem nil_mem_star : [] ∈ (star inner).language := Language.nil_mem_kstar _

theorem mem_char : text ∈ (char c).language ↔ text = [c] := by
  simp [char, mem_one]

/-- One more match in front of some. -/
theorem append_mem_star {front back : Text} (hfront : front ∈ inner.language) (hback : back ∈ (star inner).language) :
    front ++ back ∈ (star inner).language := by
  obtain ⟨parts, rfl, hparts⟩ := Language.mem_kstar.mp hback
  exact Language.mem_kstar.mpr ⟨front :: parts, rfl, List.forall_mem_cons.mpr ⟨hfront, hparts⟩⟩

/-- A repetition is nothing, or a match that is not empty in front of a repetition. -/
theorem mem_star : text ∈ (star inner).language ↔
    text = [] ∨ ∃ front ∈ inner.language, front ≠ [] ∧ ∃ back ∈ (star inner).language, front ++ back = text := by
  constructor
  · intro h
    rw [language, Language.kstar_def_nonempty] at h
    obtain ⟨parts, rfl, hparts⟩ := h
    cases parts with
    | nil => exact .inl rfl
    | cons front parts =>
        obtain ⟨⟨hfront, hne⟩, hmore⟩ := List.forall_mem_cons.mp hparts
        have hback := Language.mem_kstar.mpr ⟨parts, rfl, fun part hpart => (hmore part hpart).1⟩
        exact .inr ⟨front, hfront, hne, _, hback, rfl⟩
  · rintro (rfl | ⟨front, hfront, -, back, hback, rfl⟩)
    · exact nil_mem_star
    · exact append_mem_star hfront hback

theorem cons_mem_seq_one : c :: text ∈ (seq (one accepts) second).language ↔
    accepts c = true ∧ text ∈ second.language := by
  rw [mem_seq]
  constructor
  · rintro ⟨_, ⟨d, hd, rfl⟩, back, hback, heq⟩
    obtain ⟨rfl, rfl⟩ := List.cons.inj heq
    exact ⟨hd, hback⟩
  · rintro ⟨hc, htext⟩
    exact ⟨[c], ⟨c, hc, rfl⟩, text, htext, rfl⟩

theorem cons_mem_seq_char {d : Char} : c :: text ∈ (seq (char d) second).language ↔ c = d ∧ text ∈ second.language := by
  rw [char, cons_mem_seq_one, beq_iff_eq]

theorem not_nil_mem_seq_one : [] ∉ (seq (one accepts) second).language := by
  rintro ⟨_, ⟨d, _, rfl⟩, back, _, heq⟩
  cases heq

/-- The repetition of a class of characters is any text of the class. -/
theorem mem_star_one : text ∈ (star (one accepts)).language ↔ ∀ c ∈ text, accepts c = true := by
  constructor
  · intro h
    obtain ⟨parts, rfl, hparts⟩ := Language.mem_kstar.mp h
    intro c hc
    obtain ⟨part, hpart, hmem⟩ := List.mem_flatten.mp hc
    obtain ⟨d, hd, rfl⟩ := hparts part hpart
    rwa [List.mem_singleton.mp hmem]
  · intro h
    induction text with
    | nil => exact nil_mem_star
    | cons c text ih =>
        obtain ⟨hc, hmore⟩ := List.forall_mem_cons.mp h
        exact append_mem_star (mem_one.mpr ⟨c, hc, rfl⟩) (ih hmore)

theorem mem_plus_one : text ∈ (plus (one accepts)).language ↔ text ≠ [] ∧ ∀ c ∈ text, accepts c = true := by
  cases text with
  | nil => exact iff_of_false not_nil_mem_seq_one fun h => h.1 rfl
  | cons c text =>
      rw [plus, cons_mem_seq_one, mem_star_one, List.forall_mem_cons, ne_eq]
      simp

theorem mem_literal {spelling : Text} : text ∈ (literal spelling).language ↔ text = spelling := by
  induction spelling generalizing text with
  | nil => exact Language.mem_one text
  | cons c spelling ih =>
      cases text with
      | nil => exact iff_of_false not_nil_mem_seq_one nofun
      | cons d text =>
          rw [literal, List.foldr_cons, cons_mem_seq_char, ← literal, ih, List.cons.injEq]

/-- The length is that of the longest match of an expression at the front of a text; zero stands for no match,
and for an empty one. -/
structure Longest (regex : Regex) (text : Text) (length : Nat) : Prop where
  le : length ≤ text.length
  reached : 0 < length → text.take length ∈ regex.language
  bound : ∀ {front : Text}, front <+: text → front ∈ regex.language → front.length ≤ length

/-- Where only the empty text matches, or nothing, the length is zero. -/
theorem longest_zero {regex : Regex} {text : Text}
    (hnone : ∀ {c : Char} {front : Text}, c :: front <+: text → c :: front ∉ regex.language) :
    regex.Longest text 0 := by
  refine ⟨Nat.zero_le _, fun h => absurd h (Nat.lt_irrefl 0), fun {front} hfront hmem => ?_⟩
  cases front with
  | nil => exact le_rfl
  | cons c front => exact absurd hmem (hnone hfront)

end Regex

/-- An expression with the kind of the lexemes that match it. -/
structure LexemeForm where
  kind : TokenKind
  regex : Regex

namespace LexemeForm

/-- The expression `[0-9]+(\.[0-9]*)?|\.[0-9]+`. -/
def number : Regex :=
  let digit := Regex.one Text.isDigit
  .alt (.seq digit.plus (.optional (.seq (.char '.') digit.star))) (.seq (.char '.') digit.plus)

/-- What stands between the quotes of a string: `([^"\\]|\\.)*`. -/
def quotedBody : Regex :=
  .star (.alt (.one fun c => c != '"' && c != '\\') (.seq (.char '\\') (.one (· != '\n'))))

/-- The expression `"([^"\\]|\\.)*"`. -/
def string : Regex := .seq (.char '"') (.seq quotedBody (.char '"'))

/-- The expression `"([^"\\]|\\.)*\\?`. -/
def badString : Regex := .seq (.char '"') (.seq quotedBody (.optional (.char '\\')))

/-- The expression `[\p{L}_][\p{L}\p{N}_]*`. -/
def identifier : Regex :=
  .seq (.one fun c => Text.isLetter c || c == '_')
    (.star (.one fun c => Text.isLetter c || Text.isNumber c || c == '_'))

/-- The expression `\p{L}+(['’]\p{L}+)*`. -/
def word : Regex :=
  let letters := (Regex.one Text.isLetter).plus
  .seq letters (.star (.seq (.one fun c => c == '\'' || c == '’') letters))

def ofSpelling (entry : TokenKind × Text) : LexemeForm := ⟨entry.1, .literal entry.2⟩

def signs : List (TokenKind × Text) :=
  [(.colon, [':']), (.curlyL, ['\x7b']), (.curlyR, ['\x7d']), (.bracketL, ['[']), (.bracketR, [']']),
   (.parenL, ['(']), (.parenR, [')']), (.semiColon, [';']), (.comma, [',']), (.asterisk, ['*']), (.hash, ['#']),
   (.dollar, ['$']), (.atSign, ['@']), (.pipe, ['|'])]

/-- The operators of two characters, which only commands know. -/
def operators : List (TokenKind × Text) :=
  [(.fairMathAdd, ['%', '+']), (.fairMathSub, ['%', '-']), (.lessEq, ['<', '=']), (.greaterEq, ['>', '=']),
   (.notEq, ['!', '='])]

end LexemeForm

open LexemeForm in
/-- The kinds of lexemes of a mode with the expressions declared for them. -/
def Mode.declared : Mode → List LexemeForm
  | .command =>
    [⟨.num, number⟩, ⟨.string, string⟩, ⟨.badString, badString⟩, ⟨.ident, identifier⟩] ++
      (operators ++ signs).map ofSpelling
  | .text => [⟨.word, word⟩, ⟨.num, number⟩] ++ signs.map ofSpelling

end Gamebook
