import Gamebook.Proofs.Lexeme.Regex

/-!
The recognisers of the patterns against the expressions that are declared for them. Where an expression ends in
a repetition, its matches are taken apart from the front, character by character, as the recogniser reads them.
-/

namespace Gamebook

open Regex

theorem length_le_takeWhile {accepts : Char → Bool} {front text : Text} (hfront : front <+: text)
    (hall : ∀ c ∈ front, accepts c = true) : front.length ≤ (text.takeWhile accepts).length := by
  obtain ⟨back, rfl⟩ := hfront
  rw [List.takeWhile_append_of_pos hall, List.length_append]
  exact Nat.le_add_right _ _

/-- The run of a class at the front of a text is what the length of the run takes. -/
theorem take_length_takeWhile (accepts : Char → Bool) (text : Text) :
    text.take (text.takeWhile accepts).length = text.takeWhile accepts :=
  (List.prefix_iff_eq_take.mp (List.takeWhile_prefix accepts)).symm

namespace Pattern

open LexemeForm

/-! ### Fixed spellings -/

theorem longest_fixed (kind : TokenKind) (spelling text : Text) :
    (literal spelling).Longest text ((fixed kind spelling).longest text) := by
  by_cases hprefix : spelling.isPrefixOf text = true
  · have hlength : (fixed kind spelling).longest text = spelling.length := if_pos hprefix
    have hfront := List.isPrefixOf_iff_prefix.mp hprefix
    rw [hlength]
    refine ⟨hfront.length_le, fun _ => ?_, fun _ hmem => (mem_literal.mp hmem ▸ le_rfl)⟩
    rw [← List.prefix_iff_eq_take.mp hfront, mem_literal]
  · have hlength : (fixed kind spelling).longest text = 0 := if_neg hprefix
    rw [hlength]
    exact longest_zero fun hfront hmem => hprefix (List.isPrefixOf_iff_prefix.mpr (mem_literal.mp hmem ▸ hfront))

/-! ### Names -/

theorem longest_name (text : Text) : identifier.Longest text (nameLength text) := by
  cases text with
  | nil => exact longest_zero nofun
  | cons c rest =>
      by_cases hopens : opensName c = true
      · have hlength : nameLength (c :: rest) = (rest.takeWhile continuesName).length + 1 := if_pos hopens
        rw [hlength]
        refine ⟨Nat.succ_le_succ (List.takeWhile_prefix _).length_le, fun _ => ?_, fun {front} hfront hmem => ?_⟩
        · rw [List.take_succ_cons, take_length_takeWhile]
          exact cons_mem_seq_one.mpr ⟨hopens, mem_star_one.mpr fun d hd => List.all_eq_true.mp List.all_takeWhile d hd⟩
        · cases front with
          | nil => exact Nat.zero_le _
          | cons d front =>
              have hmore := mem_star_one.mp (cons_mem_seq_one.mp hmem).2
              exact Nat.succ_le_succ (length_le_takeWhile (List.cons_prefix_cons.mp hfront).2 hmore)
      · have hlength : nameLength (c :: rest) = 0 := if_neg hopens
        rw [hlength]
        refine longest_zero fun hfront hmem => hopens ?_
        obtain ⟨rfl, -⟩ := List.cons_prefix_cons.mp hfront
        exact (cons_mem_seq_one.mp hmem).1

/-! ### Words -/

/-- How a word goes on behind one of its letters. -/
def wordMore : Regex :=
  .seq (.star (.one Text.isLetter)) (.star (.seq (.one isApostrophe) (Regex.one Text.isLetter).plus))

theorem mem_word {c : Char} {text : Text} :
    c :: text ∈ word.language ↔ Text.isLetter c = true ∧ text ∈ wordMore.language := by
  rw [word, mem_seq, wordMore, mem_seq]
  constructor
  · rintro ⟨front, hfront, back, hback, heq⟩
    obtain ⟨hne, hletters⟩ := mem_plus_one.mp hfront
    cases front with
    | nil => exact absurd rfl hne
    | cons d front =>
        obtain ⟨rfl, rfl⟩ := List.cons.inj heq
        obtain ⟨hd, hmore⟩ := List.forall_mem_cons.mp hletters
        exact ⟨hd, front, mem_star_one.mpr hmore, back, hback, rfl⟩
  · rintro ⟨hc, front, hfront, back, hback, rfl⟩
    have hletters : ∀ d ∈ c :: front, Text.isLetter d = true :=
      List.forall_mem_cons.mpr ⟨hc, mem_star_one.mp hfront⟩
    exact ⟨c :: front, mem_plus_one.mpr ⟨List.cons_ne_nil _ _, hletters⟩, back, hback, rfl⟩

/-- A word ends behind a letter, goes on over a letter, or over an apostrophe and a letter. -/
theorem mem_wordMore {text : Text} : text ∈ wordMore.language ↔ text = [] ∨
    (∃ c rest, text = c :: rest ∧ Text.isLetter c = true ∧ rest ∈ wordMore.language) ∨
    ∃ c d rest, text = c :: d :: rest ∧ isApostrophe c = true ∧ Text.isLetter d = true ∧
      rest ∈ wordMore.language := by
  have hmem {text : Text} : text ∈ wordMore.language ↔ _ := mem_seq
  constructor
  · intro h
    obtain ⟨front, hfront, back, hback, rfl⟩ := hmem.mp h
    cases front with
    | cons c front =>
        obtain ⟨hc, hmore⟩ := List.forall_mem_cons.mp (mem_star_one.mp hfront)
        exact .inr (.inl ⟨c, front ++ back, rfl, hc, hmem.mpr ⟨front, mem_star_one.mpr hmore, back, hback, rfl⟩⟩)
    | nil =>
        rcases mem_star.mp hback with rfl | ⟨part, hpart, hne, rest, hrest, rfl⟩
        · exact .inl rfl
        · cases part with
          | nil => exact absurd rfl hne
          | cons c part =>
              obtain ⟨hc, hletters⟩ := cons_mem_seq_one.mp hpart
              obtain ⟨hne, hletters⟩ := mem_plus_one.mp hletters
              cases part with
              | nil => exact absurd rfl hne
              | cons d part =>
                  obtain ⟨hd, hmore⟩ := List.forall_mem_cons.mp hletters
                  exact .inr (.inr ⟨c, d, part ++ rest, rfl, hc, hd,
                    hmem.mpr ⟨part, mem_star_one.mpr hmore, rest, hrest, rfl⟩⟩)
  · rintro (rfl | ⟨c, rest, rfl, hc, hrest⟩ | ⟨c, d, rest, rfl, hc, hd, hrest⟩)
    · exact hmem.mpr ⟨[], nil_mem_star, [], nil_mem_star, rfl⟩
    · obtain ⟨front, hfront, back, hback, rfl⟩ := hmem.mp hrest
      have hletters : ∀ d ∈ c :: front, Text.isLetter d = true :=
        List.forall_mem_cons.mpr ⟨hc, mem_star_one.mp hfront⟩
      exact hmem.mpr ⟨c :: front, mem_star_one.mpr hletters, back, hback, rfl⟩
    · obtain ⟨front, hfront, back, hback, rfl⟩ := hmem.mp hrest
      have hletters : ∀ e ∈ d :: front, Text.isLetter e = true :=
        List.forall_mem_cons.mpr ⟨hd, mem_star_one.mp hfront⟩
      have hpart := cons_mem_seq_one.mpr ⟨hc, mem_plus_one.mpr ⟨List.cons_ne_nil d front, hletters⟩⟩
      exact hmem.mpr ⟨[], nil_mem_star, _, append_mem_star hpart hback, rfl⟩

theorem isLetter_of_isApostrophe {c : Char} (h : isApostrophe c = true) : Text.isLetter c = false := by
  rcases Bool.or_eq_true_iff.mp h with hc | hc <;> rw [beq_iff_eq.mp hc] <;> decide +kernel

/-- A word goes on neither over a sign nor over an apostrophe without a letter behind it. -/
theorem longest_wordMore_zero {c : Char} {rest : Text} (hletter : ¬Text.isLetter c = true)
    (hbehind : isApostrophe c = true → ∀ d ∈ rest.head?, ¬Text.isLetter d = true) :
    wordMore.Longest (c :: rest) 0 := by
  refine longest_zero fun hfront hmem => ?_
  obtain ⟨rfl, hmore⟩ := List.cons_prefix_cons.mp hfront
  rcases mem_wordMore.mp hmem with hnil | ⟨_, _, heq, hc, -⟩ | ⟨_, d, _, heq, hc, hd, -⟩
  · cases hnil
  · obtain ⟨rfl, -⟩ := List.cons.inj heq
    exact hletter hc
  · obtain ⟨rfl, rfl⟩ := List.cons.inj heq
    obtain ⟨back, rfl⟩ := hmore
    exact hbehind hc d rfl hd

/-- What `wordRest` measures is the longest continuation of a word. -/
theorem longest_wordMore (text : Text) : wordMore.Longest text (wordRest text) ∧
    text.take (wordRest text) ∈ wordMore.language := by
  have hnil : [] ∈ wordMore.language := mem_wordMore.mpr (.inl rfl)
  fun_induction wordRest text with
  | case1 => exact ⟨longest_zero nofun, hnil⟩
  | case2 c rest hc ih =>
      obtain ⟨ih, htake⟩ := ih
      have hmem : (c :: rest).take (wordRest rest + 1) ∈ wordMore.language :=
        mem_wordMore.mpr (.inr (.inl ⟨c, _, rfl, hc, htake⟩))
      refine ⟨⟨Nat.succ_le_succ ih.le, fun _ => hmem, fun {front} hfront h => ?_⟩, hmem⟩
      rcases mem_wordMore.mp h with rfl | ⟨d, front, rfl, -, hmore⟩ | ⟨d, e, front, rfl, hd, -, -⟩
      · exact Nat.zero_le _
      · exact Nat.succ_le_succ (ih.bound (List.cons_prefix_cons.mp hfront).2 hmore)
      · obtain ⟨rfl, -⟩ := List.cons_prefix_cons.mp hfront
        rw [isLetter_of_isApostrophe hd] at hc
        cases hc
  | case3 c hletter hc => exact ⟨longest_wordMore_zero hletter fun _ => nofun, hnil⟩
  | case4 c hletter hc d rest hd ih =>
      obtain ⟨ih, htake⟩ := ih
      have hmem : (c :: d :: rest).take (wordRest rest + 2) ∈ wordMore.language :=
        mem_wordMore.mpr (.inr (.inr ⟨c, d, _, rfl, hc, hd, htake⟩))
      refine ⟨⟨Nat.succ_le_succ (Nat.succ_le_succ ih.le), fun _ => hmem, fun {front} hfront h => ?_⟩, hmem⟩
      rcases mem_wordMore.mp h with rfl | ⟨e, front, rfl, he, -⟩ | ⟨e, f, front, rfl, -, -, hmore⟩
      · exact Nat.zero_le _
      · obtain ⟨rfl, -⟩ := List.cons_prefix_cons.mp hfront
        exact absurd he hletter
      · have hfront := (List.cons_prefix_cons.mp (List.cons_prefix_cons.mp hfront).2).2
        exact Nat.succ_le_succ (Nat.succ_le_succ (ih.bound hfront hmore))
  | case5 c hletter hc d rest hd =>
      refine ⟨longest_wordMore_zero hletter fun _ other hother => ?_, hnil⟩
      rwa [← Option.some.inj hother]
  | case6 c rest hletter hc => exact ⟨longest_wordMore_zero hletter fun happly => absurd happly hc, hnil⟩

theorem longest_word (text : Text) : word.Longest text (wordLength text) := by
  cases text with
  | nil => exact longest_zero nofun
  | cons c rest =>
      obtain ⟨hlongest, htake⟩ := longest_wordMore rest
      by_cases hletter : Text.isLetter c = true
      · have hlength : wordLength (c :: rest) = wordRest rest + 1 := if_pos hletter
        rw [hlength]
        refine ⟨Nat.succ_le_succ hlongest.le, fun _ => mem_word.mpr ⟨hletter, htake⟩, fun {front} hfront hmem => ?_⟩
        cases front with
        | nil => exact Nat.zero_le _
        | cons d front =>
            exact Nat.succ_le_succ (hlongest.bound (List.cons_prefix_cons.mp hfront).2 (mem_word.mp hmem).2)
      · have hlength : wordLength (c :: rest) = 0 := if_neg hletter
        rw [hlength]
        refine longest_zero fun hfront hmem => hletter ?_
        obtain ⟨rfl, -⟩ := List.cons_prefix_cons.mp hfront
        exact (mem_word.mp hmem).1

/-! ### Numbers -/

/-- A number is a run of digits, or a point with digits on at least one of its sides. -/
theorem mem_number {text : Text} : text ∈ number.language ↔ ∃ run, (∀ c ∈ run, Text.isDigit c = true) ∧
    (text = run ∧ run ≠ [] ∨
      ∃ fraction, text = run ++ '.' :: fraction ∧ (∀ c ∈ fraction, Text.isDigit c = true) ∧
        (run ≠ [] ∨ fraction ≠ [])) := by
  rw [number, mem_alt, mem_seq]
  constructor
  · rintro (⟨run, hrun, back, hback, rfl⟩ | h)
    · obtain ⟨hne, hdigits⟩ := mem_plus_one.mp hrun
      refine ⟨run, hdigits, ?_⟩
      rcases mem_optional.mp hback with hback | rfl
      · cases back with
        | nil => exact absurd hback not_nil_mem_seq_one
        | cons c fraction =>
            obtain ⟨rfl, hfraction⟩ := cons_mem_seq_char.mp hback
            exact .inr ⟨fraction, rfl, mem_star_one.mp hfraction, .inl hne⟩
      · exact .inl ⟨List.append_nil run, hne⟩
    · cases text with
      | nil => exact absurd h not_nil_mem_seq_one
      | cons c fraction =>
          obtain ⟨rfl, hfraction⟩ := cons_mem_seq_char.mp h
          obtain ⟨hne, hdigits⟩ := mem_plus_one.mp hfraction
          exact ⟨[], nofun, .inr ⟨fraction, rfl, hdigits, .inr hne⟩⟩
  · rintro ⟨run, hrun, ⟨rfl, hne⟩ | ⟨fraction, rfl, hfraction, hsome⟩⟩
    · exact .inl ⟨text, mem_plus_one.mpr ⟨hne, hrun⟩, [], mem_optional.mpr (.inr rfl), List.append_nil _⟩
    · cases run with
      | nil =>
          have hne : fraction ≠ [] := hsome.resolve_left fun h => h rfl
          exact .inr (cons_mem_seq_char.mpr ⟨rfl, mem_plus_one.mpr ⟨hne, hfraction⟩⟩)
      | cons c run =>
          have hback : '.' :: fraction ∈ (Regex.seq (.char '.') (.star (.one Text.isDigit))).language :=
            cons_mem_seq_char.mpr ⟨rfl, mem_star_one.mpr hfraction⟩
          exact .inl ⟨c :: run, mem_plus_one.mpr ⟨List.cons_ne_nil c run, hrun⟩, _, mem_optional.mpr (.inl hback), rfl⟩

theorem numberLength_point {run : Text} (hrun : ∀ c ∈ run, Text.isDigit c = true) (more : Text) :
    numberLength (run ++ '.' :: more) =
      if run.length = 0 ∧ digits more = 0 then 0 else run.length + 1 + digits more := by
  have hdigits : digits (run ++ '.' :: more) = run.length := by
    have hpoint : ¬Text.isDigit '.' = true := by decide
    rw [digits, List.takeWhile_append_of_pos hrun, List.takeWhile_cons_of_neg hpoint, List.append_nil]
  rw [numberLength, hdigits, List.drop_left]
  rfl

theorem numberLength_run {run rest : Text} (hrun : ∀ c ∈ run, Text.isDigit c = true)
    (hrest : ∀ c ∈ rest.head?, Text.isDigit c = false ∧ c ≠ '.') : numberLength (run ++ rest) = run.length := by
  have hdigits : digits (run ++ rest) = run.length := by
    have hnone : rest.takeWhile Text.isDigit = [] := by
      cases rest with
      | nil => rfl
      | cons c rest => exact List.takeWhile_cons_of_neg (Bool.eq_false_iff.mp (hrest c rfl).1)
    rw [digits, List.takeWhile_append_of_pos hrun, hnone, List.append_nil]
  rw [numberLength, hdigits, List.drop_left]
  split
  · rename_i more
    exact absurd rfl (hrest '.' rfl).2
  · rfl

/-- What matches at the front of a text ends no later than where the recogniser stops. -/
theorem length_le_numberLength {front text : Text} (hfront : front <+: text) (hmem : front ∈ number.language) :
    front.length ≤ numberLength text := by
  obtain ⟨run, hrun, ⟨rfl, hne⟩ | ⟨fraction, rfl, hfraction, hsome⟩⟩ := mem_number.mp hmem
  · have hle : front.length ≤ digits text := length_le_takeWhile hfront hrun
    have hpos := List.length_pos_iff.mpr hne
    unfold numberLength
    dsimp only
    split
    · rw [if_neg (by omega)]
      omega
    · exact hle
  · obtain ⟨back, rfl⟩ := hfront
    have hle : fraction.length ≤ digits (fraction ++ back) :=
      length_le_takeWhile (List.prefix_append fraction back) hfraction
    have hsome : run.length ≠ 0 ∨ fraction.length ≠ 0 := by simpa only [ne_eq, List.length_eq_zero_iff] using hsome
    rw [List.append_assoc, List.cons_append, numberLength_point hrun, if_neg (by omega), List.length_append,
      List.length_cons]
    omega

theorem longest_number (text : Text) : number.Longest text (numberLength text) := by
  obtain ⟨run, rest, rfl, hrun, hrest⟩ : ∃ run rest, text = run ++ rest ∧ (∀ c ∈ run, Text.isDigit c = true) ∧
      ∀ c ∈ rest.head?, Text.isDigit c = false :=
    ⟨_, _, List.takeWhile_append_dropWhile.symm, List.all_eq_true.mp List.all_takeWhile, fun c hc =>
      Bool.eq_false_iff.mpr fun hdigit => by
        have hnot := List.head?_dropWhile_not Text.isDigit text
        rw [Option.mem_def.mp hc] at hnot
        simp [hdigit] at hnot⟩
  have hbound {front : Text} (hfront : front <+: run ++ rest) := length_le_numberLength hfront
  by_cases hpoint : ∃ more, rest = '.' :: more
  · obtain ⟨more, rfl⟩ := hpoint
    have hle := (List.takeWhile_prefix (l := more) Text.isDigit).length_le
    rw [numberLength_point hrun] at hbound ⊢
    refine ⟨?_, fun hpos => ?_, hbound⟩
    · rw [List.length_append, List.length_cons]
      split
      · exact Nat.zero_le _
      · exact Nat.le_trans (Nat.add_le_add_left hle _) (Nat.le_of_eq (by omega))
    · have hsome : ¬(run.length = 0 ∧ digits more = 0) := fun hnone => by
        rw [if_pos hnone] at hpos
        exact Nat.lt_irrefl 0 hpos
      rw [if_neg hsome, Nat.add_assoc, List.take_length_add_append, Nat.add_comm 1, List.take_succ_cons, digits,
        take_length_takeWhile]
      refine mem_number.mpr ⟨run, hrun, .inr ⟨_, rfl, List.all_eq_true.mp List.all_takeWhile, ?_⟩⟩
      rwa [digits, List.length_eq_zero_iff, List.length_eq_zero_iff, not_and_or] at hsome
  · have hlength := numberLength_run hrun fun c hc => ⟨hrest c hc, fun hdot => hpoint (by
      subst hdot
      cases rest with
      | nil => cases hc
      | cons d more => exact ⟨more, by rw [Option.some.inj hc]⟩)⟩
    rw [hlength] at hbound ⊢
    refine ⟨by rw [List.length_append]; exact Nat.le_add_right _ _, fun hpos => ?_, hbound⟩
    rw [List.take_left]
    exact mem_number.mpr ⟨run, hrun, .inl ⟨rfl, List.length_pos_iff.mp hpos⟩⟩

end Pattern

end Gamebook
