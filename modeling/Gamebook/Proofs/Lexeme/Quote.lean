import Mathlib.Algebra.Group.Nat.Even
import Gamebook.Proofs.Lexeme.Recognise

/-!
Strings. The recognisers of closed and of open strings against their expressions, and where they stop: at the
first quote in front of which an even number of backslashes stands, or at the end of the text when there is none.
-/

namespace Gamebook

open Regex LexemeForm

/-- How many backslashes a text ends with. -/
def Text.backslashes (text : Text) : Nat := (text.reverse.takeWhile (· == '\\')).length

/-- A quote that no backslash escapes stands right behind the given front of a text. -/
structure Text.Quotes (text front : Text) : Prop where
  found : front ++ ['"'] <+: text
  unescaped : Even (Text.backslashes front)

/-- The first such quote of a text. -/
structure Text.FirstQuote (text front : Text) : Prop extends text.Quotes front where
  first : ∀ {other}, Text.Quotes text other → front.length ≤ other.length

namespace Pattern

variable {c : Char} {text front : Text}

theorem backslashes_cons (hc : c ≠ '\\') (text : Text) : Text.backslashes (c :: text) = Text.backslashes text := by
  rw [Text.backslashes, List.reverse_cons, List.takeWhile_append, List.takeWhile_cons_of_neg (by simpa using hc),
    List.append_nil]
  split
  · rename_i hall
    exact hall.symm
  · rfl

/-- A backslash with the character that it escapes changes nothing for what comes behind. -/
theorem even_backslashes_escape (c : Char) (text : Text) :
    Even (Text.backslashes ('\\' :: c :: text)) ↔ Even (Text.backslashes text) := by
  rw [Text.backslashes, List.reverse_cons, List.reverse_cons, List.append_assoc, List.takeWhile_append]
  split
  · rename_i hall
    rw [Text.backslashes, List.length_append, ← hall]
    by_cases hc : c = '\\'
    · subst hc
      exact Nat.even_add.trans ⟨fun h => h.mpr (by decide), fun h => iff_of_true h (by decide)⟩
    · rw [List.singleton_append, List.takeWhile_cons_of_neg (by simpa using hc), List.length_nil, Nat.add_zero]
  · exact Iff.rfl

theorem not_quotes_nil : ¬Text.Quotes [] front := fun h => by simpa using h.found.length_le

theorem not_quotes_backslash : ¬Text.Quotes ['\\'] front := fun h => by
  have hprefix := h.found
  cases front with
  | nil => exact absurd (List.cons_prefix_cons.mp hprefix).1 (by decide)
  | cons c front =>
      obtain ⟨rfl, hmore⟩ := List.cons_prefix_cons.mp hprefix
      simpa using hmore.length_le

theorem quotes_cons (hquote : c ≠ '"') (hbackslash : c ≠ '\\') :
    Text.Quotes (c :: text) front ↔ ∃ more, front = c :: more ∧ Text.Quotes text more := by
  constructor
  · rintro ⟨hfound, heven⟩
    cases front with
    | nil => exact absurd (List.cons_prefix_cons.mp hfound).1.symm hquote
    | cons d more =>
        obtain ⟨rfl, hmore⟩ := List.cons_prefix_cons.mp hfound
        exact ⟨more, rfl, hmore, backslashes_cons hbackslash more ▸ heven⟩
  · rintro ⟨more, rfl, hfound, heven⟩
    exact ⟨List.cons_prefix_cons.mpr ⟨rfl, hfound⟩, (backslashes_cons hbackslash more).symm ▸ heven⟩

theorem quotes_escape :
    Text.Quotes ('\\' :: c :: text) front ↔ ∃ more, front = '\\' :: c :: more ∧ Text.Quotes text more := by
  constructor
  · rintro ⟨hfound, heven⟩
    match front with
    | [] => exact absurd (List.cons_prefix_cons.mp hfound).1 (by decide)
    | [d] =>
        obtain ⟨rfl, -⟩ := List.cons_prefix_cons.mp hfound
        exact absurd heven (by decide)
    | d :: e :: more =>
        obtain ⟨rfl, hbehind⟩ := List.cons_prefix_cons.mp hfound
        obtain ⟨rfl, hmore⟩ := List.cons_prefix_cons.mp hbehind
        exact ⟨more, rfl, hmore, (even_backslashes_escape _ more).mp heven⟩
  · rintro ⟨more, rfl, hfound, heven⟩
    exact ⟨List.cons_prefix_cons.mpr ⟨rfl, List.cons_prefix_cons.mpr ⟨rfl, hfound⟩⟩,
      (even_backslashes_escape c more).mpr heven⟩

theorem closedLength_cons (hquote : c ≠ '"') (hbackslash : c ≠ '\\') (text : Text) :
    closedLength (c :: text) = (closedLength text).map (· + 1) :=
  closedLength.eq_5 c text (fun h => absurd h hbackslash) (fun _ _ h => absurd h hbackslash) hquote

theorem openLength_cons (hquote : c ≠ '"') (hbackslash : c ≠ '\\') (text : Text) :
    openLength (c :: text) = openLength text + 1 :=
  openLength.eq_5 c text (fun h => absurd h hbackslash) (fun _ _ h => absurd h hbackslash) hquote

/-- Texts behind an opening quote, as strings read them: at the end, at a quote, or behind a character that is
taken as it is or with a backslash in front of it. -/
theorem quote_induction {motive : Text → Prop} (nil : motive []) (backslash : motive ['\\'])
    (quote : ∀ text, motive ('"' :: text)) (escape : ∀ c text, motive text → motive ('\\' :: c :: text))
    (plain : ∀ c text, c ≠ '"' → c ≠ '\\' → motive text → motive (c :: text)) (text : Text) : motive text := by
  fun_induction openLength text with
  | case1 => exact nil
  | case2 => exact backslash
  | case3 c text ih => exact escape c text ih
  | case4 text => exact quote text
  | case5 c text hlast hescape hquote ih =>
      refine plain c text hquote (fun hc => ?_) ih
      cases text with
      | nil => exact hlast hc rfl
      | cons d text => exact hescape d text hc rfl

/-- A string ends with the first quote that is not escaped; without one the whole text is read. -/
theorem quote_cases (text : Text) :
    (∃ front, Text.FirstQuote text front ∧ closedLength text = some (front.length + 1) ∧
      openLength text = front.length) ∨
    ((∀ front, ¬Text.Quotes text front) ∧ closedLength text = none ∧ openLength text = text.length) := by
  induction text using quote_induction with
  | nil => exact .inr ⟨fun _ => not_quotes_nil, rfl, rfl⟩
  | backslash => exact .inr ⟨fun _ => not_quotes_backslash, rfl, rfl⟩
  | quote text =>
      exact .inl ⟨[], ⟨⟨List.prefix_append ['"'] text, Even.zero⟩, fun _ => Nat.zero_le _⟩, rfl, rfl⟩
  | escape c text ih =>
      obtain ⟨front, ⟨hfront, hfirst⟩, hclosed, hopen⟩ | ⟨hnone, hclosed, hopen⟩ := ih
      · refine .inl ⟨'\\' :: c :: front, ⟨quotes_escape.mpr ⟨front, rfl, hfront⟩, fun hother => ?_⟩, ?_, ?_⟩
        · obtain ⟨more, rfl, hmore⟩ := quotes_escape.mp hother
          exact Nat.succ_le_succ (Nat.succ_le_succ (hfirst hmore))
        · rw [closedLength, hclosed]
          rfl
        · rw [openLength, hopen]
          rfl
      · refine .inr ⟨fun front hfront => ?_, by rw [closedLength, hclosed]; rfl, by rw [openLength, hopen]; rfl⟩
        obtain ⟨more, -, hmore⟩ := quotes_escape.mp hfront
        exact hnone more hmore
  | plain c text hquote hbackslash ih =>
      rw [closedLength_cons hquote hbackslash, openLength_cons hquote hbackslash]
      obtain ⟨front, ⟨hfront, hfirst⟩, hclosed, hopen⟩ | ⟨hnone, hclosed, hopen⟩ := ih
      · refine .inl ⟨c :: front, ⟨(quotes_cons hquote hbackslash).mpr ⟨front, rfl, hfront⟩, fun hother => ?_⟩, ?_, ?_⟩
        · obtain ⟨more, rfl, hmore⟩ := (quotes_cons hquote hbackslash).mp hother
          exact Nat.succ_le_succ (hfirst hmore)
        · rw [hclosed]
          rfl
        · rw [hopen]
          rfl
      · refine .inr ⟨fun front hfront => ?_, by rw [hclosed]; rfl, by rw [hopen]; rfl⟩
        obtain ⟨more, -, hmore⟩ := (quotes_cons hquote hbackslash).mp hfront
        exact hnone more hmore

/-- What stands between quotes, and more behind it, is read character by character, a backslash with the
character behind it. -/
theorem mem_quotedBody {more : Regex} {text : Text} : text ∈ (Regex.seq quotedBody more).language ↔
    text ∈ more.language ∨
    (∃ c rest, text = c :: rest ∧ c ≠ '"' ∧ c ≠ '\\' ∧ rest ∈ (Regex.seq quotedBody more).language) ∨
    ∃ c rest, text = '\\' :: c :: rest ∧ c ≠ '\n' ∧ rest ∈ (Regex.seq quotedBody more).language := by
  have hmem {text : Text} : text ∈ (Regex.seq quotedBody more).language ↔ _ := mem_seq
  constructor
  · intro h
    obtain ⟨body, hbody, back, hback, rfl⟩ := hmem.mp h
    rcases mem_star.mp hbody with rfl | ⟨part, hpart, -, rest, hrest, rfl⟩
    · exact .inl hback
    · have hbehind := hmem.mpr ⟨rest, hrest, back, hback, rfl⟩
      rcases mem_alt.mp hpart with ⟨c, hc, rfl⟩ | hpart
      · obtain ⟨hquote, hbackslash⟩ := Bool.and_eq_true_iff.mp hc
        exact .inr (.inl ⟨c, rest ++ back, rfl, bne_iff_ne.mp hquote, bne_iff_ne.mp hbackslash, hbehind⟩)
      · obtain ⟨front, hfront, _, ⟨c, hc, rfl⟩, rfl⟩ := mem_seq.mp hpart
        obtain rfl := mem_char.mp hfront
        exact .inr (.inr ⟨c, rest ++ back, rfl, bne_iff_ne.mp hc, hbehind⟩)
  · rintro (h | ⟨c, rest, rfl, hquote, hbackslash, hrest⟩ | ⟨c, rest, rfl, hc, hrest⟩)
    · exact hmem.mpr ⟨[], nil_mem_star, text, h, rfl⟩
    · obtain ⟨body, hbody, back, hback, rfl⟩ := hmem.mp hrest
      have hplain := Bool.and_eq_true_iff.mpr ⟨bne_iff_ne.mpr hquote, bne_iff_ne.mpr hbackslash⟩
      have hpart : [c] ∈ (Regex.one fun c => c != '"' && c != '\\').language := ⟨c, hplain, rfl⟩
      exact hmem.mpr ⟨c :: body, append_mem_star (mem_alt.mpr (.inl hpart)) hbody, back, hback, rfl⟩
    · obtain ⟨body, hbody, back, hback, rfl⟩ := hmem.mp hrest
      have hpart : ['\\', c] ∈ (Regex.seq (.char '\\') (.one (· != '\n'))).language :=
        cons_mem_seq_char.mpr ⟨rfl, c, bne_iff_ne.mpr hc, rfl⟩
      exact hmem.mpr ⟨'\\' :: c :: body, append_mem_star (mem_alt.mpr (.inr hpart)) hbody, back, hback, rfl⟩

/-- Behind an opening quote: what a closed string matches. -/
def closed : Regex := .seq quotedBody (.char '"')

/-- Behind an opening quote: what a string without closing quote matches. -/
def opened : Regex := .seq quotedBody (.optional (.char '\\'))

/-- Up to the closing quote there is exactly one match. -/
theorem closedLength_eq_of_mem {front text : Text} (hfront : front <+: text) (hmem : front ∈ closed.language) :
    closedLength text = some front.length := by
  induction hlength : front.length using Nat.strong_induction_on generalizing front text with
  | _ length ih =>
      subst hlength
      rcases mem_quotedBody.mp hmem with h | ⟨c, rest, rfl, hquote, hbackslash, hrest⟩ | ⟨c, rest, rfl, -, hrest⟩
      · obtain rfl := mem_char.mp h
        obtain ⟨back, rfl⟩ := hfront
        rfl
      · obtain ⟨text, rfl⟩ : ∃ more, text = c :: more := by
          obtain ⟨back, rfl⟩ := hfront
          exact ⟨rest ++ back, rfl⟩
        have hmore := ih rest.length (Nat.lt_succ_self _) (List.cons_prefix_cons.mp hfront).2 hrest rfl
        rw [closedLength_cons hquote hbackslash, hmore]
        rfl
      · obtain ⟨text, rfl⟩ : ∃ more, text = '\\' :: c :: more := by
          obtain ⟨back, rfl⟩ := hfront
          exact ⟨rest ++ back, rfl⟩
        have hprefix := (List.cons_prefix_cons.mp (List.cons_prefix_cons.mp hfront).2).2
        have hmore := ih rest.length (Nat.lt_add_of_pos_right Nat.two_pos) hprefix hrest rfl
        rw [closedLength, hmore]
        rfl

theorem mem_of_closedLength {text : Text} (hline : '\n' ∉ text) {length : Nat} (h : closedLength text = some length) :
    length ≤ text.length ∧ text.take length ∈ closed.language := by
  induction text using quote_induction generalizing length with
  | nil => cases h
  | backslash => cases h
  | quote text =>
      cases h
      exact ⟨Nat.succ_le_succ (Nat.zero_le _), mem_quotedBody.mpr (.inl (mem_char.mpr rfl))⟩
  | escape c text ih =>
      obtain ⟨size, hsize, rfl⟩ := Option.map_eq_some_iff.mp h
      obtain ⟨hle, hmem⟩ := ih (fun hmem => hline (by simp [hmem])) hsize
      have hc : c ≠ '\n' := fun hc => hline (by simp [hc])
      exact ⟨Nat.succ_le_succ (Nat.succ_le_succ hle), mem_quotedBody.mpr (.inr (.inr ⟨c, _, rfl, hc, hmem⟩))⟩
  | plain c text hquote hbackslash ih =>
      rw [closedLength_cons hquote hbackslash] at h
      obtain ⟨size, hsize, rfl⟩ := Option.map_eq_some_iff.mp h
      obtain ⟨hle, hmem⟩ := ih (fun hmem => hline (by simp [hmem])) hsize
      exact ⟨Nat.succ_le_succ hle, mem_quotedBody.mpr (.inr (.inl ⟨c, _, rfl, hquote, hbackslash, hmem⟩))⟩

theorem length_le_openLength {front text : Text} (hfront : front <+: text) (hmem : front ∈ opened.language) :
    front.length ≤ openLength text := by
  induction hlength : front.length using Nat.strong_induction_on generalizing front text with
  | _ length ih =>
      subst hlength
      rcases mem_quotedBody.mp hmem with h | ⟨c, rest, rfl, hquote, hbackslash, hrest⟩ | ⟨c, rest, rfl, -, hrest⟩
      · rcases mem_optional.mp h with h | rfl
        · obtain rfl := mem_char.mp h
          obtain ⟨back, rfl⟩ := hfront
          cases back with
          | nil => exact le_rfl
          | cons c back => exact Nat.succ_le_succ (Nat.zero_le _)
        · exact Nat.zero_le _
      · obtain ⟨text, rfl⟩ : ∃ more, text = c :: more := by
          obtain ⟨back, rfl⟩ := hfront
          exact ⟨rest ++ back, rfl⟩
        have hmore := ih rest.length (Nat.lt_succ_self _) (List.cons_prefix_cons.mp hfront).2 hrest rfl
        rw [openLength_cons hquote hbackslash]
        exact Nat.succ_le_succ hmore
      · obtain ⟨text, rfl⟩ : ∃ more, text = '\\' :: c :: more := by
          obtain ⟨back, rfl⟩ := hfront
          exact ⟨rest ++ back, rfl⟩
        have hprefix := (List.cons_prefix_cons.mp (List.cons_prefix_cons.mp hfront).2).2
        have hmore := ih rest.length (Nat.lt_add_of_pos_right Nat.two_pos) hprefix hrest rfl
        exact Nat.succ_le_succ (Nat.succ_le_succ hmore)

theorem mem_of_openLength {text : Text} (hline : '\n' ∉ text) :
    openLength text ≤ text.length ∧ text.take (openLength text) ∈ opened.language := by
  have hnil : [] ∈ opened.language := mem_quotedBody.mpr (.inl (mem_optional.mpr (.inr rfl)))
  induction text using quote_induction with
  | nil => exact ⟨le_rfl, hnil⟩
  | backslash => exact ⟨le_rfl, mem_quotedBody.mpr (.inl (mem_optional.mpr (.inl (mem_char.mpr rfl))))⟩
  | quote text => exact ⟨Nat.zero_le _, hnil⟩
  | escape c text ih =>
      obtain ⟨hle, hmem⟩ := ih fun hmem => hline (by simp [hmem])
      have hc : c ≠ '\n' := fun hc => hline (by simp [hc])
      exact ⟨Nat.succ_le_succ (Nat.succ_le_succ hle), mem_quotedBody.mpr (.inr (.inr ⟨c, _, rfl, hc, hmem⟩))⟩
  | plain c text hquote hbackslash ih =>
      obtain ⟨hle, hmem⟩ := ih fun hmem => hline (by simp [hmem])
      rw [openLength_cons hquote hbackslash]
      exact ⟨Nat.succ_le_succ hle, mem_quotedBody.mpr (.inr (.inl ⟨c, _, rfl, hquote, hbackslash, hmem⟩))⟩

/-- A recogniser that reads an opening quote and then as far as an expression goes. -/
theorem longest_quote {regex : Regex} {text : Text} (length : Nat) (hle : length ≤ text.length)
    (hreached : 0 < length → text.take length ∈ (Regex.seq (.char '"') regex).language)
    (hbound : ∀ {front : Text}, '"' :: front <+: text → front ∈ regex.language → front.length + 1 ≤ length) :
    (Regex.seq (.char '"') regex).Longest text length := by
  refine ⟨hle, hreached, fun {front} hfront hmem => ?_⟩
  cases front with
  | nil => exact Nat.zero_le _
  | cons c front =>
      obtain ⟨rfl, hmore⟩ := cons_mem_seq_char.mp hmem
      exact hbound hfront hmore

/-- Where no quote comes first, nothing that begins with one matches. -/
theorem longest_unquoted {regex : Regex} {text : Text} (hquote : ∀ rest, text ≠ '"' :: rest) :
    (Regex.seq (.char '"') regex).Longest text 0 := by
  refine longest_zero fun hfront hmem => ?_
  obtain ⟨rfl, -⟩ := cons_mem_seq_char.mp hmem
  obtain ⟨back, rfl⟩ := hfront
  exact hquote _ rfl

theorem longest_string {text : Text} (hline : '\n' ∉ text) : string.Longest text (stringLength text) := by
  unfold stringLength
  split
  · rename_i rest
    have hline : '\n' ∉ rest := fun hmem => hline (List.mem_cons_of_mem _ hmem)
    cases hlength : closedLength rest with
    | none =>
        refine longest_zero fun hfront hmem => ?_
        obtain ⟨hc, hmore⟩ := cons_mem_seq_char.mp hmem
        rw [closedLength_eq_of_mem (List.cons_prefix_cons.mp hfront).2 hmore] at hlength
        cases hlength
    | some length =>
        obtain ⟨hle, htake⟩ := mem_of_closedLength hline hlength
        refine longest_quote (length + 1) (Nat.succ_le_succ hle)
          (fun _ => cons_mem_seq_char.mpr ⟨rfl, htake⟩) fun hfront hmem => ?_
        rw [closedLength_eq_of_mem (List.cons_prefix_cons.mp hfront).2 hmem] at hlength
        exact Nat.le_of_eq (congrArg (· + 1) (Option.some.inj hlength))
  · rename_i hquote
    exact longest_unquoted hquote

theorem longest_badString {text : Text} (hline : '\n' ∉ text) : badString.Longest text (badStringLength text) := by
  unfold badStringLength
  split
  · rename_i rest
    have hline : '\n' ∉ rest := fun hmem => hline (List.mem_cons_of_mem _ hmem)
    obtain ⟨hle, htake⟩ := mem_of_openLength hline
    refine longest_quote (openLength rest + 1) (Nat.succ_le_succ hle)
      (fun _ => cons_mem_seq_char.mpr ⟨rfl, htake⟩) fun hfront hmem => ?_
    exact Nat.succ_le_succ (length_le_openLength (List.cons_prefix_cons.mp hfront).2 hmem)
  · rename_i hquote
    exact longest_unquoted hquote

end Pattern

end Gamebook
