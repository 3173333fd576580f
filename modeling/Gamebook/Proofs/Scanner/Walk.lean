import Gamebook.Proofs.Lexeme.Prose
import Gamebook.Proofs.Parser.Stands

/-!
Walks. A scanner that reads prose meets words, and passes over a construct by going on at its end. Where it is put
down does not matter as long as no word is in front of it: on what is no word the lexemes can be cut in another way
than before, but they come together again at the next word.
-/

namespace Gamebook

namespace Scanner

/-- The words that a scanner meets up to an offset, by their ends. At the start of a gap it goes on at the end of the
gap. -/
inductive Meets (gaps : List (Nat × Nat)) (stop : Nat) : Scanner → List (Nat × Nat) → Prop
  | done {scanner : Scanner} (hstop : stop ≤ scanner.scan.1.offset) : Meets gaps stop scanner []
  | jump {scanner : Scanner} {target : Nat} {words : List (Nat × Nat)} (hstop : scanner.scan.1.offset < stop)
      (hgap : gaps.lookup scanner.scan.1.offset = some target)
      (hmore : Meets gaps stop (scanner.moveTo { scanner.cursor with offset := target }) words) :
      Meets gaps stop scanner words
  | word {scanner : Scanner} {words : List (Nat × Nat)} (hstop : scanner.scan.1.offset < stop)
      (hgap : gaps.lookup scanner.scan.1.offset = none) (hkind : scanner.scan.1.kind = .word)
      (hmore : Meets gaps stop scanner.scan.2 words) :
      Meets gaps stop scanner ((scanner.scan.1.offset, scanner.scan.1.stop) :: words)
  | other {scanner : Scanner} {words : List (Nat × Nat)} (hstop : scanner.scan.1.offset < stop)
      (hgap : gaps.lookup scanner.scan.1.offset = none) (hkind : scanner.scan.1.kind ≠ .word)
      (hmore : Meets gaps stop scanner.scan.2 words) : Meets gaps stop scanner words

variable {gaps : List (Nat × Nat)} {stop : Nat} {scanner other : Scanner} {words words' : List (Nat × Nat)}

/-- What a scanner meets is determined. -/
theorem Meets.unique (h : Meets gaps stop scanner words) (h' : Meets gaps stop scanner words') : words = words' := by
  induction h generalizing words' with
  | done hstop =>
      cases h' with
      | done => rfl
      | jump hlt | word hlt | other hlt => exact absurd hstop (Nat.not_le_of_lt hlt)
  | jump hstop hgap _ ih =>
      cases h' with
      | done hle => exact absurd hle (Nat.not_le_of_lt hstop)
      | jump _ hsame hmore =>
          obtain rfl := Option.some.inj (hgap.symm.trans hsame)
          exact ih hmore
      | word _ hnone | other _ hnone => cases hgap.symm.trans hnone
  | word hstop hgap hkind _ ih =>
      cases h' with
      | done hle => exact absurd hle (Nat.not_le_of_lt hstop)
      | jump _ hsome => cases hgap.symm.trans hsome
      | word _ _ _ hmore => rw [ih hmore]
      | other _ _ hnot => exact absurd hkind hnot
  | other hstop hgap hkind _ ih =>
      cases h' with
      | done hle => exact absurd hle (Nat.not_le_of_lt hstop)
      | jump _ hsome => cases hgap.symm.trans hsome
      | word _ _ hword => exact absurd hword hkind
      | other _ _ _ hmore => exact ih hmore

/-- The words that a scanner meets in at most `budget` steps; nothing when it does not come to the offset in them. -/
def walk (gaps : List (Nat × Nat)) (stop : Nat) : Nat → Scanner → Option (List (Nat × Nat))
  | 0, _ => none
  | budget + 1, scanner =>
    let (token, next) := scanner.scan
    if stop ≤ token.offset then some []
    else
      match gaps.lookup token.offset with
      | some target => walk gaps stop budget (scanner.moveTo { scanner.cursor with offset := target })
      | none =>
        if token.kind = .word then (walk gaps stop budget next).map ((token.offset, token.stop) :: ·)
        else walk gaps stop budget next

theorem meets_of_walk {budget : Nat} (h : walk gaps stop budget scanner = some words) :
    Meets gaps stop scanner words := by
  induction budget generalizing scanner words with
  | zero => cases h
  | succ budget ih =>
      unfold walk at h
      dsimp only at h
      split at h
      · rename_i hstop
        cases h
        exact .done hstop
      · rename_i hstop
        have hbefore := Nat.lt_of_not_le hstop
        split at h
        · rename_i hgap
          exact .jump hbefore hgap (ih h)
        · rename_i hgap
          split at h
          · rename_i hkind
            obtain ⟨more, hmore, rfl⟩ := Option.map_eq_some_iff.mp h
            exact .word hbefore hgap hkind (ih hmore)
          · rename_i hkind
            exact .other hbefore hgap hkind (ih h)

/-- Scanners that hand out the same and differ in their offsets only meet the same. -/
theorem Meets.congr (h : Meets gaps stop scanner words) (hscan : other.scan = scanner.scan)
    (hmoved : ∀ offset, other.moveTo { other.cursor with offset } = scanner.moveTo { scanner.cursor with offset }) :
    Meets gaps stop other words := by
  cases h with
  | done hstop => exact .done (hscan ▸ hstop)
  | jump hstop hgap hmore => exact .jump (hscan ▸ hstop) (hscan ▸ hgap) (hmoved _ ▸ hmore)
  | word hstop hgap hkind hmore =>
      rw [← hscan] at hstop hgap hkind hmore ⊢
      exact .word hstop hgap hkind hmore
  | other hstop hgap hkind hmore =>
      rw [← hscan] at hstop hgap hkind hmore
      exact .other hstop hgap hkind hmore

end Scanner

namespace Site

variable {site : Site} {gaps words : List (Nat × Nat)} {stop place : Nat} {front left : Text}

/-- The scanner that reads prose from an offset of the line on. -/
def proseAt (site : Site) (offset : Nat) : Scanner :=
  (Scanner.ofText site.source).moveTo ⟨site.line.number, offset, true, .text⟩

/-- Of two places on the line, what is left at the first one is what stands between them and what is left at the
second one. -/
theorem Place.split {other : Nat} {right : Text} (h : site.Place place left) (hother : site.Place other right)
    (hle : place ≤ other) : ∃ between, left = between ++ right ∧ other = place + Text.bytes between := by
  obtain ⟨taken, hsplit, rfl⟩ := h
  obtain ⟨taken', hsplit', rfl⟩ := hother
  rcases List.append_eq_append_iff.mp (hsplit.symm.trans hsplit') with ⟨more, rfl, hmore⟩ | ⟨more, rfl, hmore⟩
  · exact ⟨more, hmore, by rw [Text.bytes_append, Nat.add_assoc]⟩
  · rw [Text.bytes_append] at hle
    obtain rfl := Text.eq_nil_of_bytes_eq_zero (by omega : Text.bytes more = 0)
    exact ⟨[], hmore.symm, by rw [List.append_nil]; rfl⟩

/-- Where nothing is left of the line the walk is over. -/
theorem meets_nil (hplace : site.Place place []) (hstop : stop ≤ place) :
    Scanner.Meets gaps stop (site.proseAt place) [] := by
  refine .done ?_
  rw [proseAt, site.scan_eq .text (Scanner.over_ofText site.source) hplace fun _ => rfl]
  obtain ⟨taken, hsplit, rfl⟩ := hplace
  show stop ≤ site.ending.offset
  rwa [site.offset_ending, Line.contentEnd, hsplit, List.append_nil]

section Steps

variable (hcomment : site.line.type ≠ .comment)
include hcomment

/-- A blank makes no difference. -/
theorem meets_blank {c : Char} (hplace : site.Place place (c :: left)) (hblank : Text.isBlank c = true)
    (h : Scanner.Meets gaps stop (site.proseAt (place + c.utf8Size)) words) :
    Scanner.Meets gaps stop (site.proseAt place) words := by
  have hover := Scanner.over_ofText site.source
  have hplain (left : Text) : site.line.type = .comment → left.dropWhile Text.isBlank = [] :=
    fun htype => absurd htype hcomment
  have hbehind : site.Place (place + c.utf8Size) left := @Place.advance site place [c] left hplace
  have hsize : c.utf8Size = 1 := by
    rcases Bool.or_eq_true_iff.mp hblank with hc | hc <;> rw [beq_iff_eq.mp hc] <;> decide
  have hsame : place + ((c :: left).takeWhile Text.isBlank).length =
      place + c.utf8Size + (left.takeWhile Text.isBlank).length := by
    rw [List.takeWhile_cons_of_pos hblank, List.length_cons, hsize]
    omega
  refine h.congr ?_ fun _ => rfl
  rw [proseAt, site.scan_skip .text hover hplace (hplain _), hsame]
  exact (site.scan_skip .text hover hbehind (hplain _)).symm

/-- No scanner goes back. -/
theorem le_offset_scan (hplace : site.Place place left) : place ≤ (site.proseAt place).scan.1.offset := by
  rw [proseAt, site.scan_eq .text (Scanner.over_ofText site.source) hplace fun htype => absurd htype hcomment]
  obtain ⟨taken, hsplit, rfl⟩ := hplace
  split
  · show _ ≤ site.ending.offset
    rw [site.offset_ending, Line.contentEnd, hsplit, Text.bytes_append]
    omega
  · exact Nat.le_add_right _ _

/-- What a scanner hands out at a lexeme. -/
theorem scan_proseAt {c : Char} {more : Text} {lexeme : Lexeme} (hplace : site.Place place (c :: left))
    (hblank : Text.isBlank c = false) (hfirst : Lexeme.first? .text (c :: left) = some (lexeme, more)) :
    (site.proseAt place).scan =
      (.inSource site.source lexeme.kind lexeme.text place, site.proseAt (place + Text.bytes lexeme.text)) := by
  obtain ⟨htake, hdrop⟩ := @Text.trimmed_iff (c :: left) |>.mp fun d hd => Option.some.inj hd ▸ hblank
  rw [proseAt, site.scan_eq .text (Scanner.over_ofText site.source) hplace fun htype => absurd htype hcomment, htake,
    hdrop, hfirst]
  rfl

theorem meets_jump {c : Char} {target : Nat} (hplace : site.Place place (c :: left)) (hblank : Text.isBlank c = false)
    (hstop : place < stop) (hgap : gaps.lookup place = some target)
    (h : Scanner.Meets gaps stop (site.proseAt target) words) : Scanner.Meets gaps stop (site.proseAt place) words := by
  obtain ⟨lexeme, more, hfirst⟩ := Lexeme.exists_first? .text (List.cons_ne_nil c left)
  have hoffset : (site.proseAt place).scan.1.offset = place := by rw [scan_proseAt hcomment hplace hblank hfirst]; rfl
  exact .jump (hoffset.symm ▸ hstop) (hoffset.symm ▸ hgap) h

theorem meets_word {c : Char} {more : Text} {lexeme : Lexeme} (hplace : site.Place place (c :: left))
    (hblank : Text.isBlank c = false) (hfirst : Lexeme.first? .text (c :: left) = some (lexeme, more))
    (hkind : lexeme.kind = .word) (hstop : place < stop) (hgap : gaps.lookup place = none)
    (h : Scanner.Meets gaps stop (site.proseAt (place + Text.bytes lexeme.text)) words) :
    Scanner.Meets gaps stop (site.proseAt place) ((place, place + Text.bytes lexeme.text) :: words) := by
  have hscan := scan_proseAt hcomment hplace hblank hfirst
  have hword := @Scanner.Meets.word gaps stop (site.proseAt place) words
  rw [hscan] at hword
  exact hword hstop hgap hkind h

theorem meets_other {c : Char} {more : Text} {lexeme : Lexeme} (hplace : site.Place place (c :: left))
    (hblank : Text.isBlank c = false) (hfirst : Lexeme.first? .text (c :: left) = some (lexeme, more))
    (hkind : lexeme.kind ≠ .word) (hstop : place < stop) (hgap : gaps.lookup place = none)
    (h : Scanner.Meets gaps stop (site.proseAt (place + Text.bytes lexeme.text)) words) :
    Scanner.Meets gaps stop (site.proseAt place) words := by
  have hscan := scan_proseAt hcomment hplace hblank hfirst
  exact .other (by rw [hscan]; exact hstop) (by rw [hscan]; exact hgap) (by rw [hscan]; exact hkind)
    (by rw [hscan]; exact h)

/-- What is no word makes no difference, in front of what no number goes on with. -/
theorem meets_wordless (hplace : site.Place place (front ++ left)) (hfront : front.Wordless)
    (hnext : ∀ c ∈ left.head?, Text.isNumeral c = false)
    (hgaps : ∀ gap ∈ gaps, place ≤ gap.1 → place + Text.bytes front ≤ gap.1)
    (hstop : words ≠ [] → place + Text.bytes front ≤ stop)
    (h : Scanner.Meets gaps stop (site.proseAt (place + Text.bytes front)) words) :
    Scanner.Meets gaps stop (site.proseAt place) words := by
  induction hlength : front.length using Nat.strongRecOn generalizing front place with
  | ind size ih =>
      rcases front with _ | ⟨c, front⟩
      · exact h
      -- The walk goes on behind any piece of the front.
      have hbehind {piece rest : Text} (hsplit : c :: front = piece ++ rest) (hpiece : piece ≠ []) :
          Scanner.Meets gaps stop (site.proseAt (place + Text.bytes piece)) words := by
        have hbytes : place + Text.bytes (c :: front) = place + Text.bytes piece + Text.bytes rest := by
          rw [hsplit, Text.bytes_append, Nat.add_assoc]
        have hshorter : rest.length < size := by
          have hpos := List.length_pos_iff.mpr hpiece
          have hwhole := congrArg List.length hsplit
          rw [List.length_append] at hwhole
          omega
        have hplace' : site.Place place (piece ++ (rest ++ left)) := by rwa [← List.append_assoc, ← hsplit]
        rw [hbytes] at h hgaps hstop
        exact ih rest.length hshorter hplace'.advance
          (fun d hd => hfront d (hsplit ▸ List.mem_append_right _ hd))
          (fun gap hgap hle => hgaps gap hgap (Nat.le_trans (Nat.le_add_right _ _) hle)) hstop h rfl
      have hletter : Text.isLetter c = false := hfront c List.mem_cons_self
      by_cases hblank : Text.isBlank c = true
      · exact meets_blank hcomment hplace hblank (@hbehind [c] front rfl (List.cons_ne_nil _ _))
      · rw [Bool.not_eq_true] at hblank
        obtain ⟨lexeme, more, hfirst⟩ := Lexeme.exists_first? .text (List.cons_ne_nil c (front ++ left))
        obtain ⟨hkind, rest, hsplit⟩ := Lexeme.ends_of_isLetter hfirst hletter hnext
        have hbytes := Text.bytes_pos (List.cons_ne_nil c front)
        have hnone : gaps.lookup place = none := by
          refine List.lookup_eq_none_iff.mpr fun gap hgap => ?_
          rw [bne_iff_ne]
          rintro rfl
          have hle := hgaps gap hgap (Nat.le_refl _)
          omega
        rcases Nat.lt_or_ge place stop with hbefore | hover
        · exact meets_other hcomment hplace hblank hfirst hkind hbefore hnone
            (hbehind hsplit (Lexeme.ne_nil_of_first? hfirst))
        · have hwords : words = [] := by
            by_contra hne
            have hle := hstop hne
            omega
          rw [hwords]
          refine .done ?_
          rw [scan_proseAt hcomment hplace hblank hfirst]
          exact hover

end Steps

end Site

end Gamebook
