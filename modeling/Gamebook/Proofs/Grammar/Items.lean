import Gamebook.Proofs.Grammar.Complete
import Gamebook.Proofs.Grammar.Prose
import Gamebook.Proofs.Grammar.Shift

/-!
Prose put together from words, replacements and multireplaces. Written out with single spaces it is read back as
it was put together, however deep multireplaces stand in the branches of others: what is inside the braces is cut
in its own mode, and each construct leaves the reader in prose right behind its closing brace.
-/

namespace Gamebook

/-! ### Prose and how it is written -/

/-- An expression of some level as it is written on a line, with its derivation. -/
structure Written (level : Nat) where
  text : Text
  shape : Shape
  derives : Derives level (Lexeme.sequence .command 0 text) shape
  unbroken : '\n' ∉ text

/-- A word of prose: letters, with single apostrophes between them. -/
structure Spelled where
  text : Text
  spelled : text ∈ LexemeForm.word.language

/-- An item of prose. A multireplace has two branches at least, which are prose again. -/
inductive Item where
  | word (own : Spelled)
  | replacement (fold : CaseFold) (value : Written 0)
  | multireplace (selector : Written 6) (first second : List Item) (more : List (List Item))

/-- How many exclamation marks ask for the case. -/
def CaseFold.bangs : CaseFold → Nat
  | none => 0
  | capitalize => 1
  | upper => 2

namespace Item

mutual

def text : Item → Text
  | word own => own.text
  | replacement fold value => '$' :: (List.replicate fold.bangs '!' ++ '\x7b' :: (value.text ++ ['\x7d']))
  | multireplace selector first second more =>
    '@' :: '\x7b' :: (selector.text ++ ' ' :: (spaced first ++ '|' :: (spaced second ++ (barred more ++ ['\x7d']))))

def spaced : List Item → Text
  | [] => []
  | item :: more => item.text ++ followed more

/-- Items with a space in front of each. -/
def followed : List Item → Text
  | [] => []
  | item :: more => ' ' :: (item.text ++ followed more)

def barred : List (List Item) → Text
  | [] => []
  | branch :: more => '|' :: (spaced branch ++ barred more)

end

/-- A branch with the given parts; one without parts stands right before the sign that ends it. -/
def branchShape (offset : Nat) : List Shape → Shape
  | [] => .leaf .multiReplaceOption offset offset
  | part :: more => .node .multiReplaceOption (part :: more)

mutual

def shape (offset : Nat) : Item → Shape
  | word own => .leaf .realWord offset (offset + Text.bytes own.text)
  | replacement fold value => .node (.variableReplacement fold) [value.shape.shift (offset + 1 + fold.bangs + 1)]
  | multireplace selector first second more =>
    let start := offset + 1 + 1 + Text.bytes selector.text + 1
    let bar := start + Text.bytes (spaced first)
    .node .multiReplace (selector.shape.shift (offset + 1 + 1) :: branchShape start (shapes start first) ::
      branchShape (bar + 1) (shapes (bar + 1) second) :: barredShapes (bar + 1 + Text.bytes (spaced second)) more)

def shapes (offset : Nat) : List Item → List Shape
  | [] => []
  | item :: more => shape offset item :: shapes (offset + Text.bytes item.text + 1) more

def barredShapes (offset : Nat) : List (List Item) → List Shape
  | [] => []
  | branch :: more => branchShape (offset + 1) (shapes (offset + 1) branch) ::
      barredShapes (offset + 1 + Text.bytes (spaced branch)) more

end

/-- What holds of words and replacements, and of multireplaces if it holds of all items in their branches, holds of
all items. -/
theorem induction {motive : Item → Prop} (word : ∀ own, motive (.word own))
    (replacement : ∀ fold value, motive (.replacement fold value))
    (multireplace : ∀ selector first second more, (∀ branch ∈ first :: second :: more, ∀ item ∈ branch, motive item) →
      motive (.multireplace selector first second more)) (item : Item) : motive item :=
  @Item.rec motive (fun items => ∀ item ∈ items, motive item)
    (fun branches => ∀ branch ∈ branches, ∀ item ∈ branch, motive item) word replacement
    (fun selector first second more hfirst hsecond hmore => multireplace selector first second more
      (List.forall_mem_cons.mpr ⟨hfirst, List.forall_mem_cons.mpr ⟨hsecond, hmore⟩⟩))
    (List.forall_mem_nil _) (fun _ _ hitem hmore => List.forall_mem_cons.mpr ⟨hitem, hmore⟩)
    (List.forall_mem_nil _) (fun _ _ hbranch hmore => List.forall_mem_cons.mpr ⟨hbranch, hmore⟩) item

theorem bytes_replacement (fold : CaseFold) (value : Written 0) :
    Text.bytes (replacement fold value).text = 1 + fold.bangs + 1 + Text.bytes value.text + 1 := by
  have hmarks : Text.bytes (List.replicate fold.bangs '!') = fold.bangs := by cases fold <;> rfl
  have hbrace : Text.bytes ['\x7d'] = 1 := rfl
  have hsigns : '$'.utf8Size = 1 ∧ '\x7b'.utf8Size = 1 := ⟨rfl, rfl⟩
  rw [text, Text.bytes_cons, Text.bytes_append, Text.bytes_cons, Text.bytes_append, hmarks, hbrace, hsigns.1, hsigns.2]
  omega

section Multireplace

variable (selector : Written 6) (first second : List Item) (more : List (List Item))

theorem text_multireplace : (multireplace selector first second more).text =
    ['@', '\x7b'] ++ (selector.text ++ ([' '] ++ (spaced first ++ (barred (second :: more) ++ ['\x7d'])))) := by
  simp [text, barred]

theorem bytes_multireplace : Text.bytes (multireplace selector first second more).text =
    1 + 1 + Text.bytes selector.text + 1 + Text.bytes (spaced first) + Text.bytes (barred (second :: more)) + 1 := by
  have hsigns : Text.bytes ['@', '\x7b'] = 2 ∧ Text.bytes [' '] = 1 ∧ Text.bytes ['\x7d'] = 1 := ⟨rfl, rfl, rfl⟩
  rw [text_multireplace]
  simp only [Text.bytes_append, hsigns]
  omega

end Multireplace

/-- The characters with which items begin. -/
def opens (c : Char) : Bool := Text.isLetter c || c == '$' || c == '@'

theorem exists_cons (item : Item) : ∃ c rest, item.text = c :: rest ∧ opens c = true := by
  cases item with
  | word own =>
      obtain ⟨c, rest, hcons, hletter, -⟩ := Text.exists_of_mem_word own.spelled
      exact ⟨c, rest, by rw [text, hcons], by rw [opens, hletter]; rfl⟩
  | replacement fold value => exact ⟨_, _, by rw [text], by decide +kernel⟩
  | multireplace selector first second more => exact ⟨_, _, by rw [text], by decide +kernel⟩

/-- A branch in front of a bar begins as its first item does, or with the bar. -/
theorem exists_cons_branch (branch : List Item) (tail : Text) :
    ∃ c left, spaced branch ++ '|' :: tail = c :: left ∧ (opens c || c == '|') = true := by
  cases branch with
  | nil => exact ⟨'|', tail, by rw [spaced]; rfl, by decide +kernel⟩
  | cons item more =>
      obtain ⟨c, rest, hcons, hopens⟩ := item.exists_cons
      exact ⟨c, _, by rw [spaced, hcons]; rfl, by rw [hopens]; rfl⟩

/-- Neither a blank nor anything that makes a line a command or an option begins an item. -/
theorem ne_of_opens {c : Char} (h : (opens c || c == '|') = true) : Text.isBlank c = false ∧ c ≠ '*' ∧ c ≠ '#' := by
  have hnone : ([' ', '\t', '*', '#'].all fun d => !(opens d || d == '|')) = true := by decide +kernel
  have hne : ∀ d ∈ [' ', '\t', '*', '#'], c ≠ d := by
    rintro d hd rfl
    have hclosed := List.all_eq_true.mp hnone c hd
    rw [h] at hclosed
    cases hclosed
  refine ⟨?_, hne '*' (by decide), hne '#' (by decide)⟩
  rw [Text.isBlank, beq_false_of_ne (hne ' ' (by decide)), beq_false_of_ne (hne '\t' (by decide))]
  rfl

end Item

/-! ### Readers in front of a text -/

theorem Lexeme.first?_bang (left : Text) : first? .text ('!' :: left) = some (⟨.delim '!', ['!']⟩, left) := by
  have hletter : Text.isLetter '!' = false := by decide +kernel
  have hnumber := Pattern.numberLength_eq_zero (c := '!') (by decide) left
  have hnone : Pattern.longestOf ('!' :: left) Mode.text.patterns = none := by
    simp [Pattern.longestOf, Mode.patterns, Pattern.ofProse, Pattern.signs, Pattern.fixed, Pattern.wordLength, hletter,
      hnumber]
  rw [first?, hnone]

/-- A term ends where a branch begins. -/
theorem ends_term {c : Char} (hc : (Item.opens c || c == '|') = true) (offset : Nat) (left : Text) :
    Ends 6 (Lexeme.sequence .command offset (c :: left)) := by
  have hdrop := Text.dropWhile_of_head (Item.ne_of_opens hc).1 left
  have hsign {kind : TokenKind} (hsign : (kind, [c]) ∈ LexemeForm.signs) (hkind : kind ≠ .bracketL) :
      ∀ sign ∈ (Lexeme.sequence .command offset (c :: left)).head?, sign.lexeme.kind ≠ .bracketL := by
    rw [Lexeme.sequence_of_first? (hdrop.symm ▸ Lexeme.first?_sign .command hsign left)]
    rintro _ ⟨⟩
    exact hkind
  refine ⟨?_, fun _ _ op _ => op.rank_lt⟩
  simp only [Item.opens, Bool.or_eq_true, beq_iff_eq] at hc
  rcases hc with ((hletter | rfl) | rfl) | rfl
  · have hname := Lexeme.first?_name (Bool.or_eq_true_iff.mpr (.inl hletter)) left
    rw [Lexeme.sequence_of_first? (hdrop.symm ▸ hname)]
    rintro _ ⟨⟩
    exact nofun
  · exact @hsign .dollar (by decide) (by decide)
  · exact @hsign .atSign (by decide) (by decide)
  · exact @hsign .pipe (by decide) (by decide)

namespace Reader

variable {r behind : Reader} {mode : Mode} {offset : Nat} {text : Text}

/-- The reader stands before a text that begins at the offset, behind its blanks. -/
structure Faces (r : Reader) (mode : Mode) (offset : Nat) (text : Text) : Prop where
  mode : r.mode = mode
  rest : r.rest = text.dropWhile Text.isBlank
  offset : r.offset = offset + (text.takeWhile Text.isBlank).length
  ordered : r.Ordered

namespace Faces

theorem trimmed (h : r.Faces mode offset text) : r.Trimmed := by
  rw [Trimmed, h.rest]
  exact Text.trimmed_dropWhile text

theorem switch (h : r.Faces mode offset text) (other : Mode) : (r.switch other).Faces other offset text :=
  ⟨rfl, h.rest, h.offset, h.ordered⟩

theorem lexemes (h : r.Faces mode offset text) : r.lexemes = Lexeme.sequence mode offset text := by
  rw [Reader.lexemes, h.mode, h.rest, h.offset, Lexeme.sequence_dropWhile]

theorem length_le (h : r.Faces mode offset text) : r.rest.length ≤ text.length := by
  rw [h.rest]
  exact (List.dropWhile_sublist _).length_le

/-- A blank makes no difference. -/
theorem blank (h : r.Faces mode offset (' ' :: text)) : r.Faces mode (offset + 1) text := by
  refine ⟨h.mode, h.rest, h.offset.trans ?_, h.ordered⟩
  show offset + ((text.takeWhile Text.isBlank).length + 1) = _
  omega

theorem advance {taken left : Text} (h : r.Faces mode offset (taken ++ left))
    (hblank : ∀ c ∈ (taken ++ left).head?, Text.isBlank c = false) :
    r.rest = taken ++ left ∧ r.offset = offset ∧
      (r.advance taken left).Faces mode (offset + Text.bytes taken) left := by
  obtain ⟨htake, hdrop⟩ := Text.trimmed_iff.mp hblank
  have hrest := h.rest.trans hdrop
  have hoffset : r.offset = offset := by
    rw [h.offset, htake]
    rfl
  exact ⟨hrest, hoffset, h.mode, rfl, by rw [← hoffset]; rfl, Nat.le_add_right _ _⟩

/-- A single character is taken. -/
theorem single {c : Char} {left : Text} (h : r.Faces mode offset (c :: left)) (hblank : Text.isBlank c = false)
    (hsize : c.utf8Size = 1) {kind : TokenKind} (hfirst : Lexeme.first? mode (c :: left) = some (⟨kind, [c]⟩, left)) :
    r.kind? = some kind ∧ r.offset = offset ∧ r.next.Faces mode (offset + 1) left ∧ r.next.lastEnd = offset + 1 := by
  obtain ⟨hrest, hoffset, hnext⟩ := @advance r mode offset [c] left h (by rintro _ ⟨⟩; exact hblank)
  have hone : Text.bytes [c] = 1 := (Text.bytes_cons c []).trans (congrArg (· + 0) hsize)
  rw [hone] at hnext
  rw [← h.mode] at hfirst
  have hfirst : Lexeme.first? r.mode r.rest = some (⟨kind, [c]⟩, left) := hrest ▸ hfirst
  rw [next_of_first? hfirst]
  refine ⟨by rw [kind?, lexeme?, hfirst]; rfl, hoffset, hnext, ?_⟩
  rw [← hoffset, ← hone]
  rfl

/-- A sign is taken. -/
theorem sign {c : Char} {left : Text} (h : r.Faces mode offset (c :: left)) (kind : TokenKind)
    (hsign : (kind, [c]) ∈ LexemeForm.signs) :
    r.kind? = some kind ∧ r.offset = offset ∧ r.next.Faces mode (offset + 1) left ∧ r.next.lastEnd = offset + 1 := by
  have hall : (LexemeForm.signs.all fun entry => entry.2.all fun d => !Text.isBlank d && d.utf8Size == 1) = true := by
    decide
  have hc := List.all_eq_true.mp (List.all_eq_true.mp hall _ hsign) c (List.mem_singleton_self c)
  rw [Bool.and_eq_true, Bool.not_eq_true', beq_iff_eq] at hc
  exact h.single hc.1 hc.2 (Lexeme.first?_sign mode hsign left)

/-- The lexemes of what is left tell what is left. -/
theorem left {front back : Text} (h : r.Faces mode offset (front ++ back)) (hreach : r.Reaches behind)
    (hlexemes : behind.lexemes = Lexeme.sequence .command (offset + Text.bytes front) back)
    (hne : back.dropWhile Text.isBlank ≠ []) : behind.Faces behind.mode (offset + Text.bytes front) back := by
  have hoffset : behind.offset = offset + Text.bytes front + (back.takeWhile Text.isBlank).length := by
    cases hfirst : Lexeme.first? .command (back.dropWhile Text.isBlank) with
    | none => exact absurd (Lexeme.first?_eq_none_iff.mp hfirst) hne
    | some found =>
        rw [Lexeme.sequence_of_first? hfirst] at hlexemes
        exact (before_of_lexemes (hreach.trimmed h.trimmed) hlexemes).offset
  obtain ⟨taken, hrest, hbehind⟩ := hreach.exists_front
  refine ⟨rfl, ?_, hoffset, hreach.ordered h.ordered⟩
  have hwhole : (front ++ back).takeWhile Text.isBlank ++ taken ++ behind.rest =
      front ++ back.takeWhile Text.isBlank ++ back.dropWhile Text.isBlank := by
    rw [List.append_assoc, ← hrest, h.rest, List.takeWhile_append_dropWhile, List.append_assoc,
      List.takeWhile_append_dropWhile]
  refine Text.left_inj hwhole ?_
  rw [Text.bytes_append, Text.bytes_append, Text.bytes_takeWhile_isBlank, Text.bytes_takeWhile_isBlank]
  have hstart := h.offset
  omega

end Faces

/-! ### Constructs -/

theorem closeBrace_faces {tail : Text} (h : r.Faces mode offset ('\x7d' :: tail)) (phrase : Phrase) :
    ∃ behind, closeBrace phrase r = (phrase.finish behind, behind) ∧ behind.Faces .text (offset + 1) tail := by
  obtain ⟨hkind, -, hnext, -⟩ := h.sign .curlyR (by decide)
  have hsees : r.sees .curlyR = true := by rw [sees, hkind]; rfl
  refine ⟨r.next.switch .text, ?_, hnext.switch .text⟩
  simp only [closeBrace, accept, hsees, if_true]

theorem opensBrace_faces {left : Text} (h : r.Faces mode offset ('\x7b' :: left)) (hlast : r.lastEnd = offset) :
    r.opensBrace = true ∧ r.next.Faces mode (offset + 1) left := by
  obtain ⟨hkind, hoffset, hnext, -⟩ := h.sign .curlyL (by decide)
  refine ⟨?_, hnext⟩
  rw [opensBrace, sees, hkind, followsDirectly, hlast, hoffset, beq_self_eq_true, beq_self_eq_true]
  rfl

theorem bangs_faces {count budget : Nat} {left : Text}
    (h : r.Faces .text offset (List.replicate count '!' ++ '\x7b' :: left)) (hlast : r.lastEnd = offset)
    (hbudget : count < budget) : ∃ behind, bangs budget r = (count, behind) ∧
      behind.Faces .text (offset + count) ('\x7b' :: left) ∧ behind.lastEnd = offset + count := by
  obtain ⟨budget, rfl⟩ := Nat.exists_eq_add_one.mpr (Nat.zero_lt_of_lt hbudget)
  induction count generalizing r offset budget with
  | zero =>
      have hkind := (h.sign .curlyL (by decide)).1
      have hsees : r.sees (.delim '!') = false := by rw [sees, hkind]; rfl
      exact ⟨r, by rw [bangs, hsees, Bool.false_and, if_neg Bool.false_ne_true], h, hlast⟩
  | succ count ih =>
      obtain ⟨hkind, hoffset, hnext, hlast'⟩ := h.single (by decide) (by decide) (Lexeme.first?_bang _)
      have hmore := Nat.lt_of_succ_lt_succ hbudget
      obtain ⟨budget, rfl⟩ := Nat.exists_eq_add_one.mpr (Nat.zero_lt_of_lt hmore)
      have hdirectly : (r.sees (.delim '!') && r.followsDirectly) = true := by
        rw [sees, hkind, followsDirectly, hlast, hoffset, beq_self_eq_true, beq_self_eq_true]
        rfl
      obtain ⟨behind, hbangs, hbehind, hend⟩ := ih hnext hlast' budget hmore
      refine ⟨behind, ?_, ?_, ?_⟩
      · rw [bangs, if_pos hdirectly, hbangs]
      · rwa [Nat.add_right_comm, Nat.add_assoc] at hbehind
      · omega

/-- What is written is read by a rule that finds every derivation, up to a character that separates it from the
rest. -/
theorem Faces.found {level : Nat} {rule : Reading} {value : Written level} {c : Char} {left : Text}
    (hregular : Regular rule) (hfinds : ∀ bound, Finds level bound rule)
    (h : r.Faces .command offset (value.text ++ c :: left)) (hseparates : Pattern.separates c = true)
    (hne : (c :: left).dropWhile Text.isBlank ≠ [])
    (hends : Ends level (Lexeme.sequence .command (offset + Text.bytes value.text) (c :: left))) :
    ∃ part behind, rule r = (some part, behind) ∧ part.Clean ∧ part.Shows (value.shape.shift offset) ∧
      behind.Faces behind.mode (offset + Text.bytes value.text) (c :: left) := by
  have hderives := value.derives.moved offset
  have hlexemes := h.lexemes.trans (Lexeme.sequence_before hderives.ne_badString hseparates left)
  obtain ⟨⟨part, behind⟩, houtcome, hfound⟩ :=
    hfinds _ r _ _ _ h.trimmed (Nat.lt_succ_self _) hlexemes hderives hends
  have hreach := (hregular r).reaches
  rw [houtcome] at hreach
  exact ⟨part, behind, houtcome, hfound.clean, hfound.shown, h.left hreach hfound.left hne⟩

/-- An expression is read up to a closing brace. -/
theorem Faces.value {value : Written 0} {left : Text}
    (h : r.Faces .command offset (value.text ++ '\x7d' :: left)) :
    ∃ part behind, expression r = (some part, behind) ∧ part.Clean ∧ part.Shows (value.shape.shift offset) ∧
      behind.Faces behind.mode (offset + Text.bytes value.text) ('\x7d' :: left) := by
  refine h.found expression_regular (fun _ _ _ _ _ htrimmed _ => expression_finds htrimmed) Pattern.separates_curlyR
    (List.cons_ne_nil _ _) ?_
  have hfirst : Lexeme.first? .command (('\x7d' :: left).dropWhile Text.isBlank) = some (⟨.curlyR, ['\x7d']⟩, left) :=
    Lexeme.first?_sign .command (by decide) left
  rw [Lexeme.sequence_of_first? hfirst]
  exact ends_closing rfl 0 _

/-- A term is read up to the blank in front of a branch. -/
theorem Faces.selector {value : Written 6} {c : Char} {left : Text}
    (h : r.Faces .command offset (value.text ++ ' ' :: c :: left)) (hc : (Item.opens c || c == '|') = true) :
    ∃ part behind, term r = (some part, behind) ∧ part.Clean ∧ part.Shows (value.shape.shift offset) ∧
      behind.Faces behind.mode (offset + Text.bytes value.text) (' ' :: c :: left) := by
  refine h.found term_regular (fun _ _ _ _ _ htrimmed _ => term_finds htrimmed) Pattern.separates_blank ?_ ?_
  · show (c :: left).dropWhile Text.isBlank ≠ []
    rw [Text.dropWhile_of_head (Item.ne_of_opens hc).1]
    exact List.cons_ne_nil _ _
  · rw [show ' ' :: c :: left = [' '] ++ c :: left from rfl, Lexeme.sequence_blanks (List.forall_mem_singleton.mpr rfl)]
    exact ends_term hc _ left

/-- An item that is written at the offset, with a text behind it, is read as the part. -/
structure Obtains (item : Item) (offset : Nat) (tail : Text) (part : Phrase) (behind : Reader) : Prop where
  clean : part.Clean
  shown : part.Shows (item.shape offset)
  behind : behind.Faces .text (offset + Text.bytes item.text) tail

theorem replacement_obtains {fold : CaseFold} {value : Written 0} {tail : Text}
    (h : r.Faces .text offset ((Item.replacement fold value).text ++ tail)) :
    r.kind? = some .dollar ∧ ∃ part behind, replacement r = (some part, behind) ∧
      Obtains (.replacement fold value) offset tail part behind := by
  have htext : (Item.replacement fold value).text ++ tail =
      '$' :: (List.replicate fold.bangs '!' ++ '\x7b' :: (value.text ++ '\x7d' :: tail)) := by
    simp [Item.text]
  rw [htext] at h
  have hrest := h.rest
  obtain ⟨hkind, hoffset, hsigned, hlast⟩ := h.sign .dollar (by decide)
  have hbudget : fold.bangs < r.rest.length := by
    rw [Text.dropWhile_of_head (by decide)] at hrest
    simp only [hrest, List.length_cons, List.length_append, List.length_replicate]
    omega
  obtain ⟨marked, hbangs, hmarked, hend⟩ := bangs_faces hsigned hlast hbudget
  obtain ⟨hopens, hopened⟩ := opensBrace_faces hmarked hend
  obtain ⟨inner, middle, hinner, hclean, hshown, hmiddle⟩ := (hopened.switch .command).value
  obtain ⟨behind, hclose, hbehind⟩ := closeBrace_faces hmiddle
    ((Phrase.begin (.variableReplacement fold) r).add inner)
  have hfold : foldOfBangs? fold.bangs = some fold := by cases fold <;> rfl
  refine ⟨hkind, ((Phrase.begin (.variableReplacement fold) r).add inner).finish behind, behind, ?_, ?_, ?_, ?_⟩
  · simp only [replacement, hbangs, hfold, hopens, if_true, hinner, Phrase.addOr, hclose]
  · rw [Phrase.clean_finish, Phrase.clean_add]
    exact ⟨Phrase.clean_begin _ _, hclean⟩
  · rw [Item.shape]
    exact Phrase.shows_node rfl (List.cons_ne_nil _ _) (.cons hshown .nil)
  · rw [Item.bytes_replacement]
    simpa only [Nat.add_assoc] using hbehind

theorem branchShape_shows {phrase : Phrase} {parts : List Phrase} {shapes : List Shape}
    (hkind : phrase.kind = .multiReplaceOption) (hparts : phrase.parts = parts)
    (hshapes : List.Forall₂ Phrase.Shows parts shapes)
    (hempty : shapes = [] → phrase.start = offset ∧ phrase.stop = offset) :
    phrase.Shows (Item.branchShape offset shapes) := by
  subst hparts
  cases shapes with
  | nil => exact .leaf hkind (hempty rfl).1 (hempty rfl).2 (List.forall₂_nil_right_iff.mp hshapes)
  | cons shape more =>
      refine Phrase.shows_node (by rw [hkind]; rfl) (fun hnil => ?_) hshapes
      rw [hnil] at hshapes
      cases hshapes

/-! ### Prose -/

/-- Prose reads the item, whatever stands behind it that does not go on with a word. -/
def Legible (item : Item) : Prop :=
  ∀ {r : Reader} {offset budget : Nat} {tail : Text}, r.Faces .text offset (item.text ++ tail) →
    (∀ c ∈ tail.head?, Pattern.continuesWord c = false) → r.rest.length ≤ budget →
    ∃ kind part behind, r.kind? = some kind ∧ endsBranch kind = false ∧
      prosePart budget kind r = (some part, behind) ∧ Obtains item offset tail part behind

theorem word_legible (own : Spelled) : Legible (.word own) := by
  intro r offset budget tail h htail _
  have htrimmed := h.trimmed
  obtain ⟨c, letters, hcons, -, hblank⟩ := Text.exists_of_mem_word own.spelled
  have hmode := h.mode
  rw [Item.text] at h
  obtain ⟨hrest, hoffset, hnext⟩ := h.advance (by rw [hcons]; rintro _ ⟨⟩; exact hblank)
  have hfirst := Lexeme.first?_word own.spelled htail
  rw [← hmode, ← hrest] at hfirst
  have hlexeme : r.lexeme? = some ⟨.word, own.text⟩ := by rw [lexeme?, hfirst]; rfl
  have hbefore := (lexemes_of_lexeme? htrimmed hlexeme).1
  have hleaf := hbefore.leaf .realWord
  refine ⟨.word, (r.leaf .realWord).1, r.next, hbefore.kind?, rfl, rfl, hleaf.clean, ?_, ?_⟩
  · rw [Item.shape, ← hoffset]
    exact hleaf.shown
  · rw [Item.text, next_of_first? hfirst]
    exact hnext

/-- Prose takes what is written in front of the tail, and makes parts without errors of it that look like the shapes. -/
def Takes (ends : TokenKind → Bool) (tail written : Text) (shapes : Nat → List Shape) : Prop :=
  ∀ {r : Reader} {offset budget : Nat}, r.Faces .text offset (written ++ tail) → r.rest.length < budget →
    ∀ phrase : Phrase, ∃ parts behind, proseWithin budget ends phrase r = (phrase.addAll parts, behind) ∧
      (∀ part ∈ parts, part.Clean) ∧ List.Forall₂ Phrase.Shows parts (shapes offset) ∧
      behind.Faces .text (offset + Text.bytes written) tail

section Items

variable {ends : TokenKind → Bool} {tail : Text}

/-- In front of what ends prose the reader stays where it is. -/
theorem takes_nil (hends : ∀ {r : Reader} {offset : Nat}, r.Faces .text offset tail → ∀ kind ∈ r.kind?,
    ends kind = true) : Takes ends tail [] fun _ => [] := by
  intro r offset budget h hbudget phrase
  obtain ⟨budget, rfl⟩ := Nat.exists_eq_add_one.mpr (Nat.zero_lt_of_lt hbudget)
  refine ⟨[], r, ?_, List.forall_mem_nil _, .nil, h⟩
  rw [proseWithin_succ, Phrase.addAll_nil]
  cases hkind : r.kind? with
  | none => rfl
  | some kind => exact if_pos (hends h kind hkind)

theorem takes_blank {written : Text} {shapes : Nat → List Shape} (h : Takes ends tail written shapes) :
    Takes ends tail (' ' :: written) fun offset => shapes (offset + 1) := by
  intro r offset budget hfaces hbudget phrase
  rw [Text.bytes_cons, ← Nat.add_assoc]
  exact h hfaces.blank hbudget phrase

variable (hgoes : ∀ kind, endsBranch kind = false → ends kind = false)
include hgoes

/-- An item is taken, and then what stands behind it. -/
theorem takes_item {item : Item} (hitem : Legible item) {more : Text} {shapes : Nat → List Shape}
    (hhead : ∀ c ∈ (more ++ tail).head?, Pattern.continuesWord c = false) (hmore : Takes ends tail more shapes) :
    Takes ends tail (item.text ++ more)
      fun offset => item.shape offset :: shapes (offset + Text.bytes item.text) := by
  intro r offset budget h hbudget phrase
  obtain ⟨budget, rfl⟩ := Nat.exists_eq_add_one.mpr (Nat.zero_lt_of_lt hbudget)
  rw [List.append_assoc] at h
  obtain ⟨kind, part, middle, hkind, hbranch, hpart, hobtains⟩ := hitem h hhead (Nat.le_of_lt_succ hbudget)
  have hstep : proseWithin (budget + 1) ends phrase r = proseWithin budget ends (phrase.add part) middle := by
    simp only [proseWithin_succ, hkind, hgoes kind hbranch, Bool.false_eq_true, if_false, hpart]
  have hlength : middle.rest.length < budget := by
    have hyields := prosePart_mayYield (proseWithin_extending budget endsBranch) r kind
    rw [hpart] at hyields
    cases hyields with
    | found hyields =>
        exact Nat.lt_of_le_of_lt hyields.taken.length_le
          (Nat.lt_of_lt_of_le (next_length_lt (rest_ne_nil_of_kind? hkind)) (Nat.le_of_lt_succ hbudget))
  obtain ⟨parts, behind, hrun, hclean, hshown, hbehind⟩ := hmore hobtains.behind hlength (phrase.add part)
  refine ⟨part :: parts, behind, by rw [hstep, hrun, Phrase.addAll_cons], ?_, .cons hobtains.shown hshown, ?_⟩
  · exact List.forall_mem_cons.mpr ⟨hobtains.clean, hclean⟩
  · rwa [Text.bytes_append, ← Nat.add_assoc]

variable (htail : ∀ c ∈ tail.head?, Pattern.continuesWord c = false)
  (hends : ∀ {r : Reader} {offset : Nat}, r.Faces .text offset tail → ∀ kind ∈ r.kind?, ends kind = true)
include htail hends

omit hgoes hends in
theorem head_followed (items : List Item) :
    ∀ c ∈ (Item.followed items ++ tail).head?, Pattern.continuesWord c = false := by
  cases items with
  | nil => rwa [Item.followed]
  | cons item more =>
      rw [Item.followed]
      rintro _ ⟨⟩
      exact Pattern.continuesWord_of_isBlank rfl

/-- Items behind others are read one by one, up to what ends prose. -/
theorem takes_followed {items : List Item} (hitems : ∀ item ∈ items, Legible item) :
    Takes ends tail (Item.followed items) fun offset => Item.shapes (offset + 1) items := by
  induction items with
  | nil =>
      rw [Item.followed]
      exact takes_nil hends
  | cons item more ih =>
      obtain ⟨hitem, hmore⟩ := List.forall_mem_cons.mp hitems
      rw [Item.followed]
      exact takes_blank (takes_item hgoes hitem (head_followed htail more) (ih hmore))

/-- Items are read one by one, up to what ends prose. -/
theorem takes_spaced {items : List Item} (hitems : ∀ item ∈ items, Legible item) :
    Takes ends tail (Item.spaced items) fun offset => Item.shapes offset items := by
  cases items with
  | nil =>
      rw [Item.spaced]
      exact takes_nil hends
  | cons item more =>
      obtain ⟨hitem, hmore⟩ := List.forall_mem_cons.mp hitems
      rw [Item.spaced]
      exact takes_item hgoes hitem (head_followed htail more) (takes_followed hgoes htail hends hmore)

end Items

/-! ### Branches -/

/-- The branches and the brace that closes them. -/
theorem exists_closed (more : List (List Item)) (tail : Text) :
    ∃ kind c left, Item.barred more ++ '\x7d' :: tail = c :: left ∧ (kind, [c]) ∈ LexemeForm.signs ∧
      endsBranch kind = true ∧ Pattern.continuesWord c = false := by
  cases more with
  | nil => exact ⟨.curlyR, _, _, by rw [Item.barred]; rfl, by decide, rfl, by decide +kernel⟩
  | cons branch more => exact ⟨.pipe, _, _, by rw [Item.barred]; rfl, by decide, rfl, by decide +kernel⟩

/-- A branch is read up to the sign that ends it. -/
theorem branch_faces {branch : List Item} (hbranch : ∀ item ∈ branch, Legible item) {more : List (List Item)}
    {tail : Text} {budget : Nat} (h : r.Faces .text offset (Item.spaced branch ++ (Item.barred more ++ '\x7d' :: tail)))
    (hbudget : r.rest.length < budget) : ∃ content behind,
      proseWithin budget endsBranch (.begin .multiReplaceOption r) r = (content, behind) ∧ r.Reaches behind ∧
      (content.finish behind).Clean ∧
      (content.finish behind).Shows (Item.branchShape offset (Item.shapes offset branch)) ∧
      behind.Faces .text (offset + Text.bytes (Item.spaced branch)) (Item.barred more ++ '\x7d' :: tail) := by
  obtain ⟨kind, c, left, hcons, hsign, hkind, hword⟩ := exists_closed more tail
  rw [hcons] at h ⊢
  have hends {r : Reader} {offset : Nat} (h : r.Faces .text offset (c :: left)) :
      r.offset = offset ∧ ∀ other ∈ r.kind?, endsBranch other = true := by
    obtain ⟨hsees, hoffset, -⟩ := h.sign kind hsign
    exact ⟨hoffset, by rw [hsees]; rintro _ ⟨⟩; exact hkind⟩
  obtain ⟨parts, behind, hrun, hclean, hshown, hbehind⟩ := takes_spaced (fun _ => id)
    (by rintro _ ⟨⟩; exact hword) (fun h => (hends h).2) hbranch h hbudget (.begin .multiReplaceOption r)
  have hshown : List.Forall₂ Phrase.Shows parts (Item.shapes offset branch) := hshown
  have hreach := (proseWithin_extending budget endsBranch (.begin .multiReplaceOption r) r).reaches
  rw [hrun] at hreach
  refine ⟨(Phrase.begin .multiReplaceOption r).addAll parts, behind, hrun, hreach, ?_, ?_, hbehind⟩
  · rw [Phrase.clean_finish, Phrase.clean_addAll]
    exact ⟨Phrase.clean_begin _ _, hclean⟩
  · refine branchShape_shows rfl (Phrase.addAll_parts (.begin .multiReplaceOption r) parts) hshown fun hempty => ?_
    cases branch with
    | cons item others => rw [Item.shapes] at hempty; cases hempty
    | nil =>
        -- nothing is read, so that the branch stands where the sign is that ends it
        rw [hempty] at hshown
        obtain rfl := List.forall₂_nil_right_iff.mp hshown
        have hstart := (hends h).1
        have hstop := (hends hbehind).1
        have hordered : behind.lastEnd ≤ behind.offset := hbehind.ordered
        rw [Phrase.addAll_nil, Phrase.finish, Phrase.reach_start, Phrase.reach_stop]
        refine ⟨hstart, ?_⟩
        show max r.offset behind.lastEnd = offset
        rw [Item.spaced, Text.bytes_nil] at hstop
        omega

/-- Branches are read one by one, up to the brace behind them. -/
theorem branches_faces {branch : List Item} {more : List (List Item)}
    (hbranches : ∀ other ∈ branch :: more, ∀ item ∈ other, Legible item) {tail : Text} {budget count : Nat}
    (h : r.Faces .text offset (Item.spaced branch ++ (Item.barred more ++ '\x7d' :: tail)))
    (hbudget : r.rest.length < budget) (hcount : r.rest.length < count) (phrase : Phrase) :
    ∃ parts behind,
      branches (proseWithin budget endsBranch) count phrase r = (more.length + 1, phrase.addAll parts, behind) ∧
      (∀ part ∈ parts, part.Clean) ∧ List.Forall₂ Phrase.Shows parts
        (Item.branchShape offset (Item.shapes offset branch) ::
          Item.barredShapes (offset + Text.bytes (Item.spaced branch)) more) ∧
      behind.Faces .text (offset + Text.bytes (Item.spaced branch) + Text.bytes (Item.barred more))
        ('\x7d' :: tail) := by
  induction more generalizing r offset branch count phrase with
  | nil =>
      obtain ⟨content, behind, hcontent, -, hclean, hshown, hbehind⟩ :=
        branch_faces (hbranches branch List.mem_cons_self) h hbudget
      obtain ⟨count, rfl⟩ := Nat.exists_eq_add_one.mpr (Nat.zero_lt_of_lt hcount)
      rw [Item.barred, List.nil_append] at hbehind
      have hkind := (hbehind.sign .curlyR (by decide)).1
      have hlast : ¬behind.sees .pipe = true := by
        rw [sees, hkind]
        decide
      refine ⟨[content.finish behind], behind, ?_, List.forall_mem_singleton.mpr hclean, ?_, ?_⟩
      · simp only [branches, hcontent, accept, if_neg hlast]
        rfl
      · rw [Item.barredShapes]
        exact .cons hshown .nil
      · rwa [Item.barred]
  | cons next more ih =>
      obtain ⟨hbranch, hmore⟩ := List.forall_mem_cons.mp hbranches
      obtain ⟨content, middle, hcontent, hreach, hclean, hshown, hmiddle⟩ :=
        branch_faces hbranch h hbudget
      obtain ⟨count, rfl⟩ := Nat.exists_eq_add_one.mpr (Nat.zero_lt_of_lt hcount)
      rw [Item.barred, List.cons_append, List.append_assoc] at hmiddle
      obtain ⟨hkind, -, hnext, -⟩ := hmiddle.sign .pipe (by decide)
      have hpipe : middle.sees .pipe = true := by
        rw [sees, hkind]
        rfl
      have hshorter : middle.next.rest.length < r.rest.length :=
        Nat.lt_of_lt_of_le (next_length_lt (rest_ne_nil_of_kind? hkind)) hreach.length_le
      obtain ⟨parts, behind, hrun, hothers, hshapes, hbehind⟩ := ih hmore hnext (Nat.lt_trans hshorter hbudget)
        (Nat.lt_of_lt_of_le hshorter (Nat.le_of_lt_succ hcount)) (phrase.add (content.finish middle))
      refine ⟨content.finish middle :: parts, behind, ?_, List.forall_mem_cons.mpr ⟨hclean, hothers⟩, ?_, ?_⟩
      · simp only [branches, hcontent, accept, if_pos hpipe, hrun, Phrase.addAll_cons, List.length_cons]
      · rw [Item.barredShapes]
        exact .cons hshown hshapes
      · rw [Item.barred, Text.bytes_cons, Text.bytes_append, ← Nat.add_assoc, ← Nat.add_assoc]
        exact hbehind

theorem multireplace_obtains {selector : Written 6} {first second : List Item} {more : List (List Item)}
    (hbranches : ∀ branch ∈ first :: second :: more, ∀ item ∈ branch, Legible item) {tail : Text} {budget : Nat}
    (h : r.Faces .text offset ((Item.multireplace selector first second more).text ++ tail))
    (hbudget : r.rest.length ≤ budget) : r.kind? = some .atSign ∧ ∃ part behind,
      multireplace budget (proseWithin budget endsBranch) r = (some part, behind) ∧
      Obtains (.multireplace selector first second more) offset tail part behind := by
  let bars := Item.barred (second :: more) ++ '\x7d' :: tail
  have htext : (Item.multireplace selector first second more).text ++ tail =
      '@' :: '\x7b' :: (selector.text ++ ' ' :: (Item.spaced first ++ bars)) := by
    simp [bars, Item.text_multireplace]
  rw [htext] at h
  have hrest := h.rest
  obtain ⟨hkind, -, hsigned, hlast⟩ := h.sign .atSign (by decide)
  obtain ⟨hopens, hopened⟩ := opensBrace_faces hsigned hlast
  obtain ⟨c, left, hcons, hc⟩ := Item.exists_cons_branch first
    (Item.spaced second ++ (Item.barred more ++ '\x7d' :: tail))
  have hbegins : Item.spaced first ++ bars = c :: left := by
    rw [← hcons]
    simp [bars, Item.barred]
  rw [hbegins] at hopened
  obtain ⟨inner, middle, hinner, hclean, hshown, hmiddle⟩ := (hopened.switch .command).selector hc
  have hprose := (hmiddle.switch .text).blank
  have hshorter : (middle.switch .text).rest.length < r.rest.length := by
    have hlength := hmiddle.length_le
    rw [hbegins, Text.dropWhile_of_head (by decide)] at hrest
    show middle.rest.length < r.rest.length
    rw [hrest]
    simp only [List.length_cons, List.length_append] at hlength ⊢
    omega
  rw [← hbegins] at hprose
  obtain ⟨parts, last, hrun, hparts, hshapes, hlast⟩ := branches_faces hbranches hprose
    (Nat.lt_of_lt_of_le hshorter hbudget) (Nat.lt_of_lt_of_le hshorter hbudget)
    ((Phrase.begin .multiReplace r).add inner)
  obtain ⟨behind, hclose, hbehind⟩ := closeBrace_faces hlast (((Phrase.begin .multiReplace r).add inner).addAll parts)
  have henough : ¬(second :: more).length + 1 < 2 := by simp
  refine ⟨hkind, (((Phrase.begin .multiReplace r).add inner).addAll parts).finish behind, behind, ?_, ?_, ?_, ?_⟩
  · simp only [multireplace, hopens, if_true, hinner, Phrase.addOr, hrun, if_neg henough, hclose]
  · rw [Phrase.clean_finish, Phrase.clean_addAll, Phrase.clean_add]
    exact ⟨⟨Phrase.clean_begin _ _, hclean⟩, hparts⟩
  · rw [Item.barredShapes] at hshapes
    rw [Item.shape]
    exact Phrase.shows_node rfl (List.cons_ne_nil _ _) (.cons hshown hshapes)
  · rw [Item.bytes_multireplace]
    simpa only [Nat.add_assoc] using hbehind

/-- Prose reads every item. -/
theorem legible (item : Item) : Legible item := by
  induction item using Item.induction with
  | word own => exact word_legible own
  | replacement fold value =>
      intro r offset budget tail h _ _
      obtain ⟨hkind, part, behind, hpart, hobtains⟩ := replacement_obtains h
      exact ⟨.dollar, part, behind, hkind, rfl, hpart, hobtains⟩
  | multireplace selector first second more ih =>
      intro r offset budget tail h _ hbudget
      obtain ⟨hkind, part, behind, hpart, hobtains⟩ := multireplace_obtains ih h hbudget
      exact ⟨.atSign, part, behind, hkind, rfl, hpart, hobtains⟩

end Reader

end Gamebook
