import Gamebook.Text.Class

/-!
Cuts of a text: the offsets between its characters, its two ends included. They are the offsets at
which a text can be taken apart, and between two of them, in order, it has a slice.
-/

namespace Gamebook.Text

/-- The offset lies between two characters of the text, or at one of its ends. -/
def IsCut (text : Text) (offset : Nat) : Prop :=
  ∃ left right, text = left ++ right ∧ bytes left = offset

theorem IsCut.le_bytes {text : Text} {offset : Nat} (hcut : IsCut text offset) :
    offset ≤ bytes text := by
  obtain ⟨left, right, rfl, rfl⟩ := hcut
  rw [bytes_append]
  exact Nat.le_add_right _ _

theorem isCut_zero (text : Text) : IsCut text 0 := ⟨[], text, rfl, rfl⟩

theorem isCut_bytes (text : Text) : IsCut text (bytes text) :=
  ⟨text, [], (List.append_nil text).symm, rfl⟩

theorem eq_nil_of_bytes_eq_zero {text : Text} (h : bytes text = 0) : text = [] := by
  cases text with
  | nil => rfl
  | cons c cs =>
      have hpos := c.utf8Size_pos
      rw [bytes_cons] at h
      omega

theorem bytes_pos {text : Text} (h : text ≠ []) : 0 < bytes text :=
  Nat.pos_of_ne_zero fun hzero => h (eq_nil_of_bytes_eq_zero hzero)

theorem drop?_add (left right : Text) (size : Nat) :
    drop? (bytes left + size) (left ++ right) = drop? size right := by
  induction left with
  | nil => rw [bytes_nil, Nat.zero_add, List.nil_append]
  | cons c cs ih =>
      obtain ⟨width, hwidth⟩ := Nat.exists_eq_add_of_lt c.utf8Size_pos
      rw [bytes_cons, List.cons_append, hwidth,
        show 0 + width + 1 + bytes cs + size = width + bytes cs + size + 1 by omega, drop?,
        if_pos (by omega), hwidth,
        show width + bytes cs + size + 1 - (0 + width + 1) = bytes cs + size by omega]
      exact ih

theorem drop?_bytes (left right : Text) : drop? (bytes left) (left ++ right) = some right := by
  rw [← Nat.add_zero (bytes left), drop?_add, drop?]

theorem take?_bytes (left right : Text) : take? (bytes left) (left ++ right) = some left := by
  induction left with
  | nil => simp [take?]
  | cons c cs ih =>
      obtain ⟨size, hsize⟩ := Nat.exists_eq_add_of_lt c.utf8Size_pos
      rw [bytes_cons, List.cons_append, hsize, show 0 + size + 1 + bytes cs = size + bytes cs + 1 by omega,
        take?, if_pos (by omega), hsize, show size + bytes cs + 1 - (0 + size + 1) = bytes cs by omega, ih]
      rfl

/-- A part in the middle of a text is the slice at its place. -/
theorem slice?_middle (left part right : Text) :
    slice? (bytes left) (bytes left + bytes part) (left ++ part ++ right) = some part := by
  rw [slice?, List.append_assoc, drop?_bytes, Nat.add_sub_cancel_left]
  exact take?_bytes part right

/-! ### Slices of texts put together -/

theorem take?_append {left : Text} {size : Nat} (h : size ≤ bytes left) (right : Text) :
    take? size (left ++ right) = take? size left := by
  induction left generalizing size with
  | nil =>
      rw [Nat.le_zero.mp h, take?, take?]
  | cons c cs ih =>
      cases size with
      | zero => rw [take?, take?]
      | succ size =>
          rw [bytes_cons] at h
          rw [List.cons_append, take?, take?]
          split
          · rw [ih (by omega)]
          · rfl

theorem drop?_append {left : Text} {size : Nat} (h : size ≤ bytes left) (right : Text) :
    drop? size (left ++ right) = (drop? size left).map (· ++ right) := by
  induction left generalizing size with
  | nil =>
      rw [Nat.le_zero.mp h, drop?, drop?]
      rfl
  | cons c cs ih =>
      cases size with
      | zero =>
          rw [drop?, drop?]
          rfl
      | succ size =>
          rw [bytes_cons] at h
          rw [List.cons_append, drop?, drop?]
          split
          · exact ih (by omega)
          · rfl

theorem bytes_of_drop? {text rest : Text} {size : Nat} (h : drop? size text = some rest) :
    size + bytes rest = bytes text := by
  induction text generalizing size with
  | nil =>
      cases size with
      | zero =>
          rw [drop?, Option.some.injEq] at h
          rw [← h, Nat.zero_add]
      | succ size => cases h
  | cons c cs ih =>
      cases size with
      | zero =>
          rw [drop?, Option.some.injEq] at h
          rw [← h, Nat.zero_add]
      | succ size =>
          rw [drop?] at h
          split at h
          · have hrest := ih h
            rw [bytes_cons]
            omega
          · cases h

/-- What is behind a slice does not matter for it. -/
theorem slice?_append_left {left : Text} {start stop : Nat} (hle : start ≤ stop) (hstop : stop ≤ bytes left)
    (right : Text) : slice? start stop (left ++ right) = slice? start stop left := by
  rw [slice?, slice?, drop?_append (Nat.le_trans hle hstop)]
  cases hdrop : drop? start left with
  | none => rfl
  | some rest =>
      have hrest := bytes_of_drop? hdrop
      exact take?_append (by omega) right

/-- What is in front of a slice only moves it. -/
theorem slice?_append_right (left right : Text) (start stop : Nat) :
    slice? (bytes left + start) (bytes left + stop) (left ++ right) = slice? start stop right := by
  rw [slice?, drop?_add, Nat.add_sub_add_left]
  rfl

theorem slice?_isSome {text : Text} {start stop : Nat} (hstart : IsCut text start)
    (hstop : IsCut text stop) (hle : start ≤ stop) : (slice? start stop text).isSome := by
  obtain ⟨left, rest, rfl, rfl⟩ := hstart
  obtain ⟨front, right, hsplit, rfl⟩ := hstop
  rcases List.append_eq_append_iff.mp hsplit with ⟨part, rfl, rfl⟩ | ⟨part, rfl, rfl⟩
  · rw [bytes_append, ← List.append_assoc, slice?_middle]
    rfl
  · rw [bytes_append] at hle
    have hnil : part = [] := eq_nil_of_bytes_eq_zero (by omega)
    subst hnil
    have hslice := slice?_middle front [] rest
    rw [bytes_nil, Nat.add_zero] at hslice
    rw [bytes_append, bytes_nil, Nat.add_zero, hslice]
    rfl

/-- Of two ways to cut a text at one place, the parts behind the place are the same. -/
theorem left_inj {front front' left left' : Text} (hsplit : front ++ left = front' ++ left')
    (hbytes : bytes front = bytes front') : left = left' := by
  have hdrop := drop?_bytes front left
  rw [hsplit, hbytes, drop?_bytes] at hdrop
  exact (Option.some.inj hdrop).symm

/-! ### Blanks -/

theorem trimmed_iff {text : Text} : (∀ c ∈ text.head?, isBlank c = false) ↔
    text.takeWhile isBlank = [] ∧ text.dropWhile isBlank = text := by
  cases text with
  | nil => simp
  | cons c cs => cases hblank : isBlank c <;> simp [hblank]

theorem trimmed_dropWhile (text : Text) : ∀ c ∈ (text.dropWhile isBlank).head?, isBlank c = false := by
  intro c hc
  have hhead := List.head?_dropWhile_not isBlank text
  rw [show (text.dropWhile isBlank).head? = some c from hc] at hhead
  exact hhead

theorem dropWhile_blanks {gap rest : Text} (hgap : ∀ c ∈ gap, isBlank c = true) :
    (gap ++ rest).dropWhile isBlank = rest.dropWhile isBlank :=
  List.dropWhile_append_of_pos hgap

theorem takeWhile_blanks {gap : Text} (hgap : ∀ c ∈ gap, isBlank c = true) {c : Char} (hc : isBlank c = false)
    (rest : Text) : (gap ++ c :: rest).takeWhile isBlank = gap := by
  rw [List.takeWhile_append_of_pos hgap, List.takeWhile_cons_of_neg (by rw [hc]; exact Bool.false_ne_true),
    List.append_nil]

theorem dropWhile_of_head {c : Char} (hc : isBlank c = false) (rest : Text) :
    (c :: rest).dropWhile isBlank = c :: rest :=
  List.dropWhile_cons_of_neg (by rw [hc]; exact Bool.false_ne_true)

theorem bytes_takeWhile_isBlank (text : Text) :
    bytes (text.takeWhile isBlank) = (text.takeWhile isBlank).length := by
  induction text with
  | nil => rfl
  | cons c cs ih =>
      rw [List.takeWhile_cons]
      split
      · rename_i hblank
        have hsize : c.utf8Size = 1 := by
          rcases Bool.or_eq_true_iff.mp hblank with h | h <;> rw [beq_iff_eq.mp h] <;> rfl
        rw [bytes_cons, List.length_cons, ih, hsize, Nat.add_comm]
      · rfl

end Gamebook.Text
