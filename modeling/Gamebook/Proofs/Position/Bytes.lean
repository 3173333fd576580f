import Gamebook.Proofs.Position
import Mathlib.Data.List.Induction

/-!
Positions and bytes. A text is stored as bytes, and an offset may stand between any two of them. The index
of a text holds one start for every byte that is a line feed; so it tells the line of an offset by the line
feeds in front of it and the column by the bytes behind the last of them, and leads from there back to the
offset. A column behind the end of its line stands for that end, unless it is so great that start and column
are more than the last offset: the sum wraps around then, to an offset in front of the line.
-/

namespace Gamebook

def Text.encoded (text : Text) : List UInt8 := text.flatMap String.utf8EncodeChar

def feed : UInt8 := 10

namespace Position

/-- The one position comes before the other one: it is on an earlier line, or further left on the same. -/
def Before (left right : Position) : Prop :=
  left.line < right.line ∨ (left.line = right.line ∧ left.column < right.column)

theorem before_or (left right : Position) : left.Before right ∨ right.Before left ∨ right = left := by
  obtain ⟨line, column⟩ := left
  obtain ⟨line', column'⟩ := right
  simp only [Before, Position.mk.injEq]
  omega

end Position

namespace LineIndex

/-- The sum of the start of the line and the column is an offset. -/
def Fits (index : LineIndex) (position : Position) : Prop :=
  ∀ start ∈ index.lineStart? position.line, start + position.column ≤ lastOffset index.size

variable {bytes front back upper body lower : List UInt8} {start line offset : Nat}

/-- A line of some bytes, between what stands above it and what stands below it: the lines above it all end,
and it ends with a line feed or with the bytes. -/
structure LineAt (bytes : List UInt8) (line : Nat) (upper body lower : List UInt8) : Prop where
  whole : bytes = upper ++ (body ++ lower)
  number : upper.count feed = line
  above : upper = [] ∨ upper.getLast? = some feed
  within : (∃ inner, body = inner ++ [feed] ∧ feed ∉ inner) ∨ (feed ∉ body ∧ lower = [])

/-- The offsets behind the line feeds among some bytes. -/
def feedsFrom (start : Nat) : List UInt8 → List Nat
  | [] => []
  | byte :: more => if byte = feed then (start + 1) :: feedsFrom (start + 1) more else feedsFrom (start + 1) more

/-! ### From characters to bytes -/

/-- The byte of a line feed is no part of another character: all bytes of a character that takes several are
greater. -/
theorem feed_not_mem_encode {c : Char} (h : c ≠ '\n') : feed ∉ String.utf8EncodeChar c := by
  have hcode : c.val.toNat ≠ 10 := fun hcode => h (Char.ext (UInt32.toNat_inj.mp hcode))
  have hbyte : ∀ n, n < 256 → n ≠ 10 → feed ≠ UInt8.ofNat n := by
    intro n hlt hne heq
    have hnat := congrArg UInt8.toNat heq
    rw [UInt8.toNat_ofNat', Nat.mod_eq_of_lt hlt] at hnat
    exact hne hnat.symm
  intro hmem
  unfold String.utf8EncodeChar at hmem
  dsimp only at hmem
  split at hmem
  · exact hbyte _ (by omega) hcode (List.mem_singleton.mp hmem)
  · split at hmem
    · simp only [List.mem_cons, List.not_mem_nil, or_false] at hmem
      rcases hmem with hmem | hmem <;> exact hbyte _ (by omega) (by omega) hmem
    · split at hmem
      · simp only [List.mem_cons, List.not_mem_nil, or_false] at hmem
        rcases hmem with hmem | hmem | hmem <;> exact hbyte _ (by omega) (by omega) hmem
      · simp only [List.mem_cons, List.not_mem_nil, or_false] at hmem
        rcases hmem with hmem | hmem | hmem | hmem <;> exact hbyte _ (by omega) (by omega) hmem

theorem length_encoded (text : Text) : text.encoded.length = Text.bytes text := by
  induction text with
  | nil => rfl
  | cons c more ih =>
      rw [Text.encoded, List.flatMap_cons, List.length_append, String.length_utf8EncodeChar, Text.bytes_cons, ← ih]
      rfl

theorem feedsFrom_append (start : Nat) (front back : List UInt8) :
    feedsFrom start (front ++ back) = feedsFrom start front ++ feedsFrom (start + front.length) back := by
  induction front generalizing start with
  | nil => rfl
  | cons byte more ih =>
      have hlength : start + 1 + more.length = start + (byte :: more).length := by
        rw [List.length_cons]
        omega
      rw [List.cons_append, feedsFrom, feedsFrom, ih, hlength]
      split <;> rfl

theorem feedsFrom_eq_nil (start : Nat) (h : feed ∉ bytes) : feedsFrom start bytes = [] := by
  induction bytes generalizing start with
  | nil => rfl
  | cons byte more ih =>
      rw [List.mem_cons, not_or] at h
      rw [feedsFrom, if_neg (Ne.symm h.1), ih _ h.2]

/-- A text has its lines where its bytes have them. -/
theorem startsFrom_eq (start : Nat) (text : Text) : startsFrom start text = feedsFrom start text.encoded := by
  induction text generalizing start with
  | nil => rfl
  | cons c more ih =>
      rw [startsFrom, Text.encoded, List.flatMap_cons, feedsFrom_append, String.length_utf8EncodeChar, ih, ih]
      split
      · rename_i hfeed
        subst hfeed
        rfl
      · rename_i hfeed
        rw [feedsFrom_eq_nil start (feed_not_mem_encode hfeed)]
        rfl

theorem toList_starts (text : Text) : (ofText text).starts.toList = 0 :: feedsFrom 0 text.encoded :=
  congrArg (0 :: ·) (startsFrom_eq 0 text)

theorem size_ofText (text : Text) : (ofText text).size = text.encoded.length := (length_encoded text).symm

/-! ### Line feeds among bytes -/

theorem length_feedsFrom (start : Nat) (bytes : List UInt8) : (feedsFrom start bytes).length = bytes.count feed := by
  induction bytes generalizing start with
  | nil => rfl
  | cons byte more ih =>
      rw [feedsFrom, List.count_cons]
      by_cases hfeed : byte = feed <;> simp [hfeed, ih]

theorem bounds_of_mem_feedsFrom (h : offset ∈ feedsFrom start bytes) : start < offset ∧ offset ≤ start + bytes.length := by
  induction bytes generalizing start with
  | nil => cases h
  | cons byte more ih =>
      rw [List.length_cons]
      rw [feedsFrom] at h
      split at h
      · rcases List.mem_cons.mp h with rfl | h
        · omega
        · have hrest := ih h
          omega
      · have hrest := ih h
        omega

/-- The last start of lines that all end is where they end. -/
theorem getElem?_feedsFrom (start : Nat) (h : upper = [] ∨ upper.getLast? = some feed) :
    (start :: feedsFrom start upper)[upper.count feed]? = some (start + upper.length) := by
  rcases h with rfl | h
  · rfl
  · obtain ⟨inner, rfl⟩ := List.getLast?_eq_some_iff.mp h
    have hlast : feedsFrom (start + inner.length) [feed] = [start + inner.length + 1] := rfl
    rw [feedsFrom_append, hlast, ← List.cons_append, List.count_append, ← length_feedsFrom start inner,
      List.getElem?_append_right (by simp), List.length_append]
    simp [Nat.add_assoc]

/-- Bytes are lines that end and bytes of a last line that has not ended. -/
theorem exists_tail (bytes : List UInt8) :
    ∃ upper tail, bytes = upper ++ tail ∧ (upper = [] ∨ upper.getLast? = some feed) ∧ feed ∉ tail := by
  induction bytes using List.reverseRecOn with
  | nil => exact ⟨[], [], rfl, .inl rfl, List.not_mem_nil⟩
  | append_singleton front byte ih =>
      by_cases hfeed : byte = feed
      · refine ⟨front ++ [byte], [], (List.append_nil _).symm, .inr ?_, List.not_mem_nil⟩
        rw [List.getLast?_concat, hfeed]
      · obtain ⟨upper, tail, rfl, habove, htail⟩ := ih
        refine ⟨upper, tail ++ [byte], List.append_assoc _ _ _, habove, fun hmem => ?_⟩
        rcases List.mem_append.mp hmem with hmem | hmem
        · exact htail hmem
        · exact hfeed (List.mem_singleton.mp hmem).symm

/-- Bytes begin with a line, which ends with the first line feed or with them. -/
theorem exists_body (bytes : List UInt8) : ∃ body lower, bytes = body ++ lower ∧
    ((∃ inner, body = inner ++ [feed] ∧ feed ∉ inner) ∨ (feed ∉ body ∧ lower = [])) := by
  induction bytes with
  | nil => exact ⟨[], [], rfl, .inr ⟨List.not_mem_nil, rfl⟩⟩
  | cons byte more ih =>
      by_cases hfeed : byte = feed
      · exact ⟨[byte], more, rfl, .inl ⟨[], by rw [hfeed]; rfl, List.not_mem_nil⟩⟩
      · obtain ⟨body, lower, rfl, ⟨inner, rfl, hinner⟩ | ⟨hbody, rfl⟩⟩ := ih
        · exact ⟨byte :: (inner ++ [feed]), lower, rfl, .inl ⟨byte :: inner, rfl,
            List.not_mem_cons_of_ne_of_not_mem (Ne.symm hfeed) hinner⟩⟩
        · exact ⟨byte :: body, [], rfl, .inr ⟨List.not_mem_cons_of_ne_of_not_mem (Ne.symm hfeed) hbody, rfl⟩⟩

/-- There is a line for every number up to that of the line feeds. -/
theorem exists_lineAt (h : line ≤ bytes.count feed) : ∃ upper body lower, LineAt bytes line upper body lower := by
  induction line with
  | zero =>
      obtain ⟨body, lower, hwhole, hwithin⟩ := exists_body bytes
      exact ⟨[], body, lower, hwhole, rfl, .inl rfl, hwithin⟩
  | succ line ih =>
      obtain ⟨upper, body, lower, hline⟩ := ih (Nat.le_of_succ_le h)
      obtain ⟨next, rest, hlower, hnext⟩ := exists_body lower
      rcases hline.within with ⟨inner, rfl, hinner⟩ | ⟨hbody, rfl⟩
      · refine ⟨upper ++ (inner ++ [feed]), next, rest, ?_, ?_, .inr ?_, hnext⟩
        · rw [hline.whole, hlower]
          exact (List.append_assoc _ _ _).symm
        · rw [List.count_append, List.count_append, hline.number, List.count_eq_zero.mpr hinner]
          rfl
        · rw [← List.append_assoc, List.getLast?_concat]
      · rw [hline.whole, List.count_append, hline.number, List.append_nil, List.count_eq_zero.mpr hbody] at h
        omega

theorem LineAt.getElem?_start (h : LineAt bytes line upper body lower) :
    (0 :: feedsFrom 0 bytes)[line]? = some upper.length := by
  have hlast := getElem?_feedsFrom 0 h.above
  rw [Nat.zero_add, h.number] at hlast
  rw [h.whole, feedsFrom_append, ← List.cons_append, List.getElem?_append_left, hlast]
  rw [List.length_cons, length_feedsFrom, h.number]
  exact Nat.lt_succ_self line

/-- The next line starts where the line ends. -/
theorem LineAt.getElem?_next (h : LineAt bytes line upper body lower) :
    (0 :: feedsFrom 0 bytes)[line + 1]?.getD bytes.length = upper.length + body.length := by
  have hlength : (0 :: feedsFrom 0 upper).length = line + 1 := by rw [List.length_cons, length_feedsFrom, h.number]
  rw [h.whole, feedsFrom_append, ← List.cons_append, List.getElem?_append_right (Nat.le_of_eq hlength), hlength,
    Nat.sub_self, Nat.zero_add, ← List.head?_eq_getElem?]
  rcases h.within with ⟨inner, rfl, hinner⟩ | ⟨hbody, rfl⟩
  · rw [List.append_assoc, feedsFrom_append, feedsFrom_eq_nil _ hinner, List.nil_append, List.singleton_append,
      feedsFrom, if_pos rfl, List.head?_cons, Option.getD_some, List.length_append, Nat.add_assoc]
    rfl
  · rw [List.append_nil, feedsFrom_eq_nil _ hbody, List.head?_nil, Option.getD_none, List.length_append]

/-- What stands on a line in front of its end is no longer than the line. -/
theorem LineAt.length_le (h : LineAt bytes line upper body lower) {tail rest : List UInt8}
    (hsplit : body ++ lower = tail ++ rest) (htail : feed ∉ tail) : tail.length ≤ body.length := by
  rcases List.append_eq_append_iff.mp hsplit with ⟨more, rfl, hlower⟩ | ⟨more, rfl, _⟩
  · rcases h.within with ⟨inner, rfl, _⟩ | ⟨_, rfl⟩
    · simp at htail
    · obtain rfl : more = [] := (List.append_eq_nil_iff.mp hlower.symm).1
      exact Nat.le_of_eq (congrArg List.length (List.append_nil body))
  · rw [List.length_append]
    exact Nat.le_add_right _ _

/-! ### Positions and offsets -/

/-- The position of an offset, by the lines in front of it that end and the bytes behind these. -/
theorem position_eq (text : Text) {tail : List UInt8} (hsplit : text.encoded.take offset = upper ++ tail)
    (habove : upper = [] ∨ upper.getLast? = some feed) (htail : feed ∉ tail) :
    (ofText text).position offset = ⟨(text.encoded.take offset).count feed, tail.length⟩ := by
  have hlength : min offset (ofText text).size = upper.length + tail.length := by
    rw [← List.length_append, ← hsplit, List.length_take, size_ofText]
  have hstarts : (ofText text).starts.toList = (0 :: feedsFrom 0 upper) ++
      feedsFrom (upper.length + tail.length) (text.encoded.drop offset) := by
    have hwhole := feedsFrom_append 0 (upper ++ tail) (text.encoded.drop offset)
    rw [← hsplit, List.take_append_drop, hsplit, feedsFrom_append, feedsFrom_eq_nil _ htail, List.append_nil,
      Nat.zero_add, List.length_append] at hwhole
    rw [toList_starts, hwhole, List.cons_append]
  have hcount : (text.encoded.take offset).count feed = upper.count feed := by
    rw [hsplit, List.count_append, List.count_eq_zero.mpr htail, Nat.add_zero]
  have hborder : partitionPoint (fun start => decide (start ≤ min offset (ofText text).size)) (ofText text).starts =
      upper.count feed + 1 := by
    rw [partitionPoint_eq hstarts, List.length_cons, length_feedsFrom]
    · intro start hstart
      rw [decide_eq_true_eq, hlength]
      rcases List.mem_cons.mp hstart with rfl | hmem
      · exact Nat.zero_le _
      · have hbounds := bounds_of_mem_feedsFrom hmem
        omega
    · intro start hstart
      have hbounds := bounds_of_mem_feedsFrom hstart
      rw [decide_eq_false_iff_not, hlength]
      omega
  have hlast : (ofText text).starts[upper.count feed]? = some upper.length := by
    rw [← Array.getElem?_toList, hstarts, List.getElem?_append_left, getElem?_feedsFrom 0 habove, Nat.zero_add]
    rw [List.length_cons, length_feedsFrom]
    exact Nat.lt_succ_self _
  simp only [position, hborder, Nat.add_sub_cancel, hlast, Option.getD_some, hcount]
  rw [hlength, Nat.add_sub_cancel_left]

theorem lineStart?_eq (text : Text) (h : LineAt text.encoded line upper body lower) :
    (ofText text).lineStart? line = some upper.length := by
  rw [lineStart?, ← Array.getElem?_toList, toList_starts]
  exact h.getElem?_start

theorem lineEnd?_eq (text : Text) (h : LineAt text.encoded line upper body lower) :
    (ofText text).lineEnd? line = some (upper.length + body.length) := by
  have hstart := lineStart?_eq text h
  have hlt : line < (ofText text).starts.size := (Array.getElem?_eq_some_iff.mp hstart).1
  rw [lineEnd?, if_pos hlt, ← Array.getElem?_toList, toList_starts, size_ofText, h.getElem?_next]

theorem offset_eq_wrap (text : Text) (h : LineAt text.encoded line upper body lower) (column : Nat) :
    (ofText text).offset ⟨line, column⟩ =
      min (offsetWrap text.encoded.length upper.length column) (upper.length + body.length) := by
  rw [LineIndex.offset]
  simp only [lineStart?_eq text h, lineEnd?_eq text h, Option.getD_some, size_ofText]

/-- Up to the last offset a column stands for the place that many bytes behind the start, or for the end. -/
theorem offset_eq (text : Text) (h : LineAt text.encoded line upper body lower) {column : Nat}
    (hfits : upper.length + column ≤ lastOffset text.encoded.length) :
    (ofText text).offset ⟨line, column⟩ = min (upper.length + column) (upper.length + body.length) := by
  rw [offset_eq_wrap text h, offsetWrap_eq hfits]

/-- Behind the last offset it stands for a place in front of the line. -/
theorem offset_eq_of_lt (text : Text) (h : LineAt text.encoded line upper body lower) {column : Nat}
    (hcolumn : column ≤ lastOffset text.encoded.length) (hlt : lastOffset text.encoded.length < upper.length + column) :
    (ofText text).offset ⟨line, column⟩ = upper.length + column - (lastOffset text.encoded.length + 1) := by
  have hupper : upper.length ≤ lastOffset text.encoded.length := by
    have hwhole := congrArg List.length h.whole
    rw [List.length_append] at hwhole
    exact Nat.le_trans (by omega) (le_lastOffset text.encoded.length)
  have hwrap : offsetWrap text.encoded.length upper.length column =
      upper.length + column - (lastOffset text.encoded.length + 1) := by
    rw [offsetWrap, Nat.mod_eq_sub_mod hlt]
    exact Nat.mod_eq_of_lt (by omega)
  rw [offset_eq_wrap text h, hwrap]
  exact Nat.min_eq_left (by omega)

theorem LineAt.fits_iff (text : Text) (h : LineAt text.encoded line upper body lower) (column : Nat) :
    (ofText text).Fits ⟨line, column⟩ ↔ upper.length + column ≤ lastOffset text.encoded.length := by
  simp [Fits, lineStart?_eq text h, size_ofText]

/-- There is no line behind the last line feed and what follows it. -/
theorem lineStart?_eq_none (text : Text) (h : text.encoded.count feed < line) : (ofText text).lineStart? line = none := by
  refine Array.getElem?_eq_none ?_
  rw [← Array.length_toList, toList_starts, List.length_cons, length_feedsFrom]
  exact h

theorem offset_of_beyond (text : Text) (h : text.encoded.count feed < line) (column : Nat) :
    (ofText text).offset ⟨line, column⟩ = text.encoded.length := by
  rw [LineIndex.offset]
  simp only [lineStart?_eq_none text h, size_ofText]

theorem offset_le (text : Text) (position : Position) : (ofText text).offset position ≤ text.encoded.length := by
  obtain ⟨line, column⟩ := position
  rcases Nat.lt_or_ge (text.encoded.count feed) line with hbeyond | hline
  · exact Nat.le_of_eq (offset_of_beyond text hbeyond column)
  · obtain ⟨upper, body, lower, h⟩ := exists_lineAt hline
    have hwhole := congrArg List.length h.whole
    rw [List.length_append, List.length_append] at hwhole
    rw [offset_eq_wrap text h]
    omega

/-- The position of an offset is on a line, as far behind its start as the offset. -/
theorem exists_lineAt_position (text : Text) (offset : Nat) : ∃ line column upper body lower,
    LineAt text.encoded line upper body lower ∧ (ofText text).position offset = ⟨line, column⟩ ∧
      column ≤ body.length ∧ upper.length + column = min offset text.encoded.length := by
  obtain ⟨upper, tail, hsplit, habove, htail⟩ := exists_tail (text.encoded.take offset)
  obtain ⟨body, lower, hrest, hwithin⟩ := exists_body (tail ++ text.encoded.drop offset)
  have hwhole : text.encoded = upper ++ (body ++ lower) := by
    rw [← hrest, ← List.append_assoc, ← hsplit, List.take_append_drop]
  have hcount : upper.count feed = (text.encoded.take offset).count feed := by
    rw [hsplit, List.count_append, List.count_eq_zero.mpr htail, Nat.add_zero]
  have hline : LineAt text.encoded ((text.encoded.take offset).count feed) upper body lower :=
    ⟨hwhole, hcount, habove, hwithin⟩
  have hlength := congrArg List.length hsplit
  rw [List.length_take, List.length_append] at hlength
  exact ⟨_, _, upper, body, lower, hline, position_eq text hsplit habove htail, hline.length_le hrest.symm htail,
    hlength.symm⟩

/-- The position of an offset fits. -/
theorem fits_position (text : Text) (offset : Nat) : (ofText text).Fits ((ofText text).position offset) := by
  obtain ⟨line, column, upper, body, lower, hline, hposition, -, hsum⟩ := exists_lineAt_position text offset
  rw [hposition, hline.fits_iff text, hsum]
  exact Nat.le_trans (Nat.min_le_right _ _) (le_lastOffset _)

theorem offset_position (text : Text) (offset : Nat) :
    (ofText text).offset ((ofText text).position offset) = min offset text.encoded.length := by
  obtain ⟨line, column, upper, body, lower, hline, hposition, hle, hsum⟩ := exists_lineAt_position text offset
  have hlast := le_lastOffset text.encoded.length
  rw [hposition, offset_eq text hline (by omega)]
  omega

/-- A line ends where a later one starts, or in front of that. -/
theorem LineAt.stop_le_start (text : Text) (h : LineAt text.encoded line upper body lower) {later : Nat}
    {upper' body' lower' : List UInt8} (hlater : LineAt text.encoded later upper' body' lower') (hlt : line < later) :
    upper.length + body.length ≤ upper'.length := by
  have hsorted := pairwise_starts text
  rw [toList_starts] at hsorted
  obtain ⟨hsize, hstart⟩ := List.getElem?_eq_some_iff.mp hlater.getElem?_start
  have hnext := h.getElem?_next
  rw [List.getElem?_eq_getElem (Nat.lt_of_le_of_lt hlt hsize), Option.getD_some] at hnext
  rw [← hnext, ← hstart]
  rcases Nat.eq_or_lt_of_le hlt with rfl | hlt
  · exact Nat.le_refl _
  · exact Nat.le_of_lt (List.pairwise_iff_getElem.mp hsorted _ _ (Nat.lt_trans hlt hsize) hsize hlt)

theorem offset_mono (text : Text) {left right : Position} (hfits : (ofText text).Fits right)
    (h : left.Before right ∨ left = right) : (ofText text).offset left ≤ (ofText text).offset right := by
  obtain ⟨line, column⟩ := left
  obtain ⟨later, column'⟩ := right
  simp only [Position.Before, Position.mk.injEq] at h
  rcases Nat.lt_or_ge (text.encoded.count feed) later with hbeyond | hlast
  · rw [offset_of_beyond text hbeyond]
    exact offset_le text _
  · have hfirst : line ≤ text.encoded.count feed := by omega
    obtain ⟨upper, body, lower, hline⟩ := exists_lineAt hfirst
    obtain ⟨upper', body', lower', hlater⟩ := exists_lineAt hlast
    have hsum := (hlater.fits_iff text column').mp hfits
    rw [offset_eq_wrap text hline, offset_eq text hlater hsum]
    rcases Nat.lt_or_ge line later with hlt | hge
    · have hstop := hline.stop_le_start text hlater hlt
      omega
    · obtain rfl : line = later := by omega
      have hupper := Option.some.inj (hline.getElem?_start.symm.trans hlater.getElem?_start)
      have hbody := hline.getElem?_next.symm.trans hlater.getElem?_next
      rw [offsetWrap_eq (by omega)]
      omega

theorem position_before (text : Text) {later : Nat} (hlt : offset < later) (hlater : later ≤ text.encoded.length) :
    ((ofText text).position offset).Before ((ofText text).position later) := by
  rcases Position.before_or ((ofText text).position offset) ((ofText text).position later) with h | h
  · exact h
  · have hle := offset_mono text (fits_position text offset) (h.imp_right id)
    rw [offset_position, offset_position] at hle
    omega

/-- Positions and offsets of a text agree with each other and with its bytes. -/
structure Agrees (index : LineIndex) (bytes : List UInt8) : Prop where
  /-- The line is told by the line feeds in front of an offset, the column by the bytes behind the last of them. -/
  position : ∀ offset, ∃ upper tail, bytes.take offset = upper ++ tail ∧
    (upper = [] ∨ upper.getLast? = some feed) ∧ feed ∉ tail ∧
    index.position offset = ⟨(bytes.take offset).count feed, tail.length⟩
  offset_position : ∀ offset, index.offset (index.position offset) = min offset bytes.length
  position_before : ∀ offset later, offset < later → later ≤ bytes.length →
    (index.position offset).Before (index.position later)
  fits_position : ∀ offset, index.Fits (index.position offset)
  offset_mono : ∀ left right : Position, index.Fits right → left.Before right → index.offset left ≤ index.offset right
  /-- A column counts from the start of its line and goes no further than the end of the line, up to the last
  offset; behind that it leads to a place in front of the line. -/
  line : ∀ line ≤ bytes.count feed, ∃ upper body lower, LineAt bytes line upper body lower ∧
    index.lineStart? line = some upper.length ∧ index.lineEnd? line = some (upper.length + body.length) ∧
    (∀ column, upper.length + column ≤ lastOffset bytes.length →
      index.offset ⟨line, column⟩ = min (upper.length + column) (upper.length + body.length)) ∧
    ∀ column ≤ lastOffset bytes.length, lastOffset bytes.length < upper.length + column →
      index.offset ⟨line, column⟩ = upper.length + column - (lastOffset bytes.length + 1) ∧
        index.offset ⟨line, column⟩ < upper.length
  beyond : ∀ line, bytes.count feed < line → index.lineStart? line = none ∧ index.lineEnd? line = none ∧
    ∀ column, index.offset ⟨line, column⟩ = bytes.length
  within : ∀ position, index.offset position ≤ bytes.length

end LineIndex

end Gamebook
