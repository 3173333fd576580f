/-!
Sums of offsets. Offsets and lengths are machine words. Where a sum of two of them is greater than
every word, it either stops at the greatest one or wraps around behind it.
-/

namespace Gamebook

/-- The greatest machine word. -/
def maxOffset : Nat := 0xffffffffffffffff

/-- An offset moved by a length, but not beyond the greatest offset. -/
def offsetAdd (offset length : Nat) : Nat := min (offset + length) maxOffset

/-- The last offset of a text of `size` bytes. Every text that fits into memory has the greatest word
for it; a text longer than that needs wider words, so that each of its bytes has an offset. -/
def lastOffset (size : Nat) : Nat := max maxOffset size

/-- An offset of a text of `size` bytes moved by a length. The sum wraps around behind the last
offset; where sums are checked, the program stops there instead. -/
def offsetWrap (size offset length : Nat) : Nat := (offset + length) % (lastOffset size + 1)

theorem le_lastOffset (size : Nat) : size ≤ lastOffset size := Nat.le_max_right _ _

/-- A sum that is no greater than the last offset is exact. -/
theorem offsetWrap_eq {size offset length : Nat} (h : offset + length ≤ lastOffset size) :
    offsetWrap size offset length = offset + length := Nat.mod_eq_of_lt (Nat.lt_succ_of_le h)

theorem offsetWrap_le_add (size offset length : Nat) : offsetWrap size offset length ≤ offset + length :=
  Nat.mod_le _ _

theorem offsetWrap_le_last (size offset length : Nat) : offsetWrap size offset length ≤ lastOffset size :=
  Nat.le_of_lt_succ (Nat.mod_lt _ (Nat.succ_pos _))

end Gamebook
