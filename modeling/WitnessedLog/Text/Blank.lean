/-!
# Blank characters

The characters that separate words and that are cut off the ends of a text: those with the Unicode
property `White_Space`.  The zero-width space, the byte order mark and the information separators
U+001C to U+001F do not have it.
-/

namespace WitnessedLog

namespace Text

/-- Whether a character has the Unicode property `White_Space`. -/
def isBlank (c : Char) : Bool :=
  let n := c.toNat
  (9 ≤ n && n ≤ 13) || n == 0x20 || n == 0x85 || n == 0xa0 || n == 0x1680
    || (0x2000 ≤ n && n ≤ 0x200a) || n == 0x2028 || n == 0x2029 || n == 0x202f
    || n == 0x205f || n == 0x3000

/-- Every white-space character of ASCII is blank. -/
theorem isBlank_of_isWhitespace
    {c : Char}
    (h : c.isWhitespace = true) : isBlank c = true := by
  simp only [Char.isWhitespace, Bool.or_eq_true, decide_eq_true_eq] at h
  rcases h with ((rfl | rfl) | rfl) | rfl <;> decide

end Text

end WitnessedLog
