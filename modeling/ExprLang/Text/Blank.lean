/-!
Blank characters: the white space of Unicode, of which ASCII holds six.
-/

namespace ExprLang.Text

/-- The ranges of the white space property, in order. -/
def blankRanges : List (Nat × Nat) :=
  [(0x09, 0x0D), (0x20, 0x20), (0x85, 0x85), (0xA0, 0xA0), (0x1680, 0x1680), (0x2000, 0x200A),
    (0x2028, 0x2029), (0x202F, 0x202F), (0x205F, 0x205F), (0x3000, 0x3000)]

/-- Does one of `ranges`, ends included, hold the code point of `c`? -/
def inRanges (ranges : List (Nat × Nat)) (c : Char) : Bool :=
  ranges.any fun r => r.1 ≤ c.toNat && c.toNat ≤ r.2

/-- Each range starts behind the end of the one before it. -/
def inOrder (ranges : List (Nat × Nat)) : Bool :=
  (ranges.zip ranges.tail).all fun r => r.1.2 < r.2.1

example : inOrder blankRanges = true := by decide

def isBlank (c : Char) : Bool := inRanges blankRanges c

/-- The white space of ASCII is blank. -/
theorem isBlank_of_isWhitespace {c : Char} (h : c.isWhitespace = true) : isBlank c = true := by
  simp only [Char.isWhitespace, Bool.or_eq_true, decide_eq_true_eq] at h
  rcases h with ((rfl | rfl) | rfl) | rfl <;> decide

end ExprLang.Text
