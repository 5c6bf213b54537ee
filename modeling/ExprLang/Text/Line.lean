/-!
Lines of a text, as a report quotes them.
-/

namespace ExprLang.Text

/-- The lines of a text, each with the line feed that ends it. -/
def lines : List Char → List (List Char)
  | [] => []
  | c :: cs =>
    if c = '\n' then [c] :: lines cs
    else match lines cs with
      | [] => [[c]]
      | l :: ls => (c :: l) :: ls

/-- `cs` without the longest suffix of characters in `p`. -/
def trimRight (p : Char → Bool) (cs : List Char) : List Char :=
  (cs.reverse.dropWhile p).reverse

/-- Line `n` of a text, counted from 1, without its line end. -/
def line? (text : List Char) (n : Nat) : Option (List Char) :=
  match n with
  | 0 => none
  | i + 1 => (lines text)[i]?.map (trimRight fun c => c == '\n' || c == '\r')

@[simp] theorem flatten_lines (text : List Char) : (lines text).flatten = text := by
  induction text with
  | nil => rfl
  | cons c cs ih =>
    rw [lines]
    split
    · simp [ih]
    · cases h : lines cs <;> simp_all

end ExprLang.Text
