/-!
Places in a named text, and the spans between two of them.
-/

namespace ExprLang

/-- A place in a text. Lines and columns count from 1; line 0 is the place of nothing. The counts
have no bound here: 32 bits hold them in every text of fewer than 4294967295 characters, as
`fits_of_length_lt` says. -/
structure Position where
  line : Nat
  column : Nat
  file : String
deriving DecidableEq, Repr

namespace Position

/-- Where there is nothing to point at, as at the end of an empty text. -/
def null : Position := ⟨0, 0, "<null>"⟩

def isNull (p : Position) : Bool := p.line == 0

/-- The first place of the text called `file`. -/
def origin (file : String) : Position := ⟨1, 1, file⟩

/-- A line feed opens the next line; every other character takes one column. -/
def next (p : Position) (c : Char) : Position :=
  if c = '\n' then ⟨p.line + 1, 1, p.file⟩ else ⟨p.line, p.column + 1, p.file⟩

/-- The place right behind `text` when `text` starts at `p`. -/
def after (p : Position) (text : List Char) : Position := text.foldl next p

def render (p : Position) : String := s!"{p.file}:{p.line}:{p.column}"

@[simp] theorem after_nil (p : Position) : p.after [] = p := rfl

@[simp] theorem after_cons (p : Position) (c : Char) (text : List Char) :
    p.after (c :: text) = (p.next c).after text := rfl

theorem after_append (p : Position) (a b : List Char) :
    p.after (a ++ b) = (p.after a).after b := by
  simp [after, List.foldl_append]

@[simp] theorem next_file (p : Position) (c : Char) : (p.next c).file = p.file := by
  unfold next; split <;> rfl

@[simp] theorem after_file (p : Position) (text : List Char) : (p.after text).file = p.file := by
  induction text generalizing p with
  | nil => rfl
  | cons c text ih => simp [ih]

/-- A character moves a place on by a line or by a column, never by both. -/
theorem bounds_after (p : Position) (text : List Char) (hcolumn : 1 ≤ p.column) :
    p.line ≤ (p.after text).line ∧ 1 ≤ (p.after text).column ∧
      (p.after text).line + (p.after text).column ≤ p.line + p.column + text.length := by
  induction text generalizing p with
  | nil => simp [hcolumn]
  | cons c text ih =>
    rw [after_cons, List.length_cons]
    have hnext : p.line ≤ (p.next c).line ∧ 1 ≤ (p.next c).column ∧
        (p.next c).line + (p.next c).column ≤ p.line + p.column + 1 := by
      unfold next
      split <;> dsimp only <;> omega
    obtain ⟨hline, hcolumn, hsum⟩ := hnext
    have htext := ih (p.next c) hcolumn
    omega

theorem fits_of_length_lt (file : String) {text : List Char} (h : text.length < 4294967295) :
    ((origin file).after text).line < 4294967296 ∧
      ((origin file).after text).column < 4294967296 := by
  obtain ⟨hline, hcolumn, hsum⟩ := bounds_after (origin file) text (Nat.le_refl 1)
  simp only [origin] at hline hcolumn hsum ⊢
  omega

end Position

/-- A stretch of text, from its first character to the place right behind its last. -/
structure Span where
  start : Position
  stop : Position
deriving DecidableEq, Repr

namespace Span

def null : Span := ⟨.null, .null⟩

/-- From the start of `a` through the end of `b`. -/
def through (a b : Span) : Span := ⟨a.start, b.stop⟩

end Span

end ExprLang
