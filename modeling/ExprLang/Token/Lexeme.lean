import ExprLang.Token
import ExprLang.Text.Blank

/-!
Cutting a text into pieces: lexemes, which become tokens, and gaps between them, which are blanks,
comments and characters of no lexeme. Main statement: the pieces laid end to end are the text.
-/

namespace ExprLang

/-- A stretch of text. A lexeme has a kind; a gap has none. -/
structure Piece where
  kind : Option Token.Kind
  text : List Char
deriving DecidableEq, Repr

namespace Piece

def isWordStart (c : Char) : Bool := c.isAlpha || c == '_'

def isWordPart (c : Char) : Bool := c.isAlphanum || c == '_'

theorem isWordStart_iff {c : Char} : isWordStart c = true ↔ c.isAlpha = true ∨ c = '_' := by
  simp [isWordStart]

theorem isWordPart_iff {c : Char} : isWordPart c = true ↔ c.isAlphanum = true ∨ c = '_' := by
  simp [isWordPart]

/-- Some words are not identifiers: the two truth values and the operators spelt as words. -/
def wordKind (word : List Char) : Token.Kind :=
  if word = ['t', 'r', 'u', 'e'] ∨ word = ['f', 'a', 'l', 's', 'e'] then .boolean
  else if word = ['a', 'n', 'd'] ∨ word = ['o', 'r'] ∨ word = ['n', 'o', 't'] then .operator
  else .identifier

/-- The operators of two characters: `==`, `!=`, `<=`, `>=` and `=>`. -/
def isOperatorPair (c d : Char) : Bool :=
  (d == '=' && ['=', '!', '<', '>'].contains c) || (c == '=' && d == '>')

def isOperatorChar (c : Char) : Bool := ['-', '+', '*', '/', '%', '=', '<', '>'].contains c

def isMark (c : Char) : Bool := ['(', ')', '{', '}', ',', ';', ':'].contains c

/-- A comment runs from `#` or `//` to the end of its line. -/
def opensComment (c : Char) (cs : List Char) : Bool :=
  c == '#' || (c == '/' && cs.head? == some '/')

/-- The longest run of `p` in `cs` behind `c`, and what follows it. -/
def run (kind : List Char → Option Token.Kind) (p : Char → Bool) (c : Char) (cs : List Char) :
    Piece × List Char :=
  let text := c :: cs.takeWhile p
  (⟨kind text, text⟩, cs.dropWhile p)

/-- The first piece of the text `c :: cs`, and what follows it. -/
def cut (c : Char) (cs : List Char) : Piece × List Char :=
  if Text.isBlank c then run (fun _ => none) Text.isBlank c cs
  else if opensComment c cs then run (fun _ => none) (· != '\n') c cs
  else if isWordStart c then run (fun word => some (wordKind word)) isWordPart c cs
  else if c.isDigit then run (fun _ => some .integer) Char.isDigit c cs
  else if cs.head?.any (isOperatorPair c) then (⟨some .operator, c :: cs.take 1⟩, cs.drop 1)
  else if isOperatorChar c then (⟨some .operator, [c]⟩, cs)
  else if isMark c then (⟨some .punctuation, [c]⟩, cs)
  else (⟨none, [c]⟩, cs)

theorem cut_append (c : Char) (cs : List Char) :
    (cut c cs).1.text ++ (cut c cs).2 = c :: cs := by
  unfold cut run
  repeat' split
  all_goals simp [-List.drop_one]

theorem length_dropWhile_le (p : Char → Bool) (cs : List Char) :
    (cs.dropWhile p).length ≤ cs.length :=
  (List.dropWhile_sublist p).length_le

theorem length_cut_le (c : Char) (cs : List Char) : (cut c cs).2.length ≤ cs.length := by
  unfold cut run
  repeat' split
  all_goals simp [length_dropWhile_le]

theorem length_cut_lt (c : Char) (cs : List Char) : (cut c cs).2.length < (c :: cs).length :=
  Nat.lt_succ_of_le (length_cut_le c cs)

/-- All pieces of a text, in order. -/
def pieces : List Char → List Piece
  | [] => []
  | c :: cs => (cut c cs).1 :: pieces (cut c cs).2
termination_by text => text.length
decreasing_by exact length_cut_lt c cs

/-- Laid end to end, the pieces are the text. -/
theorem flatMap_text_pieces (text : List Char) : (pieces text).flatMap Piece.text = text := by
  fun_induction pieces text with
  | case1 => rfl
  | case2 c cs ih => rw [List.flatMap_cons, ih, cut_append]

end Piece

end ExprLang
