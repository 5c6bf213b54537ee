import ExprLang.Position

/-!
A cursor in a text: the place reached and the text that remains. It is moved by bytes of UTF-8.
Main statement: moving it splits what remained and loses nothing.
-/

namespace ExprLang

structure Cursor where
  position : Position
  rest : List Char
deriving DecidableEq, Repr

namespace Cursor

/-- At the start of the text called `file`. -/
def start (text : String) (file : String) : Cursor := ⟨.origin file, text.toList⟩

def next? (c : Cursor) : Option Char := c.rest.head?

def atEnd (c : Cursor) : Bool := c.rest.isEmpty

/-- Splits a text behind the character in which byte number `bytes` lies, or at its end. -/
def splitAtByte (bytes : Nat) : List Char → List Char × List Char
  | [] => ([], [])
  | c :: cs =>
    if bytes = 0 then ([], c :: cs)
    else
      let (before, behind) := splitAtByte (bytes - c.utf8Size) cs
      (c :: before, behind)

/-- Moves over `bytes` bytes, at most to the end of the text. -/
def advance (c : Cursor) (bytes : Nat) : Cursor :=
  let (before, behind) := splitAtByte bytes c.rest
  ⟨c.position.after before, behind⟩

theorem splitAtByte_append (bytes : Nat) (text : List Char) :
    (splitAtByte bytes text).1 ++ (splitAtByte bytes text).2 = text := by
  induction text generalizing bytes with
  | nil => rfl
  | cons c cs ih =>
    rw [splitAtByte]
    split
    · rfl
    · simp [ih]

@[simp] theorem advance_zero (c : Cursor) : c.advance 0 = c := by
  obtain ⟨p, rest⟩ := c
  cases rest <;> simp [advance, splitAtByte]

end Cursor

end ExprLang
