import ExprLang.Error
import ExprLang.Expr
import ExprLang.TokenStream

/-!
Parsers: they read a token stream from its current token on. A parser that fails leaves the stream
where it stopped.
-/

namespace ExprLang

abbrev Parser (α : Type) := EStateM Error TokenStream α

namespace Parser

variable {α : Type}

def current : Parser Token := fun s => .ok s.current s

/-- Reads the current token. -/
def advance : Parser Token := fun s => .ok s.current s.advance

/-- Refuses the current token. -/
def unexpected (expected : Expected) : Parser α := fun s =>
  .error ⟨.unexpectedToken expected s.current.text s.current.kind, s.current.location⟩ s

/-- Reads a token that stands for `text`, or says what is expected instead. -/
def demand (text : String) (expected : Expected) : Parser Token := do
  if (← current).is text then advance else unexpected expected

def expect (text : String) : Parser Token := demand text (.literal text)

/-- A name is any identifier but the reserved words. -/
def identifier : Parser Identifier := do
  let token ← current
  if token.kind = .identifier ∧ token.isReserved = false then
    let _ ← advance
    return ⟨token.text, token.span⟩
  else unexpected (.description "an identifier")

/-- Items, each behind a comma, of which there are no more than `n`. -/
def behindCommas (item : Parser α) : Nat → Parser (List α)
  | 0 => return []
  | n + 1 => do
    if (← current).is "," then
      let _ ← advance
      let first ← item
      let rest ← behindCommas item n
      return first :: rest
    else return []

/-- One or more items with commas between them; `n` bounds the commas. -/
def commaSeparated (item : Parser α) (n : Nat) : Parser (List α) := do
  let first ← item
  let rest ← behindCommas item n
  return first :: rest

/-- Bounds a rule by the number of tokens ahead, which it cannot exceed. -/
def bounded (rule : Nat → Parser α) : Parser α := fun s => rule s.remaining s

theorem demand_of_is {s : TokenStream} {text : String} (h : s.current.is text = true)
    (expected : Expected) : demand text expected s = .ok s.current s.advance := by
  show (if s.current.is text then advance else unexpected expected) s = _
  rw [if_pos h]
  rfl

theorem demand_of_not_is {s : TokenStream} {text : String} (h : s.current.is text = false)
    (expected : Expected) : demand text expected s = unexpected expected s := by
  show (if s.current.is text then advance else unexpected expected) s = _
  rw [if_neg (by simp [h])]

end Parser

end ExprLang
