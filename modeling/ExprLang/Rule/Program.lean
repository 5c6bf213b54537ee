import ExprLang.Rule.Expression

/-!
The rule of programs: statements, each ended by a semicolon or by its own closing brace. The last
semicolon of a program of one statement may be left out.
-/

namespace ExprLang.Rule

open ExprLang.Parser

/-- The statements up to the end of the program; `isFirst` as long as none has been read. -/
def statements (statement : Parser Expr) : Nat → Bool → Parser (List Expr)
  | 0, _ => return []
  | n + 1, isFirst => do
    if (← get).hasTokens then
      let item ← statement
      if (← current).is ";" then
        let _ ← advance
        return item :: (← statements statement n false)
      else if (← get).previousIs Token.closeBrace then
        return item :: (← statements statement n false)
      else if isFirst && !(← get).hasTokens then return [item]
      else unexpected (.literal ";")
    else return []

/-- One statement is a program by itself; several are the statements of a block without a result. -/
def program (n : Nat) : Parser Expr := do
  match ← statements (statement (operand n) n) n true with
  | [] => unexpected (.description "an expression")
  | [only] => return only
  | first :: second :: rest =>
    let last := (second :: rest).getLast (List.cons_ne_nil second rest)
    let close ← current
    return .block (first.span.through last.span) (first :: second :: rest)
      (Expr.implicitUnit close.span)

end ExprLang.Rule
