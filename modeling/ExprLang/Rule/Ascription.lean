import ExprLang.Parser

/-!
The rules of type ascriptions: the name of a type, or parameter types in brackets, an arrow and a
result type. Function types nest on both sides of the arrow.
-/

namespace ExprLang.Rule

open ExprLang.Parser

/-- A function type whose parts are read by `part`; `n` bounds the tokens ahead. -/
def functionType (part : Parser Ascription) (n : Nat) : Parser Ascription := do
  let start ← expect "("
  let params ← commaSeparated part n
  let _ ← demand ")" (.oneOf [",", ")"])
  let _ ← expect "=>"
  let result ← part
  return .function params result (start.span.through result.span)

/-- What an ascription can start with. -/
def ascriptionStart : Expected := .oneOf (Ascription.simpleNames ++ ["("])

/-- An ascription among at most `n` tokens. -/
def ascription : Nat → Parser Ascription
  | 0 => unexpected ascriptionStart
  | n + 1 => do
    let token ← current
    if token.is "(" then functionType (ascription n) n
    else if token.kind = .identifier ∧ Ascription.simpleNames.contains token.text then
      let _ ← advance
      return .simple token.text token.span
    else unexpected ascriptionStart

end ExprLang.Rule
