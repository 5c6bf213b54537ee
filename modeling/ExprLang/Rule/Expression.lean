import ExprLang.Rule.Ascription
import ExprLang.Text.Numeral

/-!
The rules of expressions. Each rule is written over the parser of operands, `operand`, and a bound
`n` on the tokens ahead; an operand then takes the rules over the operands of one token less. With
no token ahead there is no operand, so the bound runs out exactly where the program does.
-/

namespace ExprLang.Rule

open ExprLang.Parser

/-- The operator of this level that a token stands for. -/
def operatorOf (level : Level) (token : Token) : Option BinaryOp :=
  level.operators.find? (token.is ·.text)

/-- Goes on from `left` with operators of one level, which lean to the left. -/
def leaning (level : Level) (operand : Parser Expr) : Nat → Expr → Parser Expr
  | 0, left => return left
  | n + 1, left => do
    match operatorOf level (← current) with
    | none => return left
    | some op =>
      let _ ← advance
      let right ← operand
      leaning level operand n (.binary (left.span.through right.span) op left right)

/-- Operators of one level between operands of the tighter levels. -/
def tier (n : Nat) (level : Level) (operand : Parser Expr) : Parser Expr := do
  leaning level operand n (← operand)

/-- Operators of the given level and the tighter ones. -/
def binary (operand : Parser Expr) (n : Nat) (level : Level) : Parser Expr :=
  level.tiers.foldr (tier n) operand

/-- Goes on from a target with the value that it is given. -/
def assignment (target : Expr) (value : Parser Expr) : Parser Expr := do
  let _ ← expect "="
  let value ← value
  return .assignment (target.span.through value.span) target value

/-- Assignment is looser than any operator and leans to the right. -/
def expression (operand : Parser Expr) : Nat → Parser Expr
  | 0 => binary operand 0 .or
  | n + 1 => do
    let target ← binary operand (n + 1) .or
    if (← current).is "=" then assignment target (expression operand n) else return target

/-- An ascription behind a colon, if there is a colon. -/
def ascriptionOption (n : Nat) : Parser (Option Ascription) := do
  if (← current).is ":" then
    let _ ← advance
    return some (← ascription n)
  else return none

def declaration (operand : Parser Expr) (n : Nat) : Parser Expr := do
  let start ← expect "var"
  let name ← identifier
  let written ← ascriptionOption n
  let _ ← expect "="
  let value ← expression operand n
  return .declaration (start.span.through value.span) name written value

def statement (operand : Parser Expr) (n : Nat) : Parser Expr := do
  if (← current).is "var" then declaration operand n else expression operand n

/-- The statements of a block and its result. A statement is one that a semicolon ends, or that
ends in a closing brace. What stands last is the result, and the unit value if nothing does. -/
def blockItems (statement : Parser Expr) : Nat → Parser (List Expr × Expr)
  | 0 => return ([], ← statement)
  | n + 1 => do
    let token ← current
    if token.is Token.closeBrace then return ([], Expr.implicitUnit token.span)
    else
      let item ← statement
      if (← current).is ";" then
        let _ ← advance
        let (items, result) ← blockItems statement n
        return (item :: items, result)
      else if (← get).followsBrace then
        let (items, result) ← blockItems statement n
        return (item :: items, result)
      else if item.isDeclaration then throw ⟨.declarationAsResult, item.span.start⟩
      else return ([], item)

def block (operand : Parser Expr) (n : Nat) : Parser Expr := do
  let start ← expect Token.openBrace
  let (statements, result) ← blockItems (statement operand n) n
  let close ← demand Token.closeBrace (.oneOf [";", Token.closeBrace])
  return .block (start.span.through close.span) statements result

def grouping (operand : Parser Expr) (n : Nat) : Parser Expr := do
  let _ ← expect "("
  let inner ← expression operand n
  let _ ← expect ")"
  return inner

def conditional (operand : Parser Expr) (n : Nat) : Parser Expr := do
  let start ← expect "if"
  let condition ← expression operand n
  let _ ← expect "then"
  let consequent ← expression operand n
  if (← current).is "else" then
    let _ ← advance
    let alternative ← expression operand n
    return .ifThenElse (start.span.through alternative.span) condition consequent alternative
  else return .ifThen (start.span.through consequent.span) condition consequent

def loop (operand : Parser Expr) (n : Nat) : Parser Expr := do
  let start ← expect "while"
  let condition ← expression operand n
  let _ ← expect "do"
  let body ← expression operand n
  return .loop (start.span.through body.span) condition body

/-- A sign or a negation binds tighter than every binary operator. -/
def signed (operand : Parser Expr) : Parser Expr := do
  let token ← current
  match UnaryOp.ofText? token.text with
  | none => unexpected (.oneOf (UnaryOp.all.map UnaryOp.text))
  | some op =>
    let _ ← advance
    let inner ← operand
    return .unary (token.span.through inner.span) op inner

def arguments (operand : Parser Expr) (n : Nat) : Parser (List Expr) := do
  if (← current).is ")" then return [] else commaSeparated (expression operand n) n

/-- Goes on from a name with the arguments that it is called with. -/
def call (operand : Parser Expr) (n : Nat) (callee : Identifier) : Parser Expr := do
  let _ ← expect "("
  let values ← arguments operand n
  let close ← demand ")" (.oneOf [",", ")"])
  return .call (callee.span.through close.span) callee values

/-- A name, or a call if a bracket follows it. -/
def nameOrCall (operand : Parser Expr) (n : Nat) : Parser Expr := do
  let name ← identifier
  if (← current).is "(" then call operand n name else return .identifier name.span name.name

def integer : Parser Expr := do
  let token ← current
  match Text.int64? token.text with
  | none => throw ⟨.numberOutOfRange token.text, token.location⟩
  | some value =>
    let _ ← advance
    return .literal token.span (.int value)

def boolean : Parser Expr := do
  let token ← advance
  return .literal token.span (.bool (token.text == "true"))

def operandStart : Expected :=
  .description
    "an integer literal, a boolean literal, an identifier or a parenthesized expression"

/-- An operand is told by the text of its first token where a rule starts with a fixed text, and
by the kind of the token otherwise. -/
def primary (operand : Parser Expr) (n : Nat) : Parser Expr := do
  let token ← current
  if token.is "(" then grouping operand n
  else if token.is Token.openBrace then block operand n
  else if token.isOneOf ["-", "not"] then signed operand
  else if token.is "if" then conditional operand n
  else if token.is "while" then loop operand n
  else match token.kind with
    | .integer => integer
    | .boolean => boolean
    | .identifier => if token.isReserved then unexpected operandStart else nameOrCall operand n
    | .operator | .punctuation | .endMark => unexpected operandStart

/-- An operand among at most `n` tokens. -/
def operand : Nat → Parser Expr
  | 0 => unexpected operandStart
  | n + 1 => primary (operand n) n

end ExprLang.Rule
