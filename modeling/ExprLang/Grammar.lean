import ExprLang.Rule.Program
import ExprLang.Token.Reader

/-!
The grammar: its rules as parsers of any token stream, and the tree of a whole program.
-/

namespace ExprLang

namespace Grammar

open ExprLang.Parser

/-- An expression rule over the operands of the stream at hand. -/
def overOperands {α : Type} (rule : Parser Expr → Nat → Parser α) : Parser α :=
  bounded fun n => rule (Rule.operand n) n

def ascription : Parser Ascription := bounded Rule.ascription

def functionType : Parser Ascription := bounded fun n => Rule.functionType (Rule.ascription n) n

def expression : Parser Expr := overOperands Rule.expression

def binary (level : Level) : Parser Expr :=
  overOperands fun operand n => Rule.binary operand n level

def assignment (target : Expr) : Parser Expr :=
  overOperands fun operand n => Rule.assignment target (Rule.expression operand n)

def primary : Parser Expr := overOperands Rule.primary

def signed : Parser Expr := overOperands fun operand _ => Rule.signed operand

def grouping : Parser Expr := overOperands Rule.grouping

def call (callee : Identifier) : Parser Expr :=
  overOperands fun operand n => Rule.call operand n callee

def conditional : Parser Expr := overOperands Rule.conditional

def loop : Parser Expr := overOperands Rule.loop

def block : Parser Expr := overOperands Rule.block

def declaration : Parser Expr := overOperands Rule.declaration

def statement : Parser Expr := overOperands Rule.statement

def program : Parser Expr := bounded Rule.program

end Grammar

/-- The tree of a token list, or the first error of it. -/
def Expr.ofTokens (tokens : List Token) (file : String) : Except Error Expr :=
  match Grammar.program.run (.ofTokens tokens file) with
  | .ok e _ => .ok e
  | .error e _ => .error e

/-- The tree of the text called `file`. -/
def Expr.read (text : String) (file : String) : Except Error Expr :=
  Expr.ofTokens (Token.read text file) file

end ExprLang
