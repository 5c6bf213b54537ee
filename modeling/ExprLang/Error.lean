import ExprLang.Position
import ExprLang.Token
import ExprLang.Ty

/-!
What can be wrong with a program: the cause, its place, and how both are put into words.
-/

namespace ExprLang

/-- What the grammar asks for at a place. -/
inductive Expected where
  | literal (text : String)
  | oneOf (texts : List String)
  | description (words : String)
deriving DecidableEq, Repr

namespace Expected

/-- A text of the program stands between double quotes as it is. -/
def inQuotes (text : String) : String := "\"" ++ text ++ "\""

def render : Expected → String
  | literal text => inQuotes text
  | oneOf texts => "one of: " ++ Text.joined ", " (texts.map inQuotes)
  | description words => words

end Expected

/-- Why a program is refused. -/
inductive Cause where
  | unexpectedToken (expected : Expected) (found : String) (kind : Token.Kind)
  | numberOutOfRange (numeral : String)
  | declarationAsResult
  | notDefined (name : String)
  | notDeclared (name : String)
  | typeMismatch (expected received : Ty)
  | operandMismatch (operator : String) (expected received : List Ty)
  | conditionNotBool (construct : String) (received : Ty)
  | branchMismatch (consequent alternative : Ty)
  | notFunction (name : String) (found : Ty)
  | unknownType (name : String)
deriving DecidableEq, Repr

/-- Which rules a cause belongs to: those of the grammar, those of types and names, or those that
every parsed tree keeps. -/
inductive Cause.Kind where
  | grammatical
  | semantic
  | internal
deriving DecidableEq, Repr

namespace Cause

def Kind.name : Kind → String
  | grammatical => "syntax error"
  | semantic => "semantic error"
  | internal => "internal error"

def kind : Cause → Kind
  | unexpectedToken .. | numberOutOfRange _ | declarationAsResult => .grammatical
  | notDefined _ | notDeclared _ | typeMismatch .. | operandMismatch .. | conditionNotBool ..
  | branchMismatch .. | notFunction .. => .semantic
  | unknownType _ => .internal

/-- The short name under which a report announces the cause. -/
def name : Cause → String
  | unexpectedToken .. => "UnexpectedToken"
  | numberOutOfRange _ => "NumberParseError"
  | declarationAsResult => "VarDeclAsResult"
  | notDefined _ => "VariableNotDefined"
  | notDeclared _ => "VariableNotDeclared"
  | typeMismatch .. => "TypeMatchError"
  | operandMismatch .. => "OperandTypeMatchError"
  | conditionNotBool .. => "ConditionTypeError"
  | branchMismatch .. => "BranchTypeMatchError"
  | notFunction .. => "NotAFunction"
  | unknownType _ => "UnknownType"

/-- The cause in one line. -/
def message : Cause → String
  | unexpectedToken expected found kind =>
    s!"expected {expected.render}, found {kind.name} {Text.quote found}"
  | numberOutOfRange numeral => s!"error parsing number: {Text.quote numeral}"
  | declarationAsResult => "a variable declaration cannot be the result of a block"
  | notDefined name => s!"variable {Text.quote name} not defined"
  | notDeclared name => s!"variable {Text.quote name} not declared"
  | typeMismatch expected received =>
    s!"types do not match: expected {expected.render}, received {received.render}"
  | operandMismatch operator expected received =>
    s!"operand types do not match for {Text.quote operator}: " ++
      s!"expected {Ty.renderList expected}, received {Ty.renderList received}"
  | conditionNotBool construct received =>
    s!"{construct} condition must be Bool, received {received.render}"
  | branchMismatch consequent alternative =>
    s!"if branches do not match: then is {consequent.render}, else is {alternative.render}"
  | notFunction name found => s!"{Text.quote name} is not a function: its type is {found.render}"
  | unknownType name => s!"unknown type {name} found"

/-- What a report suggests, where there is something to suggest. -/
def tip : Cause → Option String
  | unexpectedToken _ "" .endMark => some "Input ended early, is something missing?"
  | unexpectedToken _ found .endMark =>
    some ("Input ended early after `" ++ found ++ "`, is something missing?")
  | unexpectedToken expected found _ =>
    some ("Expected " ++ expected.render ++ ", found `" ++ found ++ "`")
  | numberOutOfRange numeral =>
    some ("Invalid number: `" ++ numeral ++ "`, is it above the integer limit?")
  | declarationAsResult =>
    some "A block cannot end in a variable declaration, add a result expression after it"
  | notDefined name => some ("Variable `" ++ name ++ "` is not defined")
  | notDeclared name => some ("Declare `" ++ name ++ "` with `var` before assigning to it")
  | typeMismatch expected received =>
    some ("Expected type `" ++ expected.render ++ "`, received `" ++ received.render ++ "`")
  | operandMismatch operator expected received =>
    some ("Operator `" ++ operator ++ "` expects `" ++ Ty.renderList expected ++ "`, received `" ++
      Ty.renderList received ++ "`")
  | conditionNotBool .. => none
  | branchMismatch .. =>
    some "Both branches of an `if` with an `else` must have the same type"
  | notFunction name _ => some ("`" ++ name ++ "` cannot be called")
  | unknownType _ => none

end Cause

structure Error where
  cause : Cause
  position : Position
deriving DecidableEq, Repr

namespace Error

def render (e : Error) : String := e.position.render ++ ": " ++ e.cause.message

end Error

end ExprLang
