import ExprLang.Ascription
import ExprLang.Operator

/-!
Expressions. Blocks, loops and declarations are expressions too, and all of them share one shape of
tree: a parsed tree carries a span at every node, a typed tree carries a span and a type.
-/

namespace ExprLang

/-- A value written in a program. The unit value has no spelling: it stands for a result left
out. -/
inductive Literal where
  | int (value : Int)
  | bool (value : Bool)
  | unit
deriving DecidableEq, Repr

/-- A name and where it is written. -/
structure Identifier where
  name : String
  span : Span
deriving DecidableEq, Repr

/-- Expressions with a label of type `ν` at every node and ascriptions of type `τ`. -/
inductive Tree (ν τ : Type) where
  | literal (label : ν) (value : Literal)
  | identifier (label : ν) (name : String)
  | binary (label : ν) (op : BinaryOp) (left right : Tree ν τ)
  | unary (label : ν) (op : UnaryOp) (operand : Tree ν τ)
  | ifThen (label : ν) (condition consequent : Tree ν τ)
  | ifThenElse (label : ν) (condition consequent alternative : Tree ν τ)
  | loop (label : ν) (condition body : Tree ν τ)
  | block (label : ν) (statements : List (Tree ν τ)) (result : Tree ν τ)
  | declaration (label : ν) (name : Identifier) (ascription : Option τ) (value : Tree ν τ)
  | assignment (label : ν) (target value : Tree ν τ)
  | call (label : ν) (callee : Identifier) (arguments : List (Tree ν τ))
deriving Repr

/-- A parsed expression. -/
abbrev Expr := Tree Span Ascription

namespace Tree

variable {ν τ : Type}

def label : Tree ν τ → ν
  | literal l _ | identifier l _ | binary l _ _ _ | unary l _ _ | ifThen l _ _
  | ifThenElse l _ _ _ | loop l _ _ | block l _ _ | declaration l _ _ _ | assignment l _ _
  | call l _ _ => l

def isDeclaration : Tree ν τ → Bool
  | declaration .. => true
  | _ => false

end Tree

namespace Expr

def span (e : Expr) : Span := e.label

/-- What stands for a result that is left out. -/
def implicitUnit (s : Span) : Expr := .literal s .unit

end Expr

end ExprLang
