import ExprLang.Expr
import ExprLang.Token

/-!
Expressions as nested lists: the operator or construct first, its parts behind it, as in
`(+ 2 (* 3 4))`.
-/

namespace ExprLang

def Literal.render : Literal → String
  | int value => toString value
  | bool true => "true"
  | bool false => "false"
  | unit => "unit"

namespace Expr

mutual

def render : Expr → String
  | .literal _ value => value.render
  | .identifier _ name => name
  | .binary _ op left right => "(" ++ op.text ++ " " ++ render left ++ " " ++ render right ++ ")"
  | .unary _ op operand => "(" ++ op.text ++ " " ++ render operand ++ ")"
  | .ifThen _ condition consequent => "(if " ++ render condition ++ " " ++ render consequent ++ ")"
  | .ifThenElse _ condition consequent alternative =>
    "(if " ++ render condition ++ " " ++ render consequent ++ " " ++ render alternative ++ ")"
  | .loop _ condition body => "(while " ++ render condition ++ " " ++ render body ++ ")"
  | .block _ statements result =>
    Token.openBrace ++ renderStatements statements ++ render result ++ Token.closeBrace
  | .declaration _ name none value => "(var " ++ name.name ++ " " ++ render value ++ ")"
  | .declaration _ name (some ascription) value =>
    "(var " ++ name.name ++ ": " ++ ascription.render ++ " " ++ render value ++ ")"
  | .assignment _ target value => "(= " ++ render target ++ " " ++ render value ++ ")"
  | .call _ callee arguments => "(" ++ callee.name ++ renderArguments arguments ++ ")"

/-- Every statement is closed by a semicolon and a blank. -/
def renderStatements : List Expr → String
  | [] => ""
  | e :: es => render e ++ "; " ++ renderStatements es

/-- Every argument has a blank before it. -/
def renderArguments : List Expr → String
  | [] => ""
  | e :: es => " " ++ render e ++ renderArguments es

end

end Expr

end ExprLang
