import ExprLang.Expr.Printer
import ExprLang.Proofs.Typing.Placement
import ExprLang.Text.Numeral
import ExprLang.Token.Lexeme

/-!
Writing a tree out as a program: fully bracketed, one blank between the lexemes. Which trees can be
written so is part of it: those that a program could have.
-/

namespace ExprLang

/-- Lists of lexemes with a comma between neighbours. -/
def withCommas : List (List String) → List String
  | [] => []
  | [xs] => xs
  | xs :: ys :: rest => xs ++ "," :: withCommas (ys :: rest)

/-- Words that are no names: they shape programs, or they are values and operators. -/
def keywords : List String :=
  ["if", "then", "else", "while", "do", "var", "true", "false", "and", "or", "not"]

/-- A letter or an underscore, then any of these and digits, and no keyword. -/
def isName (x : String) : Bool :=
  (match x.toList with
    | [] => false
    | c :: cs => (c.isAlpha || c == '_') && cs.all fun d => d.isAlphanum || d == '_') &&
    !keywords.contains x

namespace Ascription

mutual

def lexemes : Ascription → List String
  | simple name _ => [name]
  | function params result _ =>
    "(" :: (withCommas (lexemesEach params) ++ ")" :: "=>" :: lexemes result)

def lexemesEach : List Ascription → List (List String)
  | [] => []
  | a :: as => lexemes a :: lexemesEach as

end

mutual

/-- Only types have a name, and a function takes a parameter at least. -/
def wellNamed : Ascription → Bool
  | simple name _ => simpleNames.contains name
  | function params result _ => !params.isEmpty && wellNamedAll params && wellNamed result

def wellNamedAll : List Ascription → Bool
  | [] => true
  | a :: as => wellNamed a && wellNamedAll as

end

end Ascription

namespace Expr

/-- Is the expression the unit value, which is only written by leaving it out? -/
def isUnit : Expr → Bool
  | .literal _ .unit => true
  | _ => false

mutual

def lexemes : Expr → List String
  | .literal _ value => [value.render]
  | .identifier _ name => [name]
  | .binary _ op left right => "(" :: (lexemes left ++ op.text :: (lexemes right ++ [")"]))
  | .unary _ op operand => "(" :: op.text :: (lexemes operand ++ [")"])
  | .ifThen _ condition consequent =>
    "(" :: "if" :: (lexemes condition ++ "then" :: (lexemes consequent ++ [")"]))
  | .ifThenElse _ condition consequent alternative =>
    "(" :: "if" :: (lexemes condition ++ "then" :: (lexemes consequent ++
      "else" :: (lexemes alternative ++ [")"])))
  | .loop _ condition body =>
    "(" :: "while" :: (lexemes condition ++ "do" :: (lexemes body ++ [")"]))
  | .block _ statements result =>
    Token.openBrace :: ((lexemesEach statements).flatMap (· ++ [";"]) ++
      ((if isUnit result then [] else lexemes result) ++ [Token.closeBrace]))
  | .declaration _ name ascription value =>
    "var" :: name.name :: ((match ascription with
      | none => []
      | some a => ":" :: a.lexemes) ++ "=" :: lexemes value)
  | .assignment _ target value => "(" :: (lexemes target ++ "=" :: (lexemes value ++ [")"]))
  | .call _ callee arguments => callee.name :: "(" :: (withCommas (lexemesEach arguments) ++ [")"])

def lexemesEach : List Expr → List (List String)
  | [] => []
  | e :: es => lexemes e :: lexemesEach es

end

/-- The tree as a program. -/
def spelling (e : Expr) : String := Text.joined " " e.lexemes

mutual

/-- Names are names, numbers are numerals without a sign, and only a block leaves a unit value
out. -/
def wellNamed : Expr → Bool
  | .literal _ (.int value) => 0 ≤ value && value ≤ 9223372036854775807
  | .literal _ (.bool _) => true
  | .literal _ .unit => false
  | .identifier _ name => isName name
  | .binary _ _ left right => wellNamed left && wellNamed right
  | .unary _ _ operand => wellNamed operand
  | .ifThen _ condition consequent => wellNamed condition && wellNamed consequent
  | .ifThenElse _ condition consequent alternative =>
    wellNamed condition && wellNamed consequent && wellNamed alternative
  | .loop _ condition body => wellNamed condition && wellNamed body
  | .block _ statements result => wellNamedAll statements && (isUnit result || wellNamed result)
  | .declaration _ name ascription value =>
    isName name.name && ascription.all Ascription.wellNamed && wellNamed value
  | .assignment _ target value => wellNamed target && wellNamed value
  | .call _ callee arguments => isName callee.name && wellNamedAll arguments

def wellNamedAll : List Expr → Bool
  | [] => true
  | e :: es => wellNamed e && wellNamedAll es

end

/-- A tree that can be written as a program. -/
structure WellFormed (e : Expr) : Prop where
  placed : e.placed true = true
  wellNamed : e.wellNamed = true

end Expr

end ExprLang
