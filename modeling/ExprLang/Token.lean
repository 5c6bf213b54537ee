import ExprLang.Position
import ExprLang.Text.Quoted

/-!
Tokens: the words, numbers, operators and marks of a program, each with its place.
-/

namespace ExprLang

/-- What a token is. The end mark closes every token list and stands for no text. -/
inductive Token.Kind where
  | identifier
  | integer
  | boolean
  | operator
  | punctuation
  | endMark
deriving DecidableEq, Repr

namespace Token.Kind

def name : Kind → String
  | identifier => "identifier"
  | integer => "int_literal"
  | boolean => "bool_literal"
  | operator => "operator"
  | punctuation => "punctuation"
  | endMark => "end"

end Token.Kind

structure Token where
  kind : Token.Kind
  text : String
  span : Span
deriving DecidableEq, Repr

namespace Token

/-- Words that shape expressions and declarations and so never name a variable. -/
def reservedWords : List String := ["if", "then", "else", "while", "do", "var"]

/-- Braces enclose blocks. -/
def openBrace : String := "\x7b"

def closeBrace : String := "\x7d"

def location (t : Token) : Position := t.span.start

def isEnd (t : Token) : Bool := t.kind == .endMark

/-- Does the token stand for exactly this text? The end mark stands for none. -/
def is (t : Token) (text : String) : Bool := !t.isEnd && t.text == text

def isOneOf (t : Token) (texts : List String) : Bool := texts.any t.is

def isReserved (t : Token) : Bool := t.kind == .identifier && reservedWords.contains t.text

/-- The mark that closes a token list. It borrows the place of the last token, if there is one. -/
def endAfter (last : Option Token) : Token :=
  let place := (last.map location).getD .null
  ⟨.endMark, "", ⟨place, place⟩⟩

def render (t : Token) : String :=
  s!"{t.kind.name} {Text.quote t.text} at {t.location.render}"

@[simp] theorem isEnd_endAfter (last : Option Token) : (endAfter last).isEnd = true := rfl

theorem is_of_isEnd {t : Token} (h : t.isEnd = true) (text : String) : t.is text = false := by
  simp [is, h]

theorem text_of_is {t : Token} {text : String} (h : t.is text = true) : t.text = text := by
  simp only [is, Bool.and_eq_true, beq_iff_eq] at h
  exact h.2

end Token

end ExprLang
