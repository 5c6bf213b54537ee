/-!
Operators, and the levels on which binary operators bind.
-/

namespace ExprLang

/-- How tightly an operator binds, loosest first. The last level is that of sign and negation. -/
inductive Level where
  | or
  | and
  | equality
  | relational
  | additive
  | multiplicative
  | unary
deriving DecidableEq, Repr

inductive BinaryOp where
  | or
  | and
  | equals
  | notEquals
  | less
  | lessEquals
  | greater
  | greaterEquals
  | plus
  | minus
  | multiply
  | divide
  | modulo
deriving DecidableEq, Repr

inductive UnaryOp where
  | negate
  | not
deriving DecidableEq, Repr

namespace BinaryOp

def text : BinaryOp → String
  | or => "or"
  | and => "and"
  | equals => "=="
  | notEquals => "!="
  | less => "<"
  | lessEquals => "<="
  | greater => ">"
  | greaterEquals => ">="
  | plus => "+"
  | minus => "-"
  | multiply => "*"
  | divide => "/"
  | modulo => "%"

def all : List BinaryOp :=
  [or, and, equals, notEquals, less, lessEquals, greater, greaterEquals, plus, minus, multiply,
    divide, modulo]

def ofText? (s : String) : Option BinaryOp := all.find? (·.text == s)

/-- Equality compares two values of any one type; the other operators have a signature. -/
def isEquality : BinaryOp → Bool
  | equals | notEquals => true
  | _ => false

def level : BinaryOp → Level
  | or => .or
  | and => .and
  | equals | notEquals => .equality
  | less | lessEquals | greater | greaterEquals => .relational
  | plus | minus => .additive
  | multiply | divide | modulo => .multiplicative

theorem ofText?_text (op : BinaryOp) : ofText? op.text = some op := by
  cases op <;> decide +kernel

theorem text_of_ofText? {s : String} {op : BinaryOp} (h : ofText? s = some op) : op.text = s := by
  simpa using List.find?_some h

end BinaryOp

namespace UnaryOp

def text : UnaryOp → String
  | negate => "-"
  | not => "not"

def all : List UnaryOp := [negate, not]

def ofText? (s : String) : Option UnaryOp := all.find? (·.text == s)

theorem ofText?_text (op : UnaryOp) : ofText? op.text = some op := by
  cases op <;> decide +kernel

end UnaryOp

namespace Level

def all : List Level :=
  [or, and, equality, relational, additive, multiplicative, unary]

/-- The binary operators that bind on this level, in the order in which a token is compared with
them. -/
def operators : Level → List BinaryOp
  | or => [.or]
  | and => [.and]
  | equality => [.equals, .notEquals]
  | relational => [.less, .lessEquals, .greater, .greaterEquals]
  | additive => [.plus, .minus]
  | multiplicative => [.multiply, .divide, .modulo]
  | unary => []

theorem mem_operators {l : Level} {op : BinaryOp} : op ∈ l.operators ↔ op.level = l := by
  cases op <;> cases l <;> decide

/-- The next tighter level; nothing is tighter than the last. -/
def next : Level → Level
  | or => and
  | and => equality
  | equality => relational
  | relational => additive
  | additive => multiplicative
  | multiplicative | unary => unary

def rank : Level → Nat
  | or => 0
  | and => 1
  | equality => 2
  | relational => 3
  | additive => 4
  | multiplicative => 5
  | unary => 6

instance : LT Level := ⟨fun a b => a.rank < b.rank⟩

instance (a b : Level) : Decidable (a < b) := inferInstanceAs (Decidable (a.rank < b.rank))

/-- The levels of binary operators that bind at least as tightly, loosest first. -/
def tiers (l : Level) : List Level := [or, and, equality, relational, additive,
  multiplicative].filter (l.rank ≤ ·.rank)

theorem tiers_next {l : Level} (h : l ≠ unary) : l.tiers = l :: l.next.tiers := by
  cases l <;> first | rfl | exact absurd rfl h

end Level

end ExprLang
