import ExprLang.Expr
import ExprLang.Scope.Builtins
import ExprLang.Typing.Ascription

/-!
Typing: the typed tree of an expression in a scope, or the first error. A declaration extends the
innermost frame, a block opens one for itself, and both hold whether checking succeeds or fails.
-/

namespace ExprLang

/-- What a typed tree carries at every node. -/
structure Typed where
  span : Span
  type : Ty
deriving DecidableEq, Repr

/-- A checked expression. Its ascriptions are the types that they stand for. -/
abbrev TypedExpr := Tree Typed Ty

namespace TypedExpr

def type (e : TypedExpr) : Ty := e.label.type

def start (e : TypedExpr) : Position := e.label.span.start

end TypedExpr

def Literal.type : Literal → Ty
  | int _ => .int
  | bool _ => .bool
  | unit => .unit

/-- A sign is for integers and a negation for truth values. -/
def UnaryOp.type : UnaryOp → Ty
  | negate => .int
  | not => .bool

/-- Checkers read and change a scope. One that fails leaves the scope as it was then. -/
abbrev Checker (α : Type) := EStateM Error Scope α

namespace Checker

def lookup (name : String) : Checker (Option Ty) := return (← get).lookup name

/-- Runs a checker in a frame of its own, which is closed on success and on failure. -/
def inFrame {α : Type} (inner : Checker α) : Checker α := fun s =>
  match inner s.push with
  | .ok a t => .ok a t.pop
  | .error e t => .error e t.pop

/-- Parameters and result of the function called `name`. -/
def signature (name : String) (place : Position) : Checker (List Ty × Ty) := do
  match ← lookup name with
  | none => throw ⟨.notDefined name, place⟩
  | some (.function params result) => return (params, result)
  | some found => throw ⟨.notFunction name found, place⟩

/-- Equality needs two operands of one type, any other operator those of its signature. -/
def binaryType (span : Span) (op : BinaryOp) (left right : TypedExpr) : Checker Ty := do
  if op.isEquality then
    if left.type = right.type then return .bool
    else
      throw ⟨.operandMismatch op.text [left.type, left.type] [left.type, right.type], right.start⟩
  else
    let (params, result) ← signature op.text span.start
    if params = [left.type, right.type] then return result
    else throw ⟨.operandMismatch op.text params [left.type, right.type], span.start⟩

def unaryType (span : Span) (op : UnaryOp) (operand : TypedExpr) : Checker Ty := do
  if operand.type = op.type then return op.type
  else throw ⟨.operandMismatch op.text [op.type] [operand.type], span.start⟩

/-- The condition of `construct` is a truth value. -/
def requireBool (construct : String) (condition : TypedExpr) : Checker Unit := do
  if condition.type = .bool then return ()
  else throw ⟨.conditionNotBool construct condition.type, condition.start⟩

/-- A value that has to be of a given type. -/
def requireType (expected : Ty) (value : TypedExpr) : Checker Unit := do
  if value.type = expected then return ()
  else throw ⟨.typeMismatch expected value.type, value.start⟩

/-- The type that a declaration states, if it states one; its value has to be of that type. -/
def statedType (ascription : Option Ascription) (value : TypedExpr) : Checker (Option Ty) := do
  match ascription with
  | none => return none
  | some ascription =>
    match ascription.type with
    | .error e => throw e
    | .ok stated =>
      requireType stated value
      return some stated

/-- A bare name can be assigned to if it is known. Any other target is checked as it stands. -/
def target : Expr → Checker TypedExpr → Checker TypedExpr
  | .identifier span name, _ => do
    match ← lookup name with
    | none => throw ⟨.notDeclared name, span.start⟩
    | some t => return .identifier ⟨span, t⟩ name
  | _, checked => checked

/-- Records that a bare name was assigned a value of the given type. -/
def recordAssignment (type : Ty) : TypedExpr → Checker Unit
  | .identifier _ name => modify fun s => (s.assign name type).2
  | _ => return ()

/-- Of the arguments of a call only the first is held against the signature. -/
def requireFirst : List Ty → List TypedExpr → Checker Unit
  | param :: _, argument :: _ => requireType param argument
  | _, _ => return ()

end Checker

open Checker

mutual

/-- Checks an expression. Parts are checked in the order in which they are written, and each node
after its parts. -/
def check : Expr → Checker TypedExpr
  | .literal span value => return .literal ⟨span, value.type⟩ value
  | .identifier span name => do
    match ← lookup name with
    | none => throw ⟨.notDefined name, span.start⟩
    | some t => return .identifier ⟨span, t⟩ name
  | .binary span op left right => do
    let left ← check left
    let right ← check right
    let t ← binaryType span op left right
    return .binary ⟨span, t⟩ op left right
  | .unary span op operand => do
    let operand ← check operand
    let t ← unaryType span op operand
    return .unary ⟨span, t⟩ op operand
  | .ifThen span condition consequent => do
    let condition ← check condition
    requireBool "if" condition
    let consequent ← check consequent
    return .ifThen ⟨span, consequent.type⟩ condition consequent
  | .ifThenElse span condition consequent alternative => do
    let condition ← check condition
    requireBool "if" condition
    let consequent ← check consequent
    let alternative ← check alternative
    if alternative.type = consequent.type then
      return .ifThenElse ⟨span, consequent.type⟩ condition consequent alternative
    else throw ⟨.branchMismatch consequent.type alternative.type, alternative.start⟩
  | .loop span condition body => do
    let condition ← check condition
    requireBool "while" condition
    let body ← check body
    return .loop ⟨span, .unit⟩ condition body
  | .block span statements result => inFrame do
    let statements ← checkAll statements
    let result ← check result
    return .block ⟨span, result.type⟩ statements result
  | .declaration span name ascription value => do
    let value ← check value
    let stated ← statedType ascription value
    modify (·.declare name.name value.type)
    return .declaration ⟨span, value.type⟩ name stated value
  | .assignment span left right => do
    let left ← target left (check left)
    let right ← check right
    requireType left.type right
    recordAssignment right.type left
    return .assignment ⟨span, right.type⟩ left right
  | .call span callee arguments => do
    let (params, result) ← signature callee.name callee.span.start
    let arguments ← checkAll arguments
    requireFirst params arguments
    return .call ⟨span, result⟩ callee arguments

def checkAll : List Expr → Checker (List TypedExpr)
  | [] => return []
  | e :: es => do
    let first ← check e
    let rest ← checkAll es
    return first :: rest

end

/-- The typed tree of a whole program over a base table. -/
def Expr.typed (e : Expr) (base : Bindings) : Except Error TypedExpr :=
  match (check e).run (.ofBase base) with
  | .ok typed _ => .ok typed
  | .error error _ => .error error

theorem Expr.typed_eq_ok {e : Expr} {base : Bindings} {typed : TypedExpr} :
    e.typed base = .ok typed ↔ ∃ s, check e (.ofBase base) = .ok typed s := by
  unfold Expr.typed EStateM.run
  cases check e (.ofBase base) <;> simp

theorem Expr.typed_eq_error {e : Expr} {base : Bindings} {error : Error} :
    e.typed base = .error error ↔ ∃ s, check e (.ofBase base) = .error error s := by
  unfold Expr.typed EStateM.run
  cases check e (.ofBase base) <;> simp

end ExprLang
