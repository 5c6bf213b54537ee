import ExprLang.Operator
import ExprLang.Scope

/-!
The names that every program knows: the operators with a signature, and two functions that print.
-/

namespace ExprLang

/-- The signature of an operator; equality has none, since it compares values of any type. -/
def BinaryOp.signature? (op : BinaryOp) : Option Ty :=
  match op.level with
  | .or | .and => some (.function [.bool, .bool] .bool)
  | .equality => none
  | .relational => some (.function [.int, .int] .bool)
  | .additive | .multiplicative | .unary => some (.function [.int, .int] .int)

def builtins : Bindings :=
  .ofList <| (BinaryOp.all.filterMap fun op => op.signature?.map (op.text, ·)) ++
    [("print_int", .function [.int] .unit), ("print_bool", .function [.bool] .unit)]

end ExprLang
