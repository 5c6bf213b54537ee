import ExprLang.Ascription
import ExprLang.Error

/-!
The type that an ascription stands for. A parsed ascription has only names of types in it; any
other name, which a tree built by hand may hold, is refused at its place.
-/

namespace ExprLang.Ascription

mutual

def type : Ascription → Except Error Ty
  | simple name span =>
    match Ty.ofName? name with
    | some t => .ok t
    | none => .error ⟨.unknownType name, span.start⟩
  | function params result _ => do
    let params ← types params
    let result ← type result
    return .function params result

/-- The types of a list of ascriptions, or the error of the first that has none. -/
def types : List Ascription → Except Error (List Ty)
  | [] => .ok []
  | a :: as => do
    let first ← type a
    let rest ← types as
    return first :: rest

end

end ExprLang.Ascription
