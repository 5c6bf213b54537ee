import ExprLang.Text.Joined

/-!
Types. Two types fit only when they are equal.
-/

namespace ExprLang

inductive Ty where
  | int
  | bool
  | unit
  | function (params : List Ty) (result : Ty)
deriving Repr

namespace Ty

mutual

def beq : Ty → Ty → Bool
  | int, int | bool, bool | unit, unit => true
  | function ps r, function qs q => beqAll ps qs && beq r q
  | _, _ => false

def beqAll : List Ty → List Ty → Bool
  | [], [] => true
  | a :: as, b :: bs => beq a b && beqAll as bs
  | _, _ => false

end

mutual

theorem beq_iff (a b : Ty) : beq a b = true ↔ a = b := by
  match a, b with
  | function ps r, function qs q => simp [beq, beqAll_iff ps qs, beq_iff r q]
  | int, b | bool, b | unit, b => cases b <;> simp [beq]
  | function _ _, int | function _ _, bool | function _ _, unit => simp [beq]

theorem beqAll_iff (as bs : List Ty) : beqAll as bs = true ↔ as = bs := by
  match as, bs with
  | [], [] => simp [beqAll]
  | a :: as, b :: bs => simp [beqAll, beq_iff a b, beqAll_iff as bs]
  | [], _ :: _ => simp [beqAll]
  | _ :: _, [] => simp [beqAll]

end

instance : DecidableEq Ty := fun a b => decidable_of_iff _ (beq_iff a b)

mutual

def render : Ty → String
  | int => "Int"
  | bool => "Bool"
  | unit => "Unit"
  | function params result => "(" ++ Text.joined ", " (renderAll params) ++ ") => " ++ render result

def renderAll : List Ty → List String
  | [] => []
  | t :: ts => render t :: renderAll ts

end

/-- Types in order, with a comma between neighbours. -/
def renderList (ts : List Ty) : String := Text.joined ", " (renderAll ts)

/-- The types that have a name of their own. -/
def ofName? : String → Option Ty
  | "Int" => some int
  | "Bool" => some bool
  | "Unit" => some unit
  | _ => none

end Ty

end ExprLang
