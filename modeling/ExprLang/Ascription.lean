import ExprLang.Position
import ExprLang.Text.Joined

/-!
Type ascriptions as they are written, every part with its span.
-/

namespace ExprLang

inductive Ascription where
  | simple (name : String) (span : Span)
  | function (params : List Ascription) (result : Ascription) (span : Span)
deriving Repr

namespace Ascription

/-- The names that stand for a type on their own. -/
def simpleNames : List String := ["Int", "Bool", "Unit"]

def span : Ascription → Span
  | simple _ s => s
  | function _ _ s => s

mutual

/-- Are two ascriptions alike, their spans compared by `same`? -/
def agree (same : Span → Span → Bool) : Ascription → Ascription → Bool
  | simple a s, simple b t => a == b && same s t
  | function ps r s, function qs q t => agreeAll same ps qs && agree same r q && same s t
  | _, _ => false

def agreeAll (same : Span → Span → Bool) : List Ascription → List Ascription → Bool
  | [], [] => true
  | a :: as, b :: bs => agree same a b && agreeAll same as bs
  | _, _ => false

end

/-- Alike wherever they stand. -/
def sameShape : Ascription → Ascription → Bool := agree fun _ _ => true

mutual

/-- As it is written, with one blank behind each comma and around each arrow. -/
def render : Ascription → String
  | simple name _ => name
  | function params result _ =>
    "(" ++ Text.joined ", " (renderAll params) ++ ") => " ++ render result

def renderAll : List Ascription → List String
  | [] => []
  | a :: as => render a :: renderAll as

end

mutual

theorem agree_beq_iff (a b : Ascription) : agree (· == ·) a b = true ↔ a = b := by
  match a, b with
  | simple a s, simple b t => simp [agree]
  | function ps r s, function qs q t =>
    simp [agree, agreeAll_beq_iff ps qs, agree_beq_iff r q, and_assoc]
  | simple _ _, function _ _ _ => simp [agree]
  | function _ _ _, simple _ _ => simp [agree]

theorem agreeAll_beq_iff (as bs : List Ascription) : agreeAll (· == ·) as bs = true ↔ as = bs := by
  match as, bs with
  | [], [] => simp [agreeAll]
  | a :: as, b :: bs => simp [agreeAll, agree_beq_iff a b, agreeAll_beq_iff as bs]
  | [], _ :: _ => simp [agreeAll]
  | _ :: _, [] => simp [agreeAll]

end

instance : DecidableEq Ascription := fun a b => decidable_of_iff _ (agree_beq_iff a b)

end Ascription

end ExprLang
