import ExprLang.Expr

/-!
Where declarations stand in a tree. The grammar puts them directly into blocks or at the root.
-/

namespace ExprLang.Tree

variable {ν τ : Type}

mutual

/-- Does every declaration stand directly in a block? `declares` allows for one at the root. -/
def placed (declares : Bool) : Tree ν τ → Bool
  | literal .. | identifier .. => true
  | binary _ _ left right => placed false left && placed false right
  | unary _ _ operand => placed false operand
  | ifThen _ condition consequent => placed false condition && placed false consequent
  | ifThenElse _ condition consequent alternative =>
    placed false condition && placed false consequent && placed false alternative
  | loop _ condition body => placed false condition && placed false body
  | block _ statements result => placedAll true statements && placed false result
  | declaration _ _ _ value => declares && placed false value
  | assignment _ target value => placed false target && placed false value
  | call _ _ arguments => placedAll false arguments

def placedAll (declares : Bool) : List (Tree ν τ) → Bool
  | [] => true
  | e :: es => placed declares e && placedAll declares es

end

theorem placed_false {e : Tree ν τ} (h : e.placed true = true) (hd : e.isDeclaration = false) :
    e.placed false = true := by
  cases e with
  | declaration => cases hd
  | _ => exact h

theorem placed_true {e : Tree ν τ} (h : e.placed false = true) : e.placed true = true := by
  cases e with
  | declaration => cases h
  | _ => exact h

theorem placedAll_iff {declares : Bool} {es : List (Tree ν τ)} :
    placedAll declares es = true ↔ ∀ e ∈ es, e.placed declares = true := by
  induction es with
  | nil => simp [placedAll]
  | cons e es ih => simp [placedAll, ih]

end ExprLang.Tree
