import Mathlib.Data.List.Induction
import ExprLang.Expr

/-!
Trees of binary operators over operands in a row. Main statement: exactly one of the trees over a
row binds by the levels of the operators, the tighter ones first and those of one level from the
left.
-/

namespace ExprLang

/-- The texts of the binary operators by how tightly they bind, the loosest first. -/
def precedences : List (List String) :=
  [["or"], ["and"], ["==", "!="], ["<", "<=", ">", ">="], ["+", "-"], ["*", "/", "%"]]

/-- How tightly an operator binds, told by its text. -/
def BinaryOp.tightness (op : BinaryOp) : Nat := precedences.findIdx (·.contains op.text)

/-- The levels of the grammar hold the operators in this order. -/
theorem BinaryOp.rank_level (op : BinaryOp) : op.level.rank = op.tightness := by
  cases op <;> decide +kernel

/-- A tree of operators. What its operands are made of counts for nothing. -/
inductive OperatorTree where
  | operand (e : Expr)
  | node (op : BinaryOp) (left right : OperatorTree)

/-- Operands with an operator between neighbours: the first one, and the others each behind its
operator. -/
abbrev OperatorRow := Expr × List (BinaryOp × Expr)

namespace OperatorTree

/-- The operands and operators in the order in which they are written. -/
def inOrder : OperatorTree → OperatorRow
  | operand e => (e, [])
  | node op left right =>
    (left.inOrder.1, left.inOrder.2 ++ (op, right.inOrder.1) :: right.inOrder.2)

/-- The operators of the tree. -/
def operators (t : OperatorTree) : List BinaryOp := t.inOrder.2.map Prod.fst

/-- Left of an operator stand those of its own level and the tighter ones, right of it only tighter
ones. -/
def BindsByLevel : OperatorTree → Prop
  | operand _ => True
  | node op left right => (∀ o ∈ left.operators, op.tightness ≤ o.tightness) ∧
      (∀ o ∈ right.operators, op.tightness < o.tightness) ∧ left.BindsByLevel ∧
      right.BindsByLevel

/-- The expression that the tree stands for. -/
def expr : OperatorTree → Expr
  | operand e => e
  | node op left right => .binary (left.expr.span.through right.expr.span) op left.expr right.expr

@[simp] theorem operators_operand (e : Expr) : (operand e).operators = [] := rfl

@[simp] theorem operators_node (op : BinaryOp) (left right : OperatorTree) :
    (node op left right).operators = left.operators ++ op :: right.operators := by
  simp [operators, inOrder]

/-- Of two trees over one row neither has its root further to the right. -/
theorem not_root_left {op op' : BinaryOp} {left right left' right' : OperatorTree}
    {between : List (BinaryOp × Expr)} {e : Expr} (h : (node op left right).BindsByLevel)
    (h' : (node op' left' right').BindsByLevel)
    (hleft : left'.inOrder.2 = left.inOrder.2 ++ (op, right.inOrder.1) :: between)
    (hright : right.inOrder.2 = between ++ (op', e) :: right'.inOrder.2) : False := by
  obtain ⟨-, htighter, -⟩ := h
  obtain ⟨hlooser, -⟩ := h'
  have hop : op ∈ left'.operators := by simp [operators, hleft]
  have hop' : op' ∈ right.operators := by simp [operators, hright]
  exact absurd (htighter op' hop') (Nat.not_lt.2 (hlooser op hop))

/-- So the roots stand at the same place. -/
theorem left_inOrder_eq {op op' : BinaryOp} {left right left' right' : OperatorTree}
    (h : (node op left right).BindsByLevel) (h' : (node op' left' right').BindsByLevel)
    (hrow : (node op left right).inOrder = (node op' left' right').inOrder) :
    left.inOrder.2 = left'.inOrder.2 := by
  rcases List.append_eq_append_iff.1 (Prod.mk.inj hrow).2 with ⟨m, hleft, hm⟩ | ⟨m, hleft, hm⟩
  · cases m with
    | nil => rw [hleft, List.append_nil]
    | cons x m =>
      obtain ⟨rfl, hright⟩ := List.cons.inj hm
      exact (not_root_left h h' hleft hright).elim
  · cases m with
    | nil => rw [hleft, List.append_nil]
    | cons x m =>
      obtain ⟨rfl, hright⟩ := List.cons.inj hm
      exact (not_root_left h' h hleft hright).elim

/-- What the levels of the operators dictate is one tree. -/
theorem BindsByLevel.eq {t u : OperatorTree} (ht : t.BindsByLevel) (hu : u.BindsByLevel)
    (h : t.inOrder = u.inOrder) : t = u := by
  induction t generalizing u with
  | operand e =>
    cases u with
    | operand e' => rw [(Prod.mk.inj h).1]
    | node op' left' right' => simp [inOrder] at h
  | node op left right ihl ihr =>
    cases u with
    | operand e' => simp [inOrder] at h
    | node op' left' right' =>
      have hleft := left_inOrder_eq ht hu h
      obtain ⟨hfirst, hrest⟩ := Prod.mk.inj h
      obtain ⟨hroot, hright⟩ := List.cons.inj (List.append_inj_right hrest (by rw [hleft]))
      obtain ⟨rfl, hnext⟩ := Prod.mk.inj hroot
      rw [ihl ht.2.2.1 hu.2.2.1 (Prod.ext hfirst hleft),
        ihr ht.2.2.2 hu.2.2.2 (Prod.ext hnext hright)]

/-- The tree with one more operator and operand at its right end: below the root if the new operator
binds tighter, and else above it. -/
def extend (op' : BinaryOp) (e : Expr) : OperatorTree → OperatorTree
  | operand a => node op' (operand a) (operand e)
  | node op left right =>
    if op.tightness < op'.tightness then node op left (right.extend op' e)
    else node op' (node op left right) (operand e)

theorem inOrder_extend (op' : BinaryOp) (e : Expr) (t : OperatorTree) :
    (t.extend op' e).inOrder = (t.inOrder.1, t.inOrder.2 ++ [(op', e)]) := by
  induction t with
  | operand a => rfl
  | node op left right _ ihr =>
    rw [extend]
    split
    · simp [inOrder, ihr]
    · rfl

theorem BindsByLevel.extend {t : OperatorTree} (h : t.BindsByLevel) (op' : BinaryOp) (e : Expr) :
    (t.extend op' e).BindsByLevel := by
  induction t with
  | operand a => simp [OperatorTree.extend, BindsByLevel]
  | node op left right _ ihr =>
    obtain ⟨hlooser, htighter, hleft, hright⟩ := h
    rw [OperatorTree.extend]
    split
    · rename_i hop
      refine ⟨hlooser, ?_, hleft, ihr hright⟩
      rw [operators, inOrder_extend, List.map_append]
      intro o ho
      rcases List.mem_append.1 ho with ho | ho
      · exact htighter o ho
      · rwa [List.mem_singleton.1 ho]
    · rename_i hop
      refine ⟨?_, by simp, ⟨hlooser, htighter, hleft, hright⟩, trivial⟩
      rw [operators_node, List.forall_mem_append, List.forall_mem_cons]
      refine ⟨fun o ho => ?_, by omega, fun o ho => ?_⟩
      · have := hlooser o ho
        omega
      · have := htighter o ho
        omega

/-- Every row has a tree that binds by level. -/
theorem exists_bindsByLevel (row : OperatorRow) :
    ∃ t : OperatorTree, t.inOrder = row ∧ t.BindsByLevel := by
  obtain ⟨first, rest⟩ := row
  induction rest using List.reverseRecOn with
  | nil => exact ⟨operand first, rfl, trivial⟩
  | append_singleton rest x ih =>
    obtain ⟨t, ht, hbinds⟩ := ih
    refine ⟨t.extend x.1 x.2, ?_, hbinds.extend x.1 x.2⟩
    rw [inOrder_extend, ht]

end OperatorTree

end ExprLang
