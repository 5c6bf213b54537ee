import Mathlib.Data.List.Forall2
import ExprLang.Proofs.Grammar.Acceptance
import ExprLang.Proofs.Grammar.Following
import ExprLang.Proofs.Operator.Precedence

/-!
Operators between operands in a row. Main statement: a row is read to its end, and its tree is the
one that binds by the levels of its operators; rows with `=` between them are assigned from the
right.
-/

namespace ExprLang

open ExprLang.Token (starts)

namespace Grammar

/-- Signs and negations in front of a literal, a name, a call, a group or a block. -/
inductive IsOperand : List Token → Prop where
  | atom {w : List Token} : Derives .primary w → starts w "if" = false →
      starts w "while" = false → IsOperand w
  | signed {t : Token} {w : List Token} : t.is "-" = true ∨ t.is "not" = true → IsOperand w →
      IsOperand (t :: w)

variable {w r : List Token} {e : Expr} {t : OperatorTree}

/-- An operand has this tree wherever it stands, but in front of a bracket, which would make a call
of its name. -/
def OperandTree (w : List Token) (e : Expr) : Prop :=
  ∀ (s : TokenStream) (r : List Token), s.ahead = w ++ r → starts r "(" = false →
    Grammar.primary s = .ok e (s.pass w)

/-- The same, told without a stream. -/
def ReadAs (w : List Token) (e : Expr) : Prop :=
  ∀ r, starts r "(" = false → Reading .operand w r [e]

theorem isSign_iff {t : Token} :
    t.isOneOf ["-", "not"] = true ↔ t.is "-" = true ∨ t.is "not" = true := by
  simp [Token.isOneOf]

theorem exists_unaryOp {t : Token} (ht : t.is "-" = true ∨ t.is "not" = true) :
    ∃ op, UnaryOp.ofText? t.text = some op := by
  rcases ht with ht | ht
  · exact ⟨.negate, by rw [Token.text_of_is ht]; decide⟩
  · exact ⟨.not, by rw [Token.text_of_is ht]; decide⟩

theorem IsOperand.exists_reading (h : IsOperand w) (hs : ∀ t ∈ w, t.Spelt)
    (hr : starts r "(" = false) : ∃ e, Reading .operand w r [e] := by
  induction h with
  | @atom w hw hif hwhile =>
    exact (splitting w.length).atom (Nat.le_refl _) hs hw hif hwhile fun h => by
      rw [hr] at h
      cases h
  | signed ht _ ih =>
    obtain ⟨e, he⟩ := ih (List.forall_mem_cons.1 hs).2
    obtain ⟨op, hop⟩ := exists_unaryOp ht
    exact ⟨_, .signed (isSign_iff.2 ht) hop he⟩

/-- What is read as an operand has one tree. -/
theorem Reading.operand_unique {e' : Expr} (h : Reading .operand w r [e])
    (h' : Reading .operand w r [e']) : e = e' :=
  (Rule.denotes_operand _).unique (Nat.le_refl _) h h'

/-- The tree of an operand does not depend on what follows it. -/
theorem IsOperand.exists_tree (h : IsOperand w) (hs : ∀ t ∈ w, t.Spelt) : ∃ e, ReadAs w e := by
  obtain ⟨e, he⟩ := h.exists_reading hs (r := []) rfl
  refine ⟨e, fun r hr => ?_⟩
  obtain ⟨e', he'⟩ := h.exists_reading hs hr
  have hend : Reading .operand w [] [e'] := he'.before (.inr ⟨quiet_nil, rfl⟩)
  rwa [he.operand_unique hend]

theorem ReadAs.operandTree (h : ReadAs w e) : OperandTree w e := by
  intro s r hs hr
  have hprimary := Rule.denotes_primary (Rule.denotes_operand s.remaining) s (Nat.le_succ _)
  exact (hprimary e _).2 ⟨w, r, hs, rfl, h r hr⟩

/-- Operands with a binary operator between neighbours: the first one, and the others each behind
its operator. -/
structure Chain where
  first : List Token
  rest : List (Token × List Token)
  isOperand_first : IsOperand first
  isOperand_rest : ∀ x ∈ rest, x.1.IsBinary ∧ IsOperand x.2

namespace Chain

def tokens (c : Chain) : List Token := c.first ++ c.rest.flatMap fun x => x.1 :: x.2

/-- The tree has the operators of the chain between the trees of its operands, it binds by level,
and no other tree over them does. -/
structure Builds (c : Chain) (t : OperatorTree) : Prop where
  first : OperandTree c.first t.inOrder.1
  rest : List.Forall₂ (fun x y => x.1.is y.1.text = true ∧ OperandTree x.2 y.2) c.rest t.inOrder.2
  bindsByLevel : t.BindsByLevel
  unique : ∀ u : OperatorTree, u.inOrder = t.inOrder → u.BindsByLevel → u = t

end Chain

/-- The tokens write the operands and operators of a tree in their order. -/
def WrittenBy : OperatorTree → List Token → Prop
  | .operand e, w => ReadAs w e
  | .node op left right, w => ∃ u q v, w = u ++ q :: v ∧ q.is op.text = true ∧
      WrittenBy left u ∧ WrittenBy right v

/-- The tokens of a tree are read on a level, along with what goes on from it on this level. -/
def Leads (t : OperatorTree) (w : List Token) : Prop :=
  ∀ l ≠ .unary, (∀ o ∈ t.operators, l.rank ≤ o.level.rank) → ∀ v r e,
    (∀ x ∈ (v ++ r).head?, Looser l.next x ∧ x.is "(" = false) →
    Reading (.leaning l t.expr) v r [e] → Reading (.binary l) (w ++ v) r [e]

/-- A tree of tighter operators is read on a level where no operator of it follows. -/
theorem Leads.binary {l : Level} (h : Leads t w) (hw : WrittenBy t w)
    (hops : ∀ o ∈ t.operators, l.rank ≤ o.level.rank)
    (hr : ∀ x ∈ r.head?, Looser l x ∧ x.is "(" = false) : Reading (.binary l) w r [t.expr] := by
  by_cases hl : l = .unary
  · subst hl
    cases t with
    | operand e =>
      refine .tightest (hw r (Token.starts_eq_false_iff.2 fun x hx => ?_))
      simpa using (hr x hx).2
    | node op left right =>
      exact absurd (hops op (by simp)) (by cases op <;> decide)
  · have hstop : ∀ x ∈ r.head?, Rule.operatorOf l x = none := fun x hx =>
      Rule.operatorOf_eq_none.2 fun op hop => (hr x hx).1 op (by rw [hop])
    have hnext := Level.rank_next hl
    rw [← List.append_nil w]
    exact h l hl hops [] r t.expr (fun x hx => ⟨(hr x hx).1.mono (by omega), (hr x hx).2⟩)
      (.stop hstop)

theorem WrittenBy.leads (h : WrittenBy t w) (hb : t.BindsByLevel) : Leads t w := by
  -- By induction on the tree: its left side leads over the root to what follows the tree.
  induction t generalizing w with
  | operand e =>
    intro l hl _ v r e' hnext he
    have hparen : starts (v ++ r) "(" = false :=
      Token.starts_eq_false_iff.2 fun x hx => by simpa using (hnext x hx).2
    refine .level hl ?_ he
    exact (h _ hparen).tightest.climb (by cases l <;> decide) fun x hx => (hnext x hx).1
  | node op left right ihl ihr =>
    obtain ⟨u, q, x, rfl, hq, hu, hx⟩ := h
    obtain ⟨hlooser, htighter, hbl, hbr⟩ := hb
    simp only [← BinaryOp.rank_level] at hlooser htighter
    have hnextlevel := Level.rank_next op.level_ne_unary
    have hroot : ∀ v r e, (∀ y ∈ (v ++ r).head?, Looser op.level.next y ∧ y.is "(" = false) →
        Reading (.leaning op.level (OperatorTree.node op left right).expr) v r [e] →
        Reading (.binary op.level) (u ++ q :: (x ++ v)) r [e] := by
      intro v r e hnext he
      have hright : Reading (.binary op.level.next) x (v ++ r) [right.expr] :=
        (ihr hx hbr).binary hx (fun o ho => by have := htighter o ho; omega) hnext
      refine ihl hu hbl op.level op.level_ne_unary hlooser (q :: (x ++ v)) r e ?_
        (.step (operatorOf_of_is hq) hright he)
      rintro y ⟨⟩
      exact ⟨looser_of_is hq, Token.is_eq_false_of_is hq (by cases op <;> decide)⟩
    intro l hl hops v r e hnext he
    have hop : l.rank ≤ op.level.rank := hops op (by simp)
    rw [List.append_assoc, List.cons_append]
    by_cases hsame : op.level = l
    · subst hsame
      exact hroot v r e hnext he
    · -- The root binds tighter than the level, on which the tree then stands alone.
      have hlt : l.next.rank ≤ op.level.rank := by
        have := Level.rank_next hl
        have := mt (Level.rank_injective (l := op.level) (m := l)) hsame
        omega
      have hstop : ∀ y ∈ (v ++ r).head?, Rule.operatorOf op.level y = none := fun y hy =>
        Rule.operatorOf_eq_none.2 fun op' hop' => (hnext y hy).1 op' (by rw [hop']; exact hlt)
      have htree := hroot [] (v ++ r) _
        (fun y hy => ⟨(hnext y hy).1.mono (by omega), (hnext y hy).2⟩) (.stop hstop)
      rw [List.append_nil] at htree
      have hlevel := Reading.level hl (htree.climb hlt fun y hy => (hnext y hy).1) he
      rwa [List.append_assoc, List.cons_append] at hlevel

/-- Operands and operators in a row write every tree over them. -/
theorem writtenBy_of_inOrder {rest : List (Token × List Token)} (hfirst : ReadAs w t.inOrder.1)
    (hrest : List.Forall₂ (fun x y => x.1.is y.1.text = true ∧ ReadAs x.2 y.2) rest t.inOrder.2) :
    WrittenBy t (w ++ rest.flatMap fun x => x.1 :: x.2) := by
  induction t generalizing w rest with
  | operand e =>
    cases hrest
    rwa [List.flatMap_nil, List.append_nil]
  | node op left right ihl ihr =>
    have hleft := List.forall₂_take_append _ _ _ hrest
    have hright := List.forall₂_drop_append _ _ _ hrest
    rw [← List.take_append_drop left.inOrder.2.length rest]
    generalize rest.take left.inOrder.2.length = before at hleft ⊢
    generalize rest.drop left.inOrder.2.length = after at hright ⊢
    cases hright with
    | @cons x _ after _ hx hafter =>
      exact ⟨_, x.1, _, by simp, hx.1, ihl hfirst hleft, ihr hx.2 hafter⟩

namespace Chain

variable {c : Chain}

/-- The trees of the operands and the operators between them, as the chain has them in a row. -/
theorem exists_row (hs : ∀ t ∈ c.tokens, t.Spelt) :
    ∃ row : OperatorRow, ReadAs c.first row.1 ∧
      List.Forall₂ (fun x y => x.1.is y.1.text = true ∧ ReadAs x.2 y.2) c.rest row.2 := by
  obtain ⟨hfirst, hrest⟩ := List.forall_mem_append.1 hs
  obtain ⟨e, he⟩ := c.isOperand_first.exists_tree hfirst
  have hnext : ∀ x ∈ c.rest, ∃ y : BinaryOp × Expr, x.1.is y.1.text = true ∧ ReadAs x.2 y.2 := by
    intro x hx
    obtain ⟨hbinary, hoperand⟩ := c.isOperand_rest x hx
    obtain ⟨op, hop⟩ := Token.isBinary_iff.1 hbinary
    obtain ⟨e, he⟩ := hoperand.exists_tree fun t ht =>
      hrest t (List.mem_flatMap.2 ⟨x, hx, List.mem_cons_of_mem _ ht⟩)
    exact ⟨(op, e), hop, he⟩
  have : Nonempty (BinaryOp × Expr) := ⟨(.or, e)⟩
  choose! row hrow using hnext
  exact ⟨(e, c.rest.map row), he, List.forall₂_map_right_iff.2 (List.forall₂_same.2 hrow)⟩

/-- A chain is read to its end, with the tree that the levels of its operators dictate. -/
theorem exists_builds (hs : ∀ t ∈ c.tokens, t.Spelt) :
    ∃ t, c.Builds t ∧ ∀ r, (∀ x ∈ r.head?, Looser .or x ∧ x.is "(" = false) →
      Reading (.binary .or) c.tokens r [t.expr] := by
  obtain ⟨row, hfirst, hrest⟩ := c.exists_row hs
  obtain ⟨t, rfl, hbinds⟩ := OperatorTree.exists_bindsByLevel row
  have hwritten : WrittenBy t c.tokens := writtenBy_of_inOrder hfirst hrest
  have hbuilds : c.Builds t :=
    { first := hfirst.operandTree
      rest := List.Forall₂.imp (fun _ _ h => ⟨h.1, h.2.operandTree⟩) hrest
      bindsByLevel := hbinds
      unique := fun u hu hb => hb.eq hbinds hu }
  exact ⟨t, hbuilds, fun r hr =>
    (hwritten.leads hbinds).binary hwritten (fun _ _ => Nat.zero_le _) hr⟩

/-- Chains with `=` behind each but the last. -/
def assignedTokens (targets : List (Chain × Token)) (value : Chain) : List Token :=
  (targets.flatMap fun x => x.1.tokens ++ [x.2]) ++ value.tokens

/-- The assignment of a value to the last target, of this assignment to the target before it, and so
on. -/
def assignedTree (targets : List Expr) (value : Expr) : Expr :=
  targets.foldr (fun target e : Expr => .assignment (target.span.through e.span) target e) value

theorem exists_reading {targets : List (Chain × Token)} {value : Chain}
    (hs : ∀ t ∈ assignedTokens targets value, t.Spelt) (hq : ∀ x ∈ targets, x.2.is "=" = true)
    (hr : Quiet r) :
    ∃ (trees : List OperatorTree) (last : OperatorTree),
      List.Forall₂ (fun x t => x.1.Builds t) targets trees ∧ value.Builds last ∧
      Reading .expression (assignedTokens targets value) r
        [assignedTree (trees.map OperatorTree.expr) last.expr] := by
  induction targets with
  | nil =>
    obtain ⟨last, hlast, hread⟩ := exists_builds hs
    exact ⟨[], last, .nil, hlast,
      .value (hread r fun t ht => ⟨(hr t ht).1, (hr t ht).2.2⟩) hr.starts_eq_false.1⟩
  | cons x targets ih =>
    have htokens : assignedTokens (x :: targets) value =
        x.1.tokens ++ x.2 :: assignedTokens targets value := by simp [assignedTokens]
    rw [htokens] at hs ⊢
    obtain ⟨hfirst, hothers⟩ := List.forall_mem_append.1 hs
    obtain ⟨hx, hq⟩ := List.forall_mem_cons.1 hq
    obtain ⟨trees, last, htrees, hlast, hread⟩ := ih (List.forall_mem_cons.1 hothers).2 hq
    obtain ⟨t, ht, htarget⟩ := exists_builds hfirst
    refine ⟨t :: trees, last, .cons ht htrees, hlast, .assignment (htarget _ ?_) hx hread⟩
    rintro y ⟨⟩
    refine ⟨fun op _ => Token.is_eq_false_of_is hx ?_, Token.is_eq_false_of_is hx (by decide)⟩
    cases op <;> decide

end Chain

/-- Chains of operands with `=` between neighbours are read to their end, each as the one tree that
the levels of its operators dictate, and assigned from the right. A single chain is its own tree. -/
theorem expression_of_chains {s : TokenStream} {targets : List (Chain × Token)} {value : Chain}
    (hs : ∀ t ∈ Chain.assignedTokens targets value, t.Spelt)
    (hq : ∀ x ∈ targets, x.2.is "=" = true)
    (hahead : s.ahead = Chain.assignedTokens targets value ++ r)
    (hr : ∀ t ∈ r.head?, ¬t.IsBinary ∧ t.is "=" = false ∧ t.is "(" = false) :
    ∃ (trees : List OperatorTree) (last : OperatorTree),
      List.Forall₂ (fun x t => x.1.Builds t) targets trees ∧ value.Builds last ∧
      Grammar.expression s = .ok (Chain.assignedTree (trees.map OperatorTree.expr) last.expr)
        (s.pass (Chain.assignedTokens targets value)) := by
  have hquiet : Quiet r := fun t ht =>
    ⟨looser_or_iff.2 (hr t ht).1, (hr t ht).2⟩
  obtain ⟨trees, last, htrees, hlast, hread⟩ := Chain.exists_reading hs hq hquiet
  refine ⟨trees, last, htrees, hlast, ?_⟩
  have hexpression := Rule.denotes_expression (Rule.denotes_operand s.remaining) s.remaining
  exact (hexpression (Nat.le_refl _) s (Nat.le_refl _) _ _).2 ⟨_, r, hahead, rfl, hread⟩

/-- An assignment of a sum, of which the second operand is a product with a sign in it. -/
theorem expression_of_chains_sum :
    let word (kind : Token.Kind) (text : String) : Token := ⟨kind, text, .null⟩
    let x : Expr := .identifier .null "x"
    let product : Expr := .binary .null .multiply (.literal .null (.int 2))
      (.unary .null .negate (.identifier .null "y"))
    let sum : Expr := .binary .null .plus (.literal .null (.int 1)) product
    ∃ (target value : Chain) (q : Token) (s : TokenStream) (t u : OperatorTree),
      s.ahead = Chain.assignedTokens [(target, q)] value ++ [word .punctuation ";"] ∧
      s.ahead.map Token.text = ["x", "=", "1", "+", "2", "*", "-", "y", ";"] ∧
      target.Builds t ∧ t.expr = x ∧ value.Builds u ∧ u.expr = sum ∧
      Grammar.expression s = .ok (.assignment .null x sum)
        (s.pass (Chain.assignedTokens [(target, q)] value)) := by
  intro word x product sum
  let q := word .operator "="
  let w := [word .identifier "x", q, word .integer "1", word .operator "+", word .integer "2",
    word .operator "*", word .operator "-", word .identifier "y"]
  let s : TokenStream := ⟨"", none, w ++ [word .punctuation ";"], Token.endAfter none, rfl⟩
  have hspelt : ∀ t ∈ w, t.Spelt := by
    unfold Token.Spelt
    decide
  have hrun : Grammar.expression s = .ok (.assignment .null x sum) (s.pass w) := by
    dsimp only [s, w, q, word, x, product, sum, List.cons_append, List.nil_append]
    with_unfolding_all rfl
  have hx : IsOperand [word .identifier "x"] := .atom (.name (by decide)) (by decide) (by decide)
  have hy : IsOperand [word .operator "-", word .identifier "y"] :=
    .signed (.inl (by decide)) (.atom (.name (by decide)) (by decide) (by decide))
  have hone : IsOperand [word .integer "1"] :=
    .atom (.integer ⟨rfl, by decide⟩) (by decide) (by decide)
  have htwo : IsOperand [word .integer "2"] :=
    .atom (.integer ⟨rfl, by decide⟩) (by decide) (by decide)
  let target : Chain := ⟨[word .identifier "x"], [], hx, by simp⟩
  let value : Chain := ⟨[word .integer "1"],
    [(word .operator "+", [word .integer "2"]),
      (word .operator "*", [word .operator "-", word .identifier "y"])], hone, by
      simp only [List.forall_mem_cons]
      exact ⟨⟨by decide, htwo⟩, ⟨by decide, hy⟩, by simp⟩⟩
  have hw : Chain.assignedTokens [(target, q)] value = w := rfl
  have hequals : ∀ x ∈ [(target, q)], x.2.is "=" = true :=
    List.forall_mem_singleton.2 (show q.is "=" = true by decide)
  have hsemicolon : ¬(word .punctuation ";").IsBinary := by decide
  obtain ⟨trees, u, htrees, hu, hread⟩ := expression_of_chains (s := s) (hw ▸ hspelt) hequals
    (hw ▸ rfl) (r := [word .punctuation ";"]) (by rintro t ⟨⟩; exact ⟨hsemicolon, by decide⟩)
  obtain ⟨t, _, ht, htail, rfl⟩ := List.forall₂_cons_left_iff.1 htrees
  obtain rfl := List.forall₂_nil_left_iff.1 htail
  -- The trees of the two sides are told by what the run gives.
  obtain ⟨hsides, -⟩ := EStateM.Result.ok.inj (hread.symm.trans hrun)
  obtain ⟨-, htarget, hvalue⟩ := Tree.assignment.inj hsides
  exact ⟨target, value, q, s, t, u, rfl, rfl, ht, htarget, hu, hvalue, hrun⟩

end Grammar

end ExprLang
