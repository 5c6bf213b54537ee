import ExprLang.Proofs.Grammar.Soundness

/-!
Operands on every level. Main statement: an operator between two operands joins them to an
expression, whatever its level is.
-/

namespace ExprLang

open ExprLang.Token (starts)

theorem BinaryOp.text_injective {a b : BinaryOp} (h : a.text = b.text) : a = b := by
  have ha := BinaryOp.ofText?_text a
  rw [h, BinaryOp.ofText?_text] at ha
  exact (Option.some_inj.1 ha).symm

theorem BinaryOp.level_ne_unary (op : BinaryOp) : op.level ≠ .unary := by
  cases op <;> decide

theorem Level.rank_injective {l m : Level} (h : l.rank = m.rank) : l = m := by
  revert h
  cases l <;> cases m <;> decide

theorem Level.rank_next {l : Level} (h : l ≠ .unary) : l.next.rank = l.rank + 1 := by
  cases l <;> first | rfl | exact absurd rfl h

namespace Grammar

variable {w r : List Token} {e : Expr}

/-- Nothing comes next that goes on with an operand: no operator, no value, no arguments. -/
def Quiet (r : List Token) : Prop :=
  ∀ t ∈ r.head?, Looser .or t ∧ t.is "=" = false ∧ t.is "(" = false

theorem quiet_nil : Quiet [] := by
  intro t ht
  cases ht

theorem quiet_cons {t : Token} {x : String} (ht : t.is x = true)
    (hx : BinaryOp.ofText? x = none ∧ x ≠ "=" ∧ x ≠ "(") : Quiet (t :: r) := by
  obtain ⟨hop, heq, hparen⟩ := hx
  rintro t ⟨⟩
  refine ⟨fun op _ => Token.is_eq_false_of_is ht ?_, Token.is_eq_false_of_is ht heq,
    Token.is_eq_false_of_is ht hparen⟩
  rintro rfl
  rw [BinaryOp.ofText?_text] at hop
  cases hop

theorem Quiet.starts_eq_false (h : Quiet r) : starts r "=" = false ∧ starts r "(" = false := by
  constructor <;> apply Token.starts_eq_false_iff.2 <;> intro t ht
  · simpa using (h t ht).2.1
  · simpa using (h t ht).2.2

/-- What no operator goes on with is read on the looser levels too. -/
theorem Reading.climb {l m : Level} (h : Reading (.binary m) w r [e]) (hlm : l.rank ≤ m.rank)
    (hr : ∀ t ∈ r.head?, Looser l t) : Reading (.binary l) w r [e] := by
  obtain ⟨d, hd⟩ := Nat.le.dest hlm
  -- By induction on the number of levels between the two.
  induction d generalizing l with
  | zero =>
    obtain rfl : l = m := Level.rank_injective hd
    exact h
  | succ d ih =>
    have hlast : l ≠ .unary := by
      rintro rfl
      revert hd
      cases m <;> simp [Level.rank] <;> omega
    have hnext := Level.rank_next hlast
    have hi : Reading (.binary l.next) w r [e] :=
      ih (by omega) (fun t ht => (hr t ht).mono (by omega)) (by omega)
    rw [← List.append_nil w]
    refine .level hlast hi (.stop fun t ht => Rule.operatorOf_eq_none.2 fun op hop => ?_)
    exact hr t ht op (by rw [hop])

theorem Reading.expression_of_binary {l : Level} (h : Reading (.binary l) w r [e])
    (hr : Quiet r) : Reading .expression w r [e] :=
  .value (h.climb (l := .or) (Nat.zero_le _) fun t ht => (hr t ht).1) hr.starts_eq_false.1

theorem Reading.expression_of_operand (h : Reading .operand w r [e]) (hr : Quiet r) :
    Reading .expression w r [e] :=
  h.tightest.expression_of_binary hr

/-- An operator is told by its text and stands on its own level. -/
theorem operatorOf_of_is {q : Token} {op : BinaryOp} (hq : q.is op.text = true) :
    Rule.operatorOf op.level q = some op := by
  cases ho : Rule.operatorOf op.level q with
  | none =>
    rw [Rule.operatorOf_eq_none.1 ho op rfl] at hq
    cases hq
  | some op' =>
    have hop' := Token.text_of_is (Rule.operatorOf_eq_some ho).1
    rw [Token.text_of_is hq] at hop'
    rw [BinaryOp.text_injective hop']

/-- An operator ends what stands on a tighter level. -/
theorem looser_of_is {q : Token} {op : BinaryOp} (hq : q.is op.text = true) :
    Looser op.level.next q := by
  have hnext := Level.rank_next op.level_ne_unary
  intro op' hop'
  refine Token.is_eq_false_of_is hq fun heq => ?_
  obtain rfl := BinaryOp.text_injective heq
  omega

/-- An operator between two operands joins them, whatever levels there are. -/
theorem Reading.join {u v : List Token} {q : Token} {op : BinaryOp} {a b : Expr}
    (ha : Reading .operand u (q :: (v ++ r)) [a]) (hq : q.is op.text = true)
    (hb : Reading .operand v r [b]) (hr : Quiet r) :
    Reading .expression (u ++ q :: v) r [.binary (a.span.through b.span) op a b] := by
  have hleft : Reading (.binary op.level.next) u (q :: (v ++ r)) [a] := by
    refine ha.tightest.climb (by cases op <;> decide) ?_
    rintro t ⟨⟩
    exact looser_of_is hq
  have hright : Reading (.binary op.level.next) v r [b] :=
    hb.tightest.climb (by cases op <;> decide) fun t ht => (hr t ht).1.mono (Nat.zero_le _)
  have hstop : ∀ t ∈ r.head?, Rule.operatorOf op.level t = none := fun t ht =>
    Rule.operatorOf_eq_none.2 fun op' _ => (hr t ht).1 op' (Nat.zero_le _)
  have hstep := Reading.step (operatorOf_of_is hq) hright
    (.stop (a := .binary (a.span.through b.span) op a b) hstop)
  rw [List.append_nil] at hstep
  exact (Reading.level op.level_ne_unary hleft hstep).expression_of_binary hr

end Grammar

end ExprLang
