import ExprLang.Proofs.Grammar.Braces
import ExprLang.Proofs.Grammar.Contract

/-!
The result of a block. Main statement: it is left out exactly where a semicolon or the opening brace
stands in front of the closing one, and it is the last expression of the block otherwise.
-/

namespace ExprLang

open ExprLang.Token (starts finishes openBrace closeBrace)

namespace Grammar

variable {w r : List Token} {es : List Expr} {e : Expr}

/-- These tokens between the braces of a block leave its result out. -/
def LeavesOut (w : List Token) : Prop := w = [] ∨ finishes w ";" = true

theorem leavesOut_append (v : List Token) (hw : w ≠ []) : LeavesOut (v ++ w) ↔ LeavesOut w := by
  simp [LeavesOut, hw, Token.finishes_append hw]

/-- Behind a semicolon the other items decide, and it does itself if there are none. -/
theorem leavesOut_terminated {q : Token} (v : List Token) (hq : q.is ";" = true) :
    LeavesOut (v ++ q :: w) ↔ LeavesOut w := by
  by_cases hw : w = []
  · have hfinishes : finishes (v ++ [q]) ";" = true := by
      rwa [Token.finishes_append (List.cons_ne_nil q [])]
    subst hw
    exact iff_of_true (.inr hfinishes) (.inl rfl)
  · rw [List.append_cons]
    exact leavesOut_append (v ++ [q]) hw

/-- The unit value is no expression of a program. -/
theorem Reading.isUnit_eq_false (h : Reading .expression w r [e]) (hs : ∀ t ∈ w, t.Spelt) :
    e.isUnit = false := by
  have hnamed : e.wellNamed = true := by
    simpa [Part.WellNamed, Expr.wellNamedAll] using h.wellNamed hs
  unfold Expr.isUnit
  split
  · cases hnamed
  · rfl

theorem Reading.expression_of_statement (h : Reading .statement w r [e])
    (he : e.isDeclaration = false) : Reading .expression w r [e] := by
  cases h with
  | declaration | ascribed => cases he
  | statement _ h => exact h

/-- There is an item where the block does not end. -/
theorem Reading.items_ne_nil (h : Reading .items w r es)
    (hclose : starts (w ++ r) closeBrace = false) : w ≠ [] := by
  rintro rfl
  generalize hw : ([] : List Token) = w at h
  cases h with
  | leftOut hc =>
    rw [List.nil_append, Token.starts_cons, hc] at hclose
    cases hclose
  | terminated => simp at hw
  | closed _ h => exact h.ne_nil rfl (List.append_eq_nil_iff.1 hw.symm).1
  | result _ h => exact h.ne_nil rfl hw.symm

/-- The items of a block end in a semicolon, or there are none, or the last one is an expression
that nothing ends before the closing brace. -/
theorem Reading.last_item (h : Reading .items w r es) : (∀ t ∈ w, t.Spelt) →
    (LeavesOut w ∧ ∃ statements c r', r = c :: r' ∧
        es = statements ++ [Expr.implicitUnit c.span]) ∨
      (¬LeavesOut w ∧ ∃ u v statements result, w = u ++ v ∧ es = statements ++ [result] ∧
        Leading u (v ++ r) statements ∧ Reading .expression v r [result]) := by
  generalize hp : Part.items = p at h
  -- By induction on the items: what stands in front of the others does not change how they end.
  induction h with
  | @leftOut c r => exact fun _ => .inl ⟨.inl rfl, [], c, r, rfl, rfl⟩
  | @terminated w q v r e es hbrace hst hq _ _ ih =>
    intro hs
    simp only [List.forall_mem_append, List.forall_mem_cons] at hs
    rw [leavesOut_terminated w hq]
    rcases ih hp hs.2.2 with ⟨hv, ss, c, r', hr, rfl⟩ | ⟨hv, u, x, ss, result, rfl, rfl, hlead, hx⟩
    · exact .inl ⟨hv, e :: ss, c, r', hr, rfl⟩
    · rw [List.append_assoc] at hst
      exact .inr ⟨hv, w ++ q :: u, x, e :: ss, result, by simp, rfl,
        .terminated hbrace hst hq hlead, hx⟩
  | @closed w v r e es hbrace hst hf hsemicolon hclose hes _ ih =>
    intro hs
    rw [leavesOut_append w (hes.items_ne_nil hclose)]
    rcases ih hp (List.forall_mem_append.1 hs).2 with
      ⟨hv, ss, c, r', hr, rfl⟩ | ⟨hv, u, x, ss, result, rfl, rfl, hlead, hx⟩
    · exact .inl ⟨hv, e :: ss, c, r', hr, rfl⟩
    · rw [List.append_assoc] at hst hsemicolon hclose
      exact .inr ⟨hv, w ++ u, x, e :: ss, result, by simp, rfl,
        .closed hbrace hst hf hsemicolon hclose hlead, hx⟩
  | @result w r e _ hst _ _ hd =>
    intro hs
    have hunfinished := hst.finishes_eq_false hs rfl
    refine .inr ⟨?_, [], w, [], e, rfl, rfl, .nil, hst.expression_of_statement hd⟩
    simp [LeavesOut, hst.ne_nil rfl, hunfinished]
  | _ => cases hp

/-- Where a block is read from the tokens of a text, its result is the unit value exactly if the
token in front of its closing brace is a semicolon or its opening brace. The unit value then stands
at the closing brace. Otherwise the result is the last expression, which starts behind the other
items and which nothing ends before the closing brace. -/
theorem block_result {text file : String} {s t : TokenStream} {e : Expr}
    (hs : s.ahead <:+ (Token.read text file).filter fun t => !t.isEnd)
    (h : Grammar.block s = .ok e t) :
    ∃ (o c : Token) (w : List Token) (statements : List Expr) (result : Expr),
      s.ahead = o :: (w ++ c :: t.ahead) ∧ t = s.pass (o :: (w ++ [c])) ∧
      o.is openBrace = true ∧ c.is closeBrace = true ∧
      e = .block (o.span.through c.span) statements result ∧
      (Expr.isUnit result = true ↔ w = [] ∨ finishes w ";" = true) ∧
      (Expr.isUnit result = true → result = Expr.implicitUnit c.span) ∧
      (Expr.isUnit result = false → ∃ u v, w = u ++ v ∧ v ≠ [] ∧
        Leading u (v ++ c :: t.ahead) statements ∧
        Grammar.expression (s.pass (o :: u)) = .ok result (s.pass (o :: w))) := by
  have hspelt : ∀ t ∈ s.ahead, t.Spelt := by
    rw [Token.filter_read] at hs
    exact fun t ht => Token.spelt_of_mem_scan (hs.subset ht)
  have hblock := Rule.denotes_block (Rule.denotes_operand s.remaining) s (Nat.le_succ _)
  obtain ⟨_, r, hw, rfl, o, w, c, statements, result, rfl, ho, hitems, hc, rfl⟩ := (hblock e t).1 h
  have hahead : s.ahead = o :: (w ++ c :: r) := by simpa using hw
  have hrest : (s.pass (o :: (w ++ [c]))).ahead = r := TokenStream.ahead_pass hw
  have hspeltw : ∀ t ∈ w, t.Spelt := fun t ht => hspelt t (by simp [hahead, ht])
  refine ⟨o, c, w, statements, result, by rwa [hrest], rfl, ho, hc, rfl, ?_⟩
  rw [hrest]
  rcases hitems.last_item hspeltw with ⟨hout, ss, c', r', hr, hes⟩ |
    ⟨hout, u, v, ss, result', rfl, hes, hlead, hv⟩
  · obtain ⟨rfl, hresult⟩ := List.append_inj' hes rfl
    obtain rfl := List.singleton_inj.1 hresult
    obtain ⟨rfl, rfl⟩ := List.cons.inj hr
    exact ⟨iff_of_true rfl hout, fun _ => rfl, fun h => by cases h⟩
  · obtain ⟨rfl, hresult⟩ := List.append_inj' hes rfl
    obtain rfl := List.singleton_inj.1 hresult
    have hunit : Expr.isUnit result = false :=
      hv.isUnit_eq_false (List.forall_mem_append.1 hspeltw).2
    refine ⟨iff_of_false (by simp [hunit]) hout, by simp [hunit], fun _ =>
      ⟨u, v, rfl, hv.ne_nil rfl, hlead, ?_⟩⟩
    have hbehind : (s.pass (o :: u)).ahead = v ++ c :: r :=
      TokenStream.ahead_pass (by simpa using hahead)
    have hrun := Rule.denotes_expression (Rule.denotes_operand (s.pass (o :: u)).remaining) _
      (Nat.le_refl _) _ (Nat.le_refl _)
    rw [← List.cons_append, TokenStream.pass_append]
    exact (hrun result _).2 ⟨v, c :: r, hbehind, rfl, hv⟩

/-- A semicolon ends the first item of this block, its own brace the second, and nothing the
third. -/
theorem block_result_name :
    let s := TokenStream.ofTokens (Token.read "\x7b f(); \x7bx\x7d y \x7d" "") ""
    ∃ (o c : Token) (u v : List Token) (place : Span) (statements : List Expr) (result : Expr)
      (t : TokenStream),
      Grammar.block s = .ok (.block place statements result) t ∧
      result = .identifier ⟨⟨1, 12, ""⟩, ⟨1, 13, ""⟩⟩ "y" ∧
      s.ahead = o :: (u ++ v ++ c :: t.ahead) ∧ finishes (u ++ v) ";" = false ∧
      Leading u (v ++ c :: t.ahead) statements ∧
      Grammar.expression (s.pass (o :: u)) = .ok result (s.pass (o :: (u ++ v))) := by
  intro s
  obtain ⟨place, statements, result, t, hrun, hresult⟩ :
      ∃ (place : Span) (statements : List Expr) (result : Expr) (t : TokenStream),
        Grammar.block s = .ok (.block place statements result) t ∧
        result = .identifier ⟨⟨1, 12, ""⟩, ⟨1, 13, ""⟩⟩ "y" :=
    ⟨_, _, _, _, by with_unfolding_all rfl, rfl⟩
  have hs : s.ahead <:+ (Token.read "\x7b f(); \x7bx\x7d y \x7d" "").filter fun t => !t.isEnd :=
    ⟨[], by decide +kernel⟩
  obtain ⟨o, c, w, _, _, hahead, -, -, -, he, hunit, -, hlast⟩ := block_result hs hrun
  obtain ⟨-, rfl, rfl⟩ := Tree.block.inj he
  have hname : Expr.isUnit result = false := by rw [hresult]; rfl
  obtain ⟨u, v, rfl, -, hlead, hexpression⟩ := hlast hname
  rw [hname] at hunit
  exact ⟨o, c, u, v, place, statements, result, t, hrun, hresult, hahead,
    Bool.eq_false_iff.2 fun h => Bool.false_ne_true (hunit.2 (.inr h)), hlead, hexpression⟩

end Grammar

end ExprLang
