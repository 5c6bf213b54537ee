import ExprLang.Proofs.Grammar.Conditionals
import ExprLang.Proofs.Grammar.Errors
import ExprLang.Proofs.Grammar.Following

/-!
What stands around an expression. Main statement: the same tokens are read as the same expression
behind any others, and in front of any token that does not go on with an expression. So they are in
brackets, as an argument, as a condition, in front of a semicolon and as a program.
-/

namespace ExprLang

open ExprLang.Parser
open ExprLang.Token (starts closed)

namespace TokenStream

/-- What is ahead in a list is behind the tokens in front of it. -/
theorem ahead_ofTokens_append (w : List Token) (x : Token) (behind : List Token) (file : String) :
    (ofTokens (w ++ x :: behind) file).ahead = w ++ (ofTokens (x :: behind) file).ahead := by
  have hlast : (w ++ x :: behind).getLast? = (x :: behind).getLast? :=
    List.getLast?_append_of_ne_nil w (List.cons_ne_nil x behind)
  have hdrop : (w ++ x :: behind).dropLast = w ++ (x :: behind).dropLast :=
    List.dropLast_append_of_ne_nil (List.cons_ne_nil x behind)
  unfold ofTokens
  rw [hlast]
  split
  next hnone => simp at hnone
  next last _ =>
    by_cases hend : last.isEnd = true
    · rw [dif_pos hend, dif_pos hend, hdrop]
    · rw [dif_neg hend, dif_neg hend]

/-- The first token of a list is the first one ahead, unless none is. -/
theorem eq_of_mem_head?_ofTokens {x t : Token} {behind : List Token} {file : String}
    (ht : t ∈ (ofTokens (x :: behind) file).ahead.head?) : t = x := by
  have hcurrent : (ofTokens (x :: behind) file).current = x := (ofTokens_append [] x behind file).2
  rw [← hcurrent, current, Option.mem_def.1 ht]
  rfl

end TokenStream

namespace Parser

variable {α : Type} {p : Parser α} {R : Relation α} {file : String} {before behind w : List Token}
  {x : Token} {a : α}

/-- Between the tokens `before` and `behind`, the parser takes just the tokens `w`, and answers
`a`. -/
def ReadsBetween (p : Parser α) (file : String) (before behind w : List Token) (a : α) : Prop :=
  let s := TokenStream.ofTokens (before ++ (w ++ behind)) file
  p (s.pass before) = .ok a (s.pass (before ++ w))

/-- The tokens before it are nothing to a parser that denotes a relation. -/
theorem readsBetween_iff (hp : ∀ s, DenotesAt p s R) :
    ReadsBetween p file before (x :: behind) w a ↔
      R w (TokenStream.ofTokens (x :: behind) file).ahead a := by
  unfold ReadsBetween
  have hahead : (TokenStream.ofTokens (before ++ (w ++ x :: behind)) file).ahead =
      before ++ (w ++ (TokenStream.ofTokens (x :: behind) file).ahead) := by
    rw [← List.append_assoc, TokenStream.ahead_ofTokens_append, List.append_assoc]
  generalize TokenStream.ofTokens (before ++ (w ++ x :: behind)) file = s at hahead
  generalize (TokenStream.ofTokens (x :: behind) file).ahead = r at hahead
  have hw : (s.pass before).ahead = w ++ r := TokenStream.ahead_pass hahead
  show p (s.pass before) = .ok a (s.pass (before ++ w)) ↔ R w r a
  rw [TokenStream.pass_append, hp]
  constructor
  · rintro ⟨w', r', hw', hpass, hR⟩
    -- The tokens that are left are the same, so that the tokens that are read are.
    have hr : r = r' := by
      rw [← TokenStream.ahead_pass hw, hpass, TokenStream.ahead_pass hw']
    subst hr
    rwa [List.append_cancel_right (hw.symm.trans hw')]
  · exact fun hR => ⟨w, r, hw, rfl, hR⟩

end Parser

namespace Token

/-- No expression goes on with this token: it is no operator and no equals sign, and it opens
neither arguments nor an alternative. -/
def EndsExpression (t : Token) : Prop :=
  ¬t.IsBinary ∧ t.is "=" = false ∧ t.is "else" = false ∧ t.is "(" = false

theorem endsExpression_of_is {t : Token} {mark : String} (h : t.is mark = true)
    (hmark : BinaryOp.ofText? mark = none ∧ mark ≠ "=" ∧ mark ≠ "else" ∧ mark ≠ "(") :
    t.EndsExpression := by
  obtain ⟨hnone, heq, helse, hparen⟩ := hmark
  refine ⟨?_, is_eq_false_of_is h heq, is_eq_false_of_is h helse, is_eq_false_of_is h hparen⟩
  intro hbinary
  obtain ⟨op, hop⟩ := isBinary_iff.1 hbinary
  rw [← text_of_is h, text_of_is hop, BinaryOp.ofText?_text] at hnone
  cases hnone

theorem endsExpression_of_isEnd {t : Token} (h : t.isEnd = true) : t.EndsExpression := by
  refine ⟨?_, is_of_isEnd h "=", is_of_isEnd h "else", is_of_isEnd h "("⟩
  rintro ⟨text, -, htext⟩
  rw [is_of_isEnd h] at htext
  cases htext

/-- The marks behind an expression within a larger one, and the end of the program. -/
theorem endsExpression_of_mark {t : Token}
    (h : t.isEnd = true ∨ t.isOneOf [")", ",", "then", "do", ";"] = true) : t.EndsExpression := by
  have hmarks : ∀ mark ∈ [")", ",", "then", "do", ";"],
      BinaryOp.ofText? mark = none ∧ mark ≠ "=" ∧ mark ≠ "else" ∧ mark ≠ "(" := by decide
  rcases h with hend | hmark
  · exact endsExpression_of_isEnd hend
  · obtain ⟨mark, hmem, hmark⟩ := List.any_eq_true.1 hmark
    exact endsExpression_of_is hmark (hmarks mark hmem)

end Token

namespace Grammar

variable {file : String} {before behind r v w : List Token} {c o x y : Token} {b e : Expr}

theorem Quiet.of_endsExpression (hx : x.EndsExpression) (hr : ∀ t ∈ r.head?, t = x) :
    Quiet r ∧ starts r "else" = false := by
  obtain ⟨hop, heq, helse, hparen⟩ := hx
  refine ⟨fun t ht => ?_, Token.starts_eq_false_iff.2 fun t ht => ?_⟩
  · rw [hr t ht]
    exact ⟨looser_or_iff.2 hop, heq, hparen⟩
  · rw [hr t ht, helse]
    exact Bool.false_ne_true

/-- The bound of a rule over operands is that of the stream at hand. -/
theorem denotesAt_overOperands {rule : Parser Expr → Nat → Parser Expr} {R : Relation Expr}
    (h : ∀ n, Denotes (rule (Rule.operand n) n) (n + 1) R) (s : TokenStream) :
    DenotesAt (overOperands rule) s R :=
  h s.remaining s (Nat.le_succ s.remaining)

theorem readsBetween_expression_iff :
    ReadsBetween expression file before (x :: behind) w e ↔
      Reading .expression w (TokenStream.ofTokens (x :: behind) file).ahead [e] :=
  readsBetween_iff fun s => Rule.denotes_expression (Rule.denotes_operand s.remaining) s.remaining
    (Nat.le_refl _) s (Nat.le_refl _)

namespace ReadsBefore

/-- What is read as an expression once is read as that in front of all that ends it. -/
theorem of_readsBetween (h : ReadsBetween expression file before (x :: behind) w e) :
    ReadsBefore False w e := fun _ hr helse =>
  (readsBetween_expression_iff.1 h).before (.inr ⟨hr, Bool.eq_false_iff.2 helse⟩)

theorem reading_cons (h : ReadsBefore False w e) (hx : x.EndsExpression) (r : List Token) :
    Reading .expression w (x :: r) [e] := by
  obtain ⟨hquiet, helse⟩ := Quiet.of_endsExpression (r := x :: r) hx (by rintro t ⟨⟩; rfl)
  exact h _ hquiet (Bool.eq_false_iff.1 helse)

theorem readsBetween (h : ReadsBefore False w e) (hy : y.EndsExpression) :
    ReadsBetween expression file before (y :: behind) w e := by
  have hnext : ∀ t ∈ (TokenStream.ofTokens (y :: behind) file).ahead.head?, t = y :=
    fun t ht => TokenStream.eq_of_mem_head?_ofTokens ht
  obtain ⟨hquiet, helse⟩ := Quiet.of_endsExpression hy hnext
  exact readsBetween_expression_iff.2 (h _ hquiet (Bool.eq_false_iff.1 helse))

theorem readsBetween_grouping (h : ReadsBefore False w e) (ho : o.is "(" = true)
    (hc : c.is ")" = true) :
    ReadsBetween grouping file before (y :: behind) (o :: (w ++ [c])) e := by
  have hread := h.reading_cons (Token.endsExpression_of_is hc (by decide))
  refine (readsBetween_iff (denotesAt_overOperands fun n =>
    Rule.denotes_grouping (Rule.denotes_operand n))).2 ?_
  exact ⟨o, w, c, rfl, ho, hread _, hc⟩

theorem readsBetween_call (h : ReadsBefore False w e) (callee : Identifier)
    (ho : o.is "(" = true) (hc : c.is ")" = true) (hw : starts w ")" = false) :
    ReadsBetween (call callee) file before (y :: behind) (o :: (w ++ [c]))
      (.call (callee.span.through c.span) callee [e]) := by
  have hread := h.reading_cons (Token.endsExpression_of_is hc (by decide))
  refine (readsBetween_iff (denotesAt_overOperands fun n =>
    Rule.denotes_call (Rule.denotes_operand n) callee)).2 ?_
  exact ⟨o, w, c, [e], rfl, ho,
    .inr ⟨hw, .last (hread _) (Token.is_eq_false_of_is hc (by decide))⟩, hc, rfl⟩

/-- In front of other arguments the expression is one argument more. -/
theorem readsBetween_call_cons (h : ReadsBefore False w e) {callee : Identifier} {q : Token}
    {es : List Expr} (hq : q.is "," = true) (hw : starts w ")" = false) (hes : es ≠ [])
    (hv : ReadsBetween (call callee) file before (y :: behind) (o :: (v ++ [c]))
      (.call (callee.span.through c.span) callee es)) :
    ReadsBetween (call callee) file before (y :: behind) (o :: (w ++ q :: (v ++ [c])))
      (.call (callee.span.through c.span) callee (e :: es)) := by
  have hcall (s : TokenStream) : DenotesAt (call callee) s _ := denotesAt_overOperands
    (fun n => Rule.denotes_call (Rule.denotes_operand n) callee) s
  obtain ⟨o', v', c', es', htokens, ho, harguments, hc, htree⟩ := (readsBetween_iff hcall).1 hv
  obtain ⟨rfl, hlast⟩ := List.cons.inj htokens
  obtain ⟨rfl, ⟨⟩⟩ := List.append_inj' hlast rfl
  cases htree
  rcases harguments with ⟨-, rfl, -⟩ | ⟨-, hread⟩
  · exact absurd rfl hes
  · have hfirst := h.reading_cons (Token.endsExpression_of_is hq (by decide))
    have hall := Reading.more (hfirst _) hq hread
    have hstart : starts (w ++ q :: v) ")" = false := by
      rwa [Token.starts_append ((hfirst []).ne_nil rfl)]
    exact (readsBetween_iff hcall).2
      ⟨o, w ++ q :: v, c, e :: es, by simp, ho, .inr ⟨hstart, hall⟩, hc, rfl⟩

theorem readsBetween_conditional (h : ReadsBefore False w e) {i t : Token}
    (hi : i.is "if" = true) (ht : t.is "then" = true) (hy : y.is "else" = false)
    (hv : ReadsBetween expression file (before ++ i :: (w ++ [t])) (y :: behind) v b) :
    ReadsBetween conditional file before (y :: behind) (i :: (w ++ t :: v))
      (.ifThen (i.span.through b.span) e b) := by
  have hread := h.reading_cons (Token.endsExpression_of_is ht (by decide))
  have helse : starts (TokenStream.ofTokens (y :: behind) file).ahead "else" = false :=
    Token.starts_eq_false_iff.2 fun z hz => by
      rw [TokenStream.eq_of_mem_head?_ofTokens hz, hy]
      exact Bool.false_ne_true
  refine (readsBetween_iff (denotesAt_overOperands fun n =>
    Rule.denotes_conditional (Rule.denotes_operand n))).2 ?_
  exact ⟨i, w, t, v, [], e, b, by rw [List.append_nil], hi, hread _, ht,
    readsBetween_expression_iff.1 hv, .inr ⟨rfl, helse, rfl⟩⟩

theorem readsBetween_conditional_else (h : ReadsBefore False w e) {i t l : Token} {u : List Token}
    {d : Expr} (hi : i.is "if" = true) (ht : t.is "then" = true) (hl : l.is "else" = true)
    (hv : ReadsBetween expression file (before ++ i :: (w ++ [t])) (l :: (u ++ y :: behind)) v b)
    (hu : ReadsBetween expression file (before ++ i :: (w ++ t :: (v ++ [l]))) (y :: behind) u d) :
    ReadsBetween conditional file before (y :: behind) (i :: (w ++ t :: (v ++ l :: u)))
      (.ifThenElse (i.span.through d.span) e b d) := by
  have hread := h.reading_cons (Token.endsExpression_of_is ht (by decide))
  have hahead := TokenStream.ahead_ofTokens_append (l :: u) y behind file
  have hconsequent := readsBetween_expression_iff.1 hv
  rw [← List.cons_append, hahead] at hconsequent
  refine (readsBetween_iff (denotesAt_overOperands fun n =>
    Rule.denotes_conditional (Rule.denotes_operand n))).2 ?_
  exact ⟨i, w, t, v, l :: u, e, b, rfl, hi, hread _, ht, hconsequent,
    .inl ⟨l, u, d, rfl, hl, readsBetween_expression_iff.1 hu, rfl⟩⟩

theorem readsBetween_loop (h : ReadsBefore False w e) {i d : Token}
    (hi : i.is "while" = true) (hd : d.is "do" = true)
    (hv : ReadsBetween expression file (before ++ i :: (w ++ [d])) (y :: behind) v b) :
    ReadsBetween loop file before (y :: behind) (i :: (w ++ d :: v))
      (.loop (i.span.through b.span) e b) := by
  have hread := h.reading_cons (Token.endsExpression_of_is hd (by decide))
  refine (readsBetween_iff (denotesAt_overOperands fun n =>
    Rule.denotes_loop (Rule.denotes_operand n))).2 ?_
  exact ⟨i, w, d, v, e, b, rfl, hi, hread _, hd, readsBetween_expression_iff.1 hv, rfl⟩

/-- Alone or in front of a semicolon the expression is all of a program. -/
theorem ofTokens_closed (h : ReadsBefore False w e) (hw : Rule.EndFree w)
    (hvar : starts w "var" = false) (file : String) :
    Expr.ofTokens (closed w) file = .ok e ∧
      ∀ q : Token, q.is ";" = true → Expr.ofTokens (closed (w ++ [q])) file = .ok e := by
  have halone : Reading .statement w [] [e] := .statement hvar (h [] quiet_nil (by simp))
  refine ⟨(Expr.ofTokens_closed_iff hw).2 ⟨[e], halone.statements, rfl⟩, fun q hq => ?_⟩
  have hread := h.reading_cons (Token.endsExpression_of_is hq (by decide)) []
  have hend : Rule.EndFree (w ++ [q]) := by
    intro t ht
    rcases List.mem_append.1 ht with ht | ht
    · exact hw t ht
    · rw [List.mem_singleton.1 ht]
      exact Token.isEnd_eq_false_of_is hq
  exact (Expr.ofTokens_closed_iff hend).2 ⟨[e], .terminated (.statement hvar hread) hq .done, rfl⟩

end ReadsBefore

/-- As a part of what stands between `before` and `y :: behind`, and as a program, the tokens `w`
are read as the expression `e`. -/
structure ReadsWithin (w : List Token) (e : Expr) (file : String) (before : List Token) (y : Token)
    (behind : List Token) : Prop where
  inBrackets : ∀ o c, o.is "(" = true → c.is ")" = true →
    ReadsBetween grouping file before (y :: behind) (o :: (w ++ [c])) e
  onlyArgument : ∀ callee o c, o.is "(" = true → c.is ")" = true → starts w ")" = false →
    ReadsBetween (call callee) file before (y :: behind) (o :: (w ++ [c]))
      (.call (callee.span.through c.span) callee [e])
  firstArgument : ∀ callee o q v c es, q.is "," = true → starts w ")" = false → es ≠ [] →
    ReadsBetween (call callee) file before (y :: behind) (o :: (v ++ [c]))
      (.call (callee.span.through c.span) callee es) →
    ReadsBetween (call callee) file before (y :: behind) (o :: (w ++ q :: (v ++ [c])))
      (.call (callee.span.through c.span) callee (e :: es))
  condition : ∀ i t v b, i.is "if" = true → t.is "then" = true → y.is "else" = false →
    ReadsBetween expression file (before ++ i :: (w ++ [t])) (y :: behind) v b →
    ReadsBetween conditional file before (y :: behind) (i :: (w ++ t :: v))
      (.ifThen (i.span.through b.span) e b)
  conditionElse : ∀ i t v b l u d, i.is "if" = true → t.is "then" = true → l.is "else" = true →
    ReadsBetween expression file (before ++ i :: (w ++ [t])) (l :: (u ++ y :: behind)) v b →
    ReadsBetween expression file (before ++ i :: (w ++ t :: (v ++ [l]))) (y :: behind) u d →
    ReadsBetween conditional file before (y :: behind) (i :: (w ++ t :: (v ++ l :: u)))
      (.ifThenElse (i.span.through d.span) e b d)
  loopCondition : ∀ i d v b, i.is "while" = true → d.is "do" = true →
    ReadsBetween expression file (before ++ i :: (w ++ [d])) (y :: behind) v b →
    ReadsBetween loop file before (y :: behind) (i :: (w ++ d :: v))
      (.loop (i.span.through b.span) e b)
  program : Rule.EndFree w → starts w "var" = false → Expr.ofTokens (closed w) file = .ok e ∧
    ∀ q : Token, q.is ";" = true → Expr.ofTokens (closed (w ++ [q])) file = .ok e

/-- Tokens that are read as an expression in one place are read as the same expression in every
other place where the next token ends it, as all marks do behind which an expression can stand. So
it is what stands in brackets, an argument of a call, and the condition of a conditional or a loop;
and alone or in front of a semicolon it is a program. -/
theorem expression_ignores_surroundings
    (h : ReadsBetween expression file before (x :: behind) w e)
    (file' : String) (before' : List Token) (y : Token) (behind' : List Token) :
    (y.EndsExpression → ReadsBetween expression file' before' (y :: behind') w e) ∧
      (y.isEnd = true ∨ y.isOneOf [")", ",", "then", "do", ";"] = true →
        ReadsBetween expression file' before' (y :: behind') w e) ∧
      ReadsWithin w e file' before' y behind' := by
  have hw := ReadsBefore.of_readsBetween h
  refine ⟨hw.readsBetween, fun hy => hw.readsBetween (Token.endsExpression_of_mark hy), ?_⟩
  exact {
    inBrackets := fun o c ho hc => hw.readsBetween_grouping ho hc
    onlyArgument := fun callee o c ho hc hparen => hw.readsBetween_call callee ho hc hparen
    firstArgument := fun callee o q v c es hq hparen hes hv =>
      hw.readsBetween_call_cons hq hparen hes hv
    condition := fun i t v b hi ht hy hv => hw.readsBetween_conditional hi ht hy hv
    conditionElse := fun i t v b l u d hi ht hl hv hu =>
      hw.readsBetween_conditional_else hi ht hl hv hu
    loopCondition := fun i d v b hi hd hv => hw.readsBetween_loop hi hd hv
    program := fun hend hvar => hw.ofTokens_closed hend hvar file' }

/-- A product in brackets is read behind a closing brace, at the end and as a program too. -/
theorem expression_ignores_surroundings_product :
    let word (kind : Token.Kind) (text : String) : Token := ⟨kind, text, .null⟩
    let w := [word .identifier "a", word .operator "*", word .identifier "b"]
    let e : Expr := .binary .null .multiply (.identifier .null "a") (.identifier .null "b")
    ReadsBetween expression "f" [word .punctuation "("] [word .punctuation ")", word .endMark ""]
        w e ∧
      ReadsBetween expression "g" [word .punctuation Token.closeBrace] [word .endMark ""] w e ∧
      Expr.ofTokens (closed w) "g" = .ok e := by
  intro word w e
  have h : ReadsBetween expression "f" [word .punctuation "("]
      [word .punctuation ")", word .endMark ""] w e := by
    unfold ReadsBetween
    rfl
  have hend : ∀ t ∈ w, t.isEnd = false := by decide
  obtain ⟨-, hmark, hwithin⟩ := expression_ignores_surroundings h "g"
    [word .punctuation Token.closeBrace] (word .endMark "") []
  exact ⟨h, hmark (.inl rfl), (hwithin.program hend rfl).1⟩

end Grammar

end ExprLang
