import Mathlib.Data.List.Basic
import ExprLang.Proofs.Grammar.Programs
import ExprLang.Proofs.Outline

/-!
The spans of a tree that is read. Main statement: they nest, and follow each other as their tokens
do, but for the unit value that stands for the result of several statements.
-/

namespace ExprLang

open ExprLang.Token (InOrder)
open ExprLang.Outline (Spread)

/-- The ascriptions that are read are spread over their tokens. -/
theorem Ascription.Reading.spread {p : Ascription.Part} {w r : List Token} {as : List Ascription}
    (h : Ascription.Reading p w r as) : InOrder w → Spread w (as.map outline) := by
  induction h with
  | simple hk ht => exact Spread.token
  | @function o w c a v r params result ho _ hc ha _ ih ih' =>
    intro hw
    have hresult := (ih' hw.tail.right.tail.tail).skip a
    have hparts := ((ih hw.tail.left).append_skip hw.tail hresult).cons hw
    refine .single ?_
    simpa [outline, outlineAll_eq] using
      hparts.nested_through (params.map outline) (List.sublist_cons_self _ _)
  | last _ _ ih => exact ih
  | @more w q v r a as _ hq _ ih ih' =>
    intro hw
    exact (ih hw.left).append_skip hw (ih' hw.right.tail)

namespace Grammar

/-- How the trees of a part are spread over its tokens. What operators go on from stands on tokens
in front; the items of a block may end in a unit value at the token behind them. -/
def Part.Spreads : Part → List Token → List Token → List Expr → Prop
  | leaning _ a, w, _, es =>
    ∀ u, InOrder (u ++ w) → Spread u [a.outline] → Spread (u ++ w) (es.map Expr.outline)
  | items, w, r, es => InOrder (w ++ r.take 1) → Spread (w ++ r.take 1) (es.map Expr.outline)
  | _, w, _, es => InOrder w → Spread w (es.map Expr.outline)

theorem Reading.spreads {p : Part} {w r : List Token} {es : List Expr} (h : Reading p w r es) :
    p.Spreads w r es := by
  induction h with
  | integer | boolean | name => exact Spread.token
  | @callEmpty f o c r _ _ _ _ =>
    intro hw
    have hxs := ((Spread.token hw.tail.tail).skip o).cons hw
    exact .single (hxs.nested_through [] (List.sublist_append_left [_] _))
  | @call f o w c r es _ _ _ _ _ _ ih =>
    intro hw
    have hes := (ih hw.tail.tail.left).append hw.tail.tail (.token hw.tail.tail.right)
    have hnode := ((hes.skip o).cons hw).nested_through (es.map Expr.outline)
      ((List.sublist_append_left _ _).cons_cons _)
    refine .single ?_
    simpa [Expr.outline, Expr.outlineAll_eq] using hnode
  | @grouping o w c r e _ _ _ ih =>
    intro hw
    exact ((ih hw.tail.left).mono (List.subset_append_left w [c])).skip o
  | @signed t w r op e _ _ _ ih =>
    intro hw
    have hnode := ((ih hw.tail).cons hw).nested_through [] (List.sublist_cons_self _ _)
    refine .single ?_
    simpa [Expr.outline] using hnode
  | @ifThen i c t w r condition consequent _ _ _ _ _ ihc ihw =>
    intro hw
    have hxs := ((ihc hw.tail.left).append_skip hw.tail (ihw hw.tail.right.tail)).cons hw
    have hnode := hxs.nested_through [_] (List.sublist_cons_self _ _)
    refine .single ?_
    simpa [Expr.outline] using hnode
  | @ifThenElse i c t w l v r condition consequent alternative _ _ _ _ _ _ ihc ihw ihv =>
    intro hw
    have hbranches := hw.tail.right.tail
    have hxs := ((ihc hw.tail.left).append_skip hw.tail
      ((ihw hbranches.left).append_skip hbranches (ihv hbranches.right.tail))).cons hw
    have hnode := hxs.nested_through [_, _] (List.sublist_cons_self _ _)
    refine .single ?_
    simpa [Expr.outline] using hnode
  | @loop i c d w r condition body _ _ _ _ ihc ihw =>
    intro hw
    have hxs := ((ihc hw.tail.left).append_skip hw.tail (ihw hw.tail.right.tail)).cons hw
    have hnode := hxs.nested_through [_] (List.sublist_cons_self _ _)
    refine .single ?_
    simpa [Expr.outline] using hnode
  | @block o w c r es e _ _ _ ih =>
    intro hw
    -- The result may be a unit value at the closing brace, and so the node ends with the brace.
    have hlast : (o :: (w ++ [c])).getLast? = some c := List.getLast?_concat (l := o :: w)
    have hnode := ((ih hw.tail).cons hw).nested_to_last hw hlast (List.sublist_cons_self _ _)
    refine .single ?_
    simpa [Expr.outline, Expr.outlineAll_eq] using hnode
  | @level l w v r a e _ _ _ iha ihe => exact fun hw => ihe w hw (iha hw.left)
  | @stop l r a _ =>
    intro u _ ha
    rwa [List.append_nil]
  | @step l t op w v r a b e _ _ _ ihb ihe =>
    intro u hw ha
    rw [← List.cons_append, ← List.append_assoc] at hw ⊢
    have hab := ha.append_skip hw.left (ihb hw.left.right.tail)
    refine ihe _ hw (.single ?_)
    simpa [Expr.outline] using hab.nested_through [] (List.Sublist.refl _)
  | @assignment w q v r a b _ _ _ iha ihb =>
    intro hw
    have hab := (iha hw.left).append_skip hw (ihb hw.right.tail)
    refine .single ?_
    simpa [Expr.outline] using hab.nested_through [] (List.Sublist.refl _)
  | @more w q v r e es _ _ _ ih ih' =>
    exact fun hw => (ih hw.left).append_skip hw (ih' hw.right.tail)
  | @declaration d n q v r e _ _ _ _ _ ih =>
    intro hw
    have hxs := (((ih hw.tail.tail.tail).skip q).cons hw.tail).cons hw
    have hnode := hxs.nested_through [_] (List.sublist_cons_self _ _)
    refine .single ?_
    simpa [Expr.outline] using hnode
  | @ascribed d n c w q v r a e _ _ _ ha _ _ ih =>
    intro hw
    have hrest := hw.tail.tail.tail
    have hxs := ((((ha.spread hrest.left).append_skip hrest (ih hrest.right.tail)).skip c).cons
      hw.tail).cons hw
    have hnode := hxs.nested_through [_, _] (List.sublist_cons_self _ _)
    refine .single ?_
    simpa [Expr.outline] using hnode
  | leftOut => exact Spread.token
  | @terminated w q v r e es _ _ _ _ ih ih' =>
    intro hw
    rw [List.append_assoc] at hw ⊢
    exact (ih hw.left).append_skip hw (ih' hw.right.tail)
  | @closed w v r e es _ _ _ _ _ _ ih ih' =>
    intro hw
    rw [List.append_assoc] at hw ⊢
    exact (ih hw.left).append hw (ih' hw.right)
  | result _ _ _ _ _ ih => exact fun hw => (ih hw.left).mono (List.subset_append_left _ _)
  | tightest _ ih | value _ _ ih | last _ _ ih | statement _ _ ih => exact ih

/-- The statements of a program are spread over its tokens. -/
theorem Statements.spread {b : Bool} {w : List Token} {es : List Expr} (h : Statements b w es) :
    InOrder w → Spread w (es.map Expr.outline) := by
  induction h with
  | done => exact fun _ => .nil
  | @terminated b w q v e es hst _ _ ih =>
    exact fun hw => (hst.spreads hw.left).append_skip hw (ih hw.right.tail)
  | @closed b w v e es hst _ _ _ ih => exact fun hw => (hst.spreads hw.left).append hw (ih hw.right)
  | only hst _ => exact hst.spreads

end Grammar

/-- The spans of a program nest over its tokens. Of a program of several statements this is said of
its block without the unit value that stands for a result, which has the span of the end mark. -/
theorem Expr.nested_of_read {text file : String} {e : Expr} (h : Expr.read text file = .ok e) :
    let ts := (Token.read text file).filter fun t => !t.isEnd
    ∃ (statements : List Expr) (t : TokenStream) (close : Token),
      Grammar.statements (.ofTokens (Token.read text file) file) = .ok statements t ∧
      (Token.read text file).getLast? = some close ∧
      (statements = [e] ∧ e.outline.Nested ts ∨
        2 ≤ statements.length ∧ ∃ span, e = .block span statements (Expr.implicitUnit close.span) ∧
          (Outline.mk span (statements.map Expr.outline)).Nested ts) := by
  obtain ⟨es, t, hrun, hes, htree⟩ := Expr.statements_of_read h
  have hspread := hes.spread (Token.inOrder_scan text.toList file)
  rw [Token.filter_read]
  refine ⟨es, t, Token.endAfter (Token.scan text.toList file).getLast?, hrun,
    List.getLast?_concat, ?_⟩
  cases es with
  | nil => cases htree
  | cons first others =>
    rcases List.eq_nil_or_concat' others with rfl | ⟨between, last, rfl⟩
    · obtain rfl := Option.some_inj.1 htree
      exact .inl ⟨rfl, hspread.nested _ List.mem_cons_self⟩
    · rw [Grammar.treeOf_concat] at htree
      rw [List.map_cons, List.map_append, List.map_singleton] at hspread
      refine .inr ⟨by simp, _, (Option.some_inj.1 htree).symm, ?_⟩
      simpa using hspread.nested_through _ (List.Sublist.refl _)

/-- Two statements, of which the second one is a call: its name and its argument are parts of it. -/
theorem Expr.nested_of_read_call :
    let ts := (Token.read "1;f(2);" "").filter fun t => !t.isEnd
    let place (start stop : Nat) : Span := ⟨⟨1, start, ""⟩, ⟨1, stop, ""⟩⟩
    let one : Expr := .literal (place 1 2) (.int 1)
    let call : Expr := .call (place 3 7) ⟨"f", place 3 4⟩ [.literal (place 5 6) (.int 2)]
    Expr.read "1;f(2);" "" =
        .ok (.block (place 1 7) [one, call] (Expr.implicitUnit (place 7 7))) ∧
      (Outline.mk (place 1 7) [.leaf (place 1 2),
        .mk (place 3 7) [.leaf (place 3 4), .leaf (place 5 6)]]).Nested ts := by
  intro ts place one call
  have h : Expr.read "1;f(2);" "" =
      .ok (.block (place 1 7) [one, call] (Expr.implicitUnit (place 7 7))) := by
    with_unfolding_all rfl
  have hstatements : ∃ t, Grammar.statements (.ofTokens (Token.read "1;f(2);" "") "") =
      .ok [one, call] t := ⟨_, by with_unfolding_all rfl⟩
  obtain ⟨t, hrun⟩ := hstatements
  obtain ⟨statements, t', close, hrun', -, hnested⟩ := nested_of_read h
  obtain ⟨rfl, -⟩ := EStateM.Result.ok.inj (hrun'.symm.trans hrun)
  refine ⟨h, ?_⟩
  rcases hnested with ⟨hsingle, -⟩ | ⟨-, span, htree, hnested⟩
  · cases hsingle
  · obtain ⟨rfl, -⟩ := Tree.block.inj htree
    exact hnested

end ExprLang
