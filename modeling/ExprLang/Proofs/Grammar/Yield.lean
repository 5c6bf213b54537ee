import ExprLang.Expr.Printer
import ExprLang.Proofs.Grammar.Soundness
import ExprLang.Proofs.Token.LongestMatch

/-!
The yield of a tree: what it was read from, in order. Main statement: the yield of a program is its
tokens, but for the marks that only group or separate.
-/

namespace ExprLang

open ExprLang.Token (starts finishes openBrace closeBrace)

/-- What a token contributes to the yield. Marks and the end mark contribute nothing, and a number
counts by its value. -/
def Token.content (t : Token) : Option String :=
  match t.kind with
  | .punctuation | .endMark => none
  | .integer => some (toString t.number)
  | .identifier | .boolean | .operator => some t.text

namespace Ascription

mutual

def yield : Ascription → List String
  | simple name _ => [name]
  | function params result _ => yieldAll params ++ "=>" :: yield result

def yieldAll : List Ascription → List String
  | [] => []
  | a :: as => yield a ++ yieldAll as

end

end Ascription

namespace Expr

mutual

/-- The words, numbers and operators of a tree in the order in which they are written. -/
def yield : Expr → List String
  | .literal _ .unit => []
  | .literal _ value => [value.render]
  | .identifier _ name => [name]
  | .binary _ op left right => yield left ++ op.text :: yield right
  | .unary _ op operand => op.text :: yield operand
  | .ifThen _ condition consequent => "if" :: (yield condition ++ "then" :: yield consequent)
  | .ifThenElse _ condition consequent alternative =>
    "if" :: (yield condition ++ "then" :: (yield consequent ++ "else" :: yield alternative))
  | .loop _ condition body => "while" :: (yield condition ++ "do" :: yield body)
  | .block _ statements result => yieldAll statements ++ yield result
  | .declaration _ name ascription value =>
    "var" :: name.name :: ((ascription.map Ascription.yield).getD [] ++ "=" :: yield value)
  | .assignment _ target value => yield target ++ "=" :: yield value
  | .call _ callee arguments => callee.name :: yieldAll arguments

def yieldAll : List Expr → List String
  | [] => []
  | e :: es => yield e ++ yieldAll es

end

theorem yieldAll_append (ds es : List Expr) :
    yieldAll (ds ++ es) = yieldAll ds ++ yieldAll es := by
  induction ds with
  | nil => rfl
  | cons d ds ih => simp [yieldAll, ih]

end Expr

namespace Token

variable {t : Token}

/-- A token that stands for a text contributes what any token of that text does. -/
theorem Spelt.content_of_is (hs : t.Spelt) {text : String} (ht : t.is text = true) {kind : Kind}
    (hk : Piece.kindOf? text.toList = some kind) :
    t.content = (⟨kind, text, .null⟩ : Token).content := by
  have hkind : t.kind = kind := Option.some_inj.1 ((hs.kind_of_is ht).symm.trans hk)
  rw [content, content, number, number, hkind, text_of_is ht]

/-- A mark only groups or separates. -/
theorem Spelt.content_of_mark (hs : t.Spelt) {text : String} (ht : t.is text = true)
    (hk : Piece.kindOf? text.toList = some .punctuation) : t.content = none :=
  hs.content_of_is ht hk

theorem Spelt.content_of_word (hs : t.Spelt) {text : String} (ht : t.is text = true)
    (hk : Piece.kindOf? text.toList = some .identifier ∨
      Piece.kindOf? text.toList = some .operator) : t.content = some text := by
  rcases hk with hk | hk <;> exact hs.content_of_is ht hk

theorem content_of_identifier (h : t.kind = .identifier) : t.content = some t.text := by
  rw [content, h]

/-- The value of a number is what its digits say. -/
theorem Spelt.content_of_int64? (hs : t.Spelt) (hk : t.kind = .integer) {value : Int}
    (hv : Text.int64? t.text = some value) : t.content = some (Literal.int value).render := by
  rw [hs.int64? hk] at hv
  split at hv
  · obtain rfl := Option.some_inj.1 hv
    rw [content, hk]
    rfl
  · cases hv

theorem Spelt.content_of_boolean (hs : t.Spelt) (hk : t.kind = .boolean) :
    t.content = some (Literal.bool (t.text == "true")).render := by
  have hform := hs.hasForm
  rw [hk] at hform
  rw [content, hk]
  have htext : t.text = "true" ∨ t.text = "false" := by
    simpa [Piece.HasForm, Piece.truthWords] using hform
  rcases htext with h | h <;> simp [h, Literal.render]

end Token

open Token

namespace Ascription

/-- The tokens contribute what the ascriptions yield. -/
def Yields (w : List Token) (as : List Ascription) : Prop := w.filterMap content = yieldAll as

theorem Yields.single {w : List Token} {a : Ascription} (h : Yields w [a]) :
    w.filterMap content = a.yield := by
  rw [h, yieldAll, yieldAll, List.append_nil]

attribute [local simp] Ascription.yield yieldAll List.filterMap_append

theorem Reading.yields {p : Part} {w r : List Token} {as : List Ascription}
    (h : Reading p w r as) : (∀ t ∈ w, t.Spelt) → Yields w as := by
  induction h with
  | simple hk => simp [Yields, content_of_identifier hk]
  | function ho _ hc ha _ ih ih' =>
    intro hs
    simp only [List.forall_mem_cons, List.forall_mem_append] at hs
    obtain ⟨hso, hsw, hsc, hsa, hsv⟩ := hs
    have hparams : _ = _ := ih hsw
    simp [Yields, hso.content_of_mark ho (by decide), hsc.content_of_mark hc (by decide),
      hsa.content_of_word ha (by decide), hparams, (ih' hsv).single]
  | last _ _ ih => exact ih
  | more _ hq _ ih ih' =>
    intro hs
    simp only [List.forall_mem_cons, List.forall_mem_append] at hs
    obtain ⟨hsw, hsq, hsv⟩ := hs
    have hrest : _ = _ := ih' hsv
    simp [Yields, hsq.content_of_mark hq (by decide), (ih hsw).single, hrest]

end Ascription

namespace Grammar

open ExprLang.Expr (yieldAll)

/-- What a part goes on from has a yield of its own. -/
def Part.before : Part → List String
  | leaning _ a => a.yield
  | _ => []

/-- The tokens of a part contribute what its trees yield, behind what it goes on from. -/
def Part.Yields (p : Part) (w : List Token) (es : List Expr) : Prop :=
  p.before ++ w.filterMap content = yieldAll es

theorem Part.Yields.trees {p : Part} {w : List Token} {es : List Expr} (h : p.Yields w es)
    (hp : p.before = []) : w.filterMap content = yieldAll es := by
  rw [← h, hp, List.nil_append]

theorem Part.Yields.single {p : Part} {w : List Token} {e : Expr} (h : p.Yields w [e])
    (hp : p.before = []) : w.filterMap content = e.yield := by
  rw [h.trees hp, yieldAll, yieldAll, List.append_nil]

/-- The trees of an operator and what stands behind it, from the left operand on. -/
theorem Part.Yields.leaning {l : Level} {a e : Expr} {w : List Token}
    (h : (Part.leaning l a).Yields w [e]) : a.yield ++ w.filterMap content = e.yield := by
  have h : a.yield ++ w.filterMap content = yieldAll [e] := h
  rw [h, yieldAll, yieldAll, List.append_nil]

theorem content_of_unary {t : Token} (hs : t.Spelt) (ht : t.isOneOf ["-", "not"] = true)
    {op : UnaryOp} (hop : UnaryOp.ofText? t.text = some op) : t.content = some op.text := by
  have htext : op.text = t.text := by simpa using List.find?_some hop
  simp only [isOneOf, List.any_cons, List.any_nil, Bool.or_false, Bool.or_eq_true] at ht
  rw [htext]
  rcases ht with ht | ht <;> rw [hs.content_of_word ht (by decide), text_of_is ht]

theorem content_of_operatorOf {t : Token} (hs : t.Spelt) {l : Level} {op : BinaryOp}
    (hop : Rule.operatorOf l t = some op) : t.content = some op.text :=
  hs.content_of_word (Rule.operatorOf_eq_some hop).1 (.inr (by cases op <;> decide))

attribute [local simp] Part.Yields Part.before Expr.yield Expr.yieldAll List.filterMap_append

theorem Reading.yields {p : Part} {w r : List Token} {es : List Expr} (h : Reading p w r es) :
    (∀ t ∈ w, t.Spelt) → p.Yields w es := by
  induction h with
  | integer hk _ hv =>
    intro hs
    simp [(hs _ List.mem_cons_self).content_of_int64? hk hv]
  | boolean hk _ =>
    intro hs
    simp [(hs _ List.mem_cons_self).content_of_boolean hk]
  | name ht _ _ =>
    intro _
    simp [content_of_identifier ht.1]
  | callEmpty hf _ ho hc =>
    intro hs
    simp only [List.forall_mem_cons] at hs
    obtain ⟨-, hso, hsc, -⟩ := hs
    simp [content_of_identifier hf.1, hso.content_of_mark ho (by decide),
      hsc.content_of_mark hc (by decide)]
  | call hf _ ho _ _ hc ih =>
    intro hs
    simp only [List.forall_mem_cons, List.forall_mem_append] at hs
    obtain ⟨-, hso, hsw, hsc, -⟩ := hs
    simp [content_of_identifier hf.1, hso.content_of_mark ho (by decide),
      hsc.content_of_mark hc (by decide), (ih hsw).trees rfl]
  | grouping ho _ hc ih =>
    intro hs
    simp only [List.forall_mem_cons, List.forall_mem_append] at hs
    obtain ⟨hso, hsw, hsc, -⟩ := hs
    simp [hso.content_of_mark ho (by decide), hsc.content_of_mark hc (by decide),
      (ih hsw).single rfl]
  | signed ht hop _ ih =>
    intro hs
    obtain ⟨hst, hsw⟩ := List.forall_mem_cons.1 hs
    simp [content_of_unary hst ht hop, (ih hsw).single rfl]
  | ifThen hi _ ht _ _ ihc ihw =>
    intro hs
    simp only [List.forall_mem_cons, List.forall_mem_append] at hs
    obtain ⟨hsi, hsc, hst, hsw⟩ := hs
    simp [hsi.content_of_word hi (by decide), (ihc hsc).single rfl,
      hst.content_of_word ht (by decide), (ihw hsw).single rfl]
  | ifThenElse hi _ ht _ hl _ ihc ihw ihv =>
    intro hs
    simp only [List.forall_mem_cons, List.forall_mem_append] at hs
    obtain ⟨hsi, hsc, hst, hsw, hsl, hsv⟩ := hs
    simp [hsi.content_of_word hi (by decide), (ihc hsc).single rfl,
      hst.content_of_word ht (by decide), (ihw hsw).single rfl,
      hsl.content_of_word hl (by decide), (ihv hsv).single rfl]
  | loop hi _ hd _ ihc ihw =>
    intro hs
    simp only [List.forall_mem_cons, List.forall_mem_append] at hs
    obtain ⟨hsi, hsc, hsd, hsw⟩ := hs
    simp [hsi.content_of_word hi (by decide), (ihc hsc).single rfl,
      hsd.content_of_word hd (by decide), (ihw hsw).single rfl]
  | block ho _ hc ih =>
    intro hs
    simp only [List.forall_mem_cons, List.forall_mem_append] at hs
    obtain ⟨hso, hsw, hsc, -⟩ := hs
    simp [hso.content_of_mark ho (by decide), hsc.content_of_mark hc (by decide),
      (ih hsw).trees rfl, Expr.yieldAll_append]
  | tightest _ ih | value _ _ ih | statement _ _ ih | last _ _ ih | result _ _ _ _ _ ih => exact ih
  | level _ _ _ iha ihe =>
    intro hs
    obtain ⟨hsw, hsv⟩ := List.forall_mem_append.1 hs
    simp [(iha hsw).single rfl, (ihe hsv).leaning]
  | stop => simp
  | step hop _ _ ihb ihe =>
    intro hs
    simp only [List.forall_mem_cons, List.forall_mem_append] at hs
    obtain ⟨hst, hsw, hsv⟩ := hs
    have hleaning := (ihe hsv).leaning
    simp [content_of_operatorOf hst hop, (ihb hsw).single rfl, ← hleaning]
  | assignment _ hq _ iha ihb =>
    intro hs
    simp only [List.forall_mem_cons, List.forall_mem_append] at hs
    obtain ⟨hsw, hsq, hsv⟩ := hs
    simp [(iha hsw).single rfl, hsq.content_of_word hq (by decide), (ihb hsv).single rfl]
  | more _ hq _ ih ih' =>
    intro hs
    simp only [List.forall_mem_cons, List.forall_mem_append] at hs
    obtain ⟨hsw, hsq, hsv⟩ := hs
    simp [(ih hsw).single rfl, hsq.content_of_mark hq (by decide), (ih' hsv).trees rfl]
  | declaration hd hn hq _ _ ih =>
    intro hs
    simp only [List.forall_mem_cons] at hs
    obtain ⟨hsd, -, hsq, hsv⟩ := hs
    simp [hsd.content_of_word hd (by decide), content_of_identifier hn.1,
      hsq.content_of_word hq (by decide), (ih hsv).single rfl]
  | ascribed hd hn hc ha hq _ ih =>
    intro hs
    simp only [List.forall_mem_cons, List.forall_mem_append] at hs
    obtain ⟨hsd, -, hsc, hsw, hsq, hsv⟩ := hs
    simp [hsd.content_of_word hd (by decide), content_of_identifier hn.1,
      hsc.content_of_mark hc (by decide), (ha.yields hsw).single,
      hsq.content_of_word hq (by decide), (ih hsv).single rfl]
  | leftOut => simp [Expr.implicitUnit]
  | terminated _ _ hq _ ih ih' =>
    intro hs
    simp only [List.forall_mem_cons, List.forall_mem_append] at hs
    obtain ⟨hsw, hsq, hsv⟩ := hs
    simp [(ih hsw).single rfl, hsq.content_of_mark hq (by decide), (ih' hsv).trees rfl]
  | closed _ _ _ _ _ _ ih ih' =>
    intro hs
    obtain ⟨hsw, hsv⟩ := List.forall_mem_append.1 hs
    simp [(ih hsw).single rfl, (ih' hsv).trees rfl]

theorem Statements.yields {b : Bool} {w : List Token} {es : List Expr} (h : Statements b w es) :
    (∀ t ∈ w, t.Spelt) → w.filterMap content = yieldAll es := by
  induction h with
  | done => simp
  | terminated hst hq _ ih =>
    intro hs
    simp only [List.forall_mem_cons, List.forall_mem_append] at hs
    obtain ⟨hsw, hsq, hsv⟩ := hs
    simp [(hst.yields hsw).single rfl, hsq.content_of_mark hq (by decide), ih hsv]
  | closed hst _ _ _ ih =>
    intro hs
    obtain ⟨hsw, hsv⟩ := List.forall_mem_append.1 hs
    simp [(hst.yields hsw).single rfl, ih hsv]
  | only hst _ => exact fun hs => (hst.yields hs).trees rfl

theorem yield_treeOf {close : Token} {es : List Expr} {e : Expr} (h : treeOf close es = some e) :
    e.yield = yieldAll es := by
  match es with
  | [] => cases h
  | [a] =>
    obtain rfl := Option.some_inj.1 h
    simp
  | a :: b :: es =>
    obtain rfl := Option.some_inj.1 h
    simp [Expr.implicitUnit]

end Grammar

/-- The tokens of a list contribute what the tree that is read of them yields. -/
theorem Expr.yields_of_ofTokens {ts : List Token} {file : String} {e : Expr}
    (hs : ∀ t ∈ ts, t.Spelt) (h : Expr.ofTokens (closed ts) file = .ok e) :
    ts.filterMap content = e.yield := by
  obtain ⟨es, hes, htree⟩ := (Expr.ofTokens_closed_iff fun t ht => (hs t ht).isEnd).1 h
  rw [hes.yields hs, Grammar.yield_treeOf htree]

/-- No token is lost, read twice or moved: the yield of a program is its tokens in order. -/
theorem Expr.yield_of_read {text file : String} {e : Expr} (h : Expr.read text file = .ok e) :
    (Token.read text file).filterMap content = e.yield := by
  have hclose : (Token.read text file).filterMap content =
      (scan text.toList file).filterMap content := by
    simp [Token.read, closed, content, endAfter]
  rw [hclose]
  exact Expr.yields_of_ofTokens (fun _ => spelt_of_mem_scan) h

/-- A call with a numeral that leading zeros do not change. -/
theorem Expr.yield_of_read_call :
    ∃ e, Expr.read "f(007, -x)" "" = .ok e ∧
      (Token.read "f(007, -x)" "").filterMap content = e.yield :=
  have hread : Expr.read "f(007, -x)" "" = .ok (.call ⟨⟨1, 1, ""⟩, ⟨1, 11, ""⟩⟩
      ⟨"f", ⟨⟨1, 1, ""⟩, ⟨1, 2, ""⟩⟩⟩ [.literal ⟨⟨1, 3, ""⟩, ⟨1, 6, ""⟩⟩ (.int 7),
        .unary ⟨⟨1, 8, ""⟩, ⟨1, 10, ""⟩⟩ .negate (.identifier ⟨⟨1, 9, ""⟩, ⟨1, 10, ""⟩⟩ "x")]) := by
    with_unfolding_all rfl
  ⟨_, hread, Expr.yield_of_read hread⟩

end ExprLang
