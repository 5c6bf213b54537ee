import ExprLang.Proofs.Parser.Denotation
import ExprLang.Grammar

/-!
Readings: what the rules of the grammar read, told without a stream and without a bound. A reading
relates a part of the grammar to the tokens that it takes, the tokens behind them, and the trees
that it builds. Where a rule looks at the next token, so does the reading.
-/

namespace ExprLang

open ExprLang.Token (starts finishes)

namespace Ascription

/-- One type, or several with commas between them. -/
inductive Part where
  | one
  | many
deriving DecidableEq, Repr

/-- `Reading p w r as`: as `p` the tokens `w`, before the tokens `r`, write the ascriptions `as`. -/
inductive Reading : Part → List Token → List Token → List Ascription → Prop where
  | simple {t r} : t.kind = .identifier → simpleNames.contains t.text = true →
      Reading .one [t] r [.simple t.text t.span]
  | function {o w c a v r params result} : o.is "(" = true →
      Reading .many w (c :: a :: (v ++ r)) params → c.is ")" = true → a.is "=>" = true →
      Reading .one v r [result] →
      Reading .one (o :: (w ++ c :: a :: v)) r
        [.function params result (o.span.through result.span)]
  | last {w r a} : Reading .one w r [a] → starts r "," = false → Reading .many w r [a]
  | more {w q v r a as} : Reading .one w (q :: (v ++ r)) [a] → q.is "," = true →
      Reading .many v r as → Reading .many (w ++ q :: v) r (a :: as)

theorem Reading.ne_nil {p : Part} {w r : List Token} {as : List Ascription}
    (h : Reading p w r as) : w ≠ [] := by
  induction h with
  | last _ _ ih => exact ih
  | _ => simp

end Ascription

namespace Token

/-- Texts with which an operand can start whatever the kind of the token. -/
def opensOperand (t : Token) : Bool :=
  t.isOneOf ["(", openBrace, "-", "not", "if", "while"]

theorem opensOperand_eq_false_iff {t : Token} :
    t.opensOperand = false ↔ t.is "(" = false ∧ t.is openBrace = false ∧
      t.isOneOf ["-", "not"] = false ∧ t.is "if" = false ∧ t.is "while" = false := by
  simp [opensOperand, isOneOf, and_assoc]

end Token

namespace Grammar

/-- The parts of the grammar. Operators of one level go on from the tree of what stands before. -/
inductive Part where
  | operand
  | binary (level : Level)
  | leaning (level : Level) (left : Expr)
  | expression
  | expressions
  | statement
  | items

/-- Every part takes a token, but for the operators of a level and the items of a block. -/
def Part.takes : Part → Bool
  | leaning .. | items => false
  | _ => true

/-- `Reading p w r es`: as `p` the tokens `w`, before the tokens `r`, build the trees `es`. -/
inductive Reading : Part → List Token → List Token → List Expr → Prop where
  | integer {t r value} : t.kind = .integer → t.opensOperand = false →
      Text.int64? t.text = some value →
      Reading .operand [t] r [.literal t.span (.int value)]
  | boolean {t r} : t.kind = .boolean → t.opensOperand = false →
      Reading .operand [t] r [.literal t.span (.bool (t.text == "true"))]
  | name {t r} : t.IsName → t.opensOperand = false → starts r "(" = false →
      Reading .operand [t] r [.identifier t.span t.text]
  | callEmpty {f o c r} : f.IsName → f.opensOperand = false → o.is "(" = true →
      c.is ")" = true →
      Reading .operand [f, o, c] r [.call (f.span.through c.span) ⟨f.text, f.span⟩ []]
  | call {f o w c r es} : f.IsName → f.opensOperand = false → o.is "(" = true →
      starts w ")" = false → Reading .expressions w (c :: r) es → c.is ")" = true →
      Reading .operand (f :: o :: (w ++ [c])) r
        [.call (f.span.through c.span) ⟨f.text, f.span⟩ es]
  | grouping {o w c r e} : o.is "(" = true → Reading .expression w (c :: r) [e] →
      c.is ")" = true → Reading .operand (o :: (w ++ [c])) r [e]
  | signed {t w r op e} : t.isOneOf ["-", "not"] = true → UnaryOp.ofText? t.text = some op →
      Reading .operand w r [e] → Reading .operand (t :: w) r [.unary (t.span.through e.span) op e]
  | ifThen {i c t w r condition consequent} : i.is "if" = true →
      Reading .expression c (t :: (w ++ r)) [condition] → t.is "then" = true →
      Reading .expression w r [consequent] → starts r "else" = false →
      Reading .operand (i :: (c ++ t :: w)) r
        [.ifThen (i.span.through consequent.span) condition consequent]
  | ifThenElse {i c t w l v r condition consequent alternative} : i.is "if" = true →
      Reading .expression c (t :: (w ++ l :: (v ++ r))) [condition] → t.is "then" = true →
      Reading .expression w (l :: (v ++ r)) [consequent] → l.is "else" = true →
      Reading .expression v r [alternative] →
      Reading .operand (i :: (c ++ t :: (w ++ l :: v))) r
        [.ifThenElse (i.span.through alternative.span) condition consequent alternative]
  | loop {i c d w r condition body} : i.is "while" = true →
      Reading .expression c (d :: (w ++ r)) [condition] → d.is "do" = true →
      Reading .expression w r [body] →
      Reading .operand (i :: (c ++ d :: w)) r [.loop (i.span.through body.span) condition body]
  | block {o w c r es e} : o.is Token.openBrace = true → Reading .items w (c :: r) (es ++ [e]) →
      c.is Token.closeBrace = true →
      Reading .operand (o :: (w ++ [c])) r [.block (o.span.through c.span) es e]
  | tightest {w r e} : Reading .operand w r [e] → Reading (.binary .unary) w r [e]
  | level {l w v r} {a e : Expr} : l ≠ .unary → Reading (.binary l.next) w (v ++ r) [a] →
      Reading (.leaning l a) v r [e] → Reading (.binary l) (w ++ v) r [e]
  | stop {l r} {a : Expr} : (∀ t ∈ r.head?, Rule.operatorOf l t = none) →
      Reading (.leaning l a) [] r [a]
  | step {l t op w v r} {a b e : Expr} : Rule.operatorOf l t = some op →
      Reading (.binary l.next) w (v ++ r) [b] →
      Reading (.leaning l (.binary (a.span.through b.span) op a b)) v r [e] →
      Reading (.leaning l a) (t :: (w ++ v)) r [e]
  | value {w r e} : Reading (.binary .or) w r [e] → starts r "=" = false →
      Reading .expression w r [e]
  | assignment {w q v r a b} : Reading (.binary .or) w (q :: (v ++ r)) [a] → q.is "=" = true →
      Reading .expression v r [b] →
      Reading .expression (w ++ q :: v) r [.assignment (a.span.through b.span) a b]
  | last {w r e} : Reading .expression w r [e] → starts r "," = false → Reading .expressions w r [e]
  | more {w q v r e es} : Reading .expression w (q :: (v ++ r)) [e] → q.is "," = true →
      Reading .expressions v r es → Reading .expressions (w ++ q :: v) r (e :: es)
  | declaration {d n q v r e} : d.is "var" = true → n.IsName → q.is "=" = true →
      q.is ":" = false → Reading .expression v r [e] →
      Reading .statement (d :: n :: q :: v) r
        [.declaration (d.span.through e.span) ⟨n.text, n.span⟩ none e]
  | ascribed {d n c w q v r a e} : d.is "var" = true → n.IsName → c.is ":" = true →
      Ascription.Reading .one w (q :: (v ++ r)) [a] → q.is "=" = true →
      Reading .expression v r [e] →
      Reading .statement (d :: n :: c :: (w ++ q :: v)) r
        [.declaration (d.span.through e.span) ⟨n.text, n.span⟩ (some a) e]
  | statement {w r e} : starts w "var" = false → Reading .expression w r [e] →
      Reading .statement w r [e]
  | leftOut {c r} : c.is Token.closeBrace = true →
      Reading .items [] (c :: r) [Expr.implicitUnit c.span]
  | terminated {w q v r e es} : starts w Token.closeBrace = false →
      Reading .statement w (q :: (v ++ r)) [e] → q.is ";" = true → Reading .items v r es →
      Reading .items (w ++ q :: v) r (e :: es)
  | closed {w v r e es} : starts w Token.closeBrace = false → Reading .statement w (v ++ r) [e] →
      finishes w Token.closeBrace = true → starts (v ++ r) ";" = false →
      starts (v ++ r) Token.closeBrace = false → Reading .items v r es →
      Reading .items (w ++ v) r (e :: es)
  | result {w r e} : starts w Token.closeBrace = false → Reading .statement w r [e] →
      starts r ";" = false → (finishes w Token.closeBrace = true →
      starts r Token.closeBrace = true) → e.isDeclaration = false → Reading .items w r [e]

theorem Reading.ne_nil {p : Part} {w r : List Token} {es : List Expr} (h : Reading p w r es) :
    p.takes = true → w ≠ [] := by
  induction h with
  | tightest _ ih | value _ _ ih | last _ _ ih | statement _ _ ih => exact fun _ => ih rfl
  | level _ _ _ ih _ => exact fun _ h => ih rfl (List.append_eq_nil_iff.1 h).1
  | stop | leftOut | step | terminated | closed | result => simp [Part.takes]
  | _ => simp

/-- The items of a block end in its result. -/
theorem Reading.exists_result {w r : List Token} {es : List Expr} (h : Reading .items w r es) :
    ∃ statements result, es = statements ++ [result] := by
  generalize hp : Part.items = p at h
  induction h with
  | leftOut => exact ⟨[], _, rfl⟩
  | terminated _ _ _ _ _ ih | closed _ _ _ _ _ _ _ ih =>
    obtain ⟨statements, result, rfl⟩ := ih hp
    exact ⟨_ :: statements, result, rfl⟩
  | result => exact ⟨[], _, rfl⟩
  | _ => cases hp

/-- In front of the tokens `r`, the tokens `v` are a statement that neither a semicolon ends nor its
own closing brace, which ends it unless another one follows. -/
structure Unended (v r : List Token) (e : Expr) : Prop where
  reading : Reading .statement v r [e]
  semicolon : starts r ";" = false
  brace : finishes v Token.closeBrace = true → starts r Token.closeBrace = true

end Grammar

end ExprLang
