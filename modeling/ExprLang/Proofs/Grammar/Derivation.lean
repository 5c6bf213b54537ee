import ExprLang.Proofs.Parser.Denotation
import ExprLang.Proofs.Token.Spelling

/-!
The grammar as it is written down: a plain one, without levels of operators and without a look at
what follows, but for an item that its own closing brace ends.
-/

namespace ExprLang

open ExprLang.Token (starts finishes openBrace closeBrace)

namespace Token

/-- Does the token stand for one of the binary operators? -/
def IsBinary (t : Token) : Prop :=
  ∃ text ∈ ["or", "and", "==", "!=", "<", "<=", ">", ">=", "+", "-", "*", "/", "%"],
    t.is text = true

instance (t : Token) : Decidable t.IsBinary := inferInstanceAs (Decidable (∃ _ ∈ _, _))

theorem isBinary_iff {t : Token} : t.IsBinary ↔ ∃ op : BinaryOp, t.is op.text = true := by
  constructor
  · rintro ⟨text, htext, ht⟩
    have hops : ∀ x ∈ ["or", "and", "==", "!=", "<", "<=", ">", ">=", "+", "-", "*", "/", "%"],
        (BinaryOp.ofText? x).isSome = true := by decide
    obtain ⟨op, hop⟩ := Option.isSome_iff_exists.1 (hops text htext)
    exact ⟨op, by rwa [BinaryOp.text_of_ofText? hop]⟩
  · rintro ⟨op, hop⟩
    exact ⟨op.text, by cases op <;> decide, hop⟩

/-- Does the token stand for the name of a type? -/
def IsTypeName (t : Token) : Prop := t.is "Int" = true ∨ t.is "Bool" = true ∨ t.is "Unit" = true

/-- A numeral of 64 bits with a sign, which it does not write. -/
def IsInteger (t : Token) : Prop :=
  t.kind = .integer ∧ t.number ≤ 9223372036854775807

end Token

namespace Grammar

/-- The categories of the grammar. Of items it counts which token follows them, if one does. -/
inductive Category where
  | type
  | types
  | primary
  | unary
  | binary
  | expression
  | expressions
  | statement
  | item (next : Option Token)
  | items (next : Option Token)
  | program

/-- The tokens that each category derives. -/
inductive Derives : Category → List Token → Prop where
  | typeName {t} : t.IsTypeName → Derives .type [t]
  | functionType {o w c a v} : o.is "(" = true → Derives .types w → c.is ")" = true →
      a.is "=>" = true → Derives .type v → Derives .type (o :: (w ++ c :: a :: v))
  | lastType {w} : Derives .type w → Derives .types w
  | moreTypes {w q v} : Derives .type w → q.is "," = true → Derives .types v →
      Derives .types (w ++ q :: v)
  | integer {t} : t.IsInteger → Derives .primary [t]
  | boolean {t} : t.kind = .boolean → Derives .primary [t]
  | name {t} : t.IsName → Derives .primary [t]
  | callEmpty {f o c} : f.IsName → o.is "(" = true → c.is ")" = true → Derives .primary [f, o, c]
  | call {f o w c} : f.IsName → o.is "(" = true → Derives .expressions w → c.is ")" = true →
      Derives .primary (f :: o :: (w ++ [c]))
  | grouping {o w c} : o.is "(" = true → Derives .expression w → c.is ")" = true →
      Derives .primary (o :: (w ++ [c]))
  | ifThen {i c t w} : i.is "if" = true → Derives .expression c → t.is "then" = true →
      Derives .expression w → Derives .primary (i :: (c ++ t :: w))
  | ifThenElse {i c t w l v} : i.is "if" = true → Derives .expression c → t.is "then" = true →
      Derives .expression w → l.is "else" = true → Derives .expression v →
      Derives .primary (i :: (c ++ t :: (w ++ l :: v)))
  | loop {i c d w} : i.is "while" = true → Derives .expression c → d.is "do" = true →
      Derives .expression w → Derives .primary (i :: (c ++ d :: w))
  | emptyBlock {o c} : o.is openBrace = true → c.is closeBrace = true → Derives .primary [o, c]
  | unitBlock {o w v q c} : o.is openBrace = true → Derives (.items v.head?) w →
      Derives .statement v → q.is ";" = true → c.is closeBrace = true →
      Derives .primary (o :: (w ++ v ++ [q, c]))
  | block {o w v c} : o.is openBrace = true → Derives (.items v.head?) w →
      Derives .expression v → c.is closeBrace = true → Derives .primary (o :: (w ++ v ++ [c]))
  | primary {w} : Derives .primary w → Derives .unary w
  | signed {t w} : t.is "-" = true ∨ t.is "not" = true → Derives .unary w → Derives .unary (t :: w)
  | unary {w} : Derives .unary w → Derives .binary w
  | binary {w q v} : Derives .binary w → q.IsBinary → Derives .unary v →
      Derives .binary (w ++ q :: v)
  | value {w} : Derives .binary w → Derives .expression w
  | assignment {w q v} : Derives .binary w → q.is "=" = true → Derives .expression v →
      Derives .expression (w ++ q :: v)
  | last {w} : Derives .expression w → Derives .expressions w
  | more {w q v} : Derives .expression w → q.is "," = true → Derives .expressions v →
      Derives .expressions (w ++ q :: v)
  | declaration {d n q v} : d.is "var" = true → n.IsName → q.is "=" = true →
      Derives .expression v → Derives .statement (d :: n :: q :: v)
  | ascribed {d n c w q v} : d.is "var" = true → n.IsName → c.is ":" = true → Derives .type w →
      q.is "=" = true → Derives .expression v → Derives .statement (d :: n :: c :: (w ++ q :: v))
  | statement {w} : Derives .expression w → Derives .statement w
  | terminated {next w q} : Derives .statement w → q.is ";" = true → Derives (.item next) (w ++ [q])
  | closed {next w} : Derives .statement w → finishes w closeBrace = true →
      (∀ t ∈ next, t.is ";" = false ∧ t.is "-" = false) → Derives (.item next) w
  | noItems {next} : Derives (.items next) []
  | moreItems {next w v} : Derives (.item (v.head?.or next)) w → Derives (.items next) v →
      Derives (.items next) (w ++ v)
  | single {w} : Derives .statement w → Derives .program w
  | several {w} : w ≠ [] → Derives (.items none) w → Derives .program w

/-- Only items may be missing. -/
def Category.takes : Category → Bool
  | items _ => false
  | _ => true

theorem Derives.ne_nil {k : Category} {w : List Token} (h : Derives k w) :
    k.takes = true → w ≠ [] := by
  induction h with
  | lastType _ ih | primary _ ih | unary _ ih | value _ ih | last _ ih | statement _ ih
  | closed _ _ _ ih | single _ ih => exact fun _ => ih rfl
  | noItems | moreItems => simp [Category.takes]
  | several hw => exact fun _ => hw
  | _ => simp

end Grammar

end ExprLang
