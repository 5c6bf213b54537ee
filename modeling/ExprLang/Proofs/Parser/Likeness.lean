import Mathlib.Data.List.Forall2
import ExprLang.Parser
import ExprLang.Proofs.Lockstep
import ExprLang.Text.Numeral
import ExprLang.Token.Reader
import ExprLang.Proofs.Token.Spelling

/-!
Token lists that are read alike. Main statement: parsers keep in step on two such lists, unless a
numeral of the first one is refused.
-/

namespace ExprLang

/-- How the tokens of two streams may differ, and then the trees that are read of them. What stands
for the same mark or word has to do so on both sides; a numeral may stand for another one. -/
structure Likeness where
  runs : Lockstep Error TokenStream
  /-- What the first run may fail for alone. -/
  excused : Error → Prop
  place : Position → Position → Prop
  token : Token → Token → Prop
  name : Identifier → Identifier → Prop
  ascription : Ascription → Ascription → Prop
  expr : Expr → Expr → Prop
  current {s t} : runs.states s t → token s.current t.current
  advance {s t} : runs.states s t → runs.states s.advance t.advance
  previousIs_eq {s t} : runs.states s t →
    s.previousIs Token.closeBrace = t.previousIs Token.closeBrace
  remaining_eq {s t} : runs.states s t → s.remaining = t.remaining
  token_start {x y} : token x y → place x.location y.location
  kind_eq {x y} : token x y → x.kind = y.kind
  text_eq {x y} : token x y → x.kind ≠ .integer → x.text = y.text
  is_eq {x y} : token x y → ∀ text : String, Piece.kindOf? text.toList ≠ some .integer →
    x.is text = y.is text
  unexpected {x y} : token x y → ∀ expected,
    runs.errors ⟨.unexpectedToken expected x.text x.kind, x.location⟩
      ⟨.unexpectedToken expected y.text y.kind, y.location⟩
  declarationAsResult {a b} : expr a b →
    runs.errors ⟨.declarationAsResult, a.span.start⟩ ⟨.declarationAsResult, b.span.start⟩
  numeral {x y} : token x y →
    match Text.int64? x.text, Text.int64? y.text with
    | some m, some n => expr (.literal x.span (.int m)) (.literal y.span (.int n))
    | none, none => runs.errors ⟨.numberOutOfRange x.text, x.location⟩
        ⟨.numberOutOfRange y.text, y.location⟩
    | none, some _ => excused ⟨.numberOutOfRange x.text, x.location⟩
    | some _, none => False
  boolean {x y} : token x y → expr (.literal x.span (.bool (x.text == "true")))
    (.literal y.span (.bool (y.text == "true")))
  implicitUnit {x y} : token x y → expr (.implicitUnit x.span) (.implicitUnit y.span)
  named {x y} : token x y → x.text = y.text → name ⟨x.text, x.span⟩ ⟨y.text, y.span⟩
  typeName {x y} : token x y → x.text = y.text →
    ascription (.simple x.text x.span) (.simple y.text y.span)
  functionType {l l' ps qs r q} : List.Forall₂ ascription ps qs → ascription r q →
    ascription (.function ps r l) (.function qs q l')
  name_start {a b} : name a b → place a.span.start b.span.start
  expr_start {a b} : expr a b → place a.span.start b.span.start
  isDeclaration_eq {a b} : expr a b → a.isDeclaration = b.isDeclaration
  identifier {a b} : name a b → expr (.identifier a.span a.name) (.identifier b.span b.name)
  binary {l l' a b c d} : place l.start l'.start → ∀ op, expr a b → expr c d →
    expr (.binary l op a c) (.binary l' op b d)
  unary {l l' a b} : place l.start l'.start → ∀ op, expr a b →
    expr (.unary l op a) (.unary l' op b)
  ifThen {l l' a b c d} : place l.start l'.start → expr a b → expr c d →
    expr (.ifThen l a c) (.ifThen l' b d)
  ifThenElse {l l' a b c d u v} : place l.start l'.start → expr a b → expr c d → expr u v →
    expr (.ifThenElse l a c u) (.ifThenElse l' b d v)
  loop {l l' a b c d} : place l.start l'.start → expr a b → expr c d →
    expr (.loop l a c) (.loop l' b d)
  block {l l' as bs a b} : place l.start l'.start → List.Forall₂ expr as bs → expr a b →
    expr (.block l as a) (.block l' bs b)
  declaration {l l' n m s t a b} : place l.start l'.start → name n m →
    Option.Rel ascription s t → expr a b → expr (.declaration l n s a) (.declaration l' m t b)
  assignment {l l' a b c d} : place l.start l'.start → expr a b → expr c d →
    expr (.assignment l a c) (.assignment l' b d)
  call {l l' n m as bs} : place l.start l'.start → name n m → List.Forall₂ expr as bs →
    expr (.call l n as) (.call l' m bs)

namespace Likeness

/-- The two parsers keep in step on streams that are alike, and their answers are related by `Q`. -/
def Keeps {α β : Type} (L : Likeness) (Q : α → β → Prop) (p : Parser α) (q : Parser β) : Prop :=
  L.runs.KeepsUnless L.excused Q p q

section Tokens

variable {L : Likeness} {x y : Token} {s t : TokenStream}

theorem isEnd_eq (h : L.token x y) : x.isEnd = y.isEnd := by
  unfold Token.isEnd
  rw [L.kind_eq h]

theorem isOneOf_eq (h : L.token x y) {texts : List String}
    (htexts : ∀ text ∈ texts, Piece.kindOf? text.toList ≠ some .integer) :
    x.isOneOf texts = y.isOneOf texts := by
  unfold Token.isOneOf
  induction texts with
  | nil => rfl
  | cons text texts ih =>
    obtain ⟨htext, htexts⟩ := List.forall_mem_cons.1 htexts
    rw [List.any_cons, List.any_cons, L.is_eq h text htext, ih htexts]

theorem isReserved_eq (h : L.token x y) : x.isReserved = y.isReserved := by
  unfold Token.isReserved
  rw [← L.kind_eq h]
  cases hkind : x.kind with
  | integer => rfl
  | _ => rw [L.text_eq h (by rw [hkind]; decide)]

theorem hasTokens_eq (h : L.runs.states s t) : s.hasTokens = t.hasTokens := by
  unfold TokenStream.hasTokens
  rw [isEnd_eq (L.current h)]

theorem followsBrace_eq (h : L.runs.states s t) : s.followsBrace = t.followsBrace := by
  unfold TokenStream.followsBrace
  rw [L.previousIs_eq h, isOneOf_eq (L.current h) (by decide)]

end Tokens

theorem Keeps.bind {L : Likeness} {α β γ κ : Type} {Q : α → β → Prop} {R : γ → κ → Prop}
    {p : Parser α} {q : Parser β} {f : α → Parser γ} {g : β → Parser κ} (hp : L.Keeps Q p q)
    (hf : ∀ a b, Q a b → L.Keeps R (f a) (g b)) : L.Keeps R (p >>= f) (q >>= g) :=
  Lockstep.KeepsUnless.bind hp hf

end Likeness

namespace Parser

variable {L : Likeness} {α β : Type} {Q : α → β → Prop} {p q : Parser α} {p' q' : Parser β}

theorem keeps_pure {a : α} {b : β} (h : Q a b) : L.Keeps Q (pure a) (pure b) :=
  (Lockstep.keeps_pure h).unless

theorem keeps_throw {e e' : Error} (h : L.runs.errors e e') : L.Keeps Q (throw e) (throw e') :=
  (Lockstep.keeps_throw h).unless

theorem keeps_current : L.Keeps L.token current current := fun _ _ h => .inr ⟨L.current h, h⟩

theorem keeps_advance : L.Keeps L.token advance advance :=
  fun _ _ h => .inr ⟨L.current h, L.advance h⟩

theorem keeps_unexpected (expected : Expected) :
    L.Keeps Q (unexpected expected) (unexpected expected) :=
  fun _ _ h => .inr fun _ => ⟨L.unexpected (L.current h) expected, h⟩

/-- A choice that looks at the tokens, but not at what they may differ in. -/
theorem keeps_test {test : TokenStream → Bool}
    (h : ∀ s t, L.runs.states s t → test s = test t) (hp : L.Keeps Q p p') (hq : L.Keeps Q q q') :
    L.Keeps Q (do if test (← get) then p else q) (do if test (← get) then p' else q') := by
  intro s t hst
  exact Lockstep.keepsUnless_ite (by rw [h s t hst]) (fun _ => hp) (fun _ => hq) s t hst

theorem keeps_is (text : String) (htext : Piece.kindOf? text.toList ≠ some .integer)
    (hp : L.Keeps Q p p') (hq : L.Keeps Q q q') :
    L.Keeps Q (do if (← current).is text then p else q)
      (do if (← current).is text then p' else q') :=
  keeps_test (fun _ _ h => L.is_eq (L.current h) text htext) hp hq

/-- A token of this text is read before the first parser; any other is left to the second one. -/
theorem keeps_take (text : String) (htext : Piece.kindOf? text.toList ≠ some .integer)
    (hp : L.Keeps Q p p') (hq : L.Keeps Q q q') :
    L.Keeps Q (do if (← current).is text then (do let _ ← advance; p) else q)
      (do if (← current).is text then (do let _ ← advance; p') else q') :=
  keeps_is text htext (keeps_advance.bind fun _ _ _ => hp) hq

theorem keeps_demand (text : String) (htext : Piece.kindOf? text.toList ≠ some .integer)
    (expected : Expected) : L.Keeps L.token (demand text expected) (demand text expected) :=
  keeps_is text htext keeps_advance (keeps_unexpected expected)

theorem keeps_expect (text : String) (htext : Piece.kindOf? text.toList ≠ some .integer) :
    L.Keeps L.token (expect text) (expect text) := keeps_demand text htext _

theorem keeps_identifier : L.Keeps L.name identifier identifier := by
  intro s t hst
  have hcurrent := L.current hst
  refine Lockstep.keepsUnless_ite (by rw [L.kind_eq hcurrent, Likeness.isReserved_eq hcurrent])
    (fun hname => ?_) (fun _ => keeps_unexpected _) s t hst
  have htext := L.text_eq hcurrent (by rw [hname.1]; decide)
  exact keeps_advance.bind fun _ _ _ => keeps_pure (L.named hcurrent htext)

theorem keeps_behindCommas (h : L.Keeps Q p p') :
    ∀ n, L.Keeps (List.Forall₂ Q) (behindCommas p n) (behindCommas p' n)
  | 0 => keeps_pure .nil
  | n + 1 => keeps_take "," (by decide)
      (h.bind fun _ _ hab => (keeps_behindCommas h n).bind fun _ _ hrest =>
        keeps_pure (.cons hab hrest))
      (keeps_pure .nil)

theorem keeps_commaSeparated (h : L.Keeps Q p p') (n : Nat) :
    L.Keeps (List.Forall₂ Q) (commaSeparated p n) (commaSeparated p' n) :=
  h.bind fun _ _ hab => (keeps_behindCommas h n).bind fun _ _ hrest => keeps_pure (.cons hab hrest)

/-- Both streams have equally many tokens ahead. -/
theorem keeps_bounded {rule : Nat → Parser α} {rule' : Nat → Parser β}
    (h : ∀ n, L.Keeps Q (rule n) (rule' n)) : L.Keeps Q (bounded rule) (bounded rule') := by
  intro s t hst
  show L.runs.MeetsUnless L.excused Q (rule s.remaining s) (rule' t.remaining t)
  rw [L.remaining_eq hst]
  exact h t.remaining s t hst

end Parser

end ExprLang
