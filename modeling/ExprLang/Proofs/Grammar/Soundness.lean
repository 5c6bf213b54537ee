import Mathlib.Data.List.Basic
import ExprLang.Proofs.Grammar.Derivation
import ExprLang.Proofs.Grammar.Programs
import ExprLang.Proofs.Token.Spelling

/-!
What the rules read is derived by the grammar. Main statement: the tokens of a list of statements
are a program.
-/

namespace ExprLang

open ExprLang.Token (starts finishes openBrace closeBrace)

namespace Rule

theorem operatorOf_eq_some {l : Level} {t : Token} {op : BinaryOp} (h : operatorOf l t = some op) :
    t.is op.text = true ∧ op.level = l := by
  refine ⟨by simpa using List.find?_some h, ?_⟩
  exact Level.mem_operators.1 (List.mem_of_find?_eq_some h)

theorem isBinary_of_operatorOf {l : Level} {t : Token} {op : BinaryOp}
    (h : operatorOf l t = some op) : t.IsBinary :=
  Token.isBinary_iff.2 ⟨op, (operatorOf_eq_some h).1⟩

theorem operatorOf_eq_none {t : Token} {l : Level} :
    operatorOf l t = none ↔ ∀ op : BinaryOp, op.level = l → t.is op.text = false := by
  simp [operatorOf, Level.mem_operators]

end Rule

namespace Grammar

/-- The token is no operator of this level or a tighter one. -/
def Looser (l : Level) (t : Token) : Prop :=
  ∀ op : BinaryOp, l.rank ≤ op.level.rank → t.is op.text = false

theorem looser_or_iff {t : Token} : Looser .or t ↔ ¬t.IsBinary := by
  rw [Token.isBinary_iff, not_exists]
  exact ⟨fun h op => by simp [h op (Nat.zero_le _)], fun h op _ => Bool.eq_false_iff.2 (h op)⟩

theorem Looser.mono {l m : Level} {t : Token} (h : Looser l t) (hlm : l.rank ≤ m.rank) :
    Looser m t :=
  fun op hop => h op (Nat.le_trans hlm hop)

theorem looser_unary (t : Token) : Looser .unary t := by
  intro op hop
  cases op <;> exact absurd hop (by decide)

/-- To the operators of the tighter levels come those of the level itself. -/
theorem looser_of_next {l : Level} {t : Token} (h : Looser l.next t)
    (ht : Rule.operatorOf l t = none) : Looser l t := by
  intro op hop
  by_cases hl : op.level = l
  · exact Rule.operatorOf_eq_none.1 ht op hl
  · refine h op ?_
    revert hop hl
    cases l <;> cases op <;> decide

/-- Which tokens cannot stand behind a part that the rules have read to its end. -/
def Part.Stops : Part → List Token → List Token → Prop
  | binary l, _, r => ∀ t ∈ r.head?, Looser l t
  | leaning l _, w, r => (w = [] → ∀ t ∈ r.head?, Looser l.next t) → ∀ t ∈ r.head?, Looser l t
  | expression, _, r | statement, _, r => ∀ t ∈ r.head?, Looser .or t ∧ t.is "=" = false
  | operand, _, _ | expressions, _, _ | items, _, _ => True

theorem Reading.stops {p : Part} {w r : List Token} {es : List Expr} (h : Reading p w r es) :
    p.Stops w r := by
  induction h with
  | tightest => exact fun t _ => looser_unary t
  | level _ _ _ iha ihe =>
    refine ihe fun hv t ht => iha t ?_
    rwa [hv, List.nil_append]
  -- Where a level stops at once, its first operand has already stopped there.
  | stop hr => exact fun hnext t ht => looser_of_next (hnext rfl t ht) (hr t ht)
  | step _ _ _ ihb ihe =>
    intro _
    refine ihe fun hv t ht => ihb t ?_
    rwa [hv, List.nil_append]
  | value _ hr ih =>
    exact fun t ht => ⟨ih t ht, by simpa using Token.starts_eq_false_iff.1 hr t ht⟩
  | assignment _ _ _ _ ih | declaration _ _ _ _ _ ih | ascribed _ _ _ _ _ _ ih
  | statement _ _ ih => exact ih
  | _ => trivial

/-- Which trees a part builds: an expression is no declaration. -/
def Part.Values : Part → List Expr → Prop
  | leaning _ a, es => a.isDeclaration = false → ∀ e ∈ es, e.isDeclaration = false
  | operand, es | binary _, es | expression, es => ∀ e ∈ es, e.isDeclaration = false
  | expressions, _ | statement, _ | items, _ => True

theorem Reading.values {p : Part} {w r : List Token} {es : List Expr} (h : Reading p w r es) :
    p.Values es := by
  induction h with
  | grouping _ _ _ ih | tightest _ ih | value _ _ ih => exact ih
  | level _ _ _ iha ihe => exact ihe (iha _ List.mem_cons_self)
  | stop => exact fun ha e he => by rwa [List.mem_singleton.1 he]
  | step _ _ _ _ ihe => exact fun _ => ihe rfl
  | last | more | declaration | ascribed | statement | leftOut | terminated | closed | result =>
    trivial
  | _ =>
    intro e he
    rw [List.mem_singleton.1 he]
    rfl

/-- An operator joins two chains of operators. -/
theorem Derives.binary_append {u w : List Token} {q : Token} (hu : Derives .binary u)
    (hq : q.IsBinary) (hw : Derives .binary w) : Derives .binary (u ++ q :: w) := by
  generalize hk : Category.binary = k at hw
  induction hw with
  | unary hw => exact .binary hu hq hw
  | binary _ hq' hv ih =>
    rw [← List.cons_append, ← List.append_assoc]
    exact .binary (ih hk) hq' hv
  | _ => cases hk

/-- What the tokens between the braces of a block are. -/
def BlockBody (w : List Token) : Prop :=
  (∃ u v q, w = u ++ v ++ [q] ∧ Derives (.items v.head?) u ∧ Derives .statement v ∧
    q.is ";" = true) ∨
  ∃ u v, w = u ++ v ∧ Derives (.items v.head?) u ∧ Derives .expression v

/-- An item in front of the others belongs to them. -/
theorem BlockBody.cons {w v : List Token} (hv : BlockBody v) (hw : Derives (.item v.head?) w) :
    BlockBody (w ++ v) := by
  rcases hv with ⟨u, s, q, rfl, hu, hs, hq⟩ | ⟨u, s, rfl, hu, hs⟩
  · have hhead : (u ++ s ++ [q]).head? = u.head?.or s.head? := by
      rw [List.append_assoc, List.head?_append, List.head?_append]
      cases s with
      | nil => exact absurd rfl (hs.ne_nil rfl)
      | cons t s => rfl
    rw [hhead] at hw
    exact .inl ⟨w ++ u, s, q, by simp, .moreItems hw hu, hs, hq⟩
  · rw [List.head?_append] at hw
    exact .inr ⟨w ++ u, s, by simp, .moreItems hw hu, hs⟩

theorem BlockBody.derives {o c : Token} {w : List Token} (hw : BlockBody w)
    (ho : o.is openBrace = true) (hc : c.is closeBrace = true) :
    Derives .primary (o :: (w ++ [c])) := by
  rcases hw with ⟨u, v, q, rfl, hu, hv, hq⟩ | ⟨u, v, rfl, hu, hv⟩
  · simpa using Derives.unitBlock ho hu hv hq hc
  · exact .block ho hu hv hc

/-- What the tokens of a part derive. -/
def Part.Sound : Part → List Token → List Token → List Expr → Prop
  | operand, w, _, _ => Derives .unary w
  | binary _, w, _, _ => Derives .binary w
  | leaning .., w, _, _ => ∀ u, Derives .binary u → Derives .binary (u ++ w)
  | expression, w, _, _ => Derives .expression w
  | expressions, w, _, _ => Derives .expressions w
  | statement, w, _, es => Derives .statement w ∧
      ((∀ e ∈ es, e.isDeclaration = false) → Derives .expression w)
  | items, w, r, _ => w = [] ∧ starts r closeBrace = true ∨ BlockBody w

end Grammar

theorem Ascription.Reading.sound {p : Ascription.Part} {w r : List Token} {as : List Ascription}
    (h : Ascription.Reading p w r as) :
    Grammar.Derives (match p with | .one => .type | .many => .types) w := by
  induction h with
  | @simple t _ hk ht =>
    refine .typeName ?_
    have hend : t.isEnd = false := by simp [Token.isEnd, hk]
    simpa [Token.IsTypeName, Token.is, hend, simpleNames, or_assoc] using ht
  | function ho _ hc ha _ ih ih' => exact .functionType ho ih hc ha ih'
  | last _ _ ih => exact .lastType ih
  | more _ hq _ ih ih' => exact .moreTypes ih hq ih'

namespace Grammar

open ExprLang.Token (Spelt)

theorem isInteger_of_int64? {t : Token} {value : Int} (ht : t.Spelt) (hk : t.kind = .integer)
    (hv : Text.int64? t.text = some value) : t.IsInteger := by
  rw [ht.int64? hk] at hv
  split at hv
  · exact ⟨hk, ‹_›⟩
  · cases hv

theorem Reading.sound {p : Part} {w r : List Token} {es : List Expr} (h : Reading p w r es) :
    (∀ t ∈ w, t.Spelt) → p.Sound w r es := by
  induction h with
  | integer hk _ hv =>
    intro hs
    exact .primary (.integer (isInteger_of_int64? (hs _ List.mem_cons_self) hk hv))
  | boolean hk _ => exact fun _ => .primary (.boolean hk)
  | name ht _ _ => exact fun _ => .primary (.name ht)
  | callEmpty hf _ ho hc => exact fun _ => .primary (.callEmpty hf ho hc)
  | call hf _ ho _ _ hc ih =>
    intro hs
    simp only [List.forall_mem_cons, List.forall_mem_append] at hs
    exact .primary (.call hf ho (ih hs.2.2.1) hc)
  | grouping ho _ hc ih =>
    intro hs
    simp only [List.forall_mem_cons, List.forall_mem_append] at hs
    exact .primary (.grouping ho (ih hs.2.1) hc)
  | signed ht _ _ ih =>
    intro hs
    refine .signed ?_ (ih (List.forall_mem_cons.1 hs).2)
    simpa [Token.isOneOf] using ht
  | ifThen hi _ ht _ _ ihc ihw =>
    intro hs
    simp only [List.forall_mem_cons, List.forall_mem_append] at hs
    exact .primary (.ifThen hi (ihc hs.2.1) ht (ihw hs.2.2.2))
  | ifThenElse hi _ ht _ hl _ ihc ihw ihv =>
    intro hs
    simp only [List.forall_mem_cons, List.forall_mem_append] at hs
    exact .primary (.ifThenElse hi (ihc hs.2.1) ht (ihw hs.2.2.2.1) hl (ihv hs.2.2.2.2.2))
  | loop hi _ hd _ ihc ihw =>
    intro hs
    simp only [List.forall_mem_cons, List.forall_mem_append] at hs
    exact .primary (.loop hi (ihc hs.2.1) hd (ihw hs.2.2.2))
  | block ho _ hc ih =>
    intro hs
    simp only [List.forall_mem_cons, List.forall_mem_append] at hs
    rcases ih hs.2.1 with ⟨rfl, -⟩ | hbody
    · exact .primary (.emptyBlock ho hc)
    · exact .primary (hbody.derives ho hc)
  | tightest _ ih => exact fun hs => .unary (ih hs)
  | level _ _ _ iha ihe =>
    intro hs
    rw [List.forall_mem_append] at hs
    exact ihe hs.2 _ (iha hs.1)
  | stop =>
    intro _ u hu
    rwa [List.append_nil]
  | step hop _ _ ihb ihe =>
    intro hs u hu
    simp only [List.forall_mem_cons, List.forall_mem_append] at hs
    have hu' := hu.binary_append (Rule.isBinary_of_operatorOf hop) (ihb hs.2.1)
    simpa using ihe hs.2.2 _ hu'
  | value _ _ ih => exact fun hs => .value (ih hs)
  | assignment _ hq _ iha ihb =>
    intro hs
    simp only [List.forall_mem_cons, List.forall_mem_append] at hs
    exact .assignment (iha hs.1) hq (ihb hs.2.2)
  | last _ _ ih => exact fun hs => .last (ih hs)
  | more _ hq _ ih ih' =>
    intro hs
    simp only [List.forall_mem_cons, List.forall_mem_append] at hs
    exact .more (ih hs.1) hq (ih' hs.2.2)
  | declaration hd hn hq _ _ ih =>
    intro hs
    simp only [List.forall_mem_cons] at hs
    refine ⟨.declaration hd hn hq (ih hs.2.2.2), fun h => ?_⟩
    exact absurd (h _ List.mem_cons_self) (by simp [Tree.isDeclaration])
  | ascribed hd hn hc ha hq _ ih =>
    intro hs
    simp only [List.forall_mem_cons, List.forall_mem_append] at hs
    refine ⟨.ascribed hd hn hc ha.sound hq (ih hs.2.2.2.2.2), fun h => ?_⟩
    exact absurd (h _ List.mem_cons_self) (by simp [Tree.isDeclaration])
  | statement _ _ ih => exact fun hs => ⟨.statement (ih hs), fun _ => ih hs⟩
  | leftOut hc => exact fun _ => .inl ⟨rfl, hc⟩
  | terminated _ _ hq _ ih ih' =>
    intro hs
    simp only [List.forall_mem_cons, List.forall_mem_append] at hs
    have hw := (ih hs.1).1
    rcases ih' hs.2.2 with ⟨rfl, -⟩ | hv
    · exact .inr (.inl ⟨[], _, _, rfl, .noItems, hw, hq⟩)
    · refine .inr ?_
      simpa using hv.cons (.terminated hw hq)
  | @closed w v r e es _ hst hf hsc hcb _ ih ih' =>
    intro hs
    rw [List.forall_mem_append] at hs
    have hw := (ih hs.1).1
    rcases ih' hs.2 with ⟨rfl, hr⟩ | hv
    · rw [List.nil_append, hr] at hcb
      cases hcb
    · refine .inr (hv.cons (.closed hw hf fun t ht => ?_))
      have hnext : t ∈ (v ++ r).head? := List.mem_head?_append_of_mem_head? ht
      exact ⟨by simpa using Token.starts_eq_false_iff.1 hsc t hnext,
        (hst.stops t hnext).1 .minus (by decide)⟩
  | result _ _ _ _ hd ih =>
    intro hs
    exact .inr (.inr ⟨[], _, rfl, .noItems, (ih hs).2 (by simpa using hd)⟩)

/-- Statements that are not the first of a program are items. -/
theorem Statements.items {w : List Token} {es : List Expr} (h : Statements false w es) :
    (∀ t ∈ w, t.Spelt) → Derives (.items none) w := by
  generalize hb : false = b at h
  induction h with
  | done => exact fun _ => .noItems
  | terminated hst hq _ ih =>
    intro hs
    simp only [List.forall_mem_cons, List.forall_mem_append] at hs
    simpa using Derives.moreItems (.terminated (hst.sound hs.1).1 hq) (ih rfl hs.2.2)
  | closed hst hsc hf _ ih =>
    intro hs
    rw [List.forall_mem_append] at hs
    refine .moreItems (.closed (hst.sound hs.1).1 hf fun t ht => ?_) (ih rfl hs.2)
    rw [Option.or_none] at ht
    exact ⟨by simpa using Token.starts_eq_false_iff.1 hsc t ht,
      (hst.stops t ht).1 .minus (by decide)⟩
  | only => cases hb

/-- The tokens of the statements of a program are derived from it. -/
theorem Statements.derives {w : List Token} {es : List Expr} (h : Statements true w es)
    (hes : es ≠ []) (hs : ∀ t ∈ w, t.Spelt) : Derives .program w := by
  cases h with
  | done => exact absurd rfl hes
  | terminated hst hq hv =>
    refine .several (by simp) (Statements.items (.terminated hst hq hv) hs)
  | closed hst hsc hf hv =>
    have hne := hst.ne_nil rfl
    exact .several (by simp [hne]) (Statements.items (.closed hst hsc hf hv) hs)
  | only hst hf => exact .single (hst.sound hs).1

end Grammar

end ExprLang
