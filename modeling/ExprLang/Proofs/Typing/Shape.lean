import ExprLang.Proofs.Nodes
import ExprLang.Proofs.Typing.Dependence

/-!
Places do not count for typing. Main statement: expressions of the same shape are typed alike, or
refused for the same cause, and leave the same scope.
-/

namespace ExprLang

/-- The error without its place. -/
def Error.unplaced (e : Error) : Error := ⟨e.cause, .null⟩

namespace Ascription

mutual

theorem type_unplaced : ∀ a : Ascription, a.unplaced.type = a.type.mapError Error.unplaced
  | simple name span => by
    simp only [unplaced, type]
    cases Ty.ofName? name <;> rfl
  | function params result span => by
    simp only [unplaced, type, types_unplaced params, type_unplaced result]
    cases types params with
    | error e => rfl
    | ok ps => cases type result <;> rfl

theorem types_unplaced : ∀ as : List Ascription,
    types (unplacedAll as) = (types as).mapError Error.unplaced
  | [] => rfl
  | a :: as => by
    simp only [unplacedAll, types, type_unplaced a, types_unplaced as]
    cases type a with
    | error e => rfl
    | ok t => cases types as <;> rfl

end

end Ascription

namespace TypedExpr

/-- The typed tree without its places. -/
def unplaced (e : TypedExpr) : TypedExpr :=
  Tree.map (fun l => ⟨.null, l.type⟩) Identifier.unplaced id e

def unplacedAll (es : List TypedExpr) : List TypedExpr :=
  Tree.mapAll (fun l => ⟨.null, l.type⟩) Identifier.unplaced id es

@[simp] theorem type_unplaced (e : TypedExpr) : e.unplaced.type = e.type := by
  simp [unplaced, type]

@[simp] theorem start_unplaced (e : TypedExpr) : e.unplaced.start = .null := by
  simp [unplaced, start, Span.null]

end TypedExpr

namespace Checker

open ExprLang.Sequence

variable {α β : Type} {Q : α → β → Prop}

/-- Two checks from one scope, the second one without places. -/
def withoutPlaces : Lockstep Error Scope := ⟨Eq, fun e e' => e' = e.unplaced, True⟩

theorem forgets_throw (cause : Cause) (place : Position) :
    withoutPlaces.Keeps Q (throw ⟨cause, place⟩) (throw ⟨cause, .null⟩) :=
  Lockstep.keeps_throw rfl

/-- Rules either let a check go on or refuse it. -/
theorem forgets_guard (c : Prop) [Decidable c] {a : α} {b : β} (h : Q a b) (cause : Cause)
    (place : Position) : withoutPlaces.Keeps Q (if c then pure a else throw ⟨cause, place⟩)
      (if c then pure b else throw ⟨cause, .null⟩) :=
  Lockstep.keeps_ite Iff.rfl (fun _ => Lockstep.keeps_pure h) fun _ => forgets_throw cause place

theorem forgets_lookup (name : String) : withoutPlaces.Keeps Eq (lookup name) (lookup name) := by
  rintro s _ rfl
  exact ⟨rfl, rfl⟩

theorem forgets_signature (name : String) (place : Position) :
    withoutPlaces.Keeps Eq (signature name place) (signature name .null) := by
  apply (forgets_lookup name).bind
  rintro found _ rfl
  split
  · exact forgets_throw _ _
  · exact Lockstep.keeps_pure rfl
  · exact forgets_throw _ _

theorem forgets_binaryType (span : Span) (op : BinaryOp) (left right : TypedExpr) :
    withoutPlaces.Keeps Eq (binaryType span op left right)
      (binaryType .null op left.unplaced right.unplaced) := by
  unfold binaryType
  simp only [TypedExpr.type_unplaced, TypedExpr.start_unplaced]
  split
  · exact forgets_guard _ rfl _ _
  · apply (forgets_signature _ _).bind
    rintro x _ rfl
    exact forgets_guard _ rfl _ _

theorem forgets_unaryType (span : Span) (op : UnaryOp) (operand : TypedExpr) :
    withoutPlaces.Keeps Eq (unaryType span op operand) (unaryType .null op operand.unplaced) := by
  unfold unaryType
  rw [TypedExpr.type_unplaced]
  exact forgets_guard _ rfl _ _

theorem forgets_requireBool (construct : String) (condition : TypedExpr) :
    withoutPlaces.Keeps Eq (requireBool construct condition)
      (requireBool construct condition.unplaced) := by
  unfold requireBool
  rw [TypedExpr.type_unplaced, TypedExpr.start_unplaced]
  exact forgets_guard _ rfl _ _

theorem forgets_requireType (expected : Ty) (value : TypedExpr) :
    withoutPlaces.Keeps Eq (requireType expected value) (requireType expected value.unplaced) := by
  unfold requireType
  rw [TypedExpr.type_unplaced, TypedExpr.start_unplaced]
  exact forgets_guard _ rfl _ _

theorem forgets_statedType (ascription : Option Ascription) (value : TypedExpr) :
    withoutPlaces.Keeps Eq (statedType ascription value)
      (statedType (ascription.map Ascription.unplaced) value.unplaced) := by
  cases ascription with
  | none => exact Lockstep.keeps_pure rfl
  | some ascription =>
    simp only [statedType, Option.map_some, Ascription.type_unplaced]
    cases ascription.type with
    | error e => exact Lockstep.keeps_throw rfl
    | ok stated =>
      exact (forgets_requireType stated value).bind fun _ _ _ => Lockstep.keeps_pure rfl

theorem forgets_requireFirst (params : List Ty) (arguments : List TypedExpr) :
    withoutPlaces.Keeps Eq (requireFirst params arguments)
      (requireFirst params (TypedExpr.unplacedAll arguments)) := by
  cases params with
  | nil => exact Lockstep.keeps_pure rfl
  | cons param _ =>
    cases arguments with
    | nil => exact Lockstep.keeps_pure rfl
    | cons argument _ => exact forgets_requireType param argument

theorem forgets_modify (f : Scope → Scope) :
    withoutPlaces.Keeps Eq (modify f : Checker Unit) (modify f : Checker Unit) := by
  rintro s _ rfl
  exact ⟨rfl, rfl⟩

theorem forgets_recordAssignment (type : Ty) (left : TypedExpr) :
    withoutPlaces.Keeps Eq (recordAssignment type left) (recordAssignment type left.unplaced) := by
  cases left with
  | identifier => exact forgets_modify _
  | _ => exact Lockstep.keeps_pure rfl

theorem forgets_inFrame {c : Checker α} {d : Checker β} (h : withoutPlaces.Keeps Q c d) :
    withoutPlaces.Keeps Q (inFrame c) (inFrame d) :=
  keeps_inFrame (fun _ _ => congrArg Scope.push) (fun _ _ _ => congrArg Scope.pop) h

/-- Typed trees that differ in their places only, of which the second has none. -/
def Unplaced (x y : TypedExpr) : Prop := y = x.unplaced

theorem forgets_name (span : Span) (name : String) (cause : Cause) :
    withoutPlaces.Keeps Unplaced (do
        match ← lookup name with
        | none => throw ⟨cause, span.start⟩
        | some t => return .identifier ⟨span, t⟩ name) (do
        match ← lookup name with
        | none => throw ⟨cause, .null⟩
        | some t => return .identifier ⟨.null, t⟩ name) := by
  apply (forgets_lookup name).bind
  rintro found _ rfl
  split
  · exact forgets_throw _ _
  · exact Lockstep.keeps_pure rfl

theorem forgets_target {left : Expr}
    (h : withoutPlaces.Keeps Unplaced (check left) (check left.unplaced)) :
    withoutPlaces.Keeps Unplaced (target left (check left))
      (target left.unplaced (check left.unplaced)) := by
  cases left with
  | identifier span name => exact forgets_name span name _
  | _ => exact h

mutual

/-- Checking a tree without its places gives what checking it gives, without the places. -/
theorem forgets_check : ∀ e : Expr,
    withoutPlaces.Keeps Unplaced (check e) (check e.unplaced)
  | .literal span value => by
    simp only [Expr.unplaced, Tree.map, check]
    exact Lockstep.keeps_pure rfl
  | .identifier span name => by
    simp only [Expr.unplaced, Tree.map, check]
    exact forgets_name span name _
  | .binary span op left right => by
    simp only [Expr.unplaced, Tree.map, check]
    apply (forgets_check left).bind
    rintro l _ rfl
    apply (forgets_check right).bind
    rintro r _ rfl
    apply (forgets_binaryType span op l r).bind
    rintro t _ rfl
    exact Lockstep.keeps_pure rfl
  | .unary span op operand => by
    simp only [Expr.unplaced, Tree.map, check]
    apply (forgets_check operand).bind
    rintro a _ rfl
    apply (forgets_unaryType span op a).bind
    rintro t _ rfl
    exact Lockstep.keeps_pure rfl
  | .ifThen span condition consequent => by
    simp only [Expr.unplaced, Tree.map, check]
    apply (forgets_check condition).bind
    rintro c _ rfl
    apply (forgets_requireBool "if" c).bind
    intro _ _ _
    apply (forgets_check consequent).bind
    rintro a _ rfl
    rw [TypedExpr.type_unplaced]
    exact Lockstep.keeps_pure rfl
  | .ifThenElse span condition consequent alternative => by
    simp only [Expr.unplaced, Tree.map, check]
    apply (forgets_check condition).bind
    rintro c _ rfl
    apply (forgets_requireBool "if" c).bind
    intro _ _ _
    apply (forgets_check consequent).bind
    rintro a _ rfl
    apply (forgets_check alternative).bind
    rintro b _ rfl
    rw [TypedExpr.type_unplaced, TypedExpr.type_unplaced, TypedExpr.start_unplaced]
    apply forgets_guard
    rfl
  | .loop span condition body => by
    simp only [Expr.unplaced, Tree.map, check]
    apply (forgets_check condition).bind
    rintro c _ rfl
    apply (forgets_requireBool "while" c).bind
    intro _ _ _
    apply (forgets_check body).bind
    rintro b _ rfl
    exact Lockstep.keeps_pure rfl
  | .block span statements result => by
    simp only [Expr.unplaced, Tree.map, check]
    apply forgets_inFrame
    apply (forgets_checkAll statements).bind
    rintro ss _ rfl
    apply (forgets_check result).bind
    rintro r _ rfl
    rw [TypedExpr.type_unplaced]
    exact Lockstep.keeps_pure rfl
  | .declaration span name ascription value => by
    simp only [Expr.unplaced, Tree.map, check]
    apply (forgets_check value).bind
    rintro v _ rfl
    apply (forgets_statedType ascription v).bind
    rintro stated _ rfl
    rw [TypedExpr.type_unplaced]
    apply (forgets_modify _).bind
    intro _ _ _
    apply Lockstep.keeps_pure
    simp [Unplaced, TypedExpr.unplaced, Tree.map]
  | .assignment span left right => by
    simp only [Expr.unplaced, Tree.map, check]
    apply (forgets_target (forgets_check left)).bind
    rintro l _ rfl
    apply (forgets_check right).bind
    rintro r _ rfl
    rw [TypedExpr.type_unplaced, TypedExpr.type_unplaced]
    apply (forgets_requireType l.type r).bind
    intro _ _ _
    apply (forgets_recordAssignment r.type l).bind
    intro _ _ _
    exact Lockstep.keeps_pure rfl
  | .call span callee arguments => by
    simp only [Expr.unplaced, Tree.map, check]
    apply (forgets_signature callee.name callee.span.start).bind
    rintro x _ rfl
    apply (forgets_checkAll arguments).bind
    rintro as _ rfl
    apply (forgets_requireFirst x.1 as).bind
    intro _ _ _
    exact Lockstep.keeps_pure rfl

theorem forgets_checkAll : ∀ es : List Expr,
    withoutPlaces.Keeps (fun xs ys => ys = TypedExpr.unplacedAll xs) (checkAll es)
      (checkAll (Expr.unplacedAll es))
  | [] => by
    simp only [Expr.unplacedAll, Tree.mapAll, checkAll]
    exact Lockstep.keeps_pure rfl
  | e :: es => by
    simp only [Expr.unplacedAll, Tree.mapAll, checkAll]
    apply (forgets_check e).bind
    rintro first _ rfl
    apply (forgets_checkAll es).bind
    rintro rest _ rfl
    exact Lockstep.keeps_pure rfl

end

/-- What comes out of a check, without places. -/
def unplacedResult : EStateM.Result Error Scope TypedExpr → EStateM.Result Error Scope TypedExpr
  | .ok typed t => .ok typed.unplaced t
  | .error e t => .error e.unplaced t

theorem check_unplaced (e : Expr) (s : Scope) :
    check e.unplaced s = unplacedResult (check e s) := by
  have h := forgets_check e s s rfl
  cases hc : check e s with
  | ok typed t =>
    rw [hc] at h
    obtain ⟨_, _, hd, rfl, rfl⟩ := h.exists_ok
    exact hd
  | error error t =>
    rw [hc] at h
    obtain ⟨_, _, hd, rfl, rfl⟩ := h.exists_error trivial
    exact hd

end Checker

open Checker

/-- Typing goes by the shape of an expression. From one scope, expressions of the same shape are
either both typed, with trees that are the same but for their places, or both refused, for the same
cause; and both checks end in the same scope. -/
theorem check_respects_sameShape {a b : Expr} (h : a.sameShape b = true) (s : Scope) :
    (∃ x y t, check a s = .ok x t ∧ check b s = .ok y t ∧ x.unplaced = y.unplaced) ∨
      ∃ e e' t, check a s = .error e t ∧ check b s = .error e' t ∧ e.cause = e'.cause := by
  have hresult : unplacedResult (check a s) = unplacedResult (check b s) := by
    rw [← check_unplaced, ← check_unplaced, (Expr.sameShape_iff a b).1 h]
  cases hca : check a s with
  | ok x t =>
    cases hcb : check b s with
    | ok y u =>
      rw [hca, hcb] at hresult
      simp only [unplacedResult, EStateM.Result.ok.injEq] at hresult
      obtain ⟨hxy, rfl⟩ := hresult
      exact .inl ⟨x, y, t, rfl, rfl, hxy⟩
    | error e' u =>
      rw [hca, hcb] at hresult
      cases hresult
  | error e t =>
    cases hcb : check b s with
    | ok y u =>
      rw [hca, hcb] at hresult
      cases hresult
    | error e' u =>
      rw [hca, hcb] at hresult
      simp only [unplacedResult, EStateM.Result.error.injEq] at hresult
      obtain ⟨hee', rfl⟩ := hresult
      have hcause : e.unplaced.cause = e'.unplaced.cause := congrArg Error.cause hee'
      exact .inr ⟨e, e', t, rfl, rfl, hcause⟩

/-- The same sum at two places. Its first operand declares a name, the second one is not known. -/
theorem check_respects_sameShape_sum :
    let sum (p : Span) : Expr := .binary p .plus
      (.declaration p ⟨"x", p⟩ (some (.simple "Int" p)) (.literal p (.int 1))) (.identifier p "y")
    let a := sum ⟨⟨1, 1, "f"⟩, ⟨1, 9, "f"⟩⟩
    let b := sum ⟨⟨2, 5, "g"⟩, ⟨3, 4, "g"⟩⟩
    a.sameShape b = true ∧ ∃ e e' t, check a (.ofBase builtins) = .error e t ∧
      check b (.ofBase builtins) = .error e' t ∧ e ≠ e' ∧ e.cause = e'.cause ∧
      t.lookup "x" = some .int := by
  intro sum a b
  have hshape : a.sameShape b = true := rfl
  have hruns : ∃ e t e' t', check a (.ofBase builtins) = .error e t ∧
      check b (.ofBase builtins) = .error e' t' ∧ e ≠ e' ∧ t.lookup "x" = some .int :=
    ⟨_, _, _, _, rfl, rfl, by decide, rfl⟩
  obtain ⟨e, t, e', t', ha, hb, hne, hx⟩ := hruns
  rcases check_respects_sameShape hshape (.ofBase builtins) with
    ⟨_, _, _, hok, -⟩ | ⟨_, _, _, ha', hb', hcause⟩
  · rw [ha] at hok
    cases hok
  · rw [ha] at ha'
    cases ha'
    rw [hb] at hb'
    cases hb'
    exact ⟨hshape, e, e', t, ha, hb, hne, hcause, hx⟩

end ExprLang
