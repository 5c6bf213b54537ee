import ExprLang.Proofs.Sequence
import ExprLang.Typing

/-!
Where the errors of checking stand, and what they are. Main statement: they stand at the start of a
part of the tree, and are faults of types and names unless an ascription stands for no type.
-/

namespace ExprLang

namespace Ascription

mutual

/-- Where an ascription and its parts start. -/
def positions : Ascription → List Position
  | simple _ span => [span.start]
  | function params result span => span.start :: (positionsAll params ++ positions result)

def positionsAll : List Ascription → List Position
  | [] => []
  | a :: as => positions a ++ positionsAll as

end

mutual

/-- An ascription that stands for no type has a name in it that none has. -/
theorem error_of_type {a : Ascription} {e : Error} (h : a.type = .error e) :
    e.position ∈ a.positions ∧ ∃ name, e.cause = .unknownType name := by
  match a with
  | simple name span =>
    rw [type] at h
    split at h
    · cases h
    · cases h
      exact ⟨List.mem_singleton_self _, name, rfl⟩
  | function params result span =>
    rw [type] at h
    rw [positions, List.mem_cons, List.mem_append]
    cases hparams : types params with
    | error e' =>
      rw [hparams] at h
      cases h
      exact (error_of_types hparams).imp_left fun hp => .inr (.inl hp)
    | ok ps =>
      cases hresult : type result with
      | error e' =>
        rw [hparams, hresult] at h
        cases h
        exact (error_of_type hresult).imp_left fun hp => .inr (.inr hp)
      | ok r =>
        rw [hparams, hresult] at h
        cases h

theorem error_of_types {as : List Ascription} {e : Error} (h : types as = .error e) :
    e.position ∈ positionsAll as ∧ ∃ name, e.cause = .unknownType name := by
  match as with
  | [] => rw [types] at h; cases h
  | a :: as =>
    rw [types] at h
    rw [positionsAll, List.mem_append]
    cases hfirst : type a with
    | error e' =>
      rw [hfirst] at h
      cases h
      exact (error_of_type hfirst).imp_left .inl
    | ok t =>
      cases hrest : types as with
      | error e' =>
        rw [hfirst, hrest] at h
        cases h
        exact (error_of_types hrest).imp_left .inr
      | ok ts =>
        rw [hfirst, hrest] at h
        cases h

end

end Ascription

namespace Expr

mutual

/-- Where the nodes of a tree, its names and its ascriptions start. -/
def positions : Expr → List Position
  | .literal span _ => [span.start]
  | .identifier span _ => [span.start]
  | .binary span _ left right => span.start :: (positions left ++ positions right)
  | .unary span _ operand => span.start :: positions operand
  | .ifThen span condition consequent =>
    span.start :: (positions condition ++ positions consequent)
  | .ifThenElse span condition consequent alternative =>
    span.start :: (positions condition ++ (positions consequent ++ positions alternative))
  | .loop span condition body => span.start :: (positions condition ++ positions body)
  | .block span statements result => span.start :: (positionsAll statements ++ positions result)
  | .declaration span name ascription value =>
    span.start :: name.span.start ::
      ((ascription.map Ascription.positions).getD [] ++ positions value)
  | .assignment span target value => span.start :: (positions target ++ positions value)
  | .call span callee arguments => span.start :: callee.span.start :: positionsAll arguments

def positionsAll : List Expr → List Position
  | [] => []
  | e :: es => positions e ++ positionsAll es

end

mutual

/-- The types that declarations of the tree state. -/
def ascriptions : Expr → List Ascription
  | .literal .. | .identifier .. => []
  | .binary _ _ left right => ascriptions left ++ ascriptions right
  | .unary _ _ operand => ascriptions operand
  | .ifThen _ condition consequent => ascriptions condition ++ ascriptions consequent
  | .ifThenElse _ condition consequent alternative =>
    ascriptions condition ++ (ascriptions consequent ++ ascriptions alternative)
  | .loop _ condition body => ascriptions condition ++ ascriptions body
  | .block _ statements result => ascriptionsAll statements ++ ascriptions result
  | .declaration _ _ ascription value => ascription.toList ++ ascriptions value
  | .assignment _ target value => ascriptions target ++ ascriptions value
  | .call _ _ arguments => ascriptionsAll arguments

def ascriptionsAll : List Expr → List Ascription
  | [] => []
  | e :: es => ascriptions e ++ ascriptionsAll es

end

end Expr

namespace Checker

variable {α β : Type} {ps : List Position} {as : List Ascription} {Q : α → Prop} {R : β → Prop}

/-- The checker fails at one of these positions only, and what it answers is as `Q` says. -/
def Points (ps : List Position) (Q : α → Prop) (c : Checker α) : Prop :=
  ∀ s, match c s with
    | .ok a _ => Q a
    | .error e _ => e.position ∈ ps

/-- The checker fails at one of these positions only, by the rules of types and names unless one of
these ascriptions stands for no type. What it answers is as `Q` says. -/
def Refuses (ps : List Position) (as : List Ascription) (Q : α → Prop) (c : Checker α) : Prop :=
  ∀ s, match c s with
    | .ok a _ => Q a
    | .error e _ =>
      e.position ∈ ps ∧ (e.cause.kind = .semantic ∨ ∃ a ∈ as, a.type = .error e)

theorem Refuses.bind {c : Checker α} {f : α → Checker β} (hc : Refuses ps as Q c)
    (hf : ∀ a, Q a → Refuses ps as R (f a)) : Refuses ps as R (c >>= f) := by
  intro s
  have hs := hc s
  cases h : c s with
  | ok a t =>
    rw [h] at hs
    rw [Sequence.bind_of_ok h]
    exact hf a hs t
  | error e t =>
    rw [h] at hs
    rw [Sequence.bind_of_error h]
    exact hs

theorem refuses_pure {a : α} (h : Q a) : Refuses ps as Q (pure a) := fun _ => h

theorem refuses_throw {cause : Cause} {place : Position} (hplace : place ∈ ps)
    (hcause : cause.kind = .semantic) : Refuses ps as Q (throw ⟨cause, place⟩) :=
  fun _ => ⟨hplace, .inl hcause⟩

theorem refuses_lookup (name : String) : Refuses ps as (fun _ => True) (lookup name) :=
  fun _ => trivial

theorem refuses_modify (f : Scope → Scope) :
    Refuses ps as (fun _ => True) (modify f : Checker Unit) := fun _ => trivial

/-- Rules either let a check go on or refuse it. -/
theorem refuses_guard (c : Prop) [Decidable c] {a : α} {cause : Cause} {place : Position}
    (ha : Q a) (hplace : place ∈ ps) (hcause : cause.kind = .semantic) :
    Refuses ps as Q (if c then pure a else throw ⟨cause, place⟩) := by
  split
  · exact refuses_pure ha
  · exact refuses_throw hplace hcause

theorem refuses_signature (name : String) {place : Position} (h : place ∈ ps) :
    Refuses ps as (fun _ => True) (signature name place) := by
  refine (refuses_lookup name).bind fun found _ => ?_
  split
  · exact refuses_throw h rfl
  · exact refuses_pure trivial
  · exact refuses_throw h rfl

theorem refuses_binaryType (op : BinaryOp) {span : Span} {left right : TypedExpr}
    (hspan : span.start ∈ ps) (hright : right.start ∈ ps) :
    Refuses ps as (fun _ => True) (binaryType span op left right) := by
  unfold binaryType
  split
  · exact refuses_guard _ trivial hright rfl
  · exact (refuses_signature op.text hspan).bind fun _ _ => refuses_guard _ trivial hspan rfl

theorem refuses_unaryType (op : UnaryOp) {span : Span} {operand : TypedExpr}
    (h : span.start ∈ ps) : Refuses ps as (fun _ => True) (unaryType span op operand) :=
  refuses_guard _ trivial h rfl

theorem refuses_requireBool (construct : String) {condition : TypedExpr}
    (h : condition.start ∈ ps) : Refuses ps as (fun _ => True) (requireBool construct condition) :=
  refuses_guard _ trivial h rfl

theorem refuses_requireType (expected : Ty) {value : TypedExpr} (h : value.start ∈ ps) :
    Refuses ps as (fun _ => True) (requireType expected value) := refuses_guard _ trivial h rfl

/-- The one rule that can refuse a tree for what stands for no type. -/
theorem refuses_statedType {ascription : Option Ascription} {value : TypedExpr}
    (h : value.start ∈ ps) (hp : (ascription.map Ascription.positions).getD [] ⊆ ps)
    (ha : ascription.toList ⊆ as) :
    Refuses ps as (fun _ => True) (statedType ascription value) := by
  unfold statedType
  split
  · exact refuses_pure trivial
  next ascription =>
    split
    next e he =>
      intro s
      exact ⟨hp (Ascription.error_of_type he).1, .inr ⟨ascription, ha List.mem_cons_self, he⟩⟩
    next => exact (refuses_requireType _ h).bind fun _ _ => refuses_pure trivial

theorem refuses_recordAssignment (type : Ty) (target : TypedExpr) :
    Refuses ps as (fun _ => True) (recordAssignment type target) := by
  unfold recordAssignment
  split
  · exact refuses_modify _
  · exact refuses_pure trivial

theorem refuses_requireFirst (params : List Ty) {arguments : List TypedExpr}
    (h : ∀ argument ∈ arguments, argument.start ∈ ps) :
    Refuses ps as (fun _ => True) (requireFirst params arguments) := by
  unfold requireFirst
  split
  next argument rest => exact refuses_requireType _ (h argument List.mem_cons_self)
  next => exact refuses_pure trivial

theorem refuses_inFrame {inner : Checker α} (h : Refuses ps as Q inner) :
    Refuses ps as Q (inFrame inner) := by
  intro s
  have hs := h s.push
  unfold inFrame
  cases hc : inner s.push with
  | ok a t => rwa [hc] at hs
  | error e t => rwa [hc] at hs

theorem refuses_target {left : Expr} {checked : Checker TypedExpr} (h : left.positions ⊆ ps)
    (hchecked : Refuses ps as (fun typed => typed.start ∈ ps) checked) :
    Refuses ps as (fun typed => typed.start ∈ ps) (target left checked) := by
  unfold target
  split
  · have hspan := h List.mem_cons_self
    refine (refuses_lookup _).bind fun found _ => ?_
    split
    · exact refuses_throw hspan rfl
    · exact refuses_pure hspan
  · exact hchecked

mutual

/-- An error points at a part of the tree that is checked, and so does the typed tree. -/
theorem refuses_check : ∀ e : Expr, e.positions ⊆ ps → e.ascriptions ⊆ as →
    Refuses ps as (fun typed => typed.start ∈ ps) (check e)
  | .literal span value, h, _ => by
    rw [check]
    exact refuses_pure (h List.mem_cons_self)
  | .identifier span name, h, _ => by
    have hspan := h List.mem_cons_self
    rw [check]
    refine (refuses_lookup name).bind fun found _ => ?_
    split
    · exact refuses_throw hspan rfl
    · exact refuses_pure hspan
  | .binary span op left right, h, ha => by
    simp only [Expr.positions, List.cons_subset, List.append_subset] at h
    simp only [Expr.ascriptions, List.append_subset] at ha
    rw [check]
    exact (refuses_check left h.2.1 ha.1).bind fun _ _ =>
      (refuses_check right h.2.2 ha.2).bind fun _ hr =>
      (refuses_binaryType op h.1 hr).bind fun _ _ => refuses_pure h.1
  | .unary span op operand, h, ha => by
    simp only [Expr.positions, List.cons_subset] at h
    rw [check]
    exact (refuses_check operand h.2 ha).bind fun _ _ =>
      (refuses_unaryType op h.1).bind fun _ _ => refuses_pure h.1
  | .ifThen span condition consequent, h, ha => by
    simp only [Expr.positions, List.cons_subset, List.append_subset] at h
    simp only [Expr.ascriptions, List.append_subset] at ha
    rw [check]
    exact (refuses_check condition h.2.1 ha.1).bind fun _ hc =>
      (refuses_requireBool "if" hc).bind fun _ _ =>
      (refuses_check consequent h.2.2 ha.2).bind fun _ _ => refuses_pure h.1
  | .ifThenElse span condition consequent alternative, h, ha => by
    simp only [Expr.positions, List.cons_subset, List.append_subset] at h
    simp only [Expr.ascriptions, List.append_subset] at ha
    rw [check]
    exact (refuses_check condition h.2.1 ha.1).bind fun _ hc =>
      (refuses_requireBool "if" hc).bind fun _ _ =>
      (refuses_check consequent h.2.2.1 ha.2.1).bind fun _ _ =>
      (refuses_check alternative h.2.2.2 ha.2.2).bind fun _ hl => refuses_guard _ h.1 hl rfl
  | .loop span condition body, h, ha => by
    simp only [Expr.positions, List.cons_subset, List.append_subset] at h
    simp only [Expr.ascriptions, List.append_subset] at ha
    rw [check]
    exact (refuses_check condition h.2.1 ha.1).bind fun _ hc =>
      (refuses_requireBool "while" hc).bind fun _ _ =>
      (refuses_check body h.2.2 ha.2).bind fun _ _ => refuses_pure h.1
  | .block span statements result, h, ha => by
    simp only [Expr.positions, List.cons_subset, List.append_subset] at h
    simp only [Expr.ascriptions, List.append_subset] at ha
    rw [check]
    exact refuses_inFrame ((refuses_checkAll statements h.2.1 ha.1).bind fun _ _ =>
      (refuses_check result h.2.2 ha.2).bind fun _ _ => refuses_pure h.1)
  | .declaration span name ascription value, h, ha => by
    simp only [Expr.positions, List.cons_subset, List.append_subset] at h
    simp only [Expr.ascriptions, List.append_subset] at ha
    rw [check]
    exact (refuses_check value h.2.2.2 ha.2).bind fun _ hv =>
      (refuses_statedType hv h.2.2.1 ha.1).bind fun _ _ => (refuses_modify _).bind fun _ _ =>
      refuses_pure h.1
  | .assignment span left right, h, ha => by
    simp only [Expr.positions, List.cons_subset, List.append_subset] at h
    simp only [Expr.ascriptions, List.append_subset] at ha
    rw [check]
    exact (refuses_target h.2.1 (refuses_check left h.2.1 ha.1)).bind fun l _ =>
      (refuses_check right h.2.2 ha.2).bind fun r hr => (refuses_requireType _ hr).bind fun _ _ =>
      (refuses_recordAssignment _ l).bind fun _ _ => refuses_pure h.1
  | .call span callee arguments, h, ha => by
    simp only [Expr.positions, List.cons_subset] at h
    rw [check]
    exact (refuses_signature callee.name h.2.1).bind fun found _ =>
      (refuses_checkAll arguments h.2.2 ha).bind fun _ hargs =>
      (refuses_requireFirst _ hargs).bind fun _ _ => refuses_pure h.1

theorem refuses_checkAll : ∀ es : List Expr, Expr.positionsAll es ⊆ ps →
    Expr.ascriptionsAll es ⊆ as →
      Refuses ps as (fun typed => ∀ e ∈ typed, e.start ∈ ps) (checkAll es)
  | [], _, _ => by
    rw [checkAll]
    exact refuses_pure (by simp)
  | e :: es, h, ha => by
    simp only [Expr.positionsAll, List.append_subset] at h
    simp only [Expr.ascriptionsAll, List.append_subset] at ha
    rw [checkAll]
    exact (refuses_check e h.1 ha.1).bind fun _ hfirst =>
      (refuses_checkAll es h.2 ha.2).bind fun _ hrest =>
      refuses_pure (List.forall_mem_cons.2 ⟨hfirst, hrest⟩)

end

theorem points_check (e : Expr) (h : e.positions ⊆ ps) :
    Points ps (fun typed => typed.start ∈ ps) (check e) := by
  intro s
  have hs := refuses_check e h (List.Subset.refl e.ascriptions) s
  cases hc : check e s with
  | ok typed t => rwa [hc] at hs
  | error error t =>
    rw [hc] at hs
    exact hs.1

end Checker

/-- In whatever scope a tree is checked, an error of it stands at the start of one of its parts. -/
theorem position_of_check_error {e : Expr} {error : Error} {s t : Scope}
    (h : check e s = .error error t) : error.position ∈ e.positions := by
  have hpoints := Checker.points_check e (List.Subset.refl e.positions) s
  rwa [h] at hpoints

end ExprLang
