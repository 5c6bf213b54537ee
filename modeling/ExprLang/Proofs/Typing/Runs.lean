import Mathlib.Logic.Relation
import ExprLang.Proofs.Typing.Outcomes

/-!
The scopes that a check passes through. Main statement: what opening a frame, declaring and
assigning keep holds at every moment of a check.
-/

namespace ExprLang

open ExprLang.Sequence

namespace Checker

/-- The part is checked and turns out to be a truth value. -/
def Holds (condition : Expr) (s t : Scope) : Prop :=
  ∃ typed, check condition s = .ok typed t ∧ typed.type = .bool

/-- `Calls (e, s) (d, t)`: the check of `e` in the scope `s` comes to check its part `d`, and the
scope is `t` then. A bare name that is assigned to is not checked. -/
inductive Calls : Expr × Scope → Expr × Scope → Prop where
  | left {span op a b s} : Calls (.binary span op a b, s) (a, s)
  | right {span op a b s x t} : check a s = .ok x t → Calls (.binary span op a b, s) (b, t)
  | operand {span op a s} : Calls (.unary span op a, s) (a, s)
  | ifThenCondition {span c a s} : Calls (.ifThen span c a, s) (c, s)
  | ifThenConsequent {span c a s t} : Holds c s t → Calls (.ifThen span c a, s) (a, t)
  | condition {span c a b s} : Calls (.ifThenElse span c a b, s) (c, s)
  | consequent {span c a b s t} : Holds c s t → Calls (.ifThenElse span c a b, s) (a, t)
  | alternative {span c a b s t x u} : Holds c s t → check a t = .ok x u →
      Calls (.ifThenElse span c a b, s) (b, u)
  | loopCondition {span c a s} : Calls (.loop span c a, s) (c, s)
  | loopBody {span c a s t} : Holds c s t → Calls (.loop span c a, s) (a, t)
  | statement {span before d behind r s x t} : checkAll before s.push = .ok x t →
      Calls (.block span (before ++ d :: behind) r, s) (d, t)
  | result {span ss r s x t} : checkAll ss s.push = .ok x t → Calls (.block span ss r, s) (r, t)
  | value {span x ascription v s} : Calls (.declaration span x ascription v, s) (v, s)
  | target {span a b s} : (∀ place name, a ≠ .identifier place name) →
      Calls (.assignment span a b, s) (a, s)
  | assigned {span a b s x t} : target a (check a) s = .ok x t →
      Calls (.assignment span a b, s) (b, t)
  | argument {span f before d behind s x y t} : signature f.name f.span.start s = .ok x s →
      checkAll before s = .ok y t → Calls (.call span f (before ++ d :: behind), s) (d, t)

/-- The scopes that the check of `e` in `s` passes through: those in which a part is checked, at
whatever depth, and those that checking it ends in. In between a scope does not change: a frame is
opened just before the first part of a block is checked, and a frame is closed, a name declared or
assigned to as the last thing that a check does. -/
def Passes (e : Expr) (s t : Scope) : Prop :=
  ∃ d u, Relation.ReflTransGen Calls (e, s) (d, u) ∧ (t = u ∨ t = endState (check d u))

variable {α : Type} {I : Scope → Prop} {B : String → Prop} {Q : α → Prop} {s t : Scope}

theorem Ensures.scope_endState {c : Checker α} (h : Ensures I B Q c) (hs : I s) :
    I (endState (c s)) := by
  have hcs := h s hs
  cases hc : c s with
  | ok a t =>
    rw [hc] at hcs
    exact hcs.2
  | error e t =>
    rw [hc] at hcs
    exact hcs.2

theorem Ensures.scope_of_ok {c : Checker α} (h : Ensures I B Q c) (hs : I s) {a : α}
    (hc : c s = .ok a t) : I t := by
  have hend := h.scope_endState hs
  rw [hc] at hend
  exact hend

/-- An expression whose check keeps `I`, in a scope with `I`. -/
def Keeping (I : Scope → Prop) (B : String → Prop) (x : Expr × Scope) : Prop :=
  (∀ n ∈ x.1.nodes, Grants I B n) ∧ I x.2

theorem Holds.scope (hI : Stable I) {c : Expr} (h : Holds c s t)
    (hc : ∀ n ∈ c.nodes, Grants I B n) (hs : I s) : I t := by
  obtain ⟨typed, hcheck, -⟩ := h
  exact (ensures_check hI c hc).scope_of_ok hs hcheck

/-- What holds where a check starts holds where it starts the check of a part. -/
theorem Calls.keeping (hI : Stable I) {x y : Expr × Scope} (h : Calls x y)
    (hx : Keeping I B x) : Keeping I B y := by
  obtain ⟨hnodes, hs⟩ := hx
  cases h with
  | left | ifThenCondition | condition | loopCondition | target =>
    simp only [Tree.nodes, List.forall_mem_cons, List.forall_mem_append] at hnodes
    exact ⟨hnodes.2.1, hs⟩
  | operand | value =>
    simp only [Tree.nodes, List.forall_mem_cons] at hnodes
    exact ⟨hnodes.2, hs⟩
  | right ha =>
    simp only [Tree.nodes, List.forall_mem_cons, List.forall_mem_append] at hnodes
    exact ⟨hnodes.2.2, (ensures_check hI _ hnodes.2.1).scope_of_ok hs ha⟩
  | ifThenConsequent hc | loopBody hc =>
    simp only [Tree.nodes, List.forall_mem_cons, List.forall_mem_append] at hnodes
    exact ⟨hnodes.2.2, hc.scope hI hnodes.2.1 hs⟩
  | consequent hc =>
    simp only [Tree.nodes, List.forall_mem_cons, List.forall_mem_append] at hnodes
    exact ⟨hnodes.2.2.1, hc.scope hI hnodes.2.1 hs⟩
  | alternative hc ha =>
    simp only [Tree.nodes, List.forall_mem_cons, List.forall_mem_append] at hnodes
    have ht := hc.scope hI hnodes.2.1 hs
    exact ⟨hnodes.2.2.2, (ensures_check hI _ hnodes.2.2.1).scope_of_ok ht ha⟩
  | statement hbefore =>
    simp only [Tree.nodes, Tree.nodesAll_append, Tree.nodesAll, List.forall_mem_cons,
      List.forall_mem_append] at hnodes
    obtain ⟨-, ⟨hfirst, hd, -⟩, -⟩ := hnodes
    exact ⟨hd, (ensures_checkAll hI _ hfirst).scope_of_ok (hI.push _ hs) hbefore⟩
  | result hss =>
    simp only [Tree.nodes, List.forall_mem_cons, List.forall_mem_append] at hnodes
    exact ⟨hnodes.2.2, (ensures_checkAll hI _ hnodes.2.1).scope_of_ok (hI.push _ hs) hss⟩
  | assigned ha =>
    simp only [Tree.nodes, List.forall_mem_cons, List.forall_mem_append] at hnodes
    have htarget := ensures_target hnodes.2.1 (ensures_check hI _ hnodes.2.1)
    exact ⟨hnodes.2.2, htarget.scope_of_ok hs ha⟩
  | argument _ hbefore =>
    simp only [Tree.nodes, Tree.nodesAll_append, Tree.nodesAll, List.forall_mem_cons,
      List.forall_mem_append] at hnodes
    obtain ⟨-, hfirst, hd, -⟩ := hnodes
    exact ⟨hd, (ensures_checkAll hI _ hfirst).scope_of_ok hs hbefore⟩

theorem Keeping.calls (hI : Stable I) {x y : Expr × Scope} (h : Relation.ReflTransGen Calls x y)
    (hx : Keeping I B x) : Keeping I B y := by
  induction h with
  | refl => exact hx
  | tail _ hstep ih => exact hstep.keeping hI ih

/-- What every step keeps holds at every moment. -/
theorem Passes.keeps (hI : Stable I) {e : Expr} (h : Passes e s t)
    (he : ∀ n ∈ e.nodes, Grants I B n) (hs : I s) : I t := by
  obtain ⟨d, u, hcalls, ht⟩ := h
  have hkeeping : Keeping I B (d, u) := Keeping.calls hI hcalls ⟨he, hs⟩
  rcases ht with rfl | rfl
  · exact hkeeping.2
  · exact (ensures_check hI d hkeeping.1).scope_endState hkeeping.2

end Checker

end ExprLang
