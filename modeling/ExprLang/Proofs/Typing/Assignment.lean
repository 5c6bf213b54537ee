import ExprLang.Proofs.Scope.Refinement
import ExprLang.Proofs.Typing.Agreement
import ExprLang.Proofs.Typing.Runs

/-!
Recording what is assigned to a name. The name is looked up first, then the value is checked, which
may open frames and declare names. Main statement: after that the name is still known, so that it
can be assigned to, and then it has the type of the assignment.
-/

namespace ExprLang

namespace Scope

variable {s t : Scope} {name : String} {type : Ty}

theorem base_declare (s : Scope) (name : String) (type : Ty) :
    (s.declare name type).base = s.base := by
  unfold declare
  split <;> rfl

/-- What could be seen can be seen. -/
theorem Retains.isSome_lookup (h : Retains s t) (hname : (s.lookup name).isSome = true) :
    (t.lookup name).isSome = true := by
  rw [Scope.isSome_lookup, Bool.or_eq_true] at hname ⊢
  simp only [maps, List.any_map] at hname ⊢
  rw [h.base]
  exact hname.imp_left (h.frames name)

end Scope

open ExprLang.Sequence

namespace Checker

variable {left right : Expr} {s t u : Scope} {name : String} {type : Ty}

theorem stable_base (base : Bindings) : Stable (·.base = base) where
  push _ h := h
  assign _ _ _ _ _ h _ := h

/-- No check removes a binding that could be seen before, however deep the scope is. -/
theorem check_retains (e : Expr) : Moves Scope.Retains (check e) := by
  intro s
  have hdeclare (t : Scope) (name : String) (type : Ty) (ht : t.base = s.base) :
      (t.declare name type).base = s.base := (t.base_declare name type).trans ht
  have hbase := ensures_check (stable_base s.base) e fun n _ => grants_of_declare hdeclare n
  exact (check_extends e s).retains (hbase.scope_endState rfl)

/-- Checking the assignment of `right` to `left` comes to the point at which `name` gets the type
`type` in the scope `t`: what is assigned to is that name, the value is checked, and it has the type
that is required. -/
def Records (left right : Expr) (s : Scope) (name : String) (type : Ty) (t : Scope) : Prop :=
  ∃ label u value, target left (check left) s = .ok (.identifier label name) u ∧
    check right u = .ok value t ∧ requireType label.type value t = .ok () t ∧ value.type = type

/-- What is assigned to is a bare name, which had that type before the value was checked. -/
theorem records_iff : Records left right s name type t ↔
    ∃ place value, left = .identifier place name ∧ s.lookup name = some type ∧
      check right s = .ok value t ∧ value.type = type := by
  constructor
  · rintro ⟨label, u, value, htarget, hright, hrequire, htype⟩
    obtain ⟨place, rfl⟩ := check_eq_identifier (target_eq_ok.1 htarget)
    cases hfound : s.lookup name with
    | none =>
      rw [target_of_lookup_none hfound] at htarget
      cases htarget
    | some found =>
      rw [target_of_lookup hfound] at htarget
      cases htarget
      have hsame : found = type := (requireType_eq_ok.1 hrequire).symm.trans htype
      exact ⟨place, value, rfl, congrArg some hsame, hright, htype⟩
  · rintro ⟨place, value, rfl, hfound, hright, htype⟩
    exact ⟨⟨place, type⟩, s, value, target_of_lookup hfound, hright, requireType_of_eq htype, htype⟩

/-- The assignment ends there, with the name recorded. -/
theorem Records.check_assignment (h : Records left right s name type t) (span : Span) :
    ∃ typed, check (.assignment span left right) s = .ok typed (t.assign name type).2 ∧
      typed.type = type := by
  obtain ⟨place, value, rfl, hfound, hright, rfl⟩ := records_iff.1 h
  refine ⟨.assignment ⟨span, value.type⟩ (.identifier ⟨place, value.type⟩ name) value, ?_, rfl⟩
  rw [ExprLang.check_assignment, bind_of_ok (target_of_lookup hfound), assignTo, bind_of_ok hright,
    type_identifier, bind_of_ok (requireType_of_eq rfl)]
  rfl

/-- An assignment to a bare name succeeds only through that point. -/
theorem records_of_check {span place : Span} {typed : TypedExpr}
    (h : check (.assignment span (.identifier place name) right) s = .ok typed u) :
    ∃ t, Records (.identifier place name) right s name typed.type t ∧
      u = (t.assign name typed.type).2 := by
  rw [ExprLang.check_assignment, bind_eq_ok] at h
  obtain ⟨left', s', htarget, h⟩ := h
  cases hfound : s.lookup name with
  | none =>
    rw [target_of_lookup_none hfound] at htarget
    cases htarget
  | some type =>
    rw [target_of_lookup hfound] at htarget
    cases htarget
    rw [assignTo, bind_eq_ok] at h
    obtain ⟨value, t, hright, h⟩ := h
    rw [(moves_requireType steady_same _ value).bind_eq_ok] at h
    obtain ⟨_, hrequire, h⟩ := h
    cases h
    have hsame : type = value.type := (requireType_eq_ok.1 hrequire).symm
    have hknown := hfound.trans (congrArg some hsame)
    exact ⟨t, records_iff.2 ⟨place, value, rfl, hknown, hright, rfl⟩, rfl⟩

end Checker

open Checker

/-- Whatever the value opens, closes and declares, a name that is known before it is known behind
it, so that assigning to it succeeds. Then the name has the type of the assignment, every other name
has the type that it had, and the assignment is done. There is no other way for an assignment to a
bare name to succeed. -/
theorem assignment_finds_name (left right : Expr) (s : Scope) :
    (∀ name type t, Records left right s name type t →
      (t.assign name type).1 = true ∧
        (Arena.ofScope t).assign name type = some (true, .ofScope (t.assign name type).2) ∧
        (t.assign name type).2.lookup name = some type ∧
        (∀ x, x ≠ name → (t.assign name type).2.lookup x = t.lookup x) ∧
        ∀ span, ∃ typed, typed.type = type ∧
          check (.assignment span left right) s = .ok typed (t.assign name type).2) ∧
      ∀ span place name typed u, left = .identifier place name →
        check (.assignment span left right) s = .ok typed u →
          ∃ t, Records left right s name typed.type t ∧ u = (t.assign name typed.type).2 := by
  refine ⟨fun name type t h => ?_, ?_⟩
  · obtain ⟨place, value, -, hfound, hright, -⟩ := records_iff.1 h
    have hretains : Scope.Retains s t := by
      have hmoves := check_retains right s
      rwa [hright] at hmoves
    have hknown : (t.assign name type).1 = true := hretains.isSome_lookup (by rw [hfound]; rfl)
    refine ⟨hknown, by rw [Arena.assign_ofScope, hknown], ?_, fun x hx => ?_, fun span => ?_⟩
    · rw [hretains.lookup_assign hfound, if_pos rfl]
    · rw [hretains.lookup_assign hfound, if_neg hx]
    · obtain ⟨typed, hcheck, htype⟩ := h.check_assignment span
      exact ⟨typed, htype, hcheck⟩
  · rintro span place name typed u rfl h
    exact records_of_check h

/-- The value declares the very name that it is assigned to, in a block and in a scope without
frames. -/
theorem assignment_finds_name_declared :
    let left : Expr := .identifier .null "x"
    let right : Expr := .declaration .null ⟨"x", .null⟩ none
      (.block .null [.declaration .null ⟨"x", .null⟩ none (.literal .null (.bool true))]
        (.literal .null (.int 1)))
    let s : Scope := ⟨Bindings.empty.insert "x" .int, []⟩
    let t : Scope := ⟨Bindings.empty.insert "x" .int, [Bindings.empty.insert "x" .int]⟩
    s.depth = 0 ∧ Records left right s "x" .int t ∧ (t.assign "x" .int).1 = true ∧
      (t.assign "x" .int).2.lookup "x" = some .int := by
  intro left right s t
  have hrecords : Records left right s "x" .int t :=
    records_iff.2 ⟨.null, _, rfl, rfl, rfl, rfl⟩
  have h := (assignment_finds_name left right s).1 "x" .int t hrecords
  exact ⟨rfl, hrecords, h.1, h.2.2.1⟩

end ExprLang
