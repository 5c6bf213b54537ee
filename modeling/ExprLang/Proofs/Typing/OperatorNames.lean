import ExprLang.Proofs.Grammar.Contract
import ExprLang.Proofs.Typing.Runs

/-!
Operators are looked up like names, but no program has a name for them. Main statement: at every
moment of a check they have the signatures that they had before it.
-/

namespace ExprLang

open ExprLang.Checker

namespace BinaryOp

/-- No name is the text of an operator. -/
theorem text_ne_of_isName {x : String} (h : isName x = true) (op : BinaryOp) : x ≠ op.text := by
  rintro rfl
  revert h
  cases op <;> decide +kernel

end BinaryOp

/-- Over the built-in names an operator has the signature of its level. -/
theorem lookup_builtins (op : BinaryOp) :
    (Scope.ofBase builtins).lookup op.text = op.signature? := by
  cases op <;> decide +kernel

namespace Expr

/-- Is the name of a node, if it has one, such as programs have? -/
def Named : Expr → Prop
  | .identifier _ name => isName name = true
  | .declaration _ name _ _ => isName name.name = true
  | .call _ callee _ => isName callee.name = true
  | _ => True

mutual

theorem named_of_wellNamed : ∀ e : Expr, e.wellNamed = true → ∀ n ∈ e.nodes, Named n
  | .literal .., _ => by simp [Tree.nodes, Named]
  | .identifier .., h => by simpa [Tree.nodes, Named, wellNamed] using h
  | .binary _ _ left right, h | .assignment _ left right, h => by
    simp only [wellNamed, Bool.and_eq_true] at h
    simp only [Tree.nodes, List.forall_mem_cons, List.forall_mem_append]
    exact ⟨trivial, named_of_wellNamed left h.1, named_of_wellNamed right h.2⟩
  | .unary _ _ operand, h => by
    simp only [Tree.nodes, List.forall_mem_cons]
    exact ⟨trivial, named_of_wellNamed operand h⟩
  | .ifThen _ condition part, h | .loop _ condition part, h => by
    simp only [wellNamed, Bool.and_eq_true] at h
    simp only [Tree.nodes, List.forall_mem_cons, List.forall_mem_append]
    exact ⟨trivial, named_of_wellNamed condition h.1, named_of_wellNamed part h.2⟩
  | .ifThenElse _ condition consequent alternative, h => by
    simp only [wellNamed, Bool.and_eq_true] at h
    simp only [Tree.nodes, List.forall_mem_cons, List.forall_mem_append]
    exact ⟨trivial, named_of_wellNamed condition h.1.1, named_of_wellNamed consequent h.1.2,
      named_of_wellNamed alternative h.2⟩
  | .block _ statements result, h => by
    simp only [wellNamed, Bool.and_eq_true, Bool.or_eq_true] at h
    simp only [Tree.nodes, List.forall_mem_cons, List.forall_mem_append]
    refine ⟨trivial, named_of_wellNamedAll statements h.1, ?_⟩
    rcases h.2 with hunit | hresult
    · -- A result that is left out has no name in it.
      unfold isUnit at hunit
      split at hunit
      · simp [Tree.nodes, Named]
      · cases hunit
    · exact named_of_wellNamed result hresult
  | .declaration _ name _ value, h => by
    simp only [wellNamed, Bool.and_eq_true] at h
    simp only [Tree.nodes, List.forall_mem_cons]
    exact ⟨h.1.1, named_of_wellNamed value h.2⟩
  | .call _ callee arguments, h => by
    simp only [wellNamed, Bool.and_eq_true] at h
    simp only [Tree.nodes, List.forall_mem_cons]
    exact ⟨h.1, named_of_wellNamedAll arguments h.2⟩

theorem named_of_wellNamedAll : ∀ es : List Expr, wellNamedAll es = true →
    ∀ n ∈ Tree.nodesAll es, Named n
  | [], _ => by simp [Tree.nodesAll]
  | e :: es, h => by
    simp only [wellNamedAll, Bool.and_eq_true] at h
    simp only [Tree.nodesAll, List.forall_mem_append]
    exact ⟨named_of_wellNamed e h.1, named_of_wellNamedAll es h.2⟩

end

end Expr

/-- Scopes that resolve the operators as `s` does. -/
def SameOperators (s t : Scope) : Prop := ∀ op : BinaryOp, t.lookup op.text = s.lookup op.text

theorem stable_sameOperators (s : Scope) : Stable (SameOperators s) where
  push t h op := by
    rw [Scope.lookup_push]
    exact h op
  assign t u name type ht hu hname op := by
    show Scope.lookup ⟨u.base, Scope.rebind name type u.frames⟩ op.text = _
    rw [Scope.lookup_rebind]
    split
    next h =>
      -- An operator that is a name of its own accord has this type already.
      rw [← ht op, h.1, hname]
    next => exact hu op

/-- A program grants that operators keep their signatures, and that they are not blamed where they
have one. -/
theorem grants_sameOperators {s : Scope} {B : String → Prop} {n : Expr} (h : n.Named)
    (hnames : ∀ x, isName x = true → B x)
    (hoperators : ∀ op : BinaryOp, op.isEquality = false →
      (∃ params result, s.lookup op.text = some (.function params result)) ∨ B op.text) :
    Grants (SameOperators s) B n := by
  cases n with
  | identifier _ name => exact hnames name h
  | call _ callee _ => exact hnames callee.name h
  | binary _ op _ _ =>
    intro hop t ht
    rw [ht op]
    exact hoperators op hop
  | declaration _ name _ _ =>
    intro t type ht op
    rw [Scope.lookup_declare, if_neg (BinaryOp.text_ne_of_isName h op).symm]
    exact ht op
  | _ => trivial

namespace TypedExpr

/-- Is an operator applied to operands of its types, with the type of its result? -/
def OperatorFits : TypedExpr → Prop
  | .binary label op left right =>
    match op with
    | .plus | .minus | .multiply | .divide | .modulo =>
      type left = .int ∧ type right = .int ∧ label.type = .int
    | .less | .lessEquals | .greater | .greaterEquals =>
      type left = .int ∧ type right = .int ∧ label.type = .bool
    | .and | .or => type left = .bool ∧ type right = .bool ∧ label.type = .bool
    | .equals | .notEquals => type left = type right ∧ label.type = .bool
  | _ => True

/-- Where operators are resolved as built in, each is applied as its signature says. -/
theorem operatorFits_of_resolved {n : TypedExpr} (hconsistent : Consistent n)
    (hresolved : Resolved (SameOperators (.ofBase builtins)) n) : OperatorFits n := by
  cases n with
  | binary label op left right =>
    cases op with
    | equals => exact (hconsistent (.inl rfl)).symm
    | notEquals => exact (hconsistent (.inr rfl)).symm
    | _ =>
      obtain ⟨s, hs, hname⟩ := hresolved rfl
      rw [hs, lookup_builtins] at hname
      simp only [BinaryOp.signature?, BinaryOp.level, Option.some.injEq, Ty.function.injEq,
        List.cons.injEq, and_true] at hname
      obtain ⟨⟨hleft, hright⟩, hresult⟩ := hname
      exact ⟨hleft.symm, hright.symm, hresult.symm⟩
  | _ => trivial

end TypedExpr

/-- Over the built-in names every operator but the equalities is a function. -/
theorem exists_signature {op : BinaryOp} (h : op.isEquality = false) :
    ∃ params result, (Scope.ofBase builtins).lookup op.text = some (.function params result) := by
  rw [lookup_builtins]
  cases op with
  | equals | notEquals => cases h
  | _ => exact ⟨_, _, rfl⟩

/-- Checking a program over the built-in names: operators are applied as their signatures say, and
are never blamed for being unknown or for being no functions. -/
theorem ensures_operators {e : Expr} (he : e.wellNamed = true) :
    Ensures (SameOperators (.ofBase builtins)) (fun x => ∀ op : BinaryOp, x ≠ op.text)
      (fun typed => ∀ n ∈ typed.nodes, TypedExpr.OperatorFits n) (check e) := by
  have hensures := ensures_check (B := fun x => ∀ op : BinaryOp, x ≠ op.text)
    (stable_sameOperators (.ofBase builtins)) e fun n hn =>
      grants_sameOperators (Expr.named_of_wellNamed e he n hn)
        (fun x hx => BinaryOp.text_ne_of_isName hx) fun op hop => .inl (exists_signature hop)
  intro s hs
  have hcs := hensures s hs
  cases hc : check e s with
  | ok typed t =>
    rw [hc] at hcs
    refine ⟨fun n hn => ?_, hcs.2⟩
    obtain ⟨hconsistent, hresolved⟩ := hcs.1.fits n hn
    exact TypedExpr.operatorFits_of_resolved hconsistent hresolved
  | error error t =>
    rw [hc] at hcs
    exact hcs

/-- No program gives an operator another meaning. While its tree is checked, in whatever scope,
every operator is resolved as it was before. So over the built-in names every operator is applied to
operands of its own types and gives its own type, the equalities to two operands of one type, and no
error takes an operator for a name that is not defined or is no function. -/
theorem operators_keep_meaning {text file : String} {e : Expr} (h : Expr.read text file = .ok e) :
    (∀ s t, Passes e s t → ∀ op : BinaryOp, t.lookup op.text = s.lookup op.text) ∧
    (∀ typed, e.typed builtins = .ok typed → ∀ n ∈ typed.nodes, TypedExpr.OperatorFits n) ∧
    ∀ error, e.typed builtins = .error error → ∀ op : BinaryOp,
      error.cause ≠ .notDefined op.text ∧ ∀ found, error.cause ≠ .notFunction op.text found := by
  have he := (Expr.wellFormed_of_read h).wellNamed
  have hensures := ensures_operators he (.ofBase builtins) fun _ => rfl
  refine ⟨fun s t hpasses => ?_, fun typed htyped => ?_, fun error herror op => ?_⟩
  · -- In an arbitrary scope an operator may have no signature, so any name may be to blame.
    refine hpasses.keeps (B := fun _ => True) (stable_sameOperators s) (fun n hn => ?_) fun _ => rfl
    exact grants_sameOperators (Expr.named_of_wellNamed e he n hn) (fun _ _ => trivial)
      fun _ _ => .inr trivial
  · obtain ⟨t, ht⟩ := Expr.typed_eq_ok.1 htyped
    rw [ht] at hensures
    exact hensures.1
  · obtain ⟨t, ht⟩ := Expr.typed_eq_error.1 herror
    rw [ht] at hensures
    have hblamed (x : String) (hx : error.cause.blamed = some x) : x ≠ op.text := by
      exact hensures.1 x hx op
    refine ⟨fun hcause => hblamed op.text ?_ rfl, fun found hcause => hblamed op.text ?_ rfl⟩
    · rw [hcause, Cause.blamed]
    · rw [hcause, Cause.blamed]

/-- A name is declared over another one and assigned to, while operators are applied. The moment is
that between the two in the inner block. -/
theorem operators_keep_meaning_shadowed :
    ∃ e typed t, Expr.read "{ var x = 1; { var x = x < 2; x = x and x } }" "" = .ok e ∧
      e.typed builtins = .ok typed ∧ Passes e (.ofBase builtins) t ∧ t.lookup "x" = some .bool ∧
      (∀ op : BinaryOp, t.lookup op.text = (Scope.ofBase builtins).lookup op.text) ∧
      ∀ n ∈ typed.nodes, TypedExpr.OperatorFits n := by
  have hrun : ∃ outer ss inner ss' r, Expr.read "{ var x = 1; { var x = x < 2; x = x and x } }" "" =
      .ok (.block outer ss (.block inner ss' r)) ∧
      ∃ typed, Expr.typed (.block outer ss (.block inner ss' r)) builtins = .ok typed ∧
        ∃ x t y u, checkAll ss (Scope.push (.ofBase builtins)) = .ok x t ∧
          checkAll ss' t.push = .ok y u ∧ u.lookup "x" = some .bool :=
    ⟨_, _, _, _, _, by with_unfolding_all rfl, _, by with_unfolding_all rfl, _, _, _, _,
      by with_unfolding_all rfl, by with_unfolding_all rfl, by with_unfolding_all rfl⟩
  obtain ⟨outer, ss, inner, ss', r, hread, typed, htyped, x, t, y, u, hss, hss', hx⟩ := hrun
  have hcalls : Relation.ReflTransGen Calls (.block outer ss (.block inner ss' r), .ofBase builtins)
      (r, u) := .tail (.single (.result hss)) (.result hss')
  have hpasses : Passes (.block outer ss (.block inner ss' r)) (.ofBase builtins) u :=
    ⟨r, u, hcalls, .inl rfl⟩
  obtain ⟨hmoments, hfits, -⟩ := operators_keep_meaning hread
  exact ⟨_, typed, u, hread, htyped, hpasses, hx, hmoments _ _ hpasses, hfits typed htyped⟩

end ExprLang
