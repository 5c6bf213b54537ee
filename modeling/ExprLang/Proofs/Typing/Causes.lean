import ExprLang.Proofs.Printing.Lexemes
import ExprLang.Proofs.Typing.Positions

/-!
Why a check fails. Main statement: where every ascription names types, it fails by the rules of
types and names, whatever the scope.
-/

namespace ExprLang

namespace Ascription

mutual

/-- An ascription that a program can have stands for a type. -/
theorem exists_type_of_wellNamed : ∀ a : Ascription, a.wellNamed = true → ∃ t, a.type = .ok t
  | simple name span, h => by
    have hname : name ∈ simpleNames := List.contains_iff_mem.1 h
    simp only [simpleNames, List.mem_cons, List.not_mem_nil, or_false] at hname
    rcases hname with rfl | rfl | rfl <;> exact ⟨_, rfl⟩
  | function params result span, h => by
    simp only [wellNamed, Bool.and_eq_true] at h
    obtain ⟨ps, hps⟩ := exists_types_of_wellNamedAll params h.1.2
    obtain ⟨r, hr⟩ := exists_type_of_wellNamed result h.2
    exact ⟨.function ps r, by rw [type, hps, hr]; rfl⟩

theorem exists_types_of_wellNamedAll : ∀ as : List Ascription, wellNamedAll as = true →
    ∃ ts, types as = .ok ts
  | [], _ => ⟨[], rfl⟩
  | a :: as, h => by
    simp only [wellNamedAll, Bool.and_eq_true] at h
    obtain ⟨t, ht⟩ := exists_type_of_wellNamed a h.1
    obtain ⟨ts, hts⟩ := exists_types_of_wellNamedAll as h.2
    exact ⟨t :: ts, by rw [types, ht, hts]; rfl⟩

end

end Ascription

namespace Expr

mutual

/-- A tree that a program can have states such types only. -/
theorem wellNamed_of_mem_ascriptions {a : Ascription} : ∀ e : Expr, e.wellNamed = true →
    a ∈ e.ascriptions → a.wellNamed = true
  | .literal .., _, ha | .identifier .., _, ha => by cases ha
  | .binary _ _ left right, h, ha => by
    simp only [wellNamed, Bool.and_eq_true] at h
    simp only [ascriptions, List.mem_append] at ha
    exact ha.elim (wellNamed_of_mem_ascriptions left h.1) (wellNamed_of_mem_ascriptions right h.2)
  | .unary _ _ operand, h, ha => wellNamed_of_mem_ascriptions operand h ha
  | .ifThen _ condition consequent, h, ha => by
    simp only [wellNamed, Bool.and_eq_true] at h
    simp only [ascriptions, List.mem_append] at ha
    exact ha.elim (wellNamed_of_mem_ascriptions condition h.1)
      (wellNamed_of_mem_ascriptions consequent h.2)
  | .ifThenElse _ condition consequent alternative, h, ha => by
    simp only [wellNamed, Bool.and_eq_true] at h
    simp only [ascriptions, List.mem_append] at ha
    exact ha.elim (wellNamed_of_mem_ascriptions condition h.1.1) fun ha =>
      ha.elim (wellNamed_of_mem_ascriptions consequent h.1.2)
        (wellNamed_of_mem_ascriptions alternative h.2)
  | .loop _ condition body, h, ha => by
    simp only [wellNamed, Bool.and_eq_true] at h
    simp only [ascriptions, List.mem_append] at ha
    exact ha.elim (wellNamed_of_mem_ascriptions condition h.1)
      (wellNamed_of_mem_ascriptions body h.2)
  | .block _ statements result, h, ha => by
    simp only [wellNamed, Bool.and_eq_true, Bool.or_eq_true] at h
    simp only [ascriptions, List.mem_append] at ha
    rcases ha with ha | ha
    · exact wellNamed_of_mem_ascriptionsAll statements h.1 ha
    rcases h.2 with hunit | hresult
    · -- A result that is left out is the unit value, which has no parts.
      unfold isUnit at hunit
      split at hunit
      · cases ha
      · cases hunit
    · exact wellNamed_of_mem_ascriptions result hresult ha
  | .declaration _ _ ascription value, h, ha => by
    simp only [wellNamed, Bool.and_eq_true] at h
    simp only [ascriptions, List.mem_append] at ha
    rcases ha with ha | ha
    · obtain rfl := Option.mem_toList.1 ha
      exact h.1.2
    · exact wellNamed_of_mem_ascriptions value h.2 ha
  | .assignment _ left right, h, ha => by
    simp only [wellNamed, Bool.and_eq_true] at h
    simp only [ascriptions, List.mem_append] at ha
    exact ha.elim (wellNamed_of_mem_ascriptions left h.1) (wellNamed_of_mem_ascriptions right h.2)
  | .call _ _ arguments, h, ha => by
    simp only [wellNamed, Bool.and_eq_true] at h
    exact wellNamed_of_mem_ascriptionsAll arguments h.2 ha

theorem wellNamed_of_mem_ascriptionsAll {a : Ascription} : ∀ es : List Expr,
    wellNamedAll es = true → a ∈ ascriptionsAll es → a.wellNamed = true
  | [], _, ha => by cases ha
  | e :: es, h, ha => by
    simp only [wellNamedAll, Bool.and_eq_true] at h
    simp only [ascriptionsAll, List.mem_append] at ha
    exact ha.elim (wellNamed_of_mem_ascriptions e h.1) (wellNamed_of_mem_ascriptionsAll es h.2)

end

end Expr

/-- Whatever the scope, a tree that a program can have is refused for its types and names only. -/
theorem kind_of_check_error {e : Expr} (he : e.wellNamed = true) {s t : Scope} {error : Error}
    (h : check e s = .error error t) : error.cause.kind = .semantic := by
  have hrefuses :=
    Checker.refuses_check e (List.Subset.refl e.positions) (List.Subset.refl e.ascriptions) s
  rw [h] at hrefuses
  rcases hrefuses.2 with hkind | ⟨a, ha, htype⟩
  · exact hkind
  · obtain ⟨type, hok⟩ := a.exists_type_of_wellNamed (e.wellNamed_of_mem_ascriptions he ha)
    rw [hok] at htype
    cases htype

end ExprLang
