import ExprLang.Proofs.Grammar.Reading

/-!
The rules of ascriptions succeed exactly on their readings.
-/

namespace ExprLang

open ExprLang.Parser ExprLang.Token

namespace Rule

variable {n : Nat}

/-- The readings of one ascription. -/
abbrev Ascribes : Relation Ascription := fun w r a => Ascription.Reading .one w r [a]

theorem separated_ascribes_iff {w r : List Token} {as : List Ascription} :
    Separated Ascribes w r as ↔ Ascription.Reading .many w r as := by
  constructor
  · intro h
    induction h with
    | last h hr => exact .last h hr
    | more h hq _ ih => exact .more h hq ih
  · intro h
    generalize hp : Ascription.Part.many = p at h
    induction h with
    | last h hr => exact .last h hr
    | more h hq _ _ ih => exact .more h hq (ih rfl)
    | _ => cases hp

/-- The readings of a function type. -/
def FunctionType : Relation Ascription := fun w r a =>
  ∃ o v c x u params result, w = o :: (v ++ c :: x :: u) ∧ o.is "(" = true ∧
    Ascription.Reading .many v (c :: x :: (u ++ r)) params ∧ c.is ")" = true ∧
    x.is "=>" = true ∧ Ascribes u r result ∧
    a = .function params result (o.span.through result.span)

theorem denotes_functionType {part : Parser Ascription} (h : Denotes part n Ascribes) :
    Denotes (functionType part n) (n + 1) FunctionType := by
  refine ((denotes_expect "(").bind_consuming (consuming_one _) fun o =>
    (denotes_commaSeparated h).bind fun params => (denotes_demand ")" _).bind fun _ =>
    (denotes_expect "=>").bind fun _ => h.bind fun result => denotes_pure _).congr ?_
  intro w r a _
  constructor
  · rintro ⟨_, _, o, rfl, ⟨rfl, ho⟩, v, _, params, rfl, hv, _, _, c, rfl, ⟨rfl, hc⟩, _, _, x, rfl,
      ⟨rfl, hx⟩, u, _, result, rfl, hu, rfl, rfl⟩
    refine ⟨o, v, c, x, u, params, result, by simp, ho, ?_, hc, hx, by simpa using hu, rfl⟩
    simpa using separated_ascribes_iff.1 hv
  · rintro ⟨o, v, c, x, u, params, result, rfl, ho, hv, hc, hx, hu, rfl⟩
    refine ⟨[o], _, o, rfl, ⟨rfl, ho⟩, v, _, params, rfl, ?_, [c], _, c, rfl, ⟨rfl, hc⟩, [x], _, x,
      rfl, ⟨rfl, hx⟩, u, [], result, by simp, by simpa using hu, rfl, rfl⟩
    simpa using separated_ascribes_iff.2 hv

theorem denotes_ascription : ∀ n, Denotes (ascription n) n Ascribes := by
  intro n
  -- By induction on the bound: a function type takes a bracket before its first part.
  induction n with
  | zero =>
    refine (denotes_unexpected _).congr fun w r a hlen => ?_
    simp only [false_iff]
    intro h
    exact h.ne_nil (List.append_eq_nil_iff.1 (List.eq_nil_of_length_eq_zero (Nat.le_zero.1 hlen))).1
  | succ n ih =>
    have hend : ∀ t : Token, t.kind = .identifier ∧ Ascription.simpleNames.contains t.text = true →
        t.isEnd = false := fun t h => by simp [isEnd, h.1]
    refine (denotes_ite_current "(" (denotes_functionType ih) (denotes_take hend
      (fun t => denotes_pure (Ascription.simple t.text t.span)) (denotes_unexpected _))).congr ?_
    intro w r a _
    constructor
    · rintro (⟨-, o, v, c, x, u, params, result, rfl, ho, hv, hc, hx, hu, rfl⟩ |
        ⟨-, ⟨t, _, rfl, ⟨hk, ht⟩, rfl, rfl⟩ | ⟨-, h⟩⟩)
      · exact .function ho hv hc hx hu
      · exact .simple hk ht
      · exact h.elim
    · intro h
      cases h with
      | simple hk ht =>
        refine .inr ⟨?_, .inl ⟨_, [], rfl, ⟨hk, ht⟩, rfl, rfl⟩⟩
        rw [List.cons_append, starts_cons, is, Bool.and_eq_false_iff]
        simp only [Ascription.simpleNames, List.contains_iff_mem, List.mem_cons,
          List.not_mem_nil, or_false] at ht
        rcases ht with ht | ht | ht <;> simp [ht]
      | function ho hv hc hx hu =>
        exact .inl ⟨ho, _, _, _, _, _, _, _, rfl, ho, hv, hc, hx, hu, rfl⟩

end Rule

end ExprLang
