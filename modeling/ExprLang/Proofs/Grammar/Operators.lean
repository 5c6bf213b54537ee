import ExprLang.Proofs.Grammar.Reading

/-!
The rules of operators and assignments succeed exactly on their readings, if operands do.
-/

namespace ExprLang

open ExprLang.Parser ExprLang.Token

namespace Rule

variable {n : Nat}

/-- The readings of a part that builds one tree. -/
abbrev Builds (p : Grammar.Part) : Relation Expr := fun w r e => Grammar.Reading p w r [e]

theorem operatorOf_of_isEnd (level : Level) {t : Token} (h : t.isEnd = true) :
    operatorOf level t = none := by
  simp [operatorOf, is_of_isEnd h]

theorem isEnd_of_operatorOf {level : Level} {t : Token} {op : BinaryOp}
    (h : operatorOf level t = some op) : t.isEnd = false := by
  cases ht : t.isEnd with
  | false => rfl
  | true => simp [operatorOf_of_isEnd level ht] at h

theorem denotes_leaning {operand : Parser Expr} {l : Level}
    (h : Denotes operand n (Builds (.binary l.next))) :
    ∀ m ≤ n, ∀ a, Denotes (leaning l operand m a) m (Builds (.leaning l a)) := by
  intro m
  -- By induction on the bound: each operator takes a token.
  induction m with
  | zero =>
    refine fun _ a => (denotes_pure a).congr fun w r e hlen => ?_
    have hnil : w ++ r = [] := List.eq_nil_of_length_eq_zero (Nat.le_zero.1 hlen)
    obtain ⟨rfl, rfl⟩ := List.append_eq_nil_iff.1 hnil
    constructor
    · rintro ⟨-, rfl⟩
      exact .stop (by simp)
    · intro h
      cases h
      exact ⟨rfl, rfl⟩
  | succ m ih =>
    intro hm a s hs e t
    cases hop : operatorOf l s.current with
    | none =>
      have hrun : leaning l operand (m + 1) a s = (pure a : Parser Expr) s := by
        rw [leaning, current_bind, hop]
      rw [hrun]
      refine (denotes_pure a s hs e t).trans ?_
      refine exists_congr fun w => exists_congr fun r => and_congr_right fun hw =>
        and_congr_right fun _ => ?_
      constructor
      · rintro ⟨rfl, rfl⟩
        refine .stop fun x hx => ?_
        rwa [TokenStream.current, hw, List.nil_append, hx] at hop
      · intro h
        cases h with
        | stop => exact ⟨rfl, rfl⟩
        | step hx =>
          rw [TokenStream.current_of_ahead hw, hx] at hop
          cases hop
    | some op =>
      have hrun : leaning l operand (m + 1) a s = (do
          let _ ← advance
          let right ← operand
          leaning l operand m (.binary (a.span.through right.span) op a right)) s := by
        rw [leaning, current_bind, hop]
      rw [hrun]
      obtain ⟨r₀, hx⟩ := ahead_of_current (isEnd_of_operatorOf hop)
      have hp : Denotes operand m (Builds (.binary l.next)) := h.mono (by omega)
      have hrest := (hp.bind fun b => ih (by omega) (.binary (a.span.through b.span) op a b))
        _ (remaining_pass_one hx hs)
      refine (denotesAt_advance hx hrest e t).trans ?_
      refine exists_congr fun w => exists_congr fun r => and_congr_right fun hw =>
        and_congr_right fun _ => ?_
      constructor
      · rintro ⟨_, rfl, v, u, b, rfl, hb, he⟩
        exact .step hop hb he
      · intro h
        cases h with
        | stop hr =>
          rw [hr _ (by rw [← List.nil_append r, ← hw, hx]; rfl)] at hop
          cases hop
        | step hop' hb he =>
          obtain ⟨rfl, -⟩ := List.cons.inj (hx.symm.trans hw)
          cases hop'.symm.trans hop
          exact ⟨_, rfl, _, _, _, rfl, hb, he⟩

theorem denotes_binary {operand : Parser Expr} (h : Denotes operand n (Builds .operand))
    (l : Level) : Denotes (binary operand n l) n (Builds (.binary l)) := by
  have hlast : Denotes (binary operand n .unary) n (Builds (.binary .unary)) := by
    refine h.congr fun w r e _ => ⟨.tightest, fun h => ?_⟩
    cases h with
    | tightest h => exact h
    | level hl => exact absurd rfl hl
  have hstep (l : Level) (hl : l ≠ .unary)
      (hnext : Denotes (binary operand n l.next) n (Builds (.binary l.next))) :
      Denotes (binary operand n l) n (Builds (.binary l)) := by
    have htiers : binary operand n l = tier n l (binary operand n l.next) := by
      simp [binary, Level.tiers_next hl]
    rw [htiers]
    refine (hnext.bind fun a => denotes_leaning hnext n (Nat.le_refl n) a).congr ?_
    intro w r e _
    constructor
    · rintro ⟨v, u, a, rfl, ha, he⟩
      exact .level hl ha he
    · intro h
      cases h with
      | tightest => exact absurd rfl hl
      | level _ ha he => exact ⟨_, _, _, rfl, ha, he⟩
  have hmul := hstep .multiplicative (by decide) hlast
  have hadd := hstep .additive (by decide) hmul
  have hrel := hstep .relational (by decide) hadd
  have heq := hstep .equality (by decide) hrel
  have hand := hstep .and (by decide) heq
  cases l with
  | or => exact hstep .or (by decide) hand
  | and => exact hand
  | equality => exact heq
  | relational => exact hrel
  | additive => exact hadd
  | multiplicative => exact hmul
  | unary => exact hlast

theorem denotes_assignment {target : Expr} {value : Parser Expr}
    (h : Denotes value n (Builds .expression)) :
    Denotes (assignment target value) (n + 1) fun w r e => ∃ q v b, w = q :: v ∧
      q.is "=" = true ∧ Builds .expression v r b ∧
      e = .assignment (target.span.through b.span) target b := by
  refine ((denotes_expect "=").bind_consuming (consuming_one _) fun _ =>
    h.bind fun b => denotes_pure _).congr ?_
  intro w r e _
  constructor
  · rintro ⟨_, _, q, rfl, ⟨rfl, hq⟩, v, _, b, rfl, hb, rfl, rfl⟩
    exact ⟨q, v, b, by simp, hq, by simpa using hb, rfl⟩
  · rintro ⟨q, v, b, rfl, hq, hb, rfl⟩
    exact ⟨[q], v, q, rfl, ⟨rfl, hq⟩, v, [], b, by simp, by simpa using hb, rfl, rfl⟩

theorem denotes_expression {operand : Parser Expr} (h : Denotes operand n (Builds .operand)) :
    ∀ m ≤ n, Denotes (expression operand m) m (Builds .expression) := by
  intro m
  induction m with
  | zero =>
    refine fun _ => (denotes_binary (h.mono (by omega)) .or).congr fun w r e hlen => ?_
    have hnil : w ++ r = [] := List.eq_nil_of_length_eq_zero (Nat.le_zero.1 hlen)
    obtain ⟨rfl, rfl⟩ := List.append_eq_nil_iff.1 hnil
    constructor
    · intro h
      exact absurd rfl (h.ne_nil rfl)
    · intro h
      exact absurd rfl (h.ne_nil rfl)
  | succ m ih =>
    intro hm
    have hb := denotes_binary (h.mono hm) .or
    refine (hb.bind fun target => denotes_ite "=" (denotes_assignment (ih (by omega)))
      (denotes_pure target)).congr ?_
    intro w r e _
    constructor
    · rintro ⟨v, _, a, rfl, ha, ⟨-, q, v, b, rfl, hq, hb, rfl⟩ | ⟨hr, rfl, rfl⟩⟩
      · exact .assignment ha hq hb
      · rw [List.append_nil]
        exact .value (by simpa using ha) (by simpa using hr)
    · intro h
      cases h with
      | value ha hr =>
        exact ⟨w, [], e, by simp, by simpa using ha, .inr ⟨by simpa using hr, rfl, rfl⟩⟩
      | assignment ha hq hb =>
        exact ⟨_, _, _, rfl, ha, .inl ⟨by simpa using hq, _, _, _, rfl, hq, hb, rfl⟩⟩

end Rule

end ExprLang
