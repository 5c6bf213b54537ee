import ExprLang.Proofs.Grammar.Blocks

/-!
The rules of operands succeed exactly on their readings. Main statement: so do the rules of
expressions, statements and operators on any stream.
-/

namespace ExprLang

open ExprLang.Parser ExprLang.Token

namespace Rule

variable {n : Nat} {operand : Parser Expr}

theorem denotes_grouping (h : Denotes operand n (Builds .operand)) :
    Denotes (grouping operand n) (n + 1) fun w r e => ∃ o v c, w = o :: (v ++ [c]) ∧
      o.is "(" = true ∧ Builds .expression v (c :: r) e ∧ c.is ")" = true := by
  refine ((denotes_expect "(").bind_consuming (consuming_one _) fun _ =>
    (denotes_expression h n (Nat.le_refl n)).bind fun e => (denotes_expect ")").bind fun _ =>
    denotes_pure e).congr ?_
  intro w r e _
  constructor
  · rintro ⟨_, _, o, rfl, ⟨rfl, ho⟩, v, _, e, rfl, hv, _, _, c, rfl, ⟨rfl, hc⟩, rfl, rfl⟩
    exact ⟨o, v, c, by simp, ho, hv, hc⟩
  · rintro ⟨o, v, c, rfl, ho, hv, hc⟩
    exact ⟨[o], _, o, rfl, ⟨rfl, ho⟩, v, [c], e, rfl, hv, [c], [], c, rfl, ⟨rfl, hc⟩, rfl, rfl⟩

theorem denotes_loop (h : Denotes operand n (Builds .operand)) :
    Denotes (loop operand n) (n + 1) fun w r e => ∃ i c d v condition body,
      w = i :: (c ++ d :: v) ∧ i.is "while" = true ∧
      Builds .expression c (d :: (v ++ r)) condition ∧ d.is "do" = true ∧
      Builds .expression v r body ∧ e = .loop (i.span.through body.span) condition body := by
  have hE := denotes_expression h n (Nat.le_refl n)
  refine ((denotes_expect "while").bind_consuming (consuming_one _) fun i =>
    hE.bind fun condition => (denotes_expect "do").bind fun _ => hE.bind fun body =>
    denotes_pure (Tree.loop (i.span.through body.span) condition body)).congr ?_
  intro w r e _
  constructor
  · rintro ⟨_, _, i, rfl, ⟨rfl, hi⟩, c, _, condition, rfl, hc, _, _, d, rfl, ⟨rfl, hd⟩, v, _, body,
      rfl, hv, rfl, rfl⟩
    exact ⟨i, c, d, v, condition, body, by simp, hi, by simpa using hc, hd, by simpa using hv, rfl⟩
  · rintro ⟨i, c, d, v, condition, body, rfl, hi, hc, hd, hv, rfl⟩
    exact ⟨[i], _, i, rfl, ⟨rfl, hi⟩, c, d :: v, condition, rfl, by simpa using hc, [d], v, d, rfl,
      ⟨rfl, hd⟩, v, [], body, (List.append_nil v).symm, by simpa using hv, rfl, rfl⟩

/-- What may follow the first branch of a conditional, and the conditional that comes of it. -/
def BehindConsequent (i : Token) (condition consequent : Expr) : Relation Expr := fun w r e =>
  (∃ l v alternative, w = l :: v ∧ l.is "else" = true ∧ Builds .expression v r alternative ∧
    e = .ifThenElse (i.span.through alternative.span) condition consequent alternative) ∨
  (w = [] ∧ starts r "else" = false ∧
    e = .ifThen (i.span.through consequent.span) condition consequent)

theorem denotes_conditional (h : Denotes operand n (Builds .operand)) :
    Denotes (conditional operand n) (n + 1) fun w r e => ∃ i c t v u condition consequent,
      w = i :: (c ++ t :: (v ++ u)) ∧ i.is "if" = true ∧
      Builds .expression c (t :: (v ++ (u ++ r))) condition ∧ t.is "then" = true ∧
      Builds .expression v (u ++ r) consequent ∧
      BehindConsequent i condition consequent u r e := by
  have hE := denotes_expression h n (Nat.le_refl n)
  have hbehind (i : Token) (condition consequent : Expr) : Denotes (do
      if (← current).is "else" then
        let _ ← advance
        let alternative ← expression operand n
        return .ifThenElse (i.span.through alternative.span) condition consequent alternative
      else return .ifThen (i.span.through consequent.span) condition consequent) n
      (BehindConsequent i condition consequent) := by
    refine ((denotes_take (c := fun t => t.is "else" = true) (fun t => isEnd_eq_false_of_is)
      (fun _ => hE.bind fun alternative => denotes_pure (Tree.ifThenElse
        (i.span.through alternative.span) condition consequent alternative))
      (denotes_pure (Tree.ifThen (i.span.through consequent.span) condition consequent))).mono
      (Nat.le_succ n)).congr ?_
    intro w r e _
    constructor
    · rintro (⟨l, _, rfl, hl, v, _, alternative, rfl, hv, rfl, rfl⟩ | ⟨hr, rfl, rfl⟩)
      · exact .inl ⟨l, v, alternative, by simp, hl, by simpa using hv, rfl⟩
      · exact .inr ⟨rfl, starts_eq_false_iff.2 hr, rfl⟩
    · rintro (⟨l, v, alternative, rfl, hl, hv, rfl⟩ | ⟨rfl, hr, rfl⟩)
      · exact .inl ⟨l, v, rfl, hl, v, [], alternative, by simp, by simpa using hv, rfl, rfl⟩
      · exact .inr ⟨starts_eq_false_iff.1 hr, rfl, rfl⟩
  refine ((denotes_expect "if").bind_consuming (consuming_one _) fun i =>
    hE.bind fun condition => (denotes_expect "then").bind fun _ => hE.bind fun consequent =>
    hbehind i condition consequent).congr ?_
  intro w r e _
  constructor
  · rintro ⟨_, _, i, rfl, ⟨rfl, hi⟩, c, _, condition, rfl, hc, _, _, t, rfl, ⟨rfl, ht⟩, v, u,
      consequent, rfl, hv, hu⟩
    exact ⟨i, c, t, v, u, condition, consequent, rfl, hi, by simpa using hc, ht, hv, hu⟩
  · rintro ⟨i, c, t, v, u, condition, consequent, rfl, hi, hc, ht, hv, hu⟩
    exact ⟨[i], _, i, rfl, ⟨rfl, hi⟩, c, _, condition, rfl, by simpa using hc, [t], _, t, rfl,
      ⟨rfl, ht⟩, v, u, consequent, rfl, hv, hu⟩

theorem separated_builds_iff {w r : List Token} {es : List Expr} :
    Separated (Builds .expression) w r es ↔ Grammar.Reading .expressions w r es := by
  constructor
  · intro h
    induction h with
    | last h hr => exact .last h hr
    | more h hq _ ih => exact .more h hq ih
  · intro h
    generalize hp : Grammar.Part.expressions = p at h
    induction h with
    | last h hr => exact .last h hr
    | more h hq _ _ ih => exact .more h hq (ih rfl)
    | _ => cases hp

/-- The readings of the arguments of a call and the bracket that closes it. -/
def Arguments : Relation (List Expr) := fun w r es =>
  (w = [] ∧ es = [] ∧ starts r ")" = true) ∨
    (starts w ")" = false ∧ Grammar.Reading .expressions w r es)

theorem denotes_arguments (h : Denotes operand n (Builds .operand)) :
    Denotes (arguments operand n) n Arguments := by
  refine (denotes_ite ")" (denotes_pure [])
    (denotes_commaSeparated (denotes_expression h n (Nat.le_refl n)))).congr ?_
  intro w r es _
  constructor
  · rintro (⟨hr, rfl, rfl⟩ | ⟨hr, hes⟩)
    · exact .inl ⟨rfl, rfl, hr⟩
    · have hes := separated_builds_iff.1 hes
      exact .inr ⟨by rwa [starts_append (hes.ne_nil rfl)] at hr, hes⟩
  · rintro (⟨rfl, rfl, hr⟩ | ⟨hw, hes⟩)
    · exact .inl ⟨hr, rfl, rfl⟩
    · exact .inr ⟨by rwa [starts_append (hes.ne_nil rfl)], separated_builds_iff.2 hes⟩

theorem denotes_call (h : Denotes operand n (Builds .operand)) (callee : Identifier) :
    Denotes (call operand n callee) (n + 1) fun w r e => ∃ o v c es, w = o :: (v ++ [c]) ∧
      o.is "(" = true ∧ Arguments v (c :: r) es ∧ c.is ")" = true ∧
      e = .call (callee.span.through c.span) callee es := by
  refine ((denotes_expect "(").bind_consuming (consuming_one _) fun _ =>
    (denotes_arguments h).bind fun es => (denotes_demand ")" _).bind fun c =>
    denotes_pure (Tree.call (callee.span.through c.span) callee es)).congr ?_
  intro w r e _
  constructor
  · rintro ⟨_, _, o, rfl, ⟨rfl, ho⟩, v, _, es, rfl, hv, _, _, c, rfl, ⟨rfl, hc⟩, rfl, rfl⟩
    exact ⟨o, v, c, es, by simp, ho, hv, hc, rfl⟩
  · rintro ⟨o, v, c, es, rfl, ho, hv, hc, rfl⟩
    exact ⟨[o], _, o, rfl, ⟨rfl, ho⟩, v, [c], es, rfl, hv, [c], [], c, rfl, ⟨rfl, hc⟩, rfl, rfl⟩

/-- The readings that start with a name. -/
def NameOrCall : Relation Expr := fun w r e =>
  (∃ t, w = [t] ∧ t.IsName ∧ starts r "(" = false ∧ e = .identifier t.span t.text) ∨
    ∃ f o v c es, w = f :: o :: (v ++ [c]) ∧ f.IsName ∧ o.is "(" = true ∧
      Arguments v (c :: r) es ∧ c.is ")" = true ∧
      e = .call (f.span.through c.span) ⟨f.text, f.span⟩ es

theorem denotes_nameOrCall (h : Denotes operand n (Builds .operand)) :
    Denotes (nameOrCall operand n) (n + 1) NameOrCall := by
  refine (denotes_identifier.bind_consuming consuming_named fun i =>
    denotes_ite "(" ((denotes_call h i).mono (Nat.le_succ n))
      (denotes_pure (Tree.identifier i.span i.name))).congr ?_
  intro w r e _
  constructor
  · rintro ⟨_, _, _, rfl, ⟨f, rfl, hf, rfl⟩, ⟨-, o, v, c, es, rfl, ho, hv, hc, rfl⟩ |
      ⟨hr, rfl, rfl⟩⟩
    · exact .inr ⟨f, o, v, c, es, rfl, hf, ho, hv, hc, rfl⟩
    · exact .inl ⟨f, by simp, hf, hr, rfl⟩
  · rintro (⟨t, rfl, ht, hr, rfl⟩ | ⟨f, o, v, c, es, rfl, hf, ho, hv, hc, rfl⟩)
    · exact ⟨[t], [], _, rfl, ⟨t, rfl, ht, rfl⟩, .inr ⟨hr, rfl, rfl⟩⟩
    · exact ⟨[f], _, _, rfl, ⟨f, rfl, hf, rfl⟩, .inl ⟨ho, o, v, c, es, rfl, ho, hv, hc, rfl⟩⟩

/-- The readings that start with a sign or a negation. -/
def Signed : Relation Expr := fun w r e => ∃ t v op operand, w = t :: v ∧
  UnaryOp.ofText? t.text = some op ∧ Builds .operand v r operand ∧
  e = .unary (t.span.through operand.span) op operand

variable {s : TokenStream} {t : Token} {r₀ : List Token}

theorem denotesAt_signed (h : Denotes operand n (Builds .operand)) (hs : s.remaining ≤ n + 1)
    (ht : s.ahead = t :: r₀) : DenotesAt (signed operand) s Signed := by
  intro e u
  unfold signed
  rw [current_bind, TokenStream.current_of_ahead ht]
  cases hop : UnaryOp.ofText? t.text with
  | none =>
    constructor
    · intro h
      cases h
    · rintro ⟨w, r, hw, -, x, v, op, e, rfl, hx, -⟩
      obtain ⟨rfl, -⟩ := List.cons.inj (ht.symm.trans hw)
      rw [hop] at hx
      cases hx
  | some op =>
    have hrest := (h.bind fun e => denotes_pure (Tree.unary (t.span.through e.span) op e))
      _ (remaining_pass_one ht hs)
    refine ((denotesAt_advance ht hrest).congr fun w r e hw => ?_) e u
    constructor
    · rintro ⟨_, rfl, v, _, e, rfl, hv, rfl, rfl⟩
      exact ⟨t, v, op, e, by simp, hop, by simpa using hv, rfl⟩
    · rintro ⟨x, v, op', e, rfl, hx, hv, rfl⟩
      obtain ⟨rfl, -⟩ := List.cons.inj (ht.symm.trans hw)
      cases hop.symm.trans hx
      exact ⟨v, rfl, v, [], e, (List.append_nil v).symm, by simpa using hv, rfl, rfl⟩

/-- The readings of one token as a number. -/
def Counted : Relation Expr := fun w _ e => ∃ t value, w = [t] ∧
  Text.int64? t.text = some value ∧ e = .literal t.span (.int value)

theorem denotesAt_integer (ht : s.ahead = t :: r₀) : DenotesAt integer s Counted := by
  intro e u
  unfold integer
  rw [current_bind, TokenStream.current_of_ahead ht]
  cases hv : Text.int64? t.text with
  | none =>
    constructor
    · intro h
      cases h
    · rintro ⟨w, r, hw, -, x, value, rfl, hx, -⟩
      obtain ⟨rfl, -⟩ := List.cons.inj (ht.symm.trans hw)
      rw [hv] at hx
      cases hx
  | some value =>
    have hpure := denotes_pure (Tree.literal t.span (.int value) : Expr) (s.pass [t])
      (Nat.le_refl _)
    refine ((denotesAt_advance ht hpure).congr fun w r e hw => ?_) e u
    constructor
    · rintro ⟨v, rfl, rfl, rfl⟩
      exact ⟨t, value, rfl, hv, rfl⟩
    · rintro ⟨x, value', rfl, hx, rfl⟩
      obtain ⟨rfl, -⟩ := List.cons.inj (ht.symm.trans hw)
      cases hv.symm.trans hx
      exact ⟨[], rfl, rfl, rfl⟩

theorem denotesAt_boolean (ht : s.ahead = t :: r₀) :
    DenotesAt boolean s fun w _ e => ∃ x, w = [x] ∧
      e = .literal x.span (.bool (x.text == "true")) := by
  intro e u
  have hrun : boolean s = .ok (.literal t.span (.bool (t.text == "true"))) (s.pass [t]) := by
    unfold boolean
    rw [advance_bind ht]
    rfl
  rw [hrun]
  constructor
  · intro h
    cases h
    exact ⟨[t], r₀, ht, rfl, t, rfl, rfl⟩
  · rintro ⟨w, r, hw, rfl, x, rfl, rfl⟩
    obtain ⟨rfl, -⟩ := List.cons.inj (ht.symm.trans hw)
    rfl

/-- The readings that are told by the kind of the first token. -/
def ByKind : Relation Expr := fun w r e =>
  (∃ t value, w = [t] ∧ t.kind = .integer ∧ Text.int64? t.text = some value ∧
    e = .literal t.span (.int value)) ∨
  (∃ t, w = [t] ∧ t.kind = .boolean ∧ e = .literal t.span (.bool (t.text == "true"))) ∨
  NameOrCall w r e

theorem NameOrCall.isName {w r : List Token} {e : Expr} (h : NameOrCall w r e) :
    ∃ x v, w = x :: v ∧ x.IsName := by
  rcases h with ⟨x, rfl, hx, -⟩ | ⟨x, o, v, c, es, rfl, hx, -⟩
  · exact ⟨x, [], rfl, hx⟩
  · exact ⟨x, _, rfl, hx⟩

theorem ByKind.kind {w r : List Token} {e : Expr} (h : ByKind w r e) :
    ∃ x v, w = x :: v ∧ (x.kind = .integer ∨ x.kind = .boolean ∨ x.IsName) := by
  rcases h with ⟨x, _, rfl, hx, -⟩ | ⟨x, rfl, hx, -⟩ | h
  · exact ⟨x, [], rfl, .inl hx⟩
  · exact ⟨x, [], rfl, .inr (.inl hx)⟩
  · obtain ⟨x, v, rfl, hx⟩ := h.isName
    exact ⟨x, v, rfl, .inr (.inr hx)⟩

/-- Where the first token is told by nothing, no rule of operands starts. -/
theorem denotesAt_unexpected_byKind (e : Expected)
    (hs : ∀ x r, s.ahead = x :: r → x.kind ≠ .integer ∧ x.kind ≠ .boolean ∧ ¬x.IsName) :
    DenotesAt (unexpected e : Parser Expr) s ByKind := by
  refine ((denotes_unexpected e) s (Nat.le_refl _)).congr fun w r e hw => ?_
  rw [false_iff]
  intro h
  obtain ⟨x, v, rfl, hx⟩ := h.kind
  obtain ⟨h1, h2, h3⟩ := hs x _ hw
  rcases hx with hx | hx | hx
  · exact h1 hx
  · exact h2 hx
  · exact h3 hx

theorem denotesAt_byKind (h : Denotes operand n (Builds .operand)) (hs : s.remaining ≤ n + 1) :
    DenotesAt (do
      let token ← current
      match token.kind with
      | .integer => integer
      | .boolean => boolean
      | .identifier => if token.isReserved then unexpected operandStart else nameOrCall operand n
      | .operator | .punctuation | .endMark => unexpected operandStart) s ByKind := by
  intro e u
  show (match s.current.kind with
    | .integer => integer
    | .boolean => boolean
    | .identifier => if s.current.isReserved then unexpected operandStart else nameOrCall operand n
    | .operator | .punctuation | .endMark => unexpected operandStart) s = .ok e u ↔ _
  have hcur : ∀ x r, s.ahead = x :: r → x = s.current :=
    fun x r hx => (TokenStream.current_of_ahead hx).symm
  have hname : ∀ x : Token, x.kind ≠ .identifier → ¬x.IsName := fun x hx hn => hx hn.1
  cases hk : s.current.kind with
  | integer =>
    obtain ⟨r₀, hx⟩ := ahead_of_current (s := s) (by simp [isEnd, hk])
    refine ((denotesAt_integer hx).congr fun w r e hw => ?_) e u
    constructor
    · rintro ⟨x, value, rfl, hv, rfl⟩
      exact .inl ⟨x, value, rfl, hcur x r hw ▸ hk, hv, rfl⟩
    · rintro (⟨x, value, rfl, -, hv, rfl⟩ | ⟨x, rfl, hx, -⟩ | h)
      · exact ⟨x, value, rfl, hv, rfl⟩
      · rw [hcur x r hw, hk] at hx
        cases hx
      · obtain ⟨x, v, rfl, hx, -⟩ := h.isName
        rw [hcur x _ hw, hk] at hx
        cases hx
  | boolean =>
    obtain ⟨r₀, hx⟩ := ahead_of_current (s := s) (by simp [isEnd, hk])
    refine ((denotesAt_boolean hx).congr fun w r e hw => ?_) e u
    constructor
    · rintro ⟨x, rfl, rfl⟩
      exact .inr (.inl ⟨x, rfl, hcur x r hw ▸ hk, rfl⟩)
    · rintro (⟨x, value, rfl, hx, -⟩ | ⟨x, rfl, -, rfl⟩ | h)
      · rw [hcur x r hw, hk] at hx
        cases hx
      · exact ⟨x, rfl, rfl⟩
      · obtain ⟨x, v, rfl, hx, -⟩ := h.isName
        rw [hcur x _ hw, hk] at hx
        cases hx
  | identifier =>
    cases hr : s.current.isReserved with
    | true =>
      refine denotesAt_unexpected_byKind _ (fun x r hx => ?_) e u
      rw [hcur x r hx, hk]
      simp [isName_iff, hr]
    | false =>
      refine ((denotes_nameOrCall h s hs).congr fun w r e hw => ?_) e u
      constructor
      · intro h
        exact .inr (.inr h)
      · rintro (⟨x, value, rfl, hx, -⟩ | ⟨x, rfl, hx, -⟩ | h)
        · rw [hcur x r hw, hk] at hx
          cases hx
        · rw [hcur x r hw, hk] at hx
          cases hx
        · exact h
  | operator | punctuation | endMark =>
    refine denotesAt_unexpected_byKind _ (fun x r hx => ?_) e u
    rw [hcur x r hx, hk]
    simp [isName_iff, hk]

theorem denotes_primary (h : Denotes operand n (Builds .operand)) :
    Denotes (primary operand n) (n + 1) (Builds .operand) := by
  intro s hs
  have hend : ∀ t : Token, t.isEnd = true → t.isOneOf ["-", "not"] = false :=
    fun t ht => by simp [isOneOf, is_of_isEnd ht]
  refine (denotesAt_ite "(" (fun _ => denotes_grouping h s hs) fun _ =>
    denotesAt_ite openBrace (fun _ => denotes_block h s hs) fun _ =>
    denotesAt_if hend (fun x r hx hb => denotesAt_signed h hs hx) fun _ =>
    denotesAt_ite "if" (fun _ => denotes_conditional h s hs) fun _ =>
    denotesAt_ite "while" (fun _ => denotes_loop h s hs) fun _ =>
    denotesAt_byKind h hs).congr ?_
  -- The tests stand in the order of the rule: a reading passes one and fails those before it.
  intro w r e _
  constructor
  · rintro (⟨-, o, v, c, rfl, ho, hv, hc⟩ | ⟨h1, ⟨-, o, v, c, ss, res, rfl, ho, hv, hc, rfl⟩ |
      ⟨h2, ⟨hb, t, v, op, e, rfl, hop, hv, rfl⟩ | ⟨h3, ⟨-, i, c, t, v, u, condition, consequent,
      rfl, hi, hc, ht, hv, hu⟩ | ⟨h4, ⟨-, i, c, d, v, condition, body, rfl, hi, hc, hd, hv, rfl⟩ |
      ⟨h5, hk⟩⟩⟩⟩⟩)
    · exact .grouping ho hv hc
    · exact .block ho hv hc
    · exact .signed (by simpa using hb) hop hv
    · rcases hu with ⟨l, u, alternative, rfl, hl, hu, rfl⟩ | ⟨rfl, hr, rfl⟩
      · exact .ifThenElse hi (by simpa using hc) ht hv hl hu
      · rw [List.append_nil]
        exact .ifThen hi (by simpa using hc) ht (by simpa using hv) hr
    · exact .loop hi hc hd hv
    · obtain ⟨t, v, rfl, -⟩ := hk.kind
      have ho : t.opensOperand = false :=
        opensOperand_eq_false_iff.2 ⟨h1, h2, by simpa using h3, h4, h5⟩
      rcases hk with ⟨t, value, h, hk, hv, rfl⟩ | ⟨t, h, hk, rfl⟩ | ⟨t, h, ht, hr, rfl⟩ |
        ⟨f, o, v, c, es, h, hf, hoo, ⟨rfl, rfl, -⟩ | ⟨hv, hes⟩, hc, rfl⟩
      all_goals cases h
      · exact .integer hk ho hv
      · exact .boolean hk ho
      · exact .name ht ho hr
      · exact .callEmpty hf ho hoo hc
      · exact .call hf ho hoo hv hes hc
  · intro h
    cases h with
    | integer hk ho hv =>
      obtain ⟨h1, h2, h3, h4, h5⟩ := opensOperand_eq_false_iff.1 ho
      exact .inr ⟨h1, .inr ⟨h2, .inr ⟨h3, .inr ⟨h4, .inr ⟨h5, .inl ⟨_, _, rfl, hk, hv, rfl⟩⟩⟩⟩⟩⟩
    | boolean hk ho =>
      obtain ⟨h1, h2, h3, h4, h5⟩ := opensOperand_eq_false_iff.1 ho
      exact .inr ⟨h1, .inr ⟨h2, .inr ⟨h3, .inr ⟨h4, .inr ⟨h5, .inr (.inl ⟨_, rfl, hk, rfl⟩)⟩⟩⟩⟩⟩
    | name ht ho hr =>
      obtain ⟨h1, h2, h3, h4, h5⟩ := opensOperand_eq_false_iff.1 ho
      exact .inr ⟨h1, .inr ⟨h2, .inr ⟨h3, .inr ⟨h4, .inr ⟨h5,
        .inr (.inr (.inl ⟨_, rfl, ht, hr, rfl⟩))⟩⟩⟩⟩⟩
    | callEmpty hf ho hoo hc =>
      obtain ⟨h1, h2, h3, h4, h5⟩ := opensOperand_eq_false_iff.1 ho
      exact .inr ⟨h1, .inr ⟨h2, .inr ⟨h3, .inr ⟨h4, .inr ⟨h5, .inr (.inr (.inr ⟨_, _, [], _, _,
        rfl, hf, hoo, .inl ⟨rfl, rfl, hc⟩, hc, rfl⟩))⟩⟩⟩⟩⟩
    | call hf ho hoo hw hes hc =>
      obtain ⟨h1, h2, h3, h4, h5⟩ := opensOperand_eq_false_iff.1 ho
      exact .inr ⟨h1, .inr ⟨h2, .inr ⟨h3, .inr ⟨h4, .inr ⟨h5, .inr (.inr (.inr ⟨_, _, _, _, _,
        rfl, hf, hoo, .inr ⟨hw, hes⟩, hc, rfl⟩))⟩⟩⟩⟩⟩
    | grouping ho hv hc => exact .inl ⟨ho, _, _, _, rfl, ho, hv, hc⟩
    | block ho hv hc =>
      exact .inr ⟨is_eq_false_of_is ho (by decide), .inl ⟨ho, _, _, _, _, _, rfl, ho, hv, hc, rfl⟩⟩
    | signed hb hop hv =>
      have hb' := hb
      simp only [isOneOf, List.any_cons, List.any_nil, Bool.or_false, Bool.or_eq_true] at hb'
      have hne {x : String} (hm : "-" ≠ x) (hn : "not" ≠ x) : Token.is _ x = false :=
        hb'.elim (is_eq_false_of_is · hm) (is_eq_false_of_is · hn)
      exact .inr ⟨hne (by decide) (by decide), .inr ⟨hne (by decide) (by decide),
        .inl ⟨hb, _, _, _, _, rfl, hop, hv, rfl⟩⟩⟩
    | ifThen hi hc ht hv hr =>
      have hne {x : String} (hx : "if" ≠ x) : Token.is _ x = false := is_eq_false_of_is hi hx
      refine .inr ⟨hne (by decide), .inr ⟨hne (by decide), .inr ⟨?_, .inl ⟨hi, _, _, _, _, [], _, _,
        ?_, hi, by simpa using hc, ht, by simpa using hv, .inr ⟨rfl, hr, rfl⟩⟩⟩⟩⟩
      · simp [isOneOf, hne]
      · rw [List.append_nil]
    | ifThenElse hi hc ht hv hl hu =>
      have hne {x : String} (hx : "if" ≠ x) : Token.is _ x = false := is_eq_false_of_is hi hx
      refine .inr ⟨hne (by decide), .inr ⟨hne (by decide), .inr ⟨?_, .inl ⟨hi, _, _, _, _, _ :: _,
        _, _, rfl, hi, by simpa using hc, ht, by simpa using hv, .inl ⟨_, _, _, rfl, hl, hu,
        rfl⟩⟩⟩⟩⟩
      simp [isOneOf, hne]
    | loop hi hc hd hv =>
      have hne {x : String} (hx : "while" ≠ x) : Token.is _ x = false := is_eq_false_of_is hi hx
      refine .inr ⟨hne (by decide), .inr ⟨hne (by decide), .inr ⟨?_, .inr ⟨hne (by decide),
        .inl ⟨hi, _, _, _, _, _, _, rfl, hi, hc, hd, hv, rfl⟩⟩⟩⟩⟩
      simp [isOneOf, hne]

theorem denotes_operand : ∀ n, Denotes (Rule.operand n) n (Builds .operand) := by
  intro n
  -- By induction on the bound: an operand takes a token before it asks for another operand.
  induction n with
  | zero =>
    refine (denotes_unexpected _).congr fun w r e hlen => ?_
    rw [false_iff]
    intro h
    have hnil : w ++ r = [] := List.eq_nil_of_length_eq_zero (Nat.le_zero.1 hlen)
    exact h.ne_nil rfl (List.append_eq_nil_iff.1 hnil).1
  | succ n ih => exact denotes_primary ih

end Rule

end ExprLang
