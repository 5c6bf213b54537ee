import ExprLang.Proofs.Grammar.Chains

/-!
Conditionals inside of each other. Main statement: an alternative belongs to the innermost
conditional that has none, whatever number of conditionals and alternatives there is.
-/

namespace ExprLang

open ExprLang.Token (starts)

namespace Grammar

/-- A condition between the words of its conditional. -/
structure Condition where
  opening : Token
  tokens : List Token
  closing : Token
  is_opening : opening.is "if" = true
  derives : Derives .expression tokens
  is_closing : closing.is "then" = true

/-- An operand behind the word that makes it the alternative of a conditional. -/
structure Alternative where
  opening : Token
  tokens : List Token
  is_opening : opening.is "else" = true
  isOperand : IsOperand tokens

def Condition.written (c : Condition) : List Token := c.opening :: (c.tokens ++ [c.closing])

def Alternative.written (a : Alternative) : List Token := a.opening :: a.tokens

/-- Conditionals inside of each other, the innermost of which comes first in the list, around the
branch of the innermost, and the alternatives behind it. -/
def nestTokens (conditions : List Condition) (branch : List Token)
    (alternatives : List Alternative) : List Token :=
  conditions.reverse.flatMap Condition.written ++
    (branch ++ alternatives.flatMap Alternative.written)

/-- The conditionals of these conditions around a branch, the innermost first, each given by the
place where it starts and its condition. As long as there are alternatives, each takes the next. -/
def nest (branch : Expr) : List (Span × Expr) → List Expr → Expr
  | [], _ => branch
  | (start, condition) :: outer, alternative :: others =>
    nest (.ifThenElse (start.through alternative.span) condition branch alternative) outer others
  | (start, condition) :: outer, [] =>
    nest (.ifThen (start.through branch.span) condition branch) outer []

variable {c : Condition} {a : Alternative} {cs : List Condition} {as : List Alternative}
  {w r : List Token} {e condition alternative : Expr}

@[simp] theorem nestTokens_nil : nestTokens [] w [] = w := by
  simp [nestTokens]

theorem nestTokens_cons :
    nestTokens (c :: cs) w (a :: as) = nestTokens cs (c.written ++ w ++ a.written) as := by
  simp [nestTokens]

theorem nestTokens_cons_nil : nestTokens (c :: cs) w [] = nestTokens cs (c.written ++ w) [] := by
  simp [nestTokens]

/-- The condition has this tree wherever its conditional stands. -/
def Condition.HasTree (c : Condition) (e : Expr) : Prop :=
  ∀ (s : TokenStream) (r : List Token), s.ahead = c.tokens ++ c.closing :: r →
    Grammar.expression s = .ok e (s.pass c.tokens)

/-- The same, told without a stream. -/
def Condition.ReadsAs (c : Condition) (e : Expr) : Prop :=
  ∀ r, Reading .expression c.tokens (c.closing :: r) [e]

theorem Condition.exists_tree (hs : ∀ t ∈ c.tokens, t.Spelt) : ∃ e, c.ReadsAs e := by
  obtain ⟨e, he⟩ := (splitting (c.tokens.length + 1)).expression (Nat.lt_succ_self _) hs c.derives
    (follows_cons (r := []) c.is_closing (by decide))
  exact ⟨e, fun r => he.before (.inl rfl)⟩

theorem Condition.ReadsAs.hasTree (h : c.ReadsAs e) : c.HasTree e := by
  intro s r hs
  have hrun := Rule.denotes_expression (Rule.denotes_operand s.remaining) s.remaining
    (Nat.le_refl _) s (Nat.le_refl _)
  exact (hrun e _).2 ⟨c.tokens, c.closing :: r, hs, rfl, h r⟩

/-- The tokens are read as this tree where nothing goes on with it. An alternative does not, if `b`
says so. -/
def ReadsBefore (b : Prop) (w : List Token) (e : Expr) : Prop :=
  ∀ r, Quiet r → (starts r "else" = true → b) → Reading .expression w r [e]

theorem ReadsBefore.mono {b b' : Prop} (h : ReadsBefore b w e) (hb : b' → b) :
    ReadsBefore b' w e := fun r hr helse => h r hr fun h => hb (helse h)

theorem ReadAs.readsBefore {b : Prop} (h : ReadAs w e) : ReadsBefore b w e :=
  fun r hr _ => (h r hr.starts_eq_false.2).expression_of_operand hr

/-- A conditional with an alternative takes no other. -/
theorem ReadsBefore.ifThenElse {b : Prop} (hc : c.ReadsAs condition) (hw : ReadsBefore True w e)
    (ha : ReadAs a.tokens alternative) :
    ReadsBefore b (c.written ++ w ++ a.written)
      (.ifThenElse (c.opening.span.through alternative.span) condition e alternative) := by
  intro r hr _
  have hbranch := hw (a.opening :: (a.tokens ++ r)) (quiet_cons a.is_opening (by decide))
    fun _ => trivial
  have hlast := (ha r hr.starts_eq_false.2).expression_of_operand hr
  have hread := Reading.ifThenElse c.is_opening (hc _) c.is_closing hbranch a.is_opening hlast
  simpa [Condition.written, Alternative.written] using hread.expression_of_operand hr

/-- A conditional without one takes the next. -/
theorem ReadsBefore.ifThen (hc : c.ReadsAs condition) (hw : ReadsBefore False w e) :
    ReadsBefore False (c.written ++ w)
      (.ifThen (c.opening.span.through e.span) condition e) := by
  intro r hr helse
  have hnone : starts r "else" = false := Bool.eq_false_iff.2 helse
  have hread := Reading.ifThen c.is_opening (hc _) c.is_closing (hw r hr helse) hnone
  simpa [Condition.written] using hread.expression_of_operand hr

/-- Conditionals around a branch are read from the innermost on. If each of them takes an
alternative, then another may follow. -/
theorem ReadsBefore.exists_nest {b : Prop} (hlen : as.length ≤ cs.length)
    (hb : b → as.length = cs.length) (hs : ∀ t ∈ nestTokens cs w as, t.Spelt)
    (hw : ReadsBefore (as ≠ [] ∨ b) w e) :
    ∃ (heads : List (Span × Expr)) (trees : List Expr),
      List.Forall₂ (fun c h => h.1 = c.opening.span ∧ c.HasTree h.2) cs heads ∧
      List.Forall₂ (fun a x => OperandTree a.tokens x) as trees ∧
      ReadsBefore b (nestTokens cs w as) (nest e heads trees) := by
  induction cs generalizing w e as with
  | nil =>
    obtain rfl : as = [] := List.eq_nil_of_length_eq_zero (Nat.le_zero.1 hlen)
    exact ⟨[], [], .nil, .nil, by simpa [nest] using hw.mono .inr⟩
  | cons c cs ih =>
    obtain ⟨condition, hc⟩ := Condition.exists_tree (c := c) fun t ht =>
      hs t (by simp [nestTokens, Condition.written, ht])
    cases as with
    | nil =>
      have hopen : ¬b := fun h => by cases hb h
      rw [nestTokens_cons_nil] at hs ⊢
      have hfirst := ReadsBefore.ifThen hc (hw.mono False.elim)
      obtain ⟨heads, trees, hheads, htrees, hread⟩ := ih (Nat.zero_le _) (absurd · hopen) hs
        (hfirst.mono fun h => h.elim (· rfl) hopen)
      cases htrees
      exact ⟨(c.opening.span, condition) :: heads, [], .cons ⟨rfl, hc.hasTree⟩ hheads, .nil, hread⟩
    | cons a as =>
      obtain ⟨alternative, ha⟩ := a.isOperand.exists_tree fun t ht =>
        hs t (by simp [nestTokens, Alternative.written, ht])
      rw [nestTokens_cons] at hs ⊢
      have hfirst : ReadsBefore True w e := hw.mono fun _ => .inl (List.cons_ne_nil a as)
      obtain ⟨heads, trees, hheads, htrees, hread⟩ := ih (Nat.le_of_succ_le_succ hlen)
        (fun h => Nat.succ_injective (hb h)) hs (.ifThenElse hc hfirst ha)
      exact ⟨(c.opening.span, condition) :: heads, alternative :: trees,
        .cons ⟨rfl, hc.hasTree⟩ hheads, .cons ha.operandTree htrees, hread⟩

/-- Conditionals inside of each other are read to the last alternative, each of which belongs to the
innermost conditional that has none before it. The outer ones are left without. Another alternative
is left unread if none of them is. -/
theorem expression_of_conditionals {s : TokenStream} (hs : ∀ t ∈ nestTokens cs w as, t.Spelt)
    (hw : IsOperand w) (hlen : as.length ≤ cs.length) (hahead : s.ahead = nestTokens cs w as ++ r)
    (hr : ∀ t ∈ r.head?, ¬t.IsBinary ∧ t.is "=" = false ∧ t.is "(" = false ∧
      (t.is "else" = true → as.length = cs.length)) :
    ∃ (branch : Expr) (heads : List (Span × Expr)) (trees : List Expr),
      OperandTree w branch ∧
      List.Forall₂ (fun c h => h.1 = c.opening.span ∧ c.HasTree h.2) cs heads ∧
      List.Forall₂ (fun a x => OperandTree a.tokens x) as trees ∧
      Grammar.expression s = .ok (nest branch heads trees) (s.pass (nestTokens cs w as)) := by
  have hquiet : Quiet r := fun t ht =>
    ⟨looser_or_iff.2 (hr t ht).1, (hr t ht).2.1, (hr t ht).2.2.1⟩
  have helse : starts r "else" = true → as.length = cs.length := by
    cases r with
    | nil => intro h; cases h
    | cons t r => exact (hr t rfl).2.2.2
  obtain ⟨branch, hbranch⟩ := hw.exists_tree fun t ht => hs t (by simp [nestTokens, ht])
  obtain ⟨heads, trees, hheads, htrees, hread⟩ := ReadsBefore.exists_nest hlen id hs
    hbranch.readsBefore
  refine ⟨branch, heads, trees, hbranch.operandTree, hheads, htrees, ?_⟩
  have hexpression := Rule.denotes_expression (Rule.denotes_operand s.remaining) s.remaining
  exact (hexpression (Nat.le_refl _) s (Nat.le_refl _) _ _).2
    ⟨_, r, hahead, rfl, hread r hquiet helse⟩

/-- Two conditionals and one alternative, which the inner one takes. -/
theorem expression_of_conditionals_two :
    let word (kind : Token.Kind) (text : String) : Token := ⟨kind, text, .null⟩
    ∃ (inner outer : Condition) (a : Alternative) (s : TokenStream),
      s.ahead = nestTokens [inner, outer] [word .identifier "x"] [a] ++ [word .punctuation ";"] ∧
      s.ahead.map Token.text = ["if", "p", "then", "if", "q", "then", "x", "else", "y", ";"] ∧
      ∃ (branch p q alternative : Expr),
        OperandTree [word .identifier "x"] branch ∧ outer.HasTree p ∧ inner.HasTree q ∧
        OperandTree a.tokens alternative ∧
        Grammar.expression s = .ok
          (.ifThen (outer.opening.span.through (inner.opening.span.through alternative.span)) p
            (.ifThenElse (inner.opening.span.through alternative.span) q branch alternative))
          (s.pass (nestTokens [inner, outer] [word .identifier "x"] [a])) := by
  intro word
  let condition (name : String) (h : (word .identifier name).IsName) : Condition :=
    ⟨word .identifier "if", [word .identifier name], word .identifier "then", by decide,
      .value (.unary (.primary (.name h))), by decide⟩
  let inner := condition "q" (by decide)
  let outer := condition "p" (by decide)
  have hx : IsOperand [word .identifier "x"] := .atom (.name (by decide)) (by decide) (by decide)
  have hy : IsOperand [word .identifier "y"] := .atom (.name (by decide)) (by decide) (by decide)
  let a : Alternative := ⟨word .identifier "else", [word .identifier "y"], by decide, hy⟩
  have hspelt : ∀ t ∈ nestTokens [inner, outer] [word .identifier "x"] [a], t.Spelt := by
    show ∀ t ∈ ["if", "p", "then", "if", "q", "then", "x", "else", "y"].map (word .identifier),
      t.Spelt
    unfold Token.Spelt
    decide
  have hsemicolon : ¬(word .punctuation ";").IsBinary := by decide
  let s : TokenStream :=
    ⟨"", none, nestTokens [inner, outer] [word .identifier "x"] [a] ++ [word .punctuation ";"],
      Token.endAfter none, rfl⟩
  obtain ⟨branch, heads, trees, hbranch, hheads, htrees, hrun⟩ :=
    expression_of_conditionals (s := s) hspelt hx (Nat.le_succ 1) rfl
      (by rintro t ⟨⟩; exact ⟨hsemicolon, by decide, by decide, fun h => absurd h (by decide)⟩)
  obtain _ | @⟨_, ⟨_, q⟩, _, _, ⟨rfl, hq⟩, hheads⟩ := hheads
  obtain _ | @⟨_, ⟨_, p⟩, _, _, ⟨rfl, hp⟩, ⟨⟩⟩ := hheads
  obtain _ | ⟨ha, ⟨⟩⟩ := htrees
  exact ⟨inner, outer, a, s, rfl, rfl, branch, p, q, _, hbranch, hp, hq, ha, hrun⟩

end Grammar

end ExprLang
