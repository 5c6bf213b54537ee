import ExprLang.Expr.Agreement
import ExprLang.Proofs.Grammar.Completeness
import ExprLang.Proofs.Grammar.Levels
import ExprLang.Proofs.Printing.Spelling

/-!
What a tree is written as stands for itself. Main statements: one for each form of a tree, that its
lexemes are read as an operand of its shape if those of its parts are.
-/

namespace ExprLang

open ExprLang.Token (starts finishes openBrace closeBrace Spelt Spells)
open ExprLang.Grammar (Reading Quiet quiet_cons)

namespace Token

variable {w : List Token} {x y : String} {xs ys : List String}

/-- The tokens of a text between two marks. -/
theorem Spells.bracketed (h : Spells w (x :: (xs ++ [y]))) :
    ∃ o v c, w = o :: (v ++ [c]) ∧ o.is x = true ∧ Spells v xs ∧ c.is y = true := by
  obtain ⟨o, u, rfl, -, ho, hu⟩ := h.cons
  obtain ⟨v, z, rfl, hv, hz⟩ := hu.append
  obtain ⟨c, z, rfl, -, hc, hnil⟩ := hz.cons
  obtain rfl := spells_nil_iff.1 hnil
  exact ⟨o, v, c, rfl, ho, hv, hc⟩

/-- The tokens of two texts with a mark between them. -/
theorem Spells.parted (h : Spells w (xs ++ x :: ys)) :
    ∃ u q v, w = u ++ q :: v ∧ Spells u xs ∧ q.is x = true ∧ Spells v ys := by
  obtain ⟨u, z, rfl, hu, hz⟩ := h.append
  obtain ⟨q, v, rfl, -, hq, hv⟩ := hz.cons
  exact ⟨u, q, v, rfl, hu, hq, hv⟩

theorem Spells.single (h : Spells w [x]) : ∃ t, w = [t] ∧ t.Spelt ∧ t.is x = true := by
  obtain ⟨t, v, rfl, hs, ht, hv⟩ := h.cons
  obtain rfl := spells_nil_iff.1 hv
  exact ⟨t, rfl, hs, ht⟩

theorem Spelt.isName {t : Token} (hs : t.Spelt) (ht : t.is x = true) (hx : isName x = true) :
    t.IsName := by
  obtain ⟨hkind, hreserved⟩ := kindOf?_of_isName hx
  have hk : t.kind = .identifier := Option.some_inj.1 ((hs.kind_of_is ht).symm.trans hkind)
  refine isName_iff.2 ⟨hk, ?_⟩
  rw [isReserved, text_of_is ht, hreserved, Bool.and_false]

end Token

namespace Expr

attribute [local simp] lexemes Tree.agree

/-- The lexemes of the tree are read as an operand of its shape, unless arguments follow. -/
def Readable (e : Expr) : Prop :=
  ∀ w r, Spells w e.lexemes → starts r "(" = false →
    ∃ e' : Expr, Reading .operand w r [e'] ∧ e'.sameShape e = true

/-- The lexemes of the tree are read as a statement of its shape, if nothing goes on with it. -/
def ReadableStatement (e : Expr) : Prop :=
  ∀ w r, Spells w e.lexemes → Quiet r →
    ∃ e' : Expr, Reading .statement w r [e'] ∧ e'.sameShape e = true

variable {e : Expr} {w r : List Token} {x : String} {l : Span}

theorem Readable.expression (h : Readable e) (hw : Spells w e.lexemes) (hr : Quiet r) :
    ∃ e' : Expr, Reading .expression w r [e'] ∧ e'.sameShape e = true := by
  obtain ⟨e', he', hshape⟩ := h w r hw hr.starts_eq_false.2
  exact ⟨e', he'.expression_of_operand hr, hshape⟩

theorem Readable.statement (h : Readable e) : ReadableStatement e := by
  intro w r hw hr
  obtain ⟨e', he', hshape⟩ := h.expression hw hr
  -- An expression starts with none of the texts that start a declaration.
  have hvar := (he'.sound hw.spelt).starts_eq_false hw.spelt (x := "var") (by decide)
  exact ⟨e', .statement hvar he', hshape⟩

/-- What stands in round brackets is an operand if it is an expression. -/
theorem readable_of_bracketed (xs : List String) (hxs : e.lexemes = "(" :: (xs ++ [")"]))
    (h : ∀ v c r, Spells v xs → c.is ")" = true →
      ∃ e' : Expr, Reading .expression v (c :: r) [e'] ∧ e'.sameShape e = true) : Readable e := by
  intro w r hw _
  rw [hxs] at hw
  obtain ⟨o, v, c, rfl, ho, hv, hc⟩ := hw.bracketed
  obtain ⟨e', he', hshape⟩ := h v c r hv hc
  exact ⟨e', .grouping ho he' hc, hshape⟩

theorem readable_int {value : Int} (h : Expr.wellNamed (.literal l (.int value)) = true) :
    Readable (.literal l (.int value)) := by
  simp only [wellNamed, Bool.and_eq_true, decide_eq_true_eq] at h
  intro w r hw _
  obtain ⟨t, rfl, hs, ht⟩ := hw.single
  have hk : t.kind = .integer :=
    Option.some_inj.1 ((hs.kind_of_is ht).symm.trans (kindOf?_render_int h.1))
  have hv := hs.int64? hk
  have hnumber : t.number = value.toNat := by
    rw [Token.number, Token.text_of_is ht, ofDigitChars_render_int h.1]
  have hle : value.toNat ≤ 9223372036854775807 := Int.toNat_le.2 h.2
  rw [hnumber, if_pos hle] at hv
  refine ⟨_, .integer hk (Grammar.opensOperand_eq_false hs (.inl hk)) hv, ?_⟩
  simp [sameShape, Tree.agree, Int.toNat_of_nonneg h.1]

theorem readable_bool (value : Bool) : Readable (.literal l (.bool value)) := by
  intro w r hw _
  obtain ⟨t, rfl, hs, ht⟩ := hw.single
  have hk : t.kind = .boolean := by
    refine Option.some_inj.1 ((hs.kind_of_is ht).symm.trans ?_)
    cases value <;> decide
  refine ⟨_, .boolean hk (Grammar.opensOperand_eq_false hs (.inr (.inl hk))), ?_⟩
  rw [Token.text_of_is ht]
  cases value <;> rfl

theorem readable_name (h : isName x = true) : Readable (.identifier l x) := by
  intro w r hw hr
  obtain ⟨t, rfl, hs, ht⟩ := hw.single
  have hname := hs.isName ht h
  refine ⟨_, .name hname (Grammar.opensOperand_eq_false hs (.inr (.inr hname))) hr, ?_⟩
  simp [sameShape, Tree.agree, Token.text_of_is ht]

theorem readable_binary {op : BinaryOp} {left right : Expr} (hl : Readable left)
    (hr : Readable right) : Readable (.binary l op left right) := by
  refine readable_of_bracketed (left.lexemes ++ op.text :: right.lexemes)
    (by simp [lexemes]) fun w c r hw hc => ?_
  obtain ⟨u, q, v, rfl, hu, hq, hv⟩ := hw.parted
  have hquiet : Quiet (c :: r) := quiet_cons hc (by decide)
  have hparen : q.is "(" = false := Token.is_eq_false_of_is hq (by cases op <;> decide)
  -- Each operand ends where its own brackets do, so that levels do not matter.
  obtain ⟨a, ha, hashape⟩ := hl u (q :: (v ++ c :: r)) hu hparen
  obtain ⟨b, hb, hbshape⟩ := hr v (c :: r) hv hquiet.starts_eq_false.2
  refine ⟨_, ha.join hq hb hquiet, ?_⟩
  unfold sameShape at *
  simp [Tree.agree, hashape, hbshape]

theorem readable_assignment {target value : Expr} (ht : Readable target) (hv : Readable value) :
    Readable (.assignment l target value) := by
  refine readable_of_bracketed (target.lexemes ++ "=" :: value.lexemes)
    (by simp [lexemes]) fun w c r hw hc => ?_
  obtain ⟨u, q, v, rfl, hu, hq, hvalue⟩ := hw.parted
  have hquiet : Quiet (c :: r) := quiet_cons hc (by decide)
  have hparen : q.is "(" = false := Token.is_eq_false_of_is hq (by decide)
  have hloose : ∀ t ∈ (q :: (v ++ c :: r)).head?, Grammar.Looser .or t := by
    rintro t ⟨⟩ op -
    exact Token.is_eq_false_of_is hq (by cases op <;> decide)
  obtain ⟨a, ha, hashape⟩ := ht u (q :: (v ++ c :: r)) hu hparen
  obtain ⟨b, hb, hbshape⟩ := hv.expression hvalue hquiet
  refine ⟨_, .assignment (ha.tightest.climb (Nat.zero_le _) hloose) hq hb, ?_⟩
  unfold sameShape at *
  simp [Tree.agree, hashape, hbshape]

theorem readable_unary {op : UnaryOp} {operand : Expr} (h : Readable operand) :
    Readable (.unary l op operand) := by
  refine readable_of_bracketed (op.text :: operand.lexemes)
    (by simp [lexemes]) fun w c r hw hc => ?_
  obtain ⟨t, v, rfl, -, ht, hv⟩ := hw.cons
  have hquiet : Quiet (c :: r) := quiet_cons hc (by decide)
  have hone : t.isOneOf ["-", "not"] = true := by
    simp only [Token.isOneOf, List.any_cons, List.any_nil, Bool.or_false, Bool.or_eq_true]
    cases op with
    | negate => exact .inl ht
    | not => exact .inr ht
  have hop : UnaryOp.ofText? t.text = some op := by
    rw [Token.text_of_is ht]
    exact UnaryOp.ofText?_text op
  obtain ⟨e', he', hshape⟩ := h v (c :: r) hv hquiet.starts_eq_false.2
  refine ⟨_, (Reading.signed hone hop he').expression_of_operand hquiet, ?_⟩
  unfold sameShape at *
  simp [Tree.agree, hshape]

theorem readable_ifThen {condition consequent : Expr} (hc : Readable condition)
    (ht : Readable consequent) : Readable (.ifThen l condition consequent) := by
  refine readable_of_bracketed
    ("if" :: (condition.lexemes ++ "then" :: consequent.lexemes))
    (by simp [lexemes]) fun w c r hw hclose => ?_
  obtain ⟨i, w, rfl, -, hi, hw⟩ := hw.cons
  obtain ⟨u, q, v, rfl, hu, hq, hv⟩ := hw.parted
  have hquiet : Quiet (c :: r) := quiet_cons hclose (by decide)
  obtain ⟨a, ha, hashape⟩ := hc.expression (r := q :: (v ++ c :: r)) hu
    (quiet_cons hq (by decide))
  obtain ⟨b, hb, hbshape⟩ := ht.expression hv hquiet
  have helse : starts (c :: r) "else" = false := Token.is_eq_false_of_is hclose (by decide)
  refine ⟨_, (Reading.ifThen hi ha hq hb helse).expression_of_operand hquiet, ?_⟩
  unfold sameShape at *
  simp [Tree.agree, hashape, hbshape]

theorem readable_ifThenElse {condition consequent alternative : Expr} (hc : Readable condition)
    (ht : Readable consequent) (he : Readable alternative) :
    Readable (.ifThenElse l condition consequent alternative) := by
  refine readable_of_bracketed ("if" :: (condition.lexemes ++
      "then" :: (consequent.lexemes ++ "else" :: alternative.lexemes)))
    (by simp [lexemes]) fun w c r hw hclose => ?_
  obtain ⟨i, w, rfl, -, hi, hw⟩ := hw.cons
  obtain ⟨u, q, w, rfl, hu, hq, hw⟩ := hw.parted
  obtain ⟨v, s, x, rfl, hv, hs, hx⟩ := hw.parted
  have hquiet : Quiet (c :: r) := quiet_cons hclose (by decide)
  obtain ⟨a, ha, hashape⟩ := hc.expression (r := q :: (v ++ s :: (x ++ c :: r))) hu
    (quiet_cons hq (by decide))
  obtain ⟨b, hb, hbshape⟩ := ht.expression (r := s :: (x ++ c :: r)) hv
    (quiet_cons hs (by decide))
  obtain ⟨d, hd, hdshape⟩ := he.expression hx hquiet
  refine ⟨_, (Reading.ifThenElse hi ha hq hb hs hd).expression_of_operand hquiet, ?_⟩
  unfold sameShape at *
  simp [Tree.agree, hashape, hbshape, hdshape]

theorem readable_loop {condition body : Expr} (hc : Readable condition) (hb : Readable body) :
    Readable (.loop l condition body) := by
  refine readable_of_bracketed ("while" :: (condition.lexemes ++ "do" :: body.lexemes))
    (by simp [lexemes]) fun w c r hw hclose => ?_
  obtain ⟨i, w, rfl, -, hi, hw⟩ := hw.cons
  obtain ⟨u, q, v, rfl, hu, hq, hv⟩ := hw.parted
  have hquiet : Quiet (c :: r) := quiet_cons hclose (by decide)
  obtain ⟨a, ha, hashape⟩ := hc.expression (r := q :: (v ++ c :: r)) hu
    (quiet_cons hq (by decide))
  obtain ⟨b, hb, hbshape⟩ := hb.expression hv hquiet
  refine ⟨_, (Reading.loop hi ha hq hb).expression_of_operand hquiet, ?_⟩
  unfold sameShape at *
  simp [Tree.agree, hashape, hbshape]

end Expr

end ExprLang
