import ExprLang.Proofs.Grammar.Programs
import ExprLang.Proofs.Parser.Likeness

/-!
The rules on token lists that are read alike. Main statement: so are whole programs.
-/

namespace ExprLang.Rule

open ExprLang.Parser

variable {L : Likeness}

theorem keeps_functionType {part : Parser Ascription} (h : L.Keeps L.ascription part part)
    (n : Nat) : L.Keeps L.ascription (functionType part n) (functionType part n) := by
  apply (keeps_expect "(" (by decide)).bind
  intro _ _ _
  apply (keeps_commaSeparated h n).bind
  intro ps qs hparams
  apply (keeps_demand ")" (by decide) _).bind
  intro _ _ _
  apply (keeps_expect "=>" (by decide)).bind
  intro _ _ _
  apply h.bind
  intro r q hresult
  exact keeps_pure (L.functionType hparams hresult)

theorem keeps_ascription : ∀ n, L.Keeps L.ascription (ascription n) (ascription n)
  | 0 => keeps_unexpected _
  | n + 1 => by
    apply keeps_current.bind
    intro x y hxy
    apply Lockstep.keepsUnless_ite (by rw [L.is_eq hxy "(" (by decide)])
    · intro _
      exact keeps_functionType (keeps_ascription n) n
    intro _
    have htext (hkind : x.kind = .identifier) : x.text = y.text :=
      L.text_eq hxy (by rw [hkind]; decide)
    apply Lockstep.keepsUnless_ite
    · rw [← L.kind_eq hxy]
      exact and_congr_right fun hkind => by rw [htext hkind]
    · intro hname
      exact keeps_advance.bind fun _ _ _ => keeps_pure (L.typeName hxy (htext hname.1))
    · intro _
      exact keeps_unexpected _

theorem keeps_ascriptionOption (n : Nat) :
    L.Keeps (Option.Rel L.ascription) (ascriptionOption n) (ascriptionOption n) :=
  keeps_take ":" (by decide) ((keeps_ascription n).bind fun _ _ hab => keeps_pure (.some hab))
    (keeps_pure .none)

/-- Statements and the result behind them. -/
def ItemsAlike (L : Likeness) (x y : List Expr × Expr) : Prop :=
  List.Forall₂ L.expr x.1 y.1 ∧ L.expr x.2 y.2

theorem keeps_behindItem {rest : Parser (List Expr × Expr)} (h : L.Keeps (ItemsAlike L) rest rest)
    {a b : Expr} (hab : L.expr a b) :
    L.Keeps (ItemsAlike L) (behindItem rest a) (behindItem rest b) := by
  have hpush : L.Keeps (ItemsAlike L)
      (rest >>= fun x => pure (a :: x.1, x.2)) (rest >>= fun x => pure (b :: x.1, x.2)) :=
    h.bind fun _ _ hxy => keeps_pure ⟨.cons hab hxy.1, hxy.2⟩
  apply keeps_take ";" (by decide) hpush
  apply keeps_test (fun _ _ hst => Likeness.followsBrace_eq hst) hpush
  apply Lockstep.keepsUnless_ite (by rw [L.isDeclaration_eq hab])
  · intro _
    exact keeps_throw (L.declarationAsResult hab)
  · intro _
    exact keeps_pure ⟨.nil, hab⟩

theorem keeps_blockItems {statement : Parser Expr} (h : L.Keeps L.expr statement statement) :
    ∀ n, L.Keeps (ItemsAlike L) (blockItems statement n) (blockItems statement n)
  | 0 => h.bind fun _ _ hab => keeps_pure ⟨.nil, hab⟩
  | n + 1 => by
    apply keeps_current.bind
    intro x y hxy
    apply Lockstep.keepsUnless_ite (by rw [L.is_eq hxy Token.closeBrace (by decide)])
    · intro _
      exact keeps_pure ⟨.nil, L.implicitUnit hxy⟩
    · intro _
      exact h.bind fun _ _ hab => keeps_behindItem (keeps_blockItems h n) hab

theorem keeps_assignment {a b : Expr} (hab : L.expr a b) {value : Parser Expr}
    (h : L.Keeps L.expr value value) :
    L.Keeps L.expr (assignment a value) (assignment b value) := by
  apply (keeps_expect "=" (by decide)).bind
  intro _ _ _
  apply h.bind
  intro c d hcd
  exact keeps_pure (L.assignment (L.expr_start hab) hab hcd)

/-- Where only the first numeral is out of range the first run is excused. -/
theorem keeps_integer : L.Keeps L.expr integer integer := by
  apply keeps_current.bind
  intro x y hxy
  have hnumeral := L.numeral hxy
  cases hx : Text.int64? x.text with
  | none =>
    cases hy : Text.int64? y.text with
    | none =>
      rw [hx, hy] at hnumeral
      exact keeps_throw hnumeral
    | some n =>
      rw [hx, hy] at hnumeral
      exact Lockstep.keepsUnless_throw hnumeral
  | some m =>
    cases hy : Text.int64? y.text with
    | none =>
      rw [hx, hy] at hnumeral
      exact hnumeral.elim
    | some n =>
      rw [hx, hy] at hnumeral
      exact keeps_advance.bind fun _ _ _ => keeps_pure hnumeral

theorem keeps_boolean : L.Keeps L.expr boolean boolean :=
  keeps_advance.bind fun _ _ hxy => keeps_pure (L.boolean hxy)

theorem operatorOf_eq {x y : Token} (h : L.token x y) (l : Level) :
    operatorOf l x = operatorOf l y := by
  have hop : ∀ op : BinaryOp, x.is op.text = y.is op.text :=
    fun op => L.is_eq h op.text (by cases op <;> decide)
  unfold operatorOf
  rw [funext hop]

/-- Signs and negations are told by their texts, which no numeral has. -/
theorem unaryOp_eq {x y : Token} (h : L.token x y) :
    UnaryOp.ofText? x.text = UnaryOp.ofText? y.text := by
  by_cases hkind : x.kind = .integer
  · have hend : x.isEnd = false ∧ y.isEnd = false := by
      rw [← Likeness.isEnd_eq h]
      simp [Token.isEnd, hkind]
    have hop : ∀ op : UnaryOp, (op.text == x.text) = (op.text == y.text) := by
      intro op
      have his := L.is_eq h op.text (by cases op <;> decide)
      simp only [Token.is, hend.1, hend.2, Bool.not_false, Bool.true_and] at his
      rw [Bool.beq_comm, his, Bool.beq_comm]
    unfold UnaryOp.ofText?
    rw [funext hop]
  · rw [L.text_eq h hkind]

section Operands

variable {operand : Parser Expr} (h : L.Keeps L.expr operand operand)

include h

theorem keeps_leaning (l : Level) : ∀ (n : Nat) (a b : Expr), L.expr a b →
    L.Keeps L.expr (leaning l operand n a) (leaning l operand n b)
  | 0, _, _, hab => keeps_pure hab
  | n + 1, a, b, hab => by
    apply keeps_current.bind
    intro x y hxy
    rw [operatorOf_eq hxy]
    split
    · exact keeps_pure hab
    · apply keeps_advance.bind
      intro _ _ _
      apply h.bind
      intro c d hcd
      refine keeps_leaning l n _ _ (L.binary ?_ _ hab hcd)
      exact L.expr_start hab

theorem keeps_binary (n : Nat) (l : Level) :
    L.Keeps L.expr (binary operand n l) (binary operand n l) := by
  unfold binary
  induction l.tiers with
  | nil => exact h
  | cons level tiers ih => exact ih.bind fun a b hab => keeps_leaning ih level n a b hab

theorem keeps_expression : ∀ n, L.Keeps L.expr (expression operand n) (expression operand n)
  | 0 => keeps_binary h 0 .or
  | n + 1 => (keeps_binary h (n + 1) .or).bind fun _ _ hab =>
      keeps_is "=" (by decide) (keeps_assignment hab (keeps_expression n)) (keeps_pure hab)

theorem keeps_declaration (n : Nat) :
    L.Keeps L.expr (declaration operand n) (declaration operand n) := by
  apply (keeps_expect "var" (by decide)).bind
  intro start start' hstart
  apply keeps_identifier.bind
  intro name name' hname
  apply (keeps_ascriptionOption n).bind
  intro written written' hwritten
  apply (keeps_expect "=" (by decide)).bind
  intro _ _ _
  apply (keeps_expression h n).bind
  intro value value' hvalue
  exact keeps_pure (L.declaration (L.token_start hstart) hname hwritten hvalue)

theorem keeps_statement (n : Nat) :
    L.Keeps L.expr (statement operand n) (statement operand n) :=
  keeps_is "var" (by decide) (keeps_declaration h n) (keeps_expression h n)

theorem keeps_block (n : Nat) : L.Keeps L.expr (block operand n) (block operand n) := by
  apply (keeps_expect Token.openBrace (by decide)).bind
  intro start start' hstart
  apply (keeps_blockItems (keeps_statement h n) n).bind
  intro items items' hitems
  apply (keeps_demand Token.closeBrace (by decide) _).bind
  intro _ _ _
  exact keeps_pure (L.block (L.token_start hstart) hitems.1 hitems.2)

theorem keeps_grouping (n : Nat) : L.Keeps L.expr (grouping operand n) (grouping operand n) :=
  (keeps_expect "(" (by decide)).bind fun _ _ _ => (keeps_expression h n).bind fun _ _ hab =>
    (keeps_expect ")" (by decide)).bind fun _ _ _ => keeps_pure hab

theorem keeps_conditional (n : Nat) :
    L.Keeps L.expr (conditional operand n) (conditional operand n) := by
  apply (keeps_expect "if" (by decide)).bind
  intro start start' hstart
  apply (keeps_expression h n).bind
  intro condition condition' hcondition
  apply (keeps_expect "then" (by decide)).bind
  intro _ _ _
  apply (keeps_expression h n).bind
  intro consequent consequent' hconsequent
  apply keeps_take "else" (by decide)
  · apply (keeps_expression h n).bind
    intro alternative alternative' halternative
    exact keeps_pure (L.ifThenElse (L.token_start hstart) hcondition hconsequent halternative)
  · exact keeps_pure (L.ifThen (L.token_start hstart) hcondition hconsequent)

theorem keeps_loop (n : Nat) : L.Keeps L.expr (loop operand n) (loop operand n) := by
  apply (keeps_expect "while" (by decide)).bind
  intro start start' hstart
  apply (keeps_expression h n).bind
  intro condition condition' hcondition
  apply (keeps_expect "do" (by decide)).bind
  intro _ _ _
  apply (keeps_expression h n).bind
  intro body body' hbody
  exact keeps_pure (L.loop (L.token_start hstart) hcondition hbody)

theorem keeps_signed : L.Keeps L.expr (signed operand) (signed operand) := by
  apply keeps_current.bind
  intro x y hxy
  rw [unaryOp_eq hxy]
  split
  · exact keeps_unexpected _
  · apply keeps_advance.bind
    intro _ _ _
    apply h.bind
    intro a b hab
    refine keeps_pure (L.unary ?_ _ hab)
    exact L.token_start hxy

theorem keeps_arguments (n : Nat) :
    L.Keeps (List.Forall₂ L.expr) (arguments operand n) (arguments operand n) :=
  keeps_is ")" (by decide) (keeps_pure .nil) (keeps_commaSeparated (keeps_expression h n) n)

theorem keeps_call (n : Nat) {callee callee' : Identifier} (hcallee : L.name callee callee') :
    L.Keeps L.expr (call operand n callee) (call operand n callee') := by
  apply (keeps_expect "(" (by decide)).bind
  intro _ _ _
  apply (keeps_arguments h n).bind
  intro as bs hargs
  apply (keeps_demand ")" (by decide) _).bind
  intro _ _ _
  exact keeps_pure (L.call (L.name_start hcallee) hcallee hargs)

theorem keeps_nameOrCall (n : Nat) :
    L.Keeps L.expr (nameOrCall operand n) (nameOrCall operand n) :=
  keeps_identifier.bind fun _ _ hname =>
    keeps_is "(" (by decide) (keeps_call h n hname) (keeps_pure (L.identifier hname))

theorem keeps_primary (n : Nat) : L.Keeps L.expr (primary operand n) (primary operand n) := by
  apply keeps_current.bind
  intro x y hxy
  rw [L.is_eq hxy "(" (by decide), L.is_eq hxy Token.openBrace (by decide),
    L.is_eq hxy "if" (by decide), L.is_eq hxy "while" (by decide),
    Likeness.isOneOf_eq hxy (by decide), L.kind_eq hxy, Likeness.isReserved_eq hxy]
  split
  · exact keeps_grouping h n
  split
  · exact keeps_block h n
  split
  · exact keeps_signed h
  split
  · exact keeps_conditional h n
  split
  · exact keeps_loop h n
  split
  · exact keeps_integer
  · exact keeps_boolean
  · split
    · exact keeps_unexpected _
    · exact keeps_nameOrCall h n
  all_goals exact keeps_unexpected _

end Operands

theorem keeps_operand : ∀ n, L.Keeps L.expr (Rule.operand n) (Rule.operand n)
  | 0 => keeps_unexpected _
  | n + 1 => keeps_primary (keeps_operand n) n

theorem keeps_behindStatement {rest : Parser (List Expr)}
    (h : L.Keeps (List.Forall₂ L.expr) rest rest) (isFirst : Bool) {a b : Expr}
    (hab : L.expr a b) : L.Keeps (List.Forall₂ L.expr)
      (behindStatement rest isFirst a) (behindStatement rest isFirst b) := by
  have hpush : L.Keeps (List.Forall₂ L.expr)
      (rest >>= fun es => pure (a :: es)) (rest >>= fun es => pure (b :: es)) :=
    h.bind fun _ _ hrest => keeps_pure (.cons hab hrest)
  apply keeps_take ";" (by decide) hpush
  apply keeps_test (fun _ _ hst => L.previousIs_eq hst) hpush
  apply keeps_test (fun _ _ hst => by rw [Likeness.hasTokens_eq hst])
  · exact keeps_pure (.cons hab .nil)
  · exact keeps_unexpected _

theorem keeps_statements {statement : Parser Expr} (h : L.Keeps L.expr statement statement) :
    ∀ n isFirst, L.Keeps (List.Forall₂ L.expr)
      (statements statement n isFirst) (statements statement n isFirst)
  | 0, _ => keeps_pure .nil
  | n + 1, isFirst => keeps_test (fun _ _ hst => Likeness.hasTokens_eq hst)
      (h.bind fun _ _ hab => keeps_behindStatement (keeps_statements h n false) isFirst hab)
      (keeps_pure .nil)

theorem keeps_assemble {es es' : List Expr} (h : List.Forall₂ L.expr es es') :
    L.Keeps L.expr (assemble es) (assemble es') := by
  match es, es', h with
  | [], [], .nil => exact keeps_unexpected _
  | [_], [_], .cons hab .nil => exact keeps_pure hab
  | _ :: _ :: _, _ :: _ :: _, .cons hab hrest =>
    exact keeps_current.bind fun _ _ hxy =>
      keeps_pure (L.block (L.expr_start hab) (.cons hab hrest) (L.implicitUnit hxy))

theorem keeps_program (n : Nat) : L.Keeps L.expr (program n) (program n) :=
  (keeps_statements (keeps_statement (keeps_operand n) n) n true).bind fun _ _ h =>
    keeps_assemble h

end ExprLang.Rule

/-- Programs that are alike are read alike. -/
theorem ExprLang.Grammar.keeps_program {L : Likeness} : L.Keeps L.expr program program :=
  Parser.keeps_bounded Rule.keeps_program
