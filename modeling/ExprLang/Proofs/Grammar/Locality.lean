import ExprLang.Proofs.Grammar.Programs
import ExprLang.Proofs.Parser.Locality

/-!
The rules of the grammar look no further than the token where they stop. Main statement: so does the
rule of programs, whatever its bound.
-/

namespace ExprLang.Rule

open ExprLang.Parser ExprLang.Token

variable {operand : Parser Expr}

theorem local_functionType {part : Parser Ascription} (h : Local part) (n : Nat) :
    Local (functionType part n) :=
  (local_expect "(").bind fun _ => (local_commaSeparated h n).bind fun _ =>
    (local_demand ")" _).bind fun _ => (local_expect "=>").bind fun _ =>
    h.bind fun _ => local_pure _

theorem local_ascription : ∀ n, Local (ascription n)
  | 0 => local_unexpected _
  | n + 1 => by
    refine local_current fun s => ?_
    split
    · exact local_functionType (local_ascription n) n s
    · split
      next h =>
        exact (localAt_advance (by simp [isEnd, h.1])).bind fun _ => local_pure _
      next => exact local_unexpected _ s

theorem local_leaning (l : Level) (h : Local operand) :
    ∀ (n : Nat) (left : Expr), Local (leaning l operand n left)
  | 0, left => local_pure left
  | n + 1, left => by
    refine local_current fun s => ?_
    split
    · exact local_pure left s
    next op hop =>
      exact (localAt_advance (isEnd_of_operatorOf hop)).bind fun _ => h.bind fun right =>
        local_leaning l h n _

theorem local_binary (h : Local operand) (n : Nat) (l : Level) : Local (binary operand n l) := by
  unfold binary
  induction l.tiers with
  | nil => exact h
  | cons level tiers ih => exact ih.bind fun left => local_leaning level ih n left

theorem local_assignment (target : Expr) {value : Parser Expr} (h : Local value) :
    Local (assignment target value) :=
  (local_expect "=").bind fun _ => h.bind fun _ => local_pure _

theorem local_expression (h : Local operand) : ∀ n, Local (expression operand n)
  | 0 => local_binary h 0 .or
  | n + 1 => (local_binary h (n + 1) .or).bind fun target =>
      local_ite "=" (local_assignment target (local_expression h n)) (local_pure target)

theorem local_ascriptionOption (n : Nat) : Local (ascriptionOption n) :=
  local_take ":" ((local_ascription n).bind fun _ => local_pure _) (local_pure none)

theorem local_declaration (h : Local operand) (n : Nat) : Local (declaration operand n) :=
  (local_expect "var").bind fun _ => local_identifier.bind fun _ =>
    (local_ascriptionOption n).bind fun _ => (local_expect "=").bind fun _ =>
    (local_expression h n).bind fun _ => local_pure _

theorem local_statement (h : Local operand) (n : Nat) : Local (statement operand n) :=
  local_ite "var" (local_declaration h n) (local_expression h n)

theorem local_behindItem {rest : Parser (List Expr × Expr)} (h : Local rest) (item : Expr) :
    Local (behindItem rest item) := by
  have hpush := h.bind fun x => local_pure (item :: x.1, x.2)
  refine local_take ";" hpush (local_test (fun s t hp hc => ?_) hpush ?_)
  · simp only [TokenStream.followsBrace, TokenStream.previousIs, hp, hc]
  · split
    · exact local_throw _
    · exact local_pure _

theorem local_blockItems {statement : Parser Expr} (h : Local statement) :
    ∀ n, Local (blockItems statement n)
  | 0 => h.bind fun _ => local_pure _
  | n + 1 => by
    refine local_current fun s => ?_
    split
    · exact local_pure _ s
    · exact (h.bind fun item => local_behindItem (local_blockItems h n) item) s

theorem local_block (h : Local operand) (n : Nat) : Local (block operand n) :=
  (local_expect openBrace).bind fun _ => (local_blockItems (local_statement h n) n).bind fun _ =>
    (local_demand closeBrace _).bind fun _ => local_pure _

theorem local_grouping (h : Local operand) (n : Nat) : Local (grouping operand n) :=
  (local_expect "(").bind fun _ => (local_expression h n).bind fun _ =>
    (local_expect ")").bind fun _ => local_pure _

theorem local_conditional (h : Local operand) (n : Nat) : Local (conditional operand n) :=
  (local_expect "if").bind fun _ => (local_expression h n).bind fun _ =>
    (local_expect "then").bind fun _ => (local_expression h n).bind fun _ =>
    local_take "else" ((local_expression h n).bind fun _ => local_pure _) (local_pure _)

theorem local_loop (h : Local operand) (n : Nat) : Local (loop operand n) :=
  (local_expect "while").bind fun _ => (local_expression h n).bind fun _ =>
    (local_expect "do").bind fun _ => (local_expression h n).bind fun _ => local_pure _

theorem local_arguments (h : Local operand) (n : Nat) : Local (arguments operand n) :=
  local_ite ")" (local_pure []) (local_commaSeparated (local_expression h n) n)

theorem local_call (h : Local operand) (n : Nat) (callee : Identifier) :
    Local (call operand n callee) :=
  (local_expect "(").bind fun _ => (local_arguments h n).bind fun _ =>
    (local_demand ")" _).bind fun _ => local_pure _

theorem local_nameOrCall (h : Local operand) (n : Nat) : Local (nameOrCall operand n) :=
  local_identifier.bind fun name => local_ite "(" (local_call h n name) (local_pure _)

variable {s : TokenStream}

theorem localAt_signed (h : Local operand) (hs : s.current.isEnd = false) :
    LocalAt (signed operand) s := by
  refine LocalAt.current_bind ?_
  split
  · exact local_unexpected _ s
  · exact (localAt_advance hs).bind fun _ => h.bind fun _ => local_pure _

theorem localAt_integer (hs : s.current.isEnd = false) : LocalAt integer s := by
  refine LocalAt.current_bind ?_
  split
  · exact local_throw _ s
  · exact (localAt_advance hs).bind fun _ => local_pure _

theorem localAt_boolean (hs : s.current.isEnd = false) : LocalAt boolean s :=
  (localAt_advance hs).bind fun _ => local_pure _

theorem local_primary (h : Local operand) (n : Nat) : Local (primary operand n) := by
  refine local_current fun s => ?_
  split
  · exact local_grouping h n s
  split
  · exact local_block h n s
  split
  next hsign => exact localAt_signed h (isEnd_eq_false_of_isOneOf hsign)
  split
  · exact local_conditional h n s
  split
  · exact local_loop h n s
  split
  next hk => exact localAt_integer (by simp [isEnd, hk])
  next hk => exact localAt_boolean (by simp [isEnd, hk])
  · split
    · exact local_unexpected _ s
    · exact local_nameOrCall h n s
  all_goals exact local_unexpected _ s

theorem local_operand : ∀ n, Local (Rule.operand n)
  | 0 => local_unexpected _
  | n + 1 => local_primary (local_operand n) n

theorem local_behindStatement {rest : Parser (List Expr)} (h : Local rest) (isFirst : Bool)
    (item : Expr) : Local (behindStatement rest isFirst item) := by
  have hpush := h.bind fun items => local_pure (item :: items)
  refine local_take ";" hpush (local_test (fun s t hp _ => ?_) hpush
    (local_test (fun s t _ hc => ?_) (local_pure _) (local_unexpected _)))
  · simp only [TokenStream.previousIs, hp]
  · simp only [TokenStream.hasTokens, hc]

theorem local_statements {statement : Parser Expr} (h : Local statement) :
    ∀ n isFirst, Local (statements statement n isFirst)
  | 0, _ => local_pure []
  | n + 1, isFirst => by
    refine local_test (fun s t _ hc => ?_)
      (h.bind fun item => local_behindStatement (local_statements h n false) isFirst item)
      (local_pure [])
    simp only [TokenStream.hasTokens, hc]

theorem local_assemble (es : List Expr) : Local (assemble es) := by
  match es with
  | [] => exact local_unexpected _
  | [only] => exact local_pure only
  | first :: second :: rest => exact local_current fun s => local_pure _ s

theorem local_program (n : Nat) : Local (program n) :=
  (local_statements (local_statement (local_operand n) n) n true).bind local_assemble

end ExprLang.Rule
