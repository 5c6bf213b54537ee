import ExprLang.Proofs.Grammar.Bounds

/-!
The rules without bounds. Main statement: a recursion that goes as deep as the tokens ahead allow
never comes to its end, and so its bound may be left out.
-/

namespace ExprLang.Grammar

open ExprLang.Parser ExprLang.Rule

/-- What the parser calls itself for: its rules, and what is left to do of their loops. -/
inductive Task : Type → Type
  | ascription : Task Ascription
  | functionType : Task Ascription
  | moreTypes : Task (List Ascription)
  | expression : Task Expr
  | assignment (target : Expr) : Task Expr
  | binary (level : Level) : Task Expr
  | leaning (level : Level) (left : Expr) : Task Expr
  | primary : Task Expr
  | grouping : Task Expr
  | conditional : Task Expr
  | loop : Task Expr
  | block : Task Expr
  | blockItems : Task (List Expr × Expr)
  | call (callee : Identifier) : Task Expr
  | moreArguments : Task (List Expr)
  | statement : Task Expr
  | declaration : Task Expr
  | statements (isFirst : Bool) : Task (List Expr)
  | program : Task Expr

/-- An item and those behind it. -/
def listed {α : Type} (item : Parser α) (rest : Parser (List α)) : Parser (List α) := do
  let first ← item
  let rest ← rest
  return first :: rest

/-- One turn of a loop over items behind commas. -/
def behindComma {α : Type} (item : Parser α) (rest : Parser (List α)) : Parser (List α) := do
  if (← current).is "," then
    let _ ← advance
    listed item rest
  else return []

/-- No items in front of `close`. -/
def noneAt {α : Type} (close : String) (items : Parser (List α)) : Parser (List α) := do
  if (← current).is close then return [] else items

/-- An ascription behind a colon, if there is a colon. -/
def behindColon (ascription : Parser Ascription) : Parser (Option Ascription) := do
  if (← current).is ":" then
    let _ ← advance
    return some (← ascription)
  else return none

/-- One turn of a loop over the operators of a level. -/
def lean (level : Level) (left : Expr) (operand : Parser Expr) (rest : Expr → Parser Expr) :
    Parser Expr := do
  match operatorOf level (← current) with
  | none => return left
  | some op =>
    let _ ← advance
    let right ← operand
    rest (.binary (left.span.through right.span) op left right)

namespace Task

section Step

variable (call : {β : Type} → Task β → Parser β)

/-- A task in terms of the tasks that it calls for. Nothing bounds it. -/
def step : {α : Type} → Task α → Parser α
  | _, .ascription => do
    let token ← current
    if token.is "(" then call .functionType
    else if token.kind = .identifier ∧ Ascription.simpleNames.contains token.text then
      let _ ← advance
      return .simple token.text token.span
    else unexpected ascriptionStart
  | _, .functionType => do
    let start ← expect "("
    let params ← listed (call .ascription) (call .moreTypes)
    let _ ← demand ")" (.oneOf [",", ")"])
    let _ ← expect "=>"
    let result ← call .ascription
    return .function params result (start.span.through result.span)
  | _, .moreTypes => behindComma (call .ascription) (call .moreTypes)
  | _, .expression => do
    let target ← call (.binary .or)
    if (← current).is "=" then call (.assignment target) else return target
  | _, .assignment target => Rule.assignment target (call .expression)
  | _, .binary level =>
    if level = .unary then call .primary
    else do
      let left ← call (.binary level.next)
      call (.leaning level left)
  | _, .leaning level left =>
    lean level left (call (.binary level.next)) fun left => call (.leaning level left)
  | _, .primary => do
    let token ← current
    if token.is "(" then call .grouping
    else if token.is Token.openBrace then call .block
    else if token.isOneOf ["-", "not"] then Rule.signed (call (.binary .unary))
    else if token.is "if" then call .conditional
    else if token.is "while" then call .loop
    else match token.kind with
      | .integer => integer
      | .boolean => boolean
      | .identifier =>
        if token.isReserved then unexpected operandStart
        else do
          let name ← identifier
          if (← current).is "(" then call (.call name)
          else return .identifier name.span name.name
      | .operator | .punctuation | .endMark => unexpected operandStart
  | _, .grouping => do
    let _ ← expect "("
    let inner ← call .expression
    let _ ← expect ")"
    return inner
  | _, .conditional => do
    let start ← expect "if"
    let condition ← call .expression
    let _ ← expect "then"
    let consequent ← call .expression
    if (← current).is "else" then
      let _ ← advance
      let alternative ← call .expression
      return .ifThenElse (start.span.through alternative.span) condition consequent alternative
    else return .ifThen (start.span.through consequent.span) condition consequent
  | _, .loop => do
    let start ← expect "while"
    let condition ← call .expression
    let _ ← expect "do"
    let body ← call .expression
    return .loop (start.span.through body.span) condition body
  | _, .block => do
    let start ← expect Token.openBrace
    let (items, result) ← call .blockItems
    let close ← demand Token.closeBrace (.oneOf [";", Token.closeBrace])
    return .block (start.span.through close.span) items result
  | _, .blockItems => do
    let token ← current
    if token.is Token.closeBrace then return ([], Expr.implicitUnit token.span)
    else
      let item ← call .statement
      behindItem (call .blockItems) item
  | _, .call callee => do
    let _ ← expect "("
    let values ← noneAt ")" (listed (call .expression) (call .moreArguments))
    let close ← demand ")" (.oneOf [",", ")"])
    return .call (callee.span.through close.span) callee values
  | _, .moreArguments => behindComma (call .expression) (call .moreArguments)
  | _, .statement => do
    if (← current).is "var" then call .declaration else call .expression
  | _, .declaration => do
    let start ← expect "var"
    let name ← identifier
    let written ← behindColon (call .ascription)
    let _ ← expect "="
    let value ← call .expression
    return .declaration (start.span.through value.span) name written value
  | _, .statements isFirst => do
    if (← get).hasTokens then
      let item ← call .statement
      behindStatement (call (.statements false)) isFirst item
    else return []
  | _, .program => do
    let items ← call (.statements true)
    assemble items

end Step

/-- Tasks within tasks down to this depth; at its end stands `cut`. -/
def within (cut : {β : Type} → Parser β) : Nat → {α : Type} → Task α → Parser α
  | 0, _, _ => cut
  | depth + 1, _, task => step (within cut depth) task

/-- The rule of the grammar for a task; `n` bounds the tokens ahead. -/
def rule : {α : Type} → Task α → Nat → Parser α
  | _, .ascription, n => Rule.ascription n
  | _, .functionType, n => Rule.functionType (Rule.ascription n) n
  | _, .moreTypes, n => behindCommas (Rule.ascription n) n
  | _, .expression, n => Rule.expression (operand n) n
  | _, .assignment target, n => Rule.assignment target (Rule.expression (operand n) n)
  | _, .binary level, n => Rule.binary (operand n) n level
  | _, .leaning level left, n => Rule.leaning level (Rule.binary (operand n) n level.next) n left
  | _, .primary, n => Rule.primary (operand n) n
  | _, .grouping, n => Rule.grouping (operand n) n
  | _, .conditional, n => Rule.conditional (operand n) n
  | _, .loop, n => Rule.loop (operand n) n
  | _, .block, n => Rule.block (operand n) n
  | _, .blockItems, n => Rule.blockItems (Rule.statement (operand n) n) n
  | _, .call callee, n => Rule.call (operand n) n callee
  | _, .moreArguments, n => behindCommas (Rule.expression (operand n) n) n
  | _, .statement, n => Rule.statement (operand n) n
  | _, .declaration, n => Rule.declaration (operand n) n
  | _, .statements isFirst, n => Rule.statements (Rule.statement (operand n) n) n isFirst
  | _, .program, n => Rule.program n

/-- How many tokens a task takes at least if it succeeds. What is left of a loop may be nothing. -/
def takes : {α : Type} → Task α → Nat
  | _, .moreTypes | _, .leaning .. | _, .blockItems | _, .moreArguments | _, .statements ..
  | _, .program => 0
  | _, _ => 1

/-- A task calls for one of a higher rank only behind a token that it has taken. -/
def rank : {α : Type} → Task α → Nat
  | _, .ascription | _, .primary => 1
  | _, .binary level => 8 - level.rank
  | _, .expression => 9
  | _, .statement => 10
  | _, .blockItems | _, .statements .. => 11
  | _, .program => 12
  | _, _ => 0

/-- How deep a task can go with `n` tokens ahead. -/
def size {α : Type} (task : Task α) (n : Nat) : Nat := 13 * n + task.rank

theorem rank_lt {α : Type} (task : Task α) : task.rank < 13 := by
  cases task <;> simp only [rank] <;> omega

theorem agree_rule {n a b : Nat} (ha : n ≤ a) (hb : n ≤ b) :
    ∀ {α : Type} (task : Task α), Agree task.takes n (task.rule a) (task.rule b)
  | _, .ascription => agree_ascription n a b ha hb
  | _, .functionType =>
    (agree_functionType (agree_ascription n a b ha hb) ha hb).mono (Nat.le_succ n)
  | _, .moreTypes => agree_behindCommas (agree_ascription n a b ha hb) n (Nat.le_refl n) a b ha hb
  | _, .expression => agree_expression (agree_operand n a b ha hb) n (Nat.le_refl n) a b ha hb
  | _, .assignment target => (agree_assignment target
      (agree_expression (agree_operand n a b ha hb) n (Nat.le_refl n) a b ha hb)).mono
      (Nat.le_succ n)
  | _, .binary level => agree_binary level (agree_operand n a b ha hb) ha hb
  | _, .leaning level left => agree_leaning level
      (agree_binary level.next (agree_operand n a b ha hb) ha hb) n (Nat.le_refl n) a b ha hb left
  | _, .primary => (agree_primary (agree_operand n a b ha hb) ha hb).mono (Nat.le_succ n)
  | _, .grouping => (agree_grouping (agree_operand n a b ha hb) ha hb).mono (Nat.le_succ n)
  | _, .conditional => (agree_conditional (agree_operand n a b ha hb) ha hb).mono (Nat.le_succ n)
  | _, .loop => (agree_loop (agree_operand n a b ha hb) ha hb).mono (Nat.le_succ n)
  | _, .block => (agree_block (agree_operand n a b ha hb) ha hb).mono (Nat.le_succ n)
  | _, .blockItems => agree_blockItems (agree_statement (agree_operand n a b ha hb) ha hb) n
      (Nat.le_refl n) a b ha hb
  | _, .call callee => (agree_call (agree_operand n a b ha hb) ha hb callee).mono (Nat.le_succ n)
  | _, .moreArguments => agree_behindCommas
      (agree_expression (agree_operand n a b ha hb) n (Nat.le_refl n) a b ha hb) n
      (Nat.le_refl n) a b ha hb
  | _, .statement => agree_statement (agree_operand n a b ha hb) ha hb
  | _, .declaration => (agree_declaration (agree_operand n a b ha hb) ha hb).mono (Nat.le_succ n)
  | _, .statements isFirst => agree_statements
      (agree_statement (agree_operand n a b ha hb) ha hb) n (Nat.le_refl n) a b ha hb isFirst
  | _, .program => agree_program n a b ha hb

/-- What answers the calls does as the rules do, for tasks with fewer than `n` tokens ahead and for
those with `n` tokens ahead and a rank below `r`. -/
def Handles (call : {β : Type} → Task β → Parser β) (n r : Nat) : Prop :=
  ∀ {β : Type} (task : Task β) (k b : Nat), k ≤ b → k < n ∨ k = n ∧ task.rank < r →
    Agree task.takes k (call task) (task.rule b)

section Steps

variable {call : {β : Type} → Task β → Parser β} {α β : Type} {n r k b : Nat}

theorem Handles.below (h : Handles call n r) (task : Task β) (hk : k < n) (hb : n ≤ b) :
    Agree task.takes k (call task) (task.rule b) :=
  h task k b (Nat.le_trans (Nat.le_of_lt hk) hb) (.inl hk)

theorem Handles.same (h : Handles call n r) (task : Task β) (hrank : task.rank < r) (hb : n ≤ b) :
    Agree task.takes n (call task) (task.rule b) := h task n b hb (.inr ⟨rfl, hrank⟩)

theorem agree_listed {d : Nat} {item item' : Parser α} {rest rest' : Parser (List α)}
    (hitem : Agree d k item item') (hrest : Agree 0 k rest rest') :
    Agree 0 k (listed item rest) (listed item' rest') :=
  hitem.weaken.bind fun x => hrest.bind fun xs => agree_pure (x :: xs)

theorem agree_behindComma {d : Nat} {item item' : Parser α} {rest rest' : Parser (List α)}
    (hitem : ∀ k < n, Agree d k item item') (hrest : ∀ k < n, Agree 0 k rest rest') :
    Agree 0 n (behindComma item rest) (behindComma item' rest') := by
  refine agree_current fun s hs => agreeAt_ite _ (fun h => ?_) fun _ => agree_pure _ s hs
  exact (agreeAt_advance_below (Token.isEnd_eq_false_of_is h) hs fun k hk _ =>
    agree_listed (hitem k hk) (hrest k hk)).weaken

theorem agree_lean (level : Level) (left : Expr) {operand operand' : Parser Expr}
    {rest rest' : Expr → Parser Expr} (hoperand : ∀ k < n, Agree 1 k operand operand')
    (hrest : ∀ k < n, ∀ left, Agree 0 k (rest left) (rest' left)) :
    Agree 0 n (lean level left operand rest) (lean level left operand' rest') := by
  refine agree_current fun s hs => ?_
  cases hop : operatorOf level s.current with
  | none => exact agree_pure left s hs
  | some op =>
    exact (agreeAt_advance_below (isEnd_of_operatorOf hop) hs fun k hk _ =>
      (hoperand k hk).weaken.bind fun _ => hrest k hk _).weaken

theorem agree_step_ascription (h : Handles call n (rank .ascription)) (hb : n ≤ b) :
    Agree 1 n (step call .ascription) (rule .ascription b) := by
  have hstep : Agree 1 n (step call .ascription) (Rule.ascription (b + 1)) := by
    refine agree_current fun s hs => agreeAt_ite _
      (fun _ => h.same .functionType Nat.one_pos hb s hs) fun _ =>
      agreeAt_ite _ (fun hname => ?_) fun _ => agree_unexpected _ s hs
    exact agreeAt_advance_below (by simp [Token.isEnd, hname.1]) hs fun _ _ _ => agree_pure _
  exact hstep.trans (agree_ascription n (b + 1) b (by omega) hb)

theorem agree_step_functionType (h : Handles call n r) (hb : n ≤ b) :
    Agree 1 n (step call .functionType) (rule .functionType b) :=
  (agree_expect "(").bind_below fun _ hk _ =>
    (agree_listed (h.below .ascription hk hb) (h.below .moreTypes hk hb)).bind
      fun _ => (agree_demand ")" _).weaken.bind fun _ => (agree_expect "=>").weaken.bind fun _ =>
      (h.below .ascription hk hb).weaken.bind fun _ => agree_pure _

theorem agree_step_moreTypes (h : Handles call n r) (hb : n ≤ b) :
    Agree 0 n (step call .moreTypes) (rule .moreTypes b) := by
  have hstep : Agree 0 n (step call .moreTypes) (behindCommas (Rule.ascription b) (b + 1)) :=
    agree_behindComma (fun k hk => h.below .ascription hk hb) fun k hk =>
      h.below .moreTypes hk hb
  exact hstep.trans (agree_behindCommas (agree_ascription n b b hb hb) n (Nat.le_refl n) (b + 1) b
    (by omega) hb)

theorem agree_step_assignment (target : Expr) (h : Handles call n r) (hb : n ≤ b) :
    Agree 1 n (step call (.assignment target)) (rule (.assignment target) b) :=
  (agree_expect "=").bind_below fun _ hk _ =>
    (h.below .expression hk hb).weaken.bind fun _ => agree_pure _

theorem agree_step_expression (h : Handles call n (rank .expression)) (hb : n ≤ b) :
    Agree 1 n (step call .expression) (rule .expression b) := by
  have hoperand := agree_operand n b b hb hb
  have hbinary : Agree 1 n (call (.binary .or)) (Rule.binary (operand b) (b + 1) .or) :=
    (h.same (.binary .or) (by decide) hb).trans
      (agree_binary .or hoperand hb (Nat.le_succ_of_le hb))
  have hstep : Agree 1 n (step call .expression) (Rule.expression (operand b) (b + 1)) :=
    hbinary.bind_below fun k hk target => agree_ite "="
      (h.below (.assignment target) hk hb).weaken (agree_pure target)
  exact hstep.trans (agree_expression hoperand n (Nat.le_refl n) (b + 1) b (by omega) hb)

theorem agree_step_binary (level : Level) (h : Handles call n (rank (.binary level)))
    (hb : n ≤ b) : Agree 1 n (step call (.binary level)) (rule (.binary level) b) := by
  by_cases hlevel : level = .unary
  · subst hlevel
    exact (h.same .primary (by decide) hb).trans (agree_operand n (b + 1) b (by omega) hb)
  · have hrank : rank (.binary level.next) < rank (.binary level) := by
      cases level <;> first | decide | exact absurd rfl hlevel
    have hstep := (h.same (.binary level.next) hrank hb).bind_below fun k hk left =>
      h.below (.leaning level left) hk hb
    show Agree 1 n (if level = .unary then call .primary else _)
      (level.tiers.foldr (tier b) (operand b))
    rw [if_neg hlevel, Level.tiers_next hlevel]
    exact hstep

theorem agree_step_leaning (level : Level) (left : Expr) (h : Handles call n r) (hb : n ≤ b) :
    Agree 0 n (step call (.leaning level left)) (rule (.leaning level left) b) := by
  have hstep : Agree 0 n (step call (.leaning level left))
      (Rule.leaning level (Rule.binary (operand b) b level.next) (b + 1) left) :=
    agree_lean level left (fun k hk => h.below (.binary level.next) hk hb)
      fun k hk left => h.below (.leaning level left) hk hb
  exact hstep.trans (agree_leaning level (agree_binary level.next (agree_operand n b b hb hb) hb hb)
    n (Nat.le_refl n) (b + 1) b (by omega) hb left)

theorem agree_step_primary (h : Handles call n (rank .primary)) (hb : n ≤ b) :
    Agree 1 n (step call .primary) (rule .primary b) := by
  refine agree_current fun s hs =>
    agreeAt_ite _ (fun _ => h.same .grouping Nat.one_pos hb s hs) fun _ =>
    agreeAt_ite _ (fun _ => h.same .block Nat.one_pos hb s hs) fun _ =>
    agreeAt_ite _ (fun hsign => ?_) fun _ =>
    agreeAt_ite _ (fun _ => h.same .conditional Nat.one_pos hb s hs) fun _ =>
    agreeAt_ite _ (fun _ => h.same .loop Nat.one_pos hb s hs) fun _ => ?_
  · refine AgreeAt.current_bind ?_
    split
    · exact agree_unexpected _ s hs
    · exact agreeAt_advance_below (Token.isEnd_eq_false_of_isOneOf hsign) hs fun k hk _ =>
        (h.below (.binary .unary) hk hb).weaken.bind fun _ => agree_pure _
  · cases hkind : s.current.kind with
    | integer => exact agreeAt_integer (by simp [Token.isEnd, hkind])
    | boolean => exact agreeAt_boolean (by simp [Token.isEnd, hkind])
    | identifier =>
      refine agreeAt_ite _ (fun _ => agree_unexpected _ s hs) fun _ => ?_
      exact agree_identifier.bind_below (fun k hk name => agree_ite "("
        (h.below (.call name) hk hb).weaken (agree_pure _)) s hs
    | operator | punctuation | endMark => exact agree_unexpected _ s hs

theorem agree_step_grouping (h : Handles call n r) (hb : n ≤ b) :
    Agree 1 n (step call .grouping) (rule .grouping b) :=
  (agree_expect "(").bind_below fun _ hk _ =>
    (h.below .expression hk hb).weaken.bind fun _ =>
    (agree_expect ")").weaken.bind fun _ => agree_pure _

theorem agree_step_conditional (h : Handles call n r) (hb : n ≤ b) :
    Agree 1 n (step call .conditional) (rule .conditional b) := by
  refine (agree_expect "if").bind_below fun k hk _ => ?_
  have hpart : Agree 1 k (call .expression) (rule .expression b) :=
    h.below .expression hk hb
  exact hpart.weaken.bind fun _ => (agree_expect "then").weaken.bind fun _ =>
    hpart.weaken.bind fun _ => agree_take "else" (Nat.le_succ k)
      (hpart.weaken.bind fun _ => agree_pure _) (agree_pure _)

theorem agree_step_loop (h : Handles call n r) (hb : n ≤ b) :
    Agree 1 n (step call .loop) (rule .loop b) := by
  refine (agree_expect "while").bind_below fun k hk _ => ?_
  have hpart : Agree 1 k (call .expression) (rule .expression b) :=
    h.below .expression hk hb
  exact hpart.weaken.bind fun _ => (agree_expect "do").weaken.bind fun _ =>
    hpart.weaken.bind fun _ => agree_pure _

theorem agree_step_block (h : Handles call n r) (hb : n ≤ b) :
    Agree 1 n (step call .block) (rule .block b) :=
  (agree_expect Token.openBrace).bind_below fun _ hk _ =>
    (h.below .blockItems hk hb).bind fun _ =>
    (agree_demand Token.closeBrace _).weaken.bind fun _ => agree_pure _

theorem agree_step_blockItems (h : Handles call n (rank .blockItems)) (hb : n ≤ b) :
    Agree 0 n (step call .blockItems) (rule .blockItems b) := by
  have hstatement : Agree 1 n (call .statement) (Rule.statement (operand b) b) :=
    h.same .statement (by decide) hb
  have hitem := hstatement.bind_below fun k hk item =>
    agree_behindItem (h.below .blockItems hk hb) item
  have hstep : Agree 0 n (step call .blockItems)
      (Rule.blockItems (Rule.statement (operand b) b) (b + 1)) :=
    agree_current fun s hs => agreeAt_ite _ (fun _ => agree_pure _ s hs) fun _ =>
      hitem.weaken s hs
  exact hstep.trans (agree_blockItems (agree_statement (agree_operand n b b hb hb) hb hb) n
    (Nat.le_refl n) (b + 1) b (by omega) hb)

theorem agree_step_call (callee : Identifier) (h : Handles call n r) (hb : n ≤ b) :
    Agree 1 n (step call (.call callee)) (rule (.call callee) b) :=
  (agree_expect "(").bind_below fun _ hk _ =>
    (agree_ite ")" (agree_pure []) (agree_listed (h.below .expression hk hb)
      (h.below .moreArguments hk hb))).bind fun _ =>
    (agree_demand ")" _).weaken.bind fun _ => agree_pure _

theorem agree_step_moreArguments (h : Handles call n r) (hb : n ≤ b) :
    Agree 0 n (step call .moreArguments) (rule .moreArguments b) := by
  have hstep : Agree 0 n (step call .moreArguments)
      (behindCommas (Rule.expression (operand b) b) (b + 1)) :=
    agree_behindComma (fun k hk => h.below .expression hk hb) fun k hk =>
      h.below .moreArguments hk hb
  exact hstep.trans (agree_behindCommas (agree_expression (agree_operand n b b hb hb) n
    (Nat.le_refl n) b b hb hb) n (Nat.le_refl n) (b + 1) b (by omega) hb)

theorem agree_step_statement (h : Handles call n (rank .statement)) (hb : n ≤ b) :
    Agree 1 n (step call .statement) (rule .statement b) :=
  agree_ite "var" (h.same .declaration (by decide) hb) (h.same .expression (by decide) hb)

theorem agree_step_declaration (h : Handles call n r) (hb : n ≤ b) :
    Agree 1 n (step call .declaration) (rule .declaration b) := by
  refine (agree_expect "var").bind_below fun k hk _ => agree_identifier.weaken.bind fun _ => ?_
  have hwritten : Agree 0 k (behindColon (call .ascription)) (ascriptionOption b) :=
    agree_take ":" (Nat.le_succ k)
      ((h.below .ascription hk hb).weaken.bind fun _ => agree_pure _) (agree_pure none)
  exact hwritten.bind fun _ => (agree_expect "=").weaken.bind fun _ =>
    (h.below .expression hk hb).weaken.bind fun _ => agree_pure _

theorem agree_step_statements (isFirst : Bool) (h : Handles call n (rank (.statements isFirst)))
    (hb : n ≤ b) : Agree 0 n (step call (.statements isFirst)) (rule (.statements isFirst) b) := by
  have hstatement : Agree 1 n (call .statement) (Rule.statement (operand b) b) :=
    h.same .statement (Nat.lt_succ_self 10) hb
  have hitem := hstatement.bind_below fun k hk item =>
    agree_behindStatement (h.below (.statements false) hk hb) isFirst item
  have hstep : Agree 0 n (step call (.statements isFirst))
      (Rule.statements (Rule.statement (operand b) b) (b + 1) isFirst) :=
    agree_test _ hitem.weaken (agree_pure [])
  exact hstep.trans (agree_statements (agree_statement (agree_operand n b b hb hb) hb hb) n
    (Nat.le_refl n) (b + 1) b (by omega) hb isFirst)

theorem agree_step_program (h : Handles call n (rank .program)) (hb : n ≤ b) :
    Agree 0 n (step call .program) (rule .program b) := by
  show Agree 0 n _ (Rule.program b)
  rw [program_eq]
  exact (h.same (.statements true) (by decide) hb).bind agree_assemble

/-- What a task does hangs on the tasks that it calls for, and these are smaller. -/
theorem agree_step (hb : n ≤ b) : ∀ {β : Type} (task : Task β), Handles call n task.rank →
    Agree task.takes n (step call task) (task.rule b)
  | _, .ascription, h => agree_step_ascription h hb
  | _, .functionType, h => agree_step_functionType h hb
  | _, .moreTypes, h => agree_step_moreTypes h hb
  | _, .expression, h => agree_step_expression h hb
  | _, .assignment target, h => agree_step_assignment target h hb
  | _, .binary level, h => agree_step_binary level h hb
  | _, .leaning level left, h => agree_step_leaning level left h hb
  | _, .primary, h => agree_step_primary h hb
  | _, .grouping, h => agree_step_grouping h hb
  | _, .conditional, h => agree_step_conditional h hb
  | _, .loop, h => agree_step_loop h hb
  | _, .block, h => agree_step_block h hb
  | _, .blockItems, h => agree_step_blockItems h hb
  | _, .call callee, h => agree_step_call callee h hb
  | _, .moreArguments, h => agree_step_moreArguments h hb
  | _, .statement, h => agree_step_statement h hb
  | _, .declaration, h => agree_step_declaration h hb
  | _, .statements isFirst, h => agree_step_statements isFirst h hb
  | _, .program, h => agree_step_program h hb

end Steps

/-- Down to a depth that covers the tokens ahead, a task does what its rule does. -/
theorem agree_within (cut : {β : Type} → Parser β) {α : Type} (task : Task α) (depth n b : Nat)
    (hdepth : task.size n < depth) (hb : n ≤ b) :
    Agree task.takes n (within cut depth task) (task.rule b) := by
  induction depth generalizing α n b with
  | zero => exact absurd hdepth (Nat.not_lt_zero _)
  | succ depth ih =>
    refine agree_step hb task fun task' k b' hb' hless => ih task' k b' ?_ hb'
    -- Fewer tokens count for more than any rank.
    have hrank := task'.rank_lt
    unfold size at hdepth ⊢
    omega

end Task

end ExprLang.Grammar
