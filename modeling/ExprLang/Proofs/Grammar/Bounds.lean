import ExprLang.Proofs.Grammar.Locality
import ExprLang.Proofs.Parser.Bounds

/-!
The bound of a rule does not matter once it covers the tokens ahead. Main statement: all such bounds
serve the rule of programs alike, on failure as on success.
-/

namespace ExprLang.Rule

open ExprLang.Parser ExprLang.Token

variable {n a b : Nat}

theorem agree_functionType {part part' : Parser Ascription} (h : Agree 1 n part part')
    (ha : n ≤ a) (hb : n ≤ b) : Agree 1 (n + 1) (functionType part a) (functionType part' b) :=
  (agree_expect "(").bind_taking fun _ => (agree_commaSeparated h ha hb).weaken.bind fun _ =>
    (agree_demand ")" _).weaken.bind fun _ => (agree_expect "=>").weaken.bind fun _ =>
    h.weaken.bind fun _ => agree_pure _

theorem ascription_of_isEnd {s : TokenStream} (h : s.current.isEnd = true) (n : Nat) :
    ascription n s = unexpected ascriptionStart s := by
  cases n with
  | zero => rfl
  | succ n =>
    have hk : s.current.kind = .endMark := by simpa [isEnd] using h
    rw [ascription, current_bind, is_of_isEnd h, if_neg Bool.false_ne_true,
      if_neg (by simp [hk])]

theorem agree_ascription : ∀ n a b, n ≤ a → n ≤ b → Agree 1 n (ascription a) (ascription b) := by
  intro n
  induction n with
  | zero =>
    intro a b _ _ s hs
    have hend := current_isEnd hs
    exact agreeAt_error (ascription_of_isEnd hend a) (ascription_of_isEnd hend b)
  | succ n ih =>
    intro a b ha hb
    obtain ⟨a, rfl⟩ := Nat.exists_eq_add_one_of_ne_zero (by omega : a ≠ 0)
    obtain ⟨b, rfl⟩ := Nat.exists_eq_add_one_of_ne_zero (by omega : b ≠ 0)
    have hpart := ih a b (by omega) (by omega)
    refine agree_current fun s hs => agreeAt_ite _
      (fun _ => agree_functionType hpart (by omega) (by omega) s hs) fun _ =>
      agreeAt_ite _ (fun h => ?_) fun _ => agree_unexpected _ s hs
    exact agreeAt_advance (by simp [isEnd, h.1]) hs fun _ => agree_pure _

variable {operand operand' : Parser Expr}

theorem leaning_of_isEnd {s : TokenStream} (h : s.current.isEnd = true) (l : Level)
    (left : Expr) (n : Nat) : leaning l operand n left s = .ok left s := by
  cases n with
  | zero => rfl
  | succ n =>
    rw [leaning, current_bind, operatorOf_of_isEnd l h]
    rfl

theorem agree_leaning (l : Level) (h : Agree 1 n operand operand') :
    ∀ m ≤ n, ∀ a b, m ≤ a → m ≤ b → ∀ left,
      Agree 0 m (leaning l operand a left) (leaning l operand' b left) := by
  intro m
  induction m with
  | zero =>
    intro _ a b _ _ left s hs
    have hend := current_isEnd hs
    exact agreeAt_pure (leaning_of_isEnd hend l left a) (leaning_of_isEnd hend l left b)
  | succ m ih =>
    intro hm a b ha hb left
    obtain ⟨a, rfl⟩ := Nat.exists_eq_add_one_of_ne_zero (by omega : a ≠ 0)
    obtain ⟨b, rfl⟩ := Nat.exists_eq_add_one_of_ne_zero (by omega : b ≠ 0)
    refine agree_current fun s hs => ?_
    cases hop : operatorOf l s.current with
    | none => exact agree_pure left s hs
    | some op =>
      refine (agreeAt_advance (isEnd_of_operatorOf hop) hs fun _ => ?_).weaken
      exact (h.mono (by omega)).weaken.bind fun _ => ih (by omega) a b (by omega) (by omega) _

theorem agree_binary (l : Level) (h : Agree 1 n operand operand') (ha : n ≤ a) (hb : n ≤ b) :
    Agree 1 n (binary operand a l) (binary operand' b l) := by
  unfold binary
  induction l.tiers with
  | nil => exact h
  | cons level tiers ih =>
    exact ih.bind fun left => agree_leaning level ih n (Nat.le_refl n) a b ha hb left

theorem agree_assignment (target : Expr) {value value' : Parser Expr}
    (h : Agree 1 n value value') :
    Agree 1 (n + 1) (assignment target value) (assignment target value') :=
  (agree_expect "=").bind_taking fun _ => h.weaken.bind fun _ => agree_pure _

/-- An expression starts with an operand, and so fails where its operand does. -/
theorem binary_of_error {s t : TokenStream} {e : Error} (h : operand s = .error e t) (n : Nat)
    (l : Level) : binary operand n l s = .error e t := by
  unfold binary
  induction l.tiers with
  | nil => exact h
  | cons level tiers ih => exact Sequence.bind_of_error ih

theorem expression_of_error {s t : TokenStream} {e : Error} (h : operand s = .error e t) (n : Nat) :
    expression operand n s = .error e t := by
  cases n with
  | zero => exact binary_of_error h 0 .or
  | succ n => exact Sequence.bind_of_error (binary_of_error h (n + 1) .or)

theorem agree_expression (h : Agree 1 n operand operand') :
    ∀ m ≤ n, ∀ a b, m ≤ a → m ≤ b → Agree 1 m (expression operand a) (expression operand' b) := by
  intro m
  induction m with
  | zero =>
    intro _ a b _ _ s hs
    obtain ⟨e, t, hp, hq⟩ := h.exists_error (Nat.le_zero.1 hs)
    exact agreeAt_error (expression_of_error hp a) (expression_of_error hq b)
  | succ m ih =>
    intro hm a b ha hb
    obtain ⟨a, rfl⟩ := Nat.exists_eq_add_one_of_ne_zero (by omega : a ≠ 0)
    obtain ⟨b, rfl⟩ := Nat.exists_eq_add_one_of_ne_zero (by omega : b ≠ 0)
    refine (agree_binary .or (h.mono hm) ha hb).bind fun target => ?_
    exact agree_ite "=" (agree_assignment target (ih (by omega) a b (by omega) (by omega))).weaken
      (agree_pure target)

theorem agree_ascriptionOption (ha : n ≤ a) (hb : n ≤ b) :
    Agree 0 n (ascriptionOption a) (ascriptionOption b) :=
  agree_take ":" (Nat.le_succ n) ((agree_ascription n a b ha hb).weaken.bind fun _ => agree_pure _)
    (agree_pure none)

section Operands

variable (h : Agree 1 n operand operand') (ha : n ≤ a) (hb : n ≤ b)

include h ha hb

theorem agree_declaration :
    Agree 1 (n + 1) (declaration operand a) (declaration operand' b) :=
  (agree_expect "var").bind_taking fun _ => agree_identifier.weaken.bind fun _ =>
    (agree_ascriptionOption ha hb).bind fun _ => (agree_expect "=").weaken.bind fun _ =>
    (agree_expression h n (Nat.le_refl n) a b ha hb).weaken.bind fun _ => agree_pure _

theorem agree_statement : Agree 1 n (statement operand a) (statement operand' b) :=
  agree_ite "var" ((agree_declaration h ha hb).mono (Nat.le_succ n))
    (agree_expression h n (Nat.le_refl n) a b ha hb)

end Operands

theorem blockItems_of_error {statement : Parser Expr} {s t : TokenStream} {e : Error}
    (hs : s.current.isEnd = true) (h : statement s = .error e t) (n : Nat) :
    blockItems statement n s = .error e t := by
  cases n with
  | zero => exact Sequence.bind_of_error h
  | succ n =>
    rw [blockItems, current_bind, is_of_isEnd hs]
    exact Sequence.bind_of_error h

theorem agree_behindItem {rest rest' : Parser (List Expr × Expr)} (h : Agree 0 n rest rest')
    (item : Expr) : Agree 0 n (behindItem rest item) (behindItem rest' item) := by
  have hpush := h.bind fun x => agree_pure (item :: x.1, x.2)
  exact agree_take ";" (Nat.le_succ n) hpush (agree_test _ hpush fun s hs =>
    agreeAt_ite _ (fun _ => agree_throw _ s hs) fun _ => agree_pure _ s hs)

theorem agree_blockItems {statement statement' : Parser Expr} (h : Agree 1 n statement statement') :
    ∀ m ≤ n, ∀ a b, m ≤ a → m ≤ b →
      Agree 0 m (blockItems statement a) (blockItems statement' b) := by
  intro m
  induction m with
  | zero =>
    intro _ a b _ _ s hs
    have hend := current_isEnd hs
    obtain ⟨e, t, hp, hq⟩ := h.exists_error (Nat.le_zero.1 hs)
    exact agreeAt_error (blockItems_of_error hend hp a) (blockItems_of_error hend hq b)
  | succ m ih =>
    intro hm a b ha hb
    obtain ⟨a, rfl⟩ := Nat.exists_eq_add_one_of_ne_zero (by omega : a ≠ 0)
    obtain ⟨b, rfl⟩ := Nat.exists_eq_add_one_of_ne_zero (by omega : b ≠ 0)
    have hrest := ih (by omega) a b (by omega) (by omega)
    refine agree_current fun s hs => agreeAt_ite _ (fun _ => agree_pure _ s hs) fun _ => ?_
    exact ((h.mono hm).bind_taking fun item => agree_behindItem hrest item).weaken s hs

section Operands

variable (h : Agree 1 n operand operand') (ha : n ≤ a) (hb : n ≤ b)

include h ha hb

theorem agree_block : Agree 1 (n + 1) (block operand a) (block operand' b) :=
  (agree_expect openBrace).bind_taking fun _ =>
    (agree_blockItems (agree_statement h ha hb) n (Nat.le_refl n) a b ha hb).bind fun _ =>
    (agree_demand closeBrace _).weaken.bind fun _ => agree_pure _

theorem agree_grouping : Agree 1 (n + 1) (grouping operand a) (grouping operand' b) :=
  (agree_expect "(").bind_taking fun _ =>
    (agree_expression h n (Nat.le_refl n) a b ha hb).weaken.bind fun _ =>
    (agree_expect ")").weaken.bind fun _ => agree_pure _

theorem agree_conditional : Agree 1 (n + 1) (conditional operand a) (conditional operand' b) := by
  have hpart := agree_expression h n (Nat.le_refl n) a b ha hb
  refine (agree_expect "if").bind_taking fun _ => hpart.weaken.bind fun _ =>
    (agree_expect "then").weaken.bind fun _ => hpart.weaken.bind fun _ => ?_
  exact agree_take "else" (Nat.le_succ n) (hpart.weaken.bind fun _ => agree_pure _) (agree_pure _)

theorem agree_loop : Agree 1 (n + 1) (loop operand a) (loop operand' b) := by
  have hpart := agree_expression h n (Nat.le_refl n) a b ha hb
  exact (agree_expect "while").bind_taking fun _ => hpart.weaken.bind fun _ =>
    (agree_expect "do").weaken.bind fun _ => hpart.weaken.bind fun _ => agree_pure _

theorem agree_arguments : Agree 0 n (arguments operand a) (arguments operand' b) :=
  agree_ite ")" (agree_pure [])
    (agree_commaSeparated (agree_expression h n (Nat.le_refl n) a b ha hb) ha hb).weaken

theorem agree_call (callee : Identifier) :
    Agree 1 (n + 1) (call operand a callee) (call operand' b callee) :=
  (agree_expect "(").bind_taking fun _ => (agree_arguments h ha hb).bind fun _ =>
    (agree_demand ")" _).weaken.bind fun _ => agree_pure _

theorem agree_nameOrCall : Agree 1 (n + 1) (nameOrCall operand a) (nameOrCall operand' b) :=
  agree_identifier.bind_taking fun name =>
    agree_ite "(" ((agree_call h ha hb name).mono (Nat.le_succ n)).weaken (agree_pure _)

omit ha hb

theorem agreeAt_signed {s : TokenStream} (hend : s.current.isEnd = false)
    (hs : s.remaining ≤ n + 1) : AgreeAt 1 s (signed operand) (signed operand') := by
  refine AgreeAt.current_bind ?_
  split
  · exact agree_unexpected _ s hs
  · exact agreeAt_advance hend hs fun _ => h.weaken.bind fun _ => agree_pure _

omit h

theorem agreeAt_integer {s : TokenStream} (hend : s.current.isEnd = false) :
    AgreeAt 1 s integer integer := by
  refine AgreeAt.current_bind ?_
  split
  · exact agreeAt_error rfl rfl
  · exact agreeAt_advance hend (Nat.le_succ _) fun _ => agree_pure _

theorem agreeAt_boolean {s : TokenStream} (hend : s.current.isEnd = false) :
    AgreeAt 1 s boolean boolean := agreeAt_advance hend (Nat.le_succ _) fun _ => agree_pure _

include h

theorem agree_primary (ha : n ≤ a) (hb : n ≤ b) :
    Agree 1 (n + 1) (primary operand a) (primary operand' b) := by
  refine agree_current fun s hs =>
    agreeAt_ite _ (fun _ => agree_grouping h ha hb s hs) fun _ =>
    agreeAt_ite _ (fun _ => agree_block h ha hb s hs) fun _ =>
    agreeAt_ite _ (fun hsign => agreeAt_signed h (isEnd_eq_false_of_isOneOf hsign) hs) fun _ =>
    agreeAt_ite _ (fun _ => agree_conditional h ha hb s hs) fun _ =>
    agreeAt_ite _ (fun _ => agree_loop h ha hb s hs) fun _ => ?_
  cases hk : s.current.kind with
  | integer => exact agreeAt_integer (by simp [isEnd, hk])
  | boolean => exact agreeAt_boolean (by simp [isEnd, hk])
  | identifier =>
    exact agreeAt_ite _ (fun _ => agree_unexpected _ s hs) fun _ => agree_nameOrCall h ha hb s hs
  | operator | punctuation | endMark => exact agree_unexpected _ s hs

end Operands


theorem operand_of_isEnd {s : TokenStream} (h : s.current.isEnd = true) (n : Nat) :
    Rule.operand n s = unexpected operandStart s := by
  cases n with
  | zero => rfl
  | succ n =>
    have hk : s.current.kind = .endMark := by simpa [isEnd] using h
    rw [Rule.operand, primary, current_bind]
    simp [is_of_isEnd h, isOneOf, hk]

theorem agree_operand : ∀ n a b, n ≤ a → n ≤ b → Agree 1 n (Rule.operand a) (Rule.operand b) := by
  intro n
  induction n with
  | zero =>
    intro a b _ _ s hs
    have hend := current_isEnd hs
    exact agreeAt_error (operand_of_isEnd hend a) (operand_of_isEnd hend b)
  | succ n ih =>
    intro a b ha hb
    obtain ⟨a, rfl⟩ := Nat.exists_eq_add_one_of_ne_zero (by omega : a ≠ 0)
    obtain ⟨b, rfl⟩ := Nat.exists_eq_add_one_of_ne_zero (by omega : b ≠ 0)
    exact agree_primary (ih a b (by omega) (by omega)) (by omega) (by omega)

theorem agree_behindStatement {rest rest' : Parser (List Expr)} (h : Agree 0 n rest rest')
    (isFirst : Bool) (item : Expr) :
    Agree 0 n (behindStatement rest isFirst item) (behindStatement rest' isFirst item) := by
  have hpush := h.bind fun items => agree_pure (item :: items)
  exact agree_take ";" (Nat.le_succ n) hpush (agree_test _ hpush
    (agree_test _ (agree_pure [item]) (agree_unexpected _)))

theorem statements_of_isEnd {statement : Parser Expr} {s : TokenStream}
    (h : s.current.isEnd = true) (n : Nat) (isFirst : Bool) :
    statements statement n isFirst s = .ok [] s := by
  cases n with
  | zero => rfl
  | succ n =>
    show (if s.hasTokens then statement >>= behindStatement (statements statement n false) isFirst
      else pure []) s = _
    rw [if_neg (by simp [TokenStream.hasTokens, h])]
    rfl

theorem agree_statements {statement statement' : Parser Expr} (h : Agree 1 n statement statement') :
    ∀ m ≤ n, ∀ a b, m ≤ a → m ≤ b → ∀ isFirst,
      Agree 0 m (statements statement a isFirst) (statements statement' b isFirst) := by
  intro m
  induction m with
  | zero =>
    intro _ a b _ _ isFirst s hs
    have hend := current_isEnd hs
    exact agreeAt_pure (statements_of_isEnd hend a isFirst) (statements_of_isEnd hend b isFirst)
  | succ m ih =>
    intro hm a b ha hb isFirst
    obtain ⟨a, rfl⟩ := Nat.exists_eq_add_one_of_ne_zero (by omega : a ≠ 0)
    obtain ⟨b, rfl⟩ := Nat.exists_eq_add_one_of_ne_zero (by omega : b ≠ 0)
    have hrest := ih (by omega) a b (by omega) (by omega) false
    refine agree_test _ ?_ (agree_pure [])
    exact ((h.mono hm).bind_taking fun item => agree_behindStatement hrest isFirst item).weaken

theorem agree_assemble (es : List Expr) : Agree 0 n (assemble es) (assemble es) := by
  match es with
  | [] => exact agree_unexpected _
  | [only] => exact agree_pure only
  | first :: second :: rest => exact agree_current fun s hs => agree_pure _ s hs

theorem agree_program (n a b : Nat) (ha : n ≤ a) (hb : n ≤ b) :
    Agree 0 n (program a) (program b) := by
  have hstatement := agree_statement (agree_operand n a b ha hb) ha hb
  rw [program_eq, program_eq]
  exact (agree_statements hstatement n (Nat.le_refl n) a b ha hb true).bind agree_assemble

end ExprLang.Rule

/-- No program is told by what stands behind the token where it fails, or behind its end. -/
theorem ExprLang.Grammar.local_program : Parser.Local Grammar.program :=
  Parser.local_bounded Rule.local_program Rule.agree_program
