import ExprLang.Proofs.Grammar.Operands
import ExprLang.Proofs.Token.Spelling

/-!
The rule of programs succeeds exactly on lists of statements that use up the tokens. Main statement:
the tree of a closed token list is the tree of its statements.
-/

namespace ExprLang

open ExprLang.Parser ExprLang.Token

namespace Grammar

/-- `Statements b w es`: the tokens `w` up to the end of the program build the statements `es`, of
which the first is the first of the program if `b` says so. -/
inductive Statements : Bool → List Token → List Expr → Prop where
  | done {b} : Statements b [] []
  | terminated {b w q v e es} : Reading .statement w (q :: v) [e] → q.is ";" = true →
      Statements false v es → Statements b (w ++ q :: v) (e :: es)
  | closed {b w v e es} : Reading .statement w v [e] → starts v ";" = false →
      finishes w closeBrace = true → Statements false v es → Statements b (w ++ v) (e :: es)
  | only {w e} : Reading .statement w [] [e] → finishes w closeBrace = false →
      Statements true w [e]

/-- A statement alone is a program, be it closed by its own brace or not. -/
theorem Reading.statements {w : List Token} {e : Expr} (h : Reading .statement w [] [e]) :
    Statements true w [e] := by
  cases hf : finishes w closeBrace with
  | true =>
    have hclosed : Statements true (w ++ []) [e] := .closed h rfl hf .done
    rwa [List.append_nil] at hclosed
  | false => exact .only h hf

/-- The tree of a program with these statements, if there are any, up to the token `close`. -/
def treeOf (close : Token) : List Expr → Option Expr
  | [] => none
  | [only] => some only
  | first :: second :: rest =>
    let last := (second :: rest).getLast (List.cons_ne_nil second rest)
    some (.block (first.span.through last.span) (first :: second :: rest)
      (Expr.implicitUnit close.span))

theorem treeOf_concat (close : Token) (first last : Expr) (between : List Expr) :
    treeOf close (first :: (between ++ [last])) =
      some (.block (first.span.through last.span) (first :: (between ++ [last]))
        (Expr.implicitUnit close.span)) := by
  cases between with
  | nil => rfl
  | cons second between =>
    have hlast : (second :: (between ++ [last])).getLast (List.cons_ne_nil _ _) = last :=
      List.getLast_concat (l := second :: between)
    simp [treeOf, hlast]

theorem exists_treeOf {close : Token} {es : List Expr} :
    (∃ e, treeOf close es = some e) ↔ es ≠ [] := by
  match es with
  | [] => simp [treeOf]
  | [e] => simp [treeOf]
  | e :: d :: es => simp [treeOf]

end Grammar

namespace Rule

variable {n : Nat} {s : TokenStream}

/-- The end mark occurs nowhere but behind these tokens. -/
def EndFree (w : List Token) : Prop := ∀ t ∈ w, t.isEnd = false

theorem hasTokens_iff (h : EndFree s.ahead) : s.hasTokens = true ↔ s.ahead ≠ [] := by
  cases hs : s.ahead with
  | nil => simp [TokenStream.hasTokens, TokenStream.current, hs, s.isEnd_closing]
  | cons t r =>
    have ht : t.isEnd = false := h t (by simp [hs])
    simp [TokenStream.hasTokens, TokenStream.current, hs, ht]

/-- On a stream of at most `n` tokens the parser uses up all of them, and answers as `R` says. -/
def Exhausts {α : Type} (p : Parser α) (n : Nat) (R : List Token → α → Prop) : Prop :=
  ∀ s : TokenStream, s.remaining ≤ n → EndFree s.ahead →
    DenotesAt p s fun w r a => r = [] ∧ R w a

/-- How a program goes on behind a statement, where `rest` reads the other statements. -/
def behindStatement (rest : Parser (List Expr)) (isFirst : Bool) (item : Expr) :
    Parser (List Expr) := do
  if (← current).is ";" then
    let _ ← advance
    return item :: (← rest)
  else if (← get).previousIs closeBrace then return item :: (← rest)
  else if isFirst && !(← get).hasTokens then return [item]
  else unexpected (.literal ";")

/-- What may follow a statement `v`, and the statements that come of it. -/
def BehindStatement (v : List Token) (isFirst : Bool) (item : Expr) : Relation (List Expr) :=
  fun u r es => r = [] ∧
    ((∃ q u' es', u = q :: u' ∧ q.is ";" = true ∧ Grammar.Statements false u' es' ∧
        es = item :: es') ∨
      (starts u ";" = false ∧ finishes v closeBrace = true ∧
        ∃ es', Grammar.Statements false u es' ∧ es = item :: es') ∨
      (isFirst = true ∧ u = [] ∧ finishes v closeBrace = false ∧ es = [item]))

theorem exhausts_push {rest : Parser (List Expr)} {R : List Token → List Expr → Prop}
    (h : Exhausts rest n R) (item : Expr) :
    Exhausts (do return item :: (← rest)) n fun w es => ∃ es', R w es' ∧ es = item :: es' := by
  intro s hs hend
  have hpush := (h s hs hend).bind (f := fun es => pure (item :: es))
    fun v u es _ _ => denotes_pure (n := (s.pass v).remaining) (item :: es) _ (Nat.le_refl _)
  refine hpush.congr fun w r es _ => ?_
  constructor
  · rintro ⟨v, _, es', rfl, ⟨hr, hR⟩, rfl, rfl⟩
    rw [List.append_nil]
    exact ⟨hr, es', hR, rfl⟩
  · rintro ⟨rfl, es', hR, rfl⟩
    exact ⟨w, [], es', (List.append_nil w).symm, ⟨rfl, hR⟩, rfl, rfl⟩

/-- A statement that nothing ends is the whole program. -/
theorem denotesAt_only (hend : EndFree s.ahead) (isFirst : Bool) (item : Expr) :
    DenotesAt (do
      if isFirst && !(← get).hasTokens then return [item]
      else unexpected (.literal ";")) s
      fun w r es => r = [] ∧ w = [] ∧ isFirst = true ∧ es = [item] := by
  intro es t
  show (if isFirst && !s.hasTokens then pure [item] else unexpected (.literal ";")) s = .ok es t ↔ _
  have honly : (isFirst && !s.hasTokens) = true ↔ isFirst = true ∧ s.ahead = [] := by
    have := hasTokens_iff hend
    cases isFirst <;> cases ht : s.hasTokens <;> simp_all
  by_cases hb : (isFirst && !s.hasTokens) = true
  · obtain ⟨hfirst, hnil⟩ := honly.1 hb
    rw [if_pos hb, denotes_pure [item] s (Nat.le_refl _) es t]
    refine exists_congr fun w => exists_congr fun r => and_congr_right fun hw =>
      and_congr_right fun _ => ?_
    obtain ⟨rfl, rfl⟩ := List.append_eq_nil_iff.1 (hw.symm.trans hnil)
    simp [hfirst]
  · rw [if_neg hb, denotes_unexpected _ s (Nat.le_refl _) es t]
    refine exists_congr fun w => exists_congr fun r => and_congr_right fun hw =>
      and_congr_right fun _ => ?_
    rw [false_iff]
    rintro ⟨rfl, rfl, hfirst, -⟩
    exact hb (honly.2 ⟨hfirst, hw⟩)

/-- Behind a statement that no semicolon ends stands a closing brace, or it is the whole program. -/
theorem denotesAt_behindClosed {push : Parser (List Expr)} {item : Expr} {v : List Token}
    {isFirst : Bool} (hv : v ≠ []) (hend : EndFree (s.pass v).ahead)
    (hq : starts (s.pass v).ahead ";" = false)
    (h : DenotesAt push (s.pass v) fun w r es => r = [] ∧
      ∃ es', Grammar.Statements false w es' ∧ es = item :: es') :
    DenotesAt (do
      if (← get).previousIs closeBrace then push
      else if isFirst && !(← get).hasTokens then return [item]
      else unexpected (.literal ";")) (s.pass v) (BehindStatement v isFirst item) := by
  have hprevious := TokenStream.previousIs_pass hv s closeBrace
  generalize s.pass v = t at *
  -- No semicolon comes next, which rules out the first of the three ways to go on.
  have hsemicolon : ∀ q u r, t.ahead = q :: u ++ r → q.is ";" = false := by
    intro q u r hw
    rwa [hw] at hq
  intro es t'
  show (if t.previousIs closeBrace then push
    else do if isFirst && !(← get).hasTokens then return [item]
            else unexpected (.literal ";")) t = .ok es t' ↔ _
  rw [hprevious]
  cases hf : finishes v closeBrace with
  | true =>
    rw [if_pos rfl]
    refine (h.congr (Q := BehindStatement v isFirst item) fun w r es hw =>
      and_congr_right fun hr => ?_) es t'
    rw [hr, List.append_nil] at hw
    rw [hw] at hq
    constructor
    · intro hR
      exact .inr (.inl ⟨hq, hf, hR⟩)
    · rintro (⟨q, u, es', rfl, hsq, -⟩ | ⟨-, -, hR⟩ | ⟨-, -, hn, -⟩)
      · rw [hsemicolon q u [] (by simpa using hw)] at hsq
        cases hsq
      · exact hR
      · rw [hf] at hn
        cases hn
  | false =>
    rw [if_neg Bool.false_ne_true]
    refine ((denotesAt_only hend isFirst item).congr (Q := BehindStatement v isFirst item)
      fun w r es hw => and_congr_right fun _ => ?_) es t'
    constructor
    · rintro ⟨rfl, hfirst, rfl⟩
      exact .inr (.inr ⟨hfirst, rfl, hf, rfl⟩)
    · rintro (⟨q, u, es', rfl, hsq, -⟩ | ⟨-, hn, -⟩ | ⟨hfirst, rfl, -, rfl⟩)
      · rw [hsemicolon q u r hw] at hsq
        cases hsq
      · rw [hf] at hn
        cases hn
      · exact ⟨rfl, hfirst, rfl⟩

theorem denotesAt_behindStatement {rest : Parser (List Expr)}
    (h : Exhausts rest n (Grammar.Statements false)) {v : List Token} (hv : v ≠ [])
    (hs : (s.pass v).remaining ≤ n) (hend : EndFree (s.pass v).ahead) (isFirst : Bool)
    (item : Expr) :
    DenotesAt (behindStatement rest isFirst item) (s.pass v) (BehindStatement v isFirst item) := by
  have hpush := exhausts_push h item
  refine (denotesAt_ite ";" (P := fun w r es => ∃ q u, w = q :: u ∧ r = [] ∧
      ∃ es', Grammar.Statements false u es' ∧ es = item :: es') (fun hq => ?_)
    (fun hq => denotesAt_behindClosed hv hend hq (hpush _ hs hend))).congr ?_
  · obtain ⟨q, r₀, hx⟩ : ∃ q r₀, (s.pass v).ahead = q :: r₀ := by
      cases ha : (s.pass v).ahead with
      | nil => rw [ha] at hq; cases hq
      | cons q r₀ => exact ⟨q, r₀, rfl⟩
    have hend' : EndFree ((s.pass v).pass [q]).ahead := by
      rw [TokenStream.ahead_pass (w := [q]) hx]
      intro t ht
      exact hend t (by rw [hx]; exact List.mem_cons_of_mem q ht)
    have hs' := remaining_pass_one hx (Nat.le_succ_of_le hs)
    refine (denotesAt_advance hx (hpush _ hs' hend')).congr fun w r es hw => ?_
    constructor
    · rintro ⟨u, rfl, hu⟩
      exact ⟨q, u, rfl, hu⟩
    · rintro ⟨q', u, rfl, hu⟩
      obtain ⟨rfl, -⟩ := List.cons.inj (hx.symm.trans hw)
      exact ⟨u, rfl, hu⟩
  · intro u r es _
    constructor
    · rintro (⟨hq, q, u, rfl, rfl, es', hes, rfl⟩ | ⟨-, h⟩)
      · exact ⟨rfl, .inl ⟨q, u, es', rfl, hq, hes, rfl⟩⟩
      · exact h
    · rintro ⟨rfl, h⟩
      rw [List.append_nil]
      cases hq : starts u ";" with
      | false => exact .inr ⟨rfl, rfl, h⟩
      | true =>
        rcases h with ⟨q, u, es', rfl, -, hes, rfl⟩ | ⟨hn, -⟩ | ⟨-, rfl, -⟩
        · exact .inl ⟨rfl, q, u, rfl, rfl, es', hes, rfl⟩
        · rw [hq] at hn
          cases hn
        · cases hq

theorem statements_nil_iff {b : Bool} {es : List Expr} :
    Grammar.Statements b [] es ↔ es = [] := by
  constructor
  · intro h
    generalize hw : ([] : List Token) = w at h
    cases h with
    | done => rfl
    | terminated h => simp at hw
    | closed h => exact absurd (List.append_eq_nil_iff.1 hw.symm).1 (h.ne_nil rfl)
    | only h => exact absurd hw.symm (h.ne_nil rfl)
  · rintro rfl
    exact .done

theorem statements_iff {b : Bool} {w : List Token} {es : List Expr} (hw : w ≠ []) :
    Grammar.Statements b w es ↔ ∃ v u e, w = v ++ u ∧ Builds .statement v u e ∧
      BehindStatement v b e u [] es := by
  constructor
  · intro h
    cases h with
    | done => exact absurd rfl hw
    | terminated h hq hes => exact ⟨_, _, _, rfl, h, rfl, .inl ⟨_, _, _, rfl, hq, hes, rfl⟩⟩
    | closed h hq hf hes => exact ⟨_, _, _, rfl, h, rfl, .inr (.inl ⟨hq, hf, _, hes, rfl⟩)⟩
    | only h hf => exact ⟨w, [], _, by simp, h, rfl, .inr (.inr ⟨rfl, rfl, hf, rfl⟩)⟩
  · rintro ⟨v, u, e, rfl, h, -, ⟨q, u, es, rfl, hq, hes, rfl⟩ | ⟨hq, hf, es, hes, rfl⟩ |
      ⟨rfl, rfl, hf, rfl⟩⟩
    · exact .terminated h hq hes
    · exact .closed h hq hf hes
    · rw [List.append_nil]
      exact .only h hf

theorem exhausts_statements {statement : Parser Expr}
    (h : Denotes statement n (Builds .statement)) :
    ∀ m ≤ n, ∀ b, Exhausts (statements statement m b) m (Grammar.Statements b) := by
  intro m
  -- By induction on the bound: each statement takes a token.
  induction m with
  | zero =>
    intro _ b s hs hend
    have hnil : s.ahead = [] := List.eq_nil_of_length_eq_zero (Nat.le_zero.1 hs)
    refine (denotes_pure [] s hs).congr fun w r es hw => ?_
    obtain ⟨rfl, rfl⟩ := List.append_eq_nil_iff.1 (hw.symm.trans hnil)
    simp [statements_nil_iff]
  | succ m ih =>
    intro hm b s hs hend es t
    show (if s.hasTokens then statement >>= behindStatement (statements statement m false) b
      else pure []) s = .ok es t ↔ _
    by_cases ht : s.hasTokens = true
    · have hne : s.ahead ≠ [] := (hasTokens_iff hend).1 ht
      rw [if_pos ht]
      have hrun : DenotesAt (statement >>= behindStatement (statements statement m false) b) s
          fun w r es => ∃ v u e, w = v ++ u ∧ Builds .statement v (u ++ r) e ∧
            BehindStatement v b e u r es := by
        refine ((h.mono hm) s hs).bind fun v u a hv hst => ?_
        have hv' : v ≠ [] := hst.ne_nil rfl
        have hlen := List.length_pos_iff.2 hv'
        refine denotesAt_behindStatement (ih (by omega) false) hv' ?_ ?_ b a
        · rw [remaining_of_ahead hv] at hs
          omega
        · intro x hx
          rw [TokenStream.ahead_pass hv] at hx
          exact hend x (by rw [hv]; exact List.mem_append_right v hx)
      refine hrun.congr (Q := fun w r es => r = [] ∧ Grammar.Statements b w es)
        (fun w r es hw => ?_) es t
      constructor
      · rintro ⟨v, u, e, rfl, hst, rfl, hes⟩
        rw [List.append_nil] at hst hw
        exact ⟨rfl, (statements_iff (hw ▸ hne)).2 ⟨v, u, e, rfl, hst, rfl, hes⟩⟩
      · rintro ⟨rfl, hes⟩
        rw [List.append_nil] at hw
        obtain ⟨v, u, e, rfl, hst, hu⟩ := (statements_iff (hw ▸ hne)).1 hes
        exact ⟨v, u, e, rfl, by simpa using hst, hu⟩
    · have hnil : s.ahead = [] :=
        Decidable.byContradiction fun hne => ht ((hasTokens_iff hend).2 hne)
      rw [if_neg ht, denotes_pure [] s (Nat.le_refl _) es t]
      refine exists_congr fun w => exists_congr fun r => and_congr_right fun hw =>
        and_congr_right fun _ => ?_
      obtain ⟨rfl, rfl⟩ := List.append_eq_nil_iff.1 (hw.symm.trans hnil)
      simp [statements_nil_iff]

/-- What a program makes of its statements. -/
def assemble : List Expr → Parser Expr
  | [] => unexpected (.description "an expression")
  | [only] => return only
  | first :: second :: rest => do
    let last := (second :: rest).getLast (List.cons_ne_nil second rest)
    return .block (first.span.through last.span) (first :: second :: rest)
      (Expr.implicitUnit (← current).span)

theorem program_eq (n : Nat) :
    program n = statements (statement (operand n) n) n true >>= assemble := rfl

theorem assemble_eq_ok {es : List Expr} {e : Expr} {t : TokenStream} :
    assemble es s = .ok e t ↔ t = s ∧ Grammar.treeOf s.current es = some e := by
  match es with
  | [] => simp [assemble, unexpected, Grammar.treeOf]
  | [d] =>
    show EStateM.Result.ok d s = .ok e t ↔ _
    simp [Grammar.treeOf, and_comm, eq_comm]
  | c :: d :: es =>
    show EStateM.Result.ok (Tree.block _ (c :: d :: es) (Expr.implicitUnit s.current.span)) s =
      .ok e t ↔ _
    simp [Grammar.treeOf, and_comm, eq_comm]

/-- A program succeeds on the statements that use up its tokens, of which there is at least one. -/
theorem program_eq_ok {e : Expr} {t : TokenStream} (hs : s.remaining ≤ n)
    (hend : EndFree s.ahead) :
    program n s = .ok e t ↔ t = s.pass s.ahead ∧
      ∃ es, Grammar.Statements true s.ahead es ∧ Grammar.treeOf s.closing es = some e := by
  have hst := exhausts_statements (denotes_statement (denotes_operand n)) n (Nat.le_refl n) true s
    hs hend
  have hclosing : (s.pass s.ahead).current = s.closing := by
    have hnil : (s.pass s.ahead).ahead = [] :=
      TokenStream.ahead_pass (r := []) (List.append_nil _).symm
    simp [TokenStream.current, hnil]
  have hbuild (es : List Expr) : assemble es (s.pass s.ahead) = .ok e t ↔
      t = s.pass s.ahead ∧ Grammar.treeOf s.closing es = some e := by
    rw [assemble_eq_ok, hclosing]
  rw [program_eq, Sequence.bind_eq_ok]
  constructor
  · rintro ⟨es, u, hes, hu⟩
    obtain ⟨w, r, hw, rfl, rfl, hR⟩ := (hst es u).1 hes
    rw [List.append_nil] at hw
    subst hw
    obtain ⟨ht, he⟩ := (hbuild es).1 hu
    exact ⟨ht, es, hR, he⟩
  · rintro ⟨ht, es, hR, he⟩
    exact ⟨es, s.pass s.ahead, (hst es _).2 ⟨s.ahead, [], by simp, rfl, rfl, hR⟩,
      (hbuild es).2 ⟨ht, he⟩⟩

end Rule

/-- The tree of a closed token list is the tree of the statements that use up its tokens. -/
theorem Expr.ofTokens_closed_iff {ts : List Token} {file : String} {e : Expr}
    (h : Rule.EndFree ts) :
    Expr.ofTokens (closed ts) file = .ok e ↔
      ∃ es, Grammar.Statements true ts es ∧ Grammar.treeOf (endAfter ts.getLast?) es = some e := by
  let s : TokenStream := ⟨file, none, ts, endAfter ts.getLast?, rfl⟩
  have hs : TokenStream.ofTokens (closed ts) file = s := by
    simp [TokenStream.ofTokens, closed, s]
  have hrun : Expr.ofTokens (closed ts) file = .ok e ↔
      ∃ t, Rule.program s.remaining s = .ok e t := by
    unfold Expr.ofTokens
    rw [hs]
    rw [show Grammar.program.run s = Rule.program s.remaining s from rfl]
    cases Rule.program s.remaining s <;> simp
  rw [hrun]
  constructor
  · rintro ⟨t, ht⟩
    exact ((Rule.program_eq_ok (Nat.le_refl _) h).1 ht).2
  · intro hes
    exact ⟨s.pass s.ahead, (Rule.program_eq_ok (Nat.le_refl _) h).2 ⟨rfl, hes⟩⟩

/-- The loop over the statements of a program. -/
def Grammar.statements : Parser (List Expr) :=
  Parser.bounded fun n => Rule.statements (Rule.statement (Rule.operand n) n) n true

/-- The loop uses up a closed token list, and so answers with what the tree is made of. -/
theorem Grammar.exists_statements_eq_ok {ts : List Token} {es : List Expr} (h : Rule.EndFree ts)
    (hes : Statements true ts es) (file : String) :
    ∃ t, Grammar.statements (.ofTokens (closed ts) file) = .ok es t := by
  let s : TokenStream := ⟨file, none, ts, endAfter ts.getLast?, rfl⟩
  have hs : TokenStream.ofTokens (closed ts) file = s := by
    simp [TokenStream.ofTokens, closed, s]
  have hstatement := Rule.denotes_statement (Rule.denotes_operand s.remaining)
  refine ⟨s.pass ts, ?_⟩
  rw [hs]
  exact (Rule.exhausts_statements hstatement _ (Nat.le_refl _) true s (Nat.le_refl _) h es _).2
    ⟨ts, [], (List.append_nil ts).symm, rfl, rfl, hes⟩

/-- A text is read as the tree of its statements, with which the loop over them answers. -/
theorem Expr.statements_of_read {text file : String} {e : Expr} (h : Expr.read text file = .ok e) :
    ∃ es t, Grammar.statements (.ofTokens (Token.read text file) file) = .ok es t ∧
      Grammar.Statements true (scan text.toList file) es ∧
      Grammar.treeOf (endAfter (scan text.toList file).getLast?) es = some e := by
  have hend : Rule.EndFree (scan text.toList file) := fun t ht => (spelt_of_mem_scan ht).isEnd
  obtain ⟨es, hes, htree⟩ := (Expr.ofTokens_closed_iff hend).1 h
  obtain ⟨t, hrun⟩ := Grammar.exists_statements_eq_ok hend hes file
  exact ⟨es, t, hrun, hes, htree⟩

end ExprLang
