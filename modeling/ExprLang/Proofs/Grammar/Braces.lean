import ExprLang.Proofs.Grammar.Bounds
import ExprLang.Proofs.Grammar.Completeness
import ExprLang.Proofs.Grammar.Errors
import ExprLang.Proofs.Grammar.Following

/-!
The statements of a program and the items of a block. Main statement: put between braces, a program
is a block of its own statements, and its last statement is the result unless a semicolon ends it.
-/

namespace ExprLang

open ExprLang.Token (starts finishes openBrace closeBrace)

namespace Rule

open ExprLang.Parser

variable {s t : TokenStream} {v r : List Token} {item : Expr} {error : Error}
  {rest : Parser (List Expr × Expr)}

/-- An item is read first where a block does not end. -/
theorem exists_blockItems_eq {k m : Nat} (hv : starts v closeBrace = false)
    (hread : Grammar.Reading .statement v r [item]) (hs : s.ahead = v ++ r)
    (hm : s.remaining ≤ m) (hk : m ≤ k) :
    ∃ l < m, (s.pass v).remaining ≤ l ∧ blockItems (statement (operand k) k) m s =
      behindItem (blockItems (statement (operand k) k) l) item (s.pass v) := by
  have hne := hread.ne_nil rfl
  have hlen := remaining_of_ahead hs
  have hpos := List.length_pos_iff.2 hne
  obtain ⟨l, rfl⟩ := Nat.exists_eq_add_one_of_ne_zero (by omega : m ≠ 0)
  refine ⟨l, Nat.lt_succ_self l, by omega, ?_⟩
  have hrun : statement (operand k) k s = .ok item (s.pass v) :=
    (denotes_statement (denotes_operand k) s (by omega) item _).2 ⟨v, r, hs, rfl, hread⟩
  have hclose : s.current.is closeBrace = false := by
    rw [TokenStream.current_is, hs, Token.starts_append hne, hv]
  rw [blockItems, current_bind, hclose]
  exact Sequence.bind_of_ok hrun

theorem behindItem_of_semicolon {q : Token} (hs : s.ahead = q :: r) (hq : q.is ";" = true)
    (h : rest (s.pass [q]) = .error error t) : behindItem rest item s = .error error t := by
  rw [behindItem, current_bind, TokenStream.current_of_ahead hs, if_pos hq, advance_bind hs]
  exact Sequence.bind_of_error h

theorem behindItem_of_brace (hv : v ≠ []) (hf : finishes v closeBrace = true)
    (hsemicolon : starts (s.pass v).ahead ";" = false)
    (hclose : starts (s.pass v).ahead closeBrace = false)
    (h : rest (s.pass v) = .error error t) : behindItem rest item (s.pass v) = .error error t := by
  have hfollows := followsBrace_pass hv s hsemicolon
  rw [hf, hclose] at hfollows
  rw [behindItem, current_bind, TokenStream.current_is, hsemicolon]
  show (if (s.pass v).followsBrace then _ else _ : Parser _) (s.pass v) = _
  rw [hfollows]
  exact Sequence.bind_of_error h

/-- A declaration that nothing ends is no result. -/
theorem behindItem_of_declaration (hv : Grammar.Unended v (s.pass v).ahead item)
    (hitem : item.isDeclaration = true) :
    behindItem rest item (s.pass v) =
      .error ⟨.declarationAsResult, item.span.start⟩ (s.pass v) := by
  have hfollows : (s.pass v).followsBrace = false := by
    rw [followsBrace_pass (hv.reading.ne_nil rfl) s hv.semicolon]
    cases hf : finishes v closeBrace with
    | false => rfl
    | true => rw [hv.brace hf]; rfl
  rw [behindItem, current_bind, TokenStream.current_is, hv.semicolon]
  show (if (s.pass v).followsBrace then _ else _ : Parser _) (s.pass v) = _
  rw [hfollows, hitem]
  rfl

theorem expect_openBrace {o : Token} (hs : s.ahead = o :: r) (ho : o.is openBrace = true) :
    expect openBrace s = .ok o (s.pass [o]) := by
  have hcurrent := TokenStream.current_of_ahead hs
  rw [expect, demand_of_is (by rwa [hcurrent]), TokenStream.advance_eq_pass hs, hcurrent]

/-- A block fails where its items do. -/
theorem block_of_blockItems {k : Nat} {o : Token} (hs : s.ahead = o :: r)
    (ho : o.is openBrace = true)
    (h : blockItems (statement (operand k) k) k (s.pass [o]) = .error error t) :
    block (operand k) k s = .error error t :=
  (Sequence.bind_of_ok (expect_openBrace hs ho)).trans (Sequence.bind_of_error h)

theorem operand_of_blockItems {k : Nat} {o : Token} (hs : s.ahead = o :: r)
    (ho : o.is openBrace = true)
    (h : blockItems (statement (operand k) k) k (s.pass [o]) = .error error t) :
    operand (k + 1) s = .error error t := by
  have hcurrent : s.current.is openBrace = true := by rwa [TokenStream.current_of_ahead hs]
  have hparen : s.current.is "(" = false := Token.is_eq_false_of_is hcurrent (by decide)
  rw [operand, primary, current_bind, hparen, hcurrent]
  exact block_of_blockItems hs ho h

/-- A program fails where its first operand does. -/
theorem program_of_operand {n : Nat} (h : operand (n + 1) s = .error error t)
    (hend : s.current.isEnd = false) (hvar : s.current.is "var" = false) :
    program (n + 1) s = .error error t := by
  have hstatement : statement (operand (n + 1)) (n + 1) s = .error error t := by
    rw [statement, current_bind, hvar]
    exact expression_of_error h (n + 1)
  rw [program_eq]
  refine Sequence.bind_of_error ?_
  show (if s.hasTokens then _ else _ : Parser _) s = _
  rw [if_pos (by simp [TokenStream.hasTokens, hend])]
  exact Sequence.bind_of_error hstatement

end Rule

namespace Grammar

/-- The categories of statements and of their parts. -/
def Category.isPart : Category → Bool
  | item _ | items _ | program => false
  | _ => true

theorem finishes_cons {w : List Token} (hw : w ≠ []) (t : Token) (text : String) :
    finishes (t :: w) text = finishes w text :=
  Token.finishes_append hw [t] text

/-- What a semicolon ends is more than a statement. -/
theorem Derives.finishes_eq_false {k : Category} {w : List Token} (h : Derives k w) :
    (∀ t ∈ w, t.Spelt) → k.isPart = true → finishes w ";" = false := by
  have hmark {t : Token} {text : String} (ht : t.is text = true) (htext : text ≠ ";") :
      finishes [t] ";" = false := Token.is_eq_false_of_is ht htext
  have hkind {t : Token} (hs : ∀ x ∈ [t], x.Spelt) (hk : some t.kind ≠ Piece.kindOf? ";".toList) :
      finishes [t] ";" = false := (hs t List.mem_cons_self).is_eq_false hk.symm
  induction h with
  | typeName ht =>
    intro _ _
    rcases ht with ht | ht | ht <;> exact hmark ht (by decide)
  | integer ht => exact fun hs _ => hkind hs (by rw [ht.1]; decide)
  | boolean ht => exact fun hs _ => hkind hs (by rw [ht]; decide)
  | name ht => exact fun hs _ => hkind hs (by rw [ht.1]; decide)
  | callEmpty _ _ hc | call _ _ _ hc | grouping _ _ hc | emptyBlock _ hc | unitBlock _ _ _ _ hc
  | block _ _ _ hc =>
    intro _ _
    simp [finishes_cons, Token.finishes_append, hmark hc (by decide)]
  | functionType _ _ _ _ hv _ ih | moreTypes _ _ hv _ ih | ifThen _ _ _ hv _ ih
  | ifThenElse _ _ _ _ _ hv _ _ ih | loop _ _ _ hv _ ih | signed _ hv ih | binary _ _ hv _ ih
  | assignment _ _ hv _ ih | more _ _ hv _ ih | declaration _ _ _ hv ih
  | ascribed _ _ _ _ _ hv _ ih =>
    intro hs _
    have hpart := ih (fun t ht => hs t (by simp [ht])) rfl
    simp [finishes_cons, Token.finishes_append, hv.ne_nil rfl, hpart]
  | primary _ ih | unary _ ih | value _ ih | last _ ih | lastType _ ih | statement _ ih =>
    exact fun hs _ => ih hs rfl
  | terminated | closed | noItems | moreItems | single | several =>
    intro _ hk
    cases hk

theorem Reading.finishes_eq_false {p : Part} {w r : List Token} {es : List Expr}
    (h : Reading p w r es) (hs : ∀ t ∈ w, t.Spelt) (hp : p.takes = true) :
    finishes w ";" = false := by
  have hsound := h.sound hs
  cases p with
  | leaning | items => cases hp
  | statement => exact hsound.1.finishes_eq_false hs rfl
  | operand | binary | expression | expressions => exact Derives.finishes_eq_false hsound hs rfl

/-- What a closing brace starts is no statement. -/
theorem Reading.starts_eq_false {w r : List Token} {e : Expr} (h : Reading .statement w r [e])
    (hs : ∀ t ∈ w, t.Spelt) : starts w closeBrace = false :=
  (h.sound hs).1.starts_eq_false hs (by decide)

/-- `Leading u x es`: before the tokens `x`, the tokens `u` are items of a block, the trees of which
are `es`. -/
inductive Leading : List Token → List Token → List Expr → Prop
  | nil {x} : Leading [] x []
  | terminated {w q u x e es} : starts w closeBrace = false →
      Reading .statement w (q :: (u ++ x)) [e] → q.is ";" = true → Leading u x es →
      Leading (w ++ q :: u) x (e :: es)
  | closed {w u x e es} : starts w closeBrace = false → Reading .statement w (u ++ x) [e] →
      finishes w closeBrace = true → starts (u ++ x) ";" = false →
      starts (u ++ x) closeBrace = false → Leading u x es → Leading (w ++ u) x (e :: es)

variable {w u x r : List Token} {es : List Expr} {e : Expr}

/-- Items in front of the items of a block. -/
theorem Leading.items {ds : List Expr} (h : Leading u x es) (hx : x = w ++ r)
    (hw : Reading .items w r ds) : Reading .items (u ++ w) r (es ++ ds) := by
  induction h with
  | nil => exact hw
  | terminated hbrace hst hq _ ih =>
    subst hx
    rw [List.append_assoc, List.cons_append]
    exact .terminated hbrace (by rwa [List.append_assoc]) hq (ih rfl)
  | closed hbrace hst hf hsemicolon hclose _ ih =>
    subst hx
    rw [← List.append_assoc] at hst hsemicolon hclose
    rw [List.append_assoc]
    exact .closed hbrace hst hf hsemicolon hclose (ih rfl)

/-- A failure behind items in front is the failure of all of them. -/
theorem Leading.blockItems_of_error {error : Error} {t : TokenStream} {k : Nat}
    (h : Leading u x es) {m : Nat} {s : TokenStream} (hk : m ≤ k) (hm : s.remaining ≤ m)
    (hs : s.ahead = u ++ x)
    (hfail : ∀ m ≤ k, (s.pass u).remaining ≤ m →
      Rule.blockItems (Rule.statement (Rule.operand k) k) m (s.pass u) = .error error t) :
    Rule.blockItems (Rule.statement (Rule.operand k) k) m s = .error error t := by
  induction h generalizing m s with
  | nil => exact hfail m hk hm
  | @terminated w q u x e es hbrace hread hq _ ih =>
    rw [List.append_assoc, List.cons_append] at hs
    obtain ⟨l, hl, hrem, hrun⟩ := Rule.exists_blockItems_eq hbrace hread hs hm hk
    have hahead : (s.pass w).ahead = [q] ++ (u ++ x) := TokenStream.ahead_pass hs
    have hpass : s.pass (w ++ q :: u) = ((s.pass w).pass [q]).pass u := by
      rw [← TokenStream.pass_append, ← TokenStream.pass_append]
      simp
    rw [hpass] at hfail
    rw [Parser.remaining_of_ahead hahead] at hrem
    rw [hrun]
    exact Rule.behindItem_of_semicolon hahead hq
      (ih (by omega) (by omega) (TokenStream.ahead_pass hahead) hfail)
  | @closed w u x e es hbrace hread hf hsemicolon hclose _ ih =>
    rw [List.append_assoc] at hs
    obtain ⟨l, hl, hrem, hrun⟩ := Rule.exists_blockItems_eq hbrace hread hs hm hk
    have hahead : (s.pass w).ahead = u ++ x := TokenStream.ahead_pass hs
    rw [TokenStream.pass_append] at hfail
    rw [hrun]
    exact Rule.behindItem_of_brace (hread.ne_nil rfl) hf (by rwa [hahead]) (by rwa [hahead])
      (ih (by omega) hrem hahead hfail)

/-- Items that end in a declaration which nothing ends are refused. -/
theorem Leading.blockItems_of_declaration {s : TokenStream} {v : List Token} {k : Nat}
    (h : Leading u (v ++ r) es) (hk : s.remaining ≤ k) (hs : s.ahead = u ++ (v ++ r))
    (hbrace : starts v closeBrace = false) (hv : Unended v r e) (he : e.isDeclaration = true) :
    Rule.blockItems (Rule.statement (Rule.operand k) k) k s =
      .error ⟨.declarationAsResult, e.span.start⟩ (s.pass (u ++ v)) := by
  have hlast := TokenStream.ahead_pass hs
  rw [TokenStream.pass_append]
  refine h.blockItems_of_error (Nat.le_refl k) hk hs fun m hk hm => ?_
  obtain ⟨l, -, -, hrun⟩ := Rule.exists_blockItems_eq hbrace hv.reading hlast hm hk
  rw [hrun]
  exact Rule.behindItem_of_declaration (by rwa [TokenStream.ahead_pass hlast]) he

/-- How the statements of a program stand in front of a closing brace: a semicolon ends the last of
them, or it is left as the result. -/
theorem Statements.exists_leading {b : Bool} {c : Token} (h : Statements b w es) (hw : w ≠ [])
    (hs : ∀ t ∈ w, t.Spelt) (hc : c.is closeBrace = true) :
    (finishes w ";" = true ∧ Leading w (c :: r) es) ∨
      ∃ u v init last, w = u ++ v ∧ es = init ++ [last] ∧ finishes w ";" = false ∧
        Leading u (v ++ c :: r) init ∧ Reading .statement v (c :: r) [last] := by
  have hstatement {w v : List Token} {e : Expr} (h : Reading .statement w v [e])
      (hs : ∀ t ∈ w, t.Spelt) : starts w closeBrace = false ∧ finishes w ";" = false :=
    ⟨h.starts_eq_false hs, h.finishes_eq_false hs rfl⟩
  have hlast {w : List Token} {e : Expr} (h : Reading .statement w [] [e]) :
      Reading .statement w (c :: r) [e] :=
    h.before (.inr ⟨quiet_cons hc (by decide), Token.is_eq_false_of_is hc (by decide)⟩)
  -- By induction on the statements: each stands in front of the others, and the last one is told
  -- by what ends it.
  induction h with
  | done => exact absurd rfl hw
  | @terminated b w q v e es hread hq hv ih =>
    simp only [List.forall_mem_append, List.forall_mem_cons] at hs
    obtain ⟨hsw, -, hsv⟩ := hs
    have hlead {u x : List Token} {es : List Expr} (h : Leading u x es) :
        Leading (w ++ q :: u) x (e :: es) :=
      .terminated (hstatement hread hsw).1 (hread.before (.inl rfl)) hq h
    by_cases hnil : v = []
    · subst hnil
      obtain rfl := Rule.statements_nil_iff.1 hv
      refine .inl ⟨?_, hlead .nil⟩
      rwa [Token.finishes_append (by simp)]
    · rw [Token.finishes_append (by simp), finishes_cons hnil]
      rcases ih hnil hsv with ⟨hf, h⟩ | ⟨u, y, init, last, rfl, rfl, hf, h, hread⟩
      · exact .inl ⟨hf, hlead h⟩
      · exact .inr ⟨w ++ q :: u, y, e :: init, last, by simp, rfl, hf, hlead h, hread⟩
  | @closed b w v e es hread hsemicolon hfb hv ih =>
    obtain ⟨hsw, hsv⟩ := List.forall_mem_append.1 hs
    by_cases hnil : v = []
    · subst hnil
      obtain rfl := Rule.statements_nil_iff.1 hv
      rw [List.append_nil]
      exact .inr ⟨[], w, [], e, rfl, rfl, (hstatement hread hsw).2, .nil, hlast hread⟩
    · have hvbrace : starts v closeBrace = false :=
        (hv.items hsv).starts_eq_false hsv (by decide)
      have hlead {u x : List Token} {es : List Expr} (hux : u ++ x = v ++ c :: r)
          (h : Leading u x es) : Leading (w ++ u) x (e :: es) := by
        refine .closed (hstatement hread hsw).1 ?_ hfb ?_ ?_ h <;> rw [hux]
        · exact hread.before (.inl (List.head?_append_of_ne_nil _ hnil))
        · rwa [Token.starts_append hnil]
        · rwa [Token.starts_append hnil]
      rw [Token.finishes_append hnil]
      rcases ih hnil hsv with ⟨hf, h⟩ | ⟨u, y, init, last, rfl, rfl, hf, h, hread⟩
      · exact .inl ⟨hf, hlead rfl h⟩
      · exact .inr ⟨w ++ u, y, e :: init, last, by simp, rfl, hf, hlead (by simp) h, hread⟩
  | only hread _ => exact .inr ⟨[], _, [], _, rfl, rfl, (hstatement hread hs).2, .nil, hlast hread⟩

section Braced

variable {o c : Token} {file : String}

/-- Items between braces are a program. -/
theorem Reading.ofTokens_block {ss : List Expr} (hend : Rule.EndFree w) (ho : o.is openBrace = true)
    (hc : c.is closeBrace = true) (h : Reading .items w [c] (ss ++ [e])) :
    Expr.ofTokens (Token.closed (o :: (w ++ [c]))) file =
      .ok (.block (o.span.through c.span) ss e) := by
  have hblock : Reading .operand (o :: (w ++ [c])) []
      [.block (o.span.through c.span) ss e] := .block ho h hc
  have hstatement : Reading .statement (o :: (w ++ [c])) [] _ :=
    .statement (Token.is_eq_false_of_is ho (by decide)) (hblock.expression_of_operand quiet_nil)
  refine (Expr.ofTokens_closed_iff ?_).2 ⟨_, hstatement.statements, rfl⟩
  simp only [Rule.EndFree, List.forall_mem_cons, List.forall_mem_append]
  exact ⟨Token.isEnd_eq_false_of_is ho, hend, Token.isEnd_eq_false_of_is hc, by simp⟩

/-- Between braces, statements that end in a declaration are none. -/
theorem Leading.ofTokens_declaration (h : Leading u (v ++ [c]) es) (ho : o.is openBrace = true)
    (hc : c.is closeBrace = true) (hbrace : starts v closeBrace = false)
    (hv : Reading .statement v [c] [e]) (he : e.isDeclaration = true) :
    Expr.ofTokens (Token.closed (o :: (u ++ v ++ [c]))) file =
      .error ⟨.declarationAsResult, e.span.start⟩ := by
  let s := TokenStream.ofTokens (Token.closed (o :: (u ++ v ++ [c]))) file
  have hs : s.ahead = [o] ++ (u ++ (v ++ [c])) := by simp [s, TokenStream.ofTokens_closed]
  have hunended : Unended v [c] e := ⟨hv, Token.is_eq_false_of_is hc (by decide), fun _ => hc⟩
  have hitems := h.blockItems_of_declaration (Nat.le_refl _) (TokenStream.ahead_pass hs) hbrace
    hunended he
  have hcurrent : s.current = o := TokenStream.current_of_ahead hs
  have hprogram := Rule.program_of_operand (Rule.operand_of_blockItems hs ho hitems)
    (by rw [hcurrent]; exact Token.isEnd_eq_false_of_is ho)
    (by rw [hcurrent]; exact Token.is_eq_false_of_is ho (by decide))
  have hbound : (s.pass [o]).remaining + 1 = s.remaining := by
    rw [Parser.remaining_of_ahead hs, List.length_singleton, Nat.add_comm]
  rw [hbound] at hprogram
  unfold Expr.ofTokens
  rw [show Grammar.program.run s = _ from hprogram]

/-- What becomes of the statements of a program between braces. -/
theorem Statements.ofTokens_braced {b : Bool} (h : Statements b w es) (hw : w ≠ [])
    (hs : ∀ t ∈ w, t.Spelt) (ho : o.is openBrace = true) (hc : c.is closeBrace = true)
    (file : String) :
    ∃ init last, es = init ++ [last] ∧ Expr.ofTokens (Token.closed (o :: (w ++ [c]))) file =
      if finishes w ";" then .ok (.block (o.span.through c.span) es (Expr.implicitUnit c.span))
      else if last.isDeclaration then .error ⟨.declarationAsResult, last.span.start⟩
      else .ok (.block (o.span.through c.span) init last) := by
  have hend : Rule.EndFree w := fun t ht => (hs t ht).isEnd
  rcases h.exists_leading (r := []) hw hs hc with
    ⟨hf, hlead⟩ | ⟨u, v, init, last, rfl, rfl, hf, hlead, hlast⟩
  · obtain ⟨init, last, hes⟩ : ∃ init last, es = init ++ [last] := by
      refine (List.eq_nil_or_concat' es).resolve_left ?_
      rintro rfl
      cases h
      exact hw rfl
    refine ⟨init, last, hes, ?_⟩
    rw [if_pos hf]
    refine Reading.ofTokens_block hend ho hc ?_
    simpa using hlead.items (w := []) (r := [c]) rfl (.leftOut hc)
  · refine ⟨init, last, rfl, ?_⟩
    have hsv : ∀ t ∈ v, t.Spelt := (List.forall_mem_append.1 hs).2
    have hbrace := hlast.starts_eq_false hsv
    rw [if_neg (by simp [hf])]
    split
    next hd => exact hlead.ofTokens_declaration ho hc hbrace hlast hd
    next hd =>
      refine Reading.ofTokens_block hend ho hc (hlead.items rfl ?_)
      exact .result hbrace hlast (Token.is_eq_false_of_is hc (by decide)) (fun _ => hc)
        (Bool.eq_false_iff.2 hd)

end Braced

end Grammar

/-- Put between braces, a program is a block of its own statements. The last of them is the result
of the block unless a semicolon ends it, and fails to be one if it is a declaration. The program
itself is its only statement or, whatever ends the last one, a block of them without a result. -/
theorem Expr.braced_of_read {text file : String} {e : Expr} {o c : Token}
    (h : Expr.read text file = .ok e) (ho : o.is openBrace = true) (hc : c.is closeBrace = true) :
    let ts := (Token.read text file).filter fun t => !t.isEnd
    ∃ (init : List Expr) (last : Expr) (t : TokenStream),
      Grammar.statements (.ofTokens (Token.read text file) file) = .ok (init ++ [last]) t ∧
      (init = [] → e = last) ∧
      (∀ (first : Expr) (between : List Expr), init = first :: between →
        e = .block (first.span.through last.span) (init ++ [last])
          (Expr.implicitUnit (Token.endAfter ts.getLast?).span)) ∧
      Expr.ofTokens (Token.closed (o :: (ts ++ [c]))) file =
        if finishes ts ";" then
          .ok (.block (o.span.through c.span) (init ++ [last]) (Expr.implicitUnit c.span))
        else if last.isDeclaration then .error ⟨.declarationAsResult, last.span.start⟩
        else .ok (.block (o.span.through c.span) init last) := by
  obtain ⟨es, t, hrun, hes, htree⟩ := Expr.statements_of_read h
  have hw : Token.scan text.toList file ≠ [] := by
    intro hnil
    rw [hnil, Rule.statements_nil_iff] at hes
    rw [hes] at htree
    cases htree
  obtain ⟨init, last, rfl, hbraced⟩ :=
    hes.ofTokens_braced hw (fun t => Token.spelt_of_mem_scan) ho hc file
  rw [Token.filter_read]
  refine ⟨init, last, t, hrun, ?_, ?_, hbraced⟩
  · rintro rfl
    exact (Option.some_inj.1 htree).symm
  · rintro first between rfl
    rw [List.cons_append, Grammar.treeOf_concat] at htree
    exact (Option.some_inj.1 htree).symm

/-- A declaration that its own brace ends is the last statement: the program is read, and between
braces it is refused where the declaration starts. -/
theorem Expr.braced_of_read_declaration :
    let brace (text : String) : Token := ⟨.punctuation, text, .null⟩
    let ts := (Token.read "1;var y=\x7b\x7d" "").filter fun t => !t.isEnd
    let place (start stop : Nat) : Span := ⟨⟨1, start, ""⟩, ⟨1, stop, ""⟩⟩
    let one : Expr := .literal (place 1 2) (.int 1)
    let declared : Expr := .declaration (place 3 11) ⟨"y", place 7 8⟩ none
      (.block (place 9 11) [] (Expr.implicitUnit (place 10 11)))
    Expr.read "1;var y=\x7b\x7d" "" =
        .ok (.block (place 1 11) [one, declared] (Expr.implicitUnit (place 10 10))) ∧
      Expr.ofTokens (Token.closed (brace openBrace :: (ts ++ [brace closeBrace]))) "" =
        .error ⟨.declarationAsResult, ⟨1, 3, ""⟩⟩ := by
  intro brace ts place one declared
  have h : Expr.read "1;var y=\x7b\x7d" "" =
      .ok (.block (place 1 11) [one, declared] (Expr.implicitUnit (place 10 10))) := by
    with_unfolding_all rfl
  have hstatements : ∃ t, Grammar.statements
      (.ofTokens (Token.read "1;var y=\x7b\x7d" "") "") = .ok [one, declared] t :=
    ⟨_, by with_unfolding_all rfl⟩
  obtain ⟨t, hrun⟩ := hstatements
  obtain ⟨init, last, t', hrun', -, -, hbraced⟩ := braced_of_read h
    (o := brace openBrace) (c := brace closeBrace) (by decide) (by decide)
  obtain ⟨hitems, -⟩ := EStateM.Result.ok.inj (hrun'.symm.trans hrun)
  have hsplit : init ++ [last] = [one] ++ [declared] := hitems
  obtain rfl : last = declared := List.singleton_inj.1 (List.append_inj' hsplit rfl).2
  have hfinishes : finishes ts ";" = false := by decide +kernel
  refine ⟨h, ?_⟩
  rw [hbraced, hfinishes]
  rfl

end ExprLang
