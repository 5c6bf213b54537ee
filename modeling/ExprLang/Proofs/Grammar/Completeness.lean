import ExprLang.Proofs.Grammar.Soundness
import ExprLang.Proofs.Grammar.Spine

/-!
What the grammar derives is read by the rules. A rule takes the longest chain of operands that it
can; what it leaves of a chain is a chain again, so that it never takes a turn that loses the rest.
Main statement: a program is a list of statements.
-/

namespace ExprLang

open ExprLang.Token (starts finishes openBrace closeBrace Spelt)

namespace Grammar

variable {n k : Nat} {w v u r : List Token}

/-- An operand starts with one of its own texts only if it is not told by its kind. -/
theorem opensOperand_eq_false {t : Token} (hs : t.Spelt)
    (ht : t.kind = .integer ∨ t.kind = .boolean ∨ t.IsName) : t.opensOperand = false := by
  have hkind : t.kind = .integer ∨ t.kind = .boolean ∨ t.kind = .identifier :=
    ht.imp_right (Or.imp_right And.left)
  have hmark {x : String} (hx : ∀ k, k = .integer ∨ k = .boolean ∨ k = .identifier →
      Piece.kindOf? x.toList ≠ some k) : t.is x = false :=
    hs.is_eq_false (hx t.kind hkind)
  have hword {x : String} (hx : Token.reservedWords.contains x = true)
      (hk : Piece.kindOf? x.toList = some .identifier) : t.is x = false := by
    rcases ht with ht | ht | ht
    · exact hs.is_eq_false (by rw [hk, ht]; decide)
    · exact hs.is_eq_false (by rw [hk, ht]; decide)
    · exact ht.is_eq_false hx
  rw [Token.opensOperand_eq_false_iff]
  refine ⟨hmark ?_, hmark ?_, ?_, hword (by decide) (by decide), hword (by decide) (by decide)⟩
  · rintro k (rfl | rfl | rfl) <;> decide
  · rintro k (rfl | rfl | rfl) <;> decide
  · have hminus : t.is "-" = false := hmark (by rintro k (rfl | rfl | rfl) <;> decide)
    have hnot : t.is "not" = false := hmark (by rintro k (rfl | rfl | rfl) <;> decide)
    simp [Token.isOneOf, hminus, hnot]

theorem Derives.exists_ascription {c : Category} (h : Derives c w) :
    (∀ t ∈ w, t.Spelt) →
      (c = .type → ∀ r, ∃ a, Ascription.Reading .one w r [a]) ∧
      (c = .types → ∀ r, starts r "," = false → ∃ as, Ascription.Reading .many w r as) := by
  induction h with
  | typeName ht =>
    intro hs
    have hs := hs _ (List.mem_singleton_self _)
    refine ⟨fun _ r => ?_, fun h => by cases h⟩
    rcases ht with ht | ht | ht <;>
    · have hk := hs.kind_of_is ht
      refine ⟨_, .simple ?_ ?_⟩
      · exact (Option.some_inj.1 (hk.symm.trans (by decide)))
      · rw [Token.text_of_is ht]
        decide
  | @functionType o w c a v ho _ hc ha _ ih ih' =>
    intro hs
    refine ⟨fun _ r => ?_, fun h => by cases h⟩
    have hcomma : starts (c :: a :: (v ++ r)) "," = false :=
      Token.is_eq_false_of_is hc (by decide)
    simp only [List.forall_mem_cons, List.forall_mem_append] at hs
    obtain ⟨result, hresult⟩ := (ih' hs.2.2.2.2).1 rfl r
    obtain ⟨params, hparams⟩ := (ih hs.2.1).2 rfl _ hcomma
    exact ⟨_, .function ho hparams hc ha hresult⟩
  | lastType _ ih =>
    intro hs
    refine ⟨fun h => (by cases h), fun _ r hr => ?_⟩
    obtain ⟨a, ha⟩ := (ih hs).1 rfl r
    exact ⟨_, .last ha hr⟩
  | moreTypes _ hq _ ih ih' =>
    intro hs
    refine ⟨fun h => (by cases h), fun _ r hr => ?_⟩
    simp only [List.forall_mem_cons, List.forall_mem_append] at hs
    obtain ⟨as, has⟩ := (ih' hs.2.2).2 rfl r hr
    obtain ⟨a, ha⟩ := (ih hs.1).1 rfl _
    exact ⟨_, .more ha hq has⟩
  | _ =>
    intro _
    exact ⟨fun h => (by cases h), fun h => by cases h⟩

/-- The tokens `r` let a chain `w` before them end: none of them goes on with it. -/
def Follows (w r : List Token) : Prop :=
  ∀ t ∈ r.head?, Looser .or t ∧ t.is "=" = false ∧ t.is "else" = false ∧
    (t.is "(" = true → finishes w closeBrace = true)

theorem Follows.suffix (h : Follows (v ++ w) r) (hw : w ≠ []) : Follows w r := by
  intro t ht
  have := h t ht
  rwa [Token.finishes_append hw] at this

/-- A mark that is no operator lets a chain end. -/
theorem follows_cons {t : Token} {x : String} (ht : t.is x = true)
    (hx : BinaryOp.ofText? x = none ∧ x ≠ "=" ∧ x ≠ "else" ∧ x ≠ "(") : Follows w (t :: r) := by
  obtain ⟨hop, heq, helse, hparen⟩ := hx
  rintro t ⟨⟩
  refine ⟨fun op _ => Token.is_eq_false_of_is ht ?_, Token.is_eq_false_of_is ht heq,
    Token.is_eq_false_of_is ht helse, fun h => ?_⟩
  · rintro rfl
    rw [BinaryOp.ofText?_text] at hop
    cases hop
  · rw [Token.is_eq_false_of_is ht hparen] at h
    cases h

theorem follows_nil : Follows w [] := by
  intro t ht
  cases ht

/-- `p` reads a first part of the tokens `w`, and what it leaves of them ends a chain. -/
def Splits (p : Part) (k : Nat) (w r : List Token) : Prop :=
  ∃ v u e, w = v ++ u ∧ Reading p v (u ++ r) [e] ∧ Spine .behind k u

/-- Chains of less than `n` tokens are split by every part that they can start with. -/
def Splitting (n : Nat) : Prop :=
  ∀ w k r, w.length < n → (∀ t ∈ w, t.Spelt) → Spine .operand k w → Follows w r →
    Splits .operand k w r ∧ (∀ l, Splits (.binary l) k w r) ∧ Splits .expression k w r

/-- What an expression leaves of a chain is nothing, or it starts with an alternative. -/
theorem behind_expression {e : Expr} (hu : Spine .behind k u)
    (h : Reading .expression w (u ++ r) [e]) :
    u = [] ∨ ∃ j l u', k = j + 1 ∧ u = l :: u' ∧ l.is "else" = true ∧ Spine .operand j u' := by
  cases hu with
  | done => exact .inl rfl
  | join hq _ =>
    obtain ⟨hop, heq⟩ := h.stops _ rfl
    rcases hq with hq | hq
    · exact absurd hq (looser_or_iff.1 hop)
    · rw [heq] at hq
      cases hq
  | alternative hl hu => exact .inr ⟨_, _, _, rfl, rfl, hl, hu⟩

/-- What is derived as an expression is read as one, if chains are split. -/
theorem Splitting.expression (h : Splitting n) (hlen : w.length < n) (hs : ∀ t ∈ w, t.Spelt)
    (hw : Derives .expression w) (hr : Follows w r) : ∃ e, Reading .expression w r [e] := by
  obtain ⟨v, u, e, rfl, he, hu⟩ := (h w 0 r hlen hs (hw.spine hs rfl) hr).2.2
  rcases behind_expression hu he with rfl | ⟨j, _, _, hk, -⟩
  · exact ⟨e, by simpa using he⟩
  · cases hk

theorem Splitting.expressions (h : Splitting n) {c : Token} (hc : c.is ")" = true)
    (hw : Derives .expressions w) : w.length < n → (∀ t ∈ w, t.Spelt) →
      ∃ es, Reading .expressions w (c :: r) es := by
  have hcomma : c.is "," = false := Token.is_eq_false_of_is hc (by decide)
  generalize hk : Category.expressions = k at hw
  induction hw with
  | last hw =>
    intro hlen hs
    obtain ⟨e, he⟩ := h.expression hlen hs hw
      (follows_cons (r := r) hc (by decide))
    exact ⟨_, .last he hcomma⟩
  | more hw hq _ _ ih =>
    intro hlen hs
    rw [List.length_append, List.length_cons] at hlen
    simp only [List.forall_mem_cons, List.forall_mem_append] at hs
    obtain ⟨es, hes⟩ := ih hk (by omega) hs.2.2
    obtain ⟨e, he⟩ := h.expression (by omega) hs.1 hw
      (follows_cons hq (by decide))
    exact ⟨_, .more he hq hes⟩
  | _ => cases hk

theorem Splitting.statement (h : Splitting n) (hlen : w.length < n) (hs : ∀ t ∈ w, t.Spelt)
    (hw : Derives .statement w) (hr : Follows w r) : ∃ e, Reading .statement w r [e] := by
  cases hw with
  | @declaration d x q v hd hx hq hv =>
    have hr := hr.suffix (v := [d, x, q]) (hv.ne_nil rfl)
    simp only [List.length_cons] at hlen
    simp only [List.forall_mem_cons] at hs
    obtain ⟨e, he⟩ := h.expression (by omega) hs.2.2.2 hv hr
    exact ⟨_, .declaration hd hx hq (Token.is_eq_false_of_is hq (by decide)) he⟩
  | @ascribed d x c a q v hd hx hc ha hq hv =>
    have hr : Follows v r := by
      refine Follows.suffix (v := d :: x :: c :: (a ++ [q])) ?_ (hv.ne_nil rfl)
      simpa using hr
    simp only [List.length_cons, List.length_append] at hlen
    simp only [List.forall_mem_cons, List.forall_mem_append] at hs
    obtain ⟨e, he⟩ := h.expression (by omega) hs.2.2.2.2.2 hv hr
    obtain ⟨b, hb⟩ := (ha.exists_ascription hs.2.2.2.1).1 rfl (q :: (v ++ r))
    exact ⟨_, .ascribed hd hx hc hb hq he⟩
  | statement hw =>
    obtain ⟨e, he⟩ := h.expression hlen hs hw hr
    refine ⟨e, .statement ?_ he⟩
    refine Token.starts_eq_false_iff.2 fun t ht => ?_
    simpa using Token.is_eq_false_of_opensText (hw.opensText hs t ht) (by decide)

/-- Behind a closing brace another statement can start, unless it starts with a sign. -/
theorem follows_of_opensText (hf : finishes w closeBrace = true)
    (hr : ∀ t ∈ r.head?, Token.opensText true t.text = true ∧ t.is "-" = false) : Follows w r := by
  intro t ht
  obtain ⟨hopens, hminus⟩ := hr t ht
  refine ⟨fun op _ => ?_, Token.is_eq_false_of_opensText hopens (by decide),
    Token.is_eq_false_of_opensText hopens (by decide), fun _ => hf⟩
  by_cases hop : op = .minus
  · rw [hop]
    exact hminus
  · refine Token.is_eq_false_of_opensText hopens ?_
    revert hop
    cases op <;> decide

theorem Derives.starts_eq_false {c : Category} {x : String} (h : Derives c w)
    (hs : ∀ t ∈ w, t.Spelt) (hx : Token.opensText c.declares x = false) : starts w x = false := by
  refine Token.starts_eq_false_iff.2 fun t ht => ?_
  simpa using Token.is_eq_false_of_opensText (h.opensText hs t ht) hx

/-- Items in front of the items of a block. -/
theorem Splitting.items (h : Splitting n) {next : Option Token} {x : List Token}
    {es : List Expr} (hx : x ≠ []) (hnext : next = x.head?)
    (hopens : ∀ t ∈ x.head?, Token.opensText true t.text = true) (hes : Reading .items x r es)
    (hu : Derives (.items next) u) :
    u.length < n → (∀ t ∈ u, t.Spelt) → ∃ es', Reading .items (u ++ x) r es' := by
  generalize hc : Category.items next = c at hu
  induction hu with
  | noItems => exact fun _ _ => ⟨es, hes⟩
  | @moreItems _ w v hw hv _ ih =>
    intro hlen hs
    cases hc
    rw [List.length_append] at hlen
    obtain ⟨hsw, hsv⟩ := List.forall_mem_append.1 hs
    obtain ⟨es', hes'⟩ := ih rfl (by omega) hsv
    rw [List.append_assoc]
    cases hw with
    | terminated hst hq =>
      rw [List.length_append] at hlen
      have hsst := (List.forall_mem_append.1 hsw).1
      obtain ⟨e, he⟩ := h.statement (by omega) hsst hst
        (follows_cons (r := v ++ x ++ r) hq (by decide))
      have hbrace := hst.starts_eq_false hsst (x := closeBrace) (by decide)
      exact ⟨_, by simpa using Reading.terminated hbrace he hq hes'⟩
    | closed hst hf hafter =>
      have hhead : ∀ t ∈ (v ++ x ++ r).head?,
          Token.opensText true t.text = true ∧ t.is ";" = false ∧ t.is "-" = false := by
        intro t ht
        rw [List.head?_append_of_ne_nil _ (by simp [hx]), List.head?_append, ← hnext] at ht
        refine ⟨?_, hafter t ht⟩
        cases hvh : v.head? with
        | none =>
          rw [hvh, Option.none_or, hnext] at ht
          exact hopens t ht
        | some a =>
          rw [hvh, Option.some_or] at ht
          exact hv.opensText hsv t (hvh.trans ht)
      obtain ⟨e, he⟩ := h.statement (by omega) hsw hst
        (follows_of_opensText hf fun t ht => ⟨(hhead t ht).1, (hhead t ht).2.2⟩)
      refine ⟨_, .closed (hst.starts_eq_false hsw (by decide)) he hf ?_ ?_ hes'⟩
      · refine Token.starts_eq_false_iff.2 fun t ht => ?_
        simpa using (hhead t ht).2.1
      · refine Token.starts_eq_false_iff.2 fun t ht => ?_
        simpa using Token.is_eq_false_of_opensText (hhead t ht).1 (by decide)
  | _ => cases hc

/-- A block is read whatever follows it. -/
theorem Splitting.block (h : Splitting n) {o c : Token} {w : List Token}
    (hlen : w.length < n) (hs : ∀ t ∈ w, t.Spelt) (ho : o.is openBrace = true)
    (hw : BlockBody w) (hc : c.is closeBrace = true) :
    ∃ e, Reading .operand (o :: (w ++ [c])) r [e] := by
  have hbody : ∃ es, Reading .items w (c :: r) es := by
    rcases hw with ⟨u, v, q, rfl, hu, hv, hq⟩ | ⟨u, v, rfl, hu, hv⟩
    · rw [List.forall_mem_append, List.forall_mem_append] at hs
      obtain ⟨⟨hsu, hsv⟩, -⟩ := hs
      simp only [List.length_append, List.length_cons] at hlen
      obtain ⟨e, he⟩ := h.statement (by omega) hsv hv
        (follows_cons (r := c :: r) hq (by decide))
      have hend : Reading .items (v ++ [q]) (c :: r) [e, Expr.implicitUnit c.span] :=
        .terminated (hv.starts_eq_false hsv (by decide)) he hq (.leftOut hc)
      rw [List.append_assoc]
      have hhead : (v ++ [q]).head? = v.head? := List.head?_append_of_ne_nil _ (hv.ne_nil rfl)
      refine h.items (by simp) hhead.symm (fun t ht => ?_) hend hu (by omega) hsu
      rw [hhead] at ht
      exact hv.opensText hsv t ht
    · obtain ⟨hsu, hsv⟩ := List.forall_mem_append.1 hs
      rw [List.length_append] at hlen
      obtain ⟨e, he⟩ := h.expression (by omega) hsv hv
        (follows_cons (r := r) hc (by decide))
      have hvar := hv.starts_eq_false hsv (x := "var") (by decide)
      have hend : Reading .items v (c :: r) [e] :=
        .result (hv.starts_eq_false hsv (by decide)) (.statement hvar he)
          (Token.is_eq_false_of_is hc (by decide)) (fun _ => hc) (he.values e List.mem_cons_self)
      exact h.items (hv.ne_nil rfl) rfl
        (fun t ht => Token.opensText_mono (hv.opensText hsv t ht)) hend hu (by omega) hsu
  obtain ⟨es, hes⟩ := hbody
  obtain ⟨statements, result, rfl⟩ := hes.exists_result
  exact ⟨_, .block ho hes hc⟩

/-- What stands first in a chain and is no conditional and no loop is read as it stands. -/
theorem Splitting.atom (h : Splitting n) (hlen : w.length ≤ n) (hs : ∀ t ∈ w, t.Spelt)
    (hw : Derives .primary w) (hif : starts w "if" = false) (hwhile : starts w "while" = false)
    (hr : starts r "(" = true → finishes w closeBrace = true) : ∃ e, Reading .operand w r [e] := by
  cases hw with
  | @integer t ht =>
    have hs := hs t (by simp)
    have hv := hs.int64? ht.1
    rw [if_pos ht.2] at hv
    exact ⟨_, .integer ht.1 (opensOperand_eq_false hs (.inl ht.1)) hv⟩
  | @boolean t ht =>
    exact ⟨_, .boolean ht (opensOperand_eq_false (hs t (by simp)) (.inr (.inl ht)))⟩
  | @name t ht =>
    have hs := hs t (by simp)
    refine ⟨_, .name ht (opensOperand_eq_false hs (.inr (.inr ht))) ?_⟩
    cases hp : starts r "(" with
    | false => rfl
    | true =>
      -- A name is no closing brace, so that the bracket would belong to a call.
      have hbrace : t.is closeBrace = true := by simpa [finishes] using hr hp
      have hk := hs.kind_of_is hbrace
      rw [ht.1] at hk
      exact absurd hk (by decide)
  | @callEmpty f o c hf ho hc =>
    have hs := hs f (by simp)
    exact ⟨_, .callEmpty hf (opensOperand_eq_false hs (.inr (.inr hf))) ho hc⟩
  | @call f o w c hf ho hw hc =>
    simp only [List.forall_mem_cons, List.forall_mem_append] at hs
    have hsw := hs.2.2.1
    simp only [List.length_cons, List.length_append] at hlen
    obtain ⟨es, hes⟩ := h.expressions (r := r) hc hw (by omega) hsw
    exact ⟨_, .call hf (opensOperand_eq_false hs.1 (.inr (.inr hf))) ho
      (hw.starts_eq_false hsw (by decide)) hes hc⟩
  | @grouping o w c ho hw hc =>
    simp only [List.length_cons, List.length_append] at hlen
    have hsw := (List.forall_mem_append.1 (List.forall_mem_cons.1 hs).2).1
    obtain ⟨e, he⟩ := h.expression (by omega) hsw hw
      (follows_cons (r := r) hc (by decide))
    exact ⟨e, .grouping ho he hc⟩
  | ifThen hi | ifThenElse hi =>
    rw [starts, List.head?_cons, Option.any_some, hi] at hif
    cases hif
  | loop hi =>
    rw [starts, List.head?_cons, Option.any_some, hi] at hwhile
    cases hwhile
  | @emptyBlock o c ho hc =>
    have hitems : Reading .items [] (c :: r) ([] ++ [Expr.implicitUnit c.span]) := .leftOut hc
    exact ⟨_, .block ho hitems hc⟩
  | @unitBlock o w v q c ho hw hv hq hc =>
    have hbody : BlockBody (w ++ v ++ [q]) := .inl ⟨w, v, q, rfl, hw, hv, hq⟩
    simp only [List.forall_mem_cons, List.forall_mem_append] at hs
    have hsbody : ∀ t ∈ w ++ v ++ [q], t.Spelt :=
      List.forall_mem_append.2 ⟨List.forall_mem_append.2 hs.2.1, by simpa using hs.2.2.1⟩
    have hlenbody : (w ++ v ++ [q]).length < n := by
      simp only [List.length_cons, List.length_append, List.length_nil] at hlen ⊢
      omega
    simpa using h.block (r := r) hlenbody hsbody ho hbody hc
  | @block o w v c ho hw hv hc =>
    have hbody : BlockBody (w ++ v) := .inr ⟨w, v, rfl, hw, hv⟩
    have hsbody := (List.forall_mem_append.1 (List.forall_mem_cons.1 hs).2).1
    rw [List.length_cons, List.length_append, List.length_singleton] at hlen
    exact h.block (by omega) hsbody ho hbody hc

theorem Reading.length_lt {p : Part} {e : Expr} (h : Reading p v (u ++ r) [e])
    (hp : p.takes = true) : u.length < (v ++ u).length := by
  have := List.length_pos_iff.2 (h.ne_nil hp)
  rw [List.length_append]
  omega

/-- Going on with operators of one level leaves a chain. -/
theorem Splitting.leaning (h : Splitting n) {l : Level} (hlast : ∀ t ∈ r.head?, Looser .or t) :
    ∀ m ≤ n, ∀ u, u.length ≤ m → (∀ t ∈ u, t.Spelt) → Spine .behind k u →
      (u ≠ [] → Follows u r) → ∀ a : Expr,
      ∃ v u' e, u = v ++ u' ∧ Reading (.leaning l a) v (u' ++ r) [e] ∧ Spine .behind k u' := by
  -- Where the next token is no operator of the level, all of the chain is left.
  have hstop (u : List Token) (a : Expr) (hu : Spine .behind k u)
      (hnone : ∀ t ∈ (u ++ r).head?, Rule.operatorOf l t = none) :
      ∃ v u' e, u = v ++ u' ∧ Reading (.leaning l a) v (u' ++ r) [e] ∧ Spine .behind k u' :=
    ⟨[], u, a, rfl, .stop hnone, hu⟩
  intro m
  induction m with
  | zero =>
    intro _ u hlen hs hu _ a
    obtain rfl := List.eq_nil_of_length_eq_zero (Nat.le_zero.1 hlen)
    exact hstop [] a hu fun t ht => Rule.operatorOf_eq_none.2 fun op _ =>
      hlast t ht op (Nat.zero_le _)
  | succ m ih =>
    intro hm u hlen hs hu hr a
    cases hu with
    | done =>
      exact hstop [] a .done fun t ht => Rule.operatorOf_eq_none.2 fun op _ =>
        hlast t ht op (Nat.zero_le _)
    | alternative hl hu =>
      refine hstop _ a (.alternative hl hu) ?_
      rintro t ⟨⟩
      exact Rule.operatorOf_eq_none.2 fun op _ =>
        Token.is_eq_false_of_is hl (by cases op <;> decide)
    | @join _ q x hq hx =>
      cases hop : Rule.operatorOf l q with
      | none =>
        refine hstop _ a (.join hq hx) ?_
        rintro t ⟨⟩
        exact hop
      | some op =>
        rw [List.length_cons] at hlen
        have hsx := (List.forall_mem_cons.1 hs).2
        have hrx : Follows x r := (hr (List.cons_ne_nil q x)).suffix (v := [q]) hx.ne_nil
        obtain ⟨v, u, b, rfl, hb, hu⟩ := (h x k r (by omega) hsx hx hrx).2.1 l.next
        have hlt := hb.length_lt rfl
        have hru : u ≠ [] → Follows u r := fun hne => hrx.suffix hne
        obtain ⟨v', u', e, rfl, he, hu'⟩ := ih (by omega) u (by omega)
          (List.forall_mem_append.1 hsx).2 hu hru (.binary (a.span.through b.span) op a b)
        refine ⟨q :: (v ++ v'), u', e, by simp, .step hop ?_ he, hu'⟩
        rwa [← List.append_assoc]

/-- The first operand of a chain ends before the chain does, or with it. -/
theorem Splitting.operand (h : Splitting n) (hlen : w.length ≤ n) (hs : ∀ t ∈ w, t.Spelt)
    (hw : Spine .operand k w) (hr : Follows w r) : Splits .operand k w r := by
  cases hw with
  | @sign _ t w ht hw =>
    rw [List.length_cons] at hlen
    obtain ⟨v, u, e, rfl, he, hu⟩ := (h w k r (by omega) (List.forall_mem_cons.1 hs).2 hw
      (hr.suffix (v := [t]) hw.ne_nil)).1
    have hop : ∃ op, UnaryOp.ofText? t.text = some op := by
      rcases ht with ht | ht
      · exact ⟨.negate, by rw [Token.text_of_is ht]; decide⟩
      · exact ⟨.not, by rw [Token.text_of_is ht]; decide⟩
    obtain ⟨op, hop⟩ := hop
    have hone : t.isOneOf ["-", "not"] = true := by simpa [Token.isOneOf] using ht
    exact ⟨t :: v, u, _, rfl, .signed hone hop he, hu⟩
  | @condition _ i c t w hi hc ht hw =>
    simp only [List.length_cons, List.length_append] at hlen
    have hrw : Follows w r := by
      refine Follows.suffix (v := i :: (c ++ [t])) ?_ hw.ne_nil
      simpa using hr
    simp only [List.forall_mem_cons, List.forall_mem_append] at hs
    have hsw := hs.2.2.2
    obtain ⟨condition, hcondition⟩ := h.expression (by omega) hs.2.1 hc
      (follows_cons (r := w ++ r) ht (by decide))
    obtain ⟨v, u, e, rfl, he, hu⟩ := (h w (k + 1) r (by omega) hsw hw hrw).2.2
    -- An alternative behind the first branch belongs to this conditional, the innermost one open.
    rcases behind_expression hu he with rfl | ⟨j, l, u, hj, rfl, hl, hu⟩
    · rw [List.append_nil] at hcondition ⊢
      refine ⟨_, [], _, (List.append_nil _).symm, .ifThen hi hcondition ht he ?_, .done⟩
      refine Token.starts_eq_false_iff.2 fun t ht => ?_
      simpa using (hr t ht).2.2.1
    · obtain rfl : k = j := by omega
      simp only [List.length_append, List.length_cons] at hlen
      rw [List.forall_mem_append, List.forall_mem_cons] at hsw
      obtain ⟨x, u, e', rfl, he', hu⟩ := (h u k r (by omega) hsw.2.2 hu (by
          refine Follows.suffix (v := v ++ [l]) ?_ hu.ne_nil
          simpa using hrw)).2.2
      rw [List.append_assoc, List.cons_append, List.append_assoc] at hcondition
      rw [List.cons_append, List.append_assoc] at he
      exact ⟨i :: (c ++ t :: (v ++ l :: x)), u, _, by simp,
        .ifThenElse hi hcondition ht he hl he', hu⟩
  | @loop _ i c d w hi hc hd hw =>
    simp only [List.length_cons, List.length_append] at hlen
    have hrw : Follows w r := by
      refine Follows.suffix (v := i :: (c ++ [d])) ?_ hw.ne_nil
      simpa using hr
    simp only [List.forall_mem_cons, List.forall_mem_append] at hs
    obtain ⟨condition, hcondition⟩ := h.expression (by omega) hs.2.1 hc
      (follows_cons (r := w ++ r) hd (by decide))
    obtain ⟨v, u, e, rfl, he, hu⟩ := (h w k r (by omega) hs.2.2.2 hw hrw).2.2
    rw [List.append_assoc] at hcondition
    exact ⟨i :: (c ++ d :: v), u, _, by simp, .loop hi hcondition hd he, hu⟩
  | @atom _ w v hw hif hwhile hv =>
    rw [List.length_append] at hlen
    have hparen : starts (v ++ r) "(" = true → finishes w closeBrace = true := by
      intro hp
      cases hv with
      | done =>
        rw [List.append_nil] at hr
        cases r with
        | nil => cases hp
        | cons t r => exact (hr t rfl).2.2.2 hp
      | alternative hl _ =>
        rw [List.cons_append, Token.starts_cons, Token.is_eq_false_of_is hl (by decide)] at hp
        cases hp
      | join hq _ =>
        rw [List.cons_append, Token.starts_cons] at hp
        rcases hq with hq | hq
        · obtain ⟨op, hq⟩ := Token.isBinary_iff.1 hq
          rw [Token.is_eq_false_of_is hq (by cases op <;> decide)] at hp
          cases hp
        · rw [Token.is_eq_false_of_is hq (by decide)] at hp
          cases hp
    obtain ⟨e, he⟩ := h.atom (by omega) (List.forall_mem_append.1 hs).1 hw hif hwhile hparen
    exact ⟨w, v, e, rfl, he, hv⟩

theorem Splitting.binary (h : Splitting n) (hlen : w.length ≤ n) (hs : ∀ t ∈ w, t.Spelt)
    (hr : Follows w r) (hw : Splits .operand k w r) (l : Level) : Splits (.binary l) k w r := by
  have hstep (l : Level) (hl : l ≠ .unary) (hnext : Splits (.binary l.next) k w r) :
      Splits (.binary l) k w r := by
    obtain ⟨v, u, a, rfl, ha, hu⟩ := hnext
    have hlt := ha.length_lt rfl
    obtain ⟨v', u', e, rfl, he, hu'⟩ := h.leaning (fun t ht => (hr t ht).1) n (Nat.le_refl n) u
      (by omega) (List.forall_mem_append.1 hs).2 hu (fun hne => hr.suffix hne) a
    refine ⟨v ++ v', u', e, by simp, .level hl ?_ he, hu'⟩
    rwa [← List.append_assoc]
  have hlast : Splits (.binary .unary) k w r := by
    obtain ⟨v, u, a, rfl, ha, hu⟩ := hw
    exact ⟨v, u, a, rfl, .tightest ha, hu⟩
  -- From the tightest level up, since each level starts with an operand of the next one.
  have hmul := hstep .multiplicative (by decide) hlast
  have hadd := hstep .additive (by decide) hmul
  have hrel := hstep .relational (by decide) hadd
  have heq := hstep .equality (by decide) hrel
  have hand := hstep .and (by decide) heq
  cases l with
  | or => exact hstep .or (by decide) hand
  | and => exact hand
  | equality => exact heq
  | relational => exact hrel
  | additive => exact hadd
  | multiplicative => exact hmul
  | unary => exact hlast

theorem Splitting.assignment (h : Splitting n) (hlen : w.length ≤ n) (hs : ∀ t ∈ w, t.Spelt)
    (hr : Follows w r) (hw : Splits (.binary .or) k w r) : Splits .expression k w r := by
  obtain ⟨v, u, a, rfl, ha, hu⟩ := hw
  have hlt := ha.length_lt rfl
  have hvalue (hq : starts (u ++ r) "=" = false) : Splits .expression k (v ++ u) r :=
    ⟨v, u, a, rfl, .value ha hq, hu⟩
  cases hu with
  | done =>
    refine hvalue (Token.starts_eq_false_iff.2 fun t ht => ?_)
    simpa using (hr t ht).2.1
  | alternative hl _ => exact hvalue (Token.is_eq_false_of_is hl (by decide))
  | @join _ q x hq hx =>
    have hloose : Looser .or q := ha.stops q rfl
    have heq : q.is "=" = true := hq.resolve_left (looser_or_iff.1 hloose)
    have hrx : Follows x r := by
      refine Follows.suffix (v := v ++ [q]) ?_ hx.ne_nil
      simpa using hr
    rw [List.length_cons] at hlt
    simp only [List.forall_mem_cons, List.forall_mem_append] at hs
    obtain ⟨v', u', b, rfl, hb, hu'⟩ := (h x k r (by omega) hs.2.2 hx hrx).2.2
    rw [List.cons_append, List.append_assoc] at ha
    exact ⟨v ++ q :: v', u', _, by simp, .assignment ha heq hb, hu'⟩

/-- Chains of any length are split by the parts that they can start with. -/
theorem splitting : ∀ n, Splitting n := by
  intro n
  -- By induction on the length: whatever stands inside of a chain is shorter than the chain.
  induction n with
  | zero =>
    intro w k r hlen
    exact absurd hlen (Nat.not_lt_zero _)
  | succ n ih =>
    intro w k r hlen hs hw hr
    have hlen := Nat.le_of_lt_succ hlen
    have hoperand := ih.operand hlen hs hw hr
    have hbinary := ih.binary hlen hs hr hoperand
    exact ⟨hoperand, hbinary, ih.assignment hlen hs hr (hbinary .or)⟩

end Grammar

end ExprLang
