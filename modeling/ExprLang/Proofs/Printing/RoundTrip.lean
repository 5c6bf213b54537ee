import ExprLang.Proofs.Grammar.Programs
import ExprLang.Proofs.Printing.Operands

/-!
Reading back what is written. Main statement: the spelling of a tree that can be written is read as
a tree of its shape.
-/

namespace ExprLang

open ExprLang.Token (starts finishes openBrace closeBrace Spells)
open ExprLang.Grammar (Reading Quiet quiet_cons)

namespace Ascription

mutual

theorem readable : ∀ a : Ascription, a.wellNamed = true → ∀ w r, Spells w a.lexemes →
    ∃ a' : Ascription, Ascription.Reading .one w r [a'] ∧ a'.sameShape a = true
  | simple name _, h, w, r, hw => by
    obtain ⟨t, rfl, hs, ht⟩ := hw.single
    have hk : t.kind = .identifier := by
      refine Option.some_inj.1 ((hs.kind_of_is ht).symm.trans ?_)
      simp only [wellNamed, simpleNames, List.contains_iff_mem, List.mem_cons, List.not_mem_nil,
        or_false] at h
      rcases h with rfl | rfl | rfl <;> decide
    refine ⟨_, .simple hk (by rw [Token.text_of_is ht]; exact h), ?_⟩
    simp [sameShape, agree, Token.text_of_is ht]
  | function params result _, h, w, r, hw => by
    simp only [wellNamed, Bool.and_eq_true, Bool.not_eq_true', List.isEmpty_eq_false_iff] at h
    obtain ⟨⟨hne, hparams⟩, hresult⟩ := h
    obtain ⟨o, w, rfl, -, ho, hw⟩ := hw.cons
    obtain ⟨u, c, w, rfl, hu, hc, hw⟩ := hw.parted
    obtain ⟨a, v, rfl, -, ha, hv⟩ := hw.cons
    have hcomma : starts (c :: a :: (v ++ r)) "," = false :=
      Token.is_eq_false_of_is hc (by decide)
    obtain ⟨params', hp, hpshape⟩ := readable_each params hne hparams u _ hu hcomma
    obtain ⟨result', hr, hrshape⟩ := readable result hresult v r hv
    refine ⟨_, .function ho hp hc ha hr, ?_⟩
    unfold sameShape at *
    simp [agree, hpshape, hrshape]

theorem readable_each : ∀ as : List Ascription, as ≠ [] → wellNamedAll as = true → ∀ w r,
    Spells w (withCommas (lexemesEach as)) → starts r "," = false →
      ∃ as', Ascription.Reading .many w r as' ∧ agreeAll (fun _ _ => true) as' as = true
  | [], hne, _, _, _, _, _ => absurd rfl hne
  | [a], _, h, w, r, hw, hr => by
    simp only [wellNamedAll, Bool.and_eq_true] at h
    obtain ⟨a', ha, hshape⟩ := readable a h.1 w r hw
    refine ⟨_, .last ha hr, ?_⟩
    unfold sameShape at hshape
    simp [agreeAll, hshape]
  | a :: b :: as, _, h, w, r, hw, hr => by
    rw [wellNamedAll, Bool.and_eq_true] at h
    have hw : Spells w (a.lexemes ++ "," :: withCommas (lexemesEach (b :: as))) := hw
    obtain ⟨u, q, v, rfl, hu, hq, hv⟩ := hw.parted
    obtain ⟨as', has, hasshape⟩ := readable_each (b :: as) (List.cons_ne_nil b as) h.2 v r hv hr
    obtain ⟨a', ha, hshape⟩ := readable a h.1 u (q :: (v ++ r)) hu
    refine ⟨_, .more ha hq has, ?_⟩
    unfold sameShape at hshape
    rw [agreeAll, hshape, hasshape]
    rfl

end

end Ascription

namespace Expr

variable {e : Expr} {w r : List Token} {l : Span}

theorem readable_arguments {es : List Expr} (hes : ∀ e ∈ es, Readable e) (hne : es ≠ []) :
    ∀ w r, Spells w (withCommas (lexemesEach es)) → Quiet r → starts r "," = false →
      ∃ es', Reading .expressions w r es' ∧ Tree.agreeAll shape es' es = true := by
  match es with
  | [] => exact absurd rfl hne
  | [e] =>
    intro w r hw hr hcomma
    obtain ⟨e', he', hshape⟩ := (hes e List.mem_cons_self).expression hw hr
    refine ⟨_, .last he' hcomma, ?_⟩
    unfold sameShape at hshape
    simp [Tree.agreeAll, hshape]
  | e :: d :: es =>
    intro w r hw hr hcomma
    have hw : Spells w (e.lexemes ++ "," :: withCommas (lexemesEach (d :: es))) := hw
    obtain ⟨u, q, v, rfl, hu, hq, hv⟩ := hw.parted
    obtain ⟨es', hes', hesshape⟩ := readable_arguments
      (fun e he => hes e (List.mem_cons_of_mem _ he)) (List.cons_ne_nil d es) v r hv hr hcomma
    obtain ⟨e', he', hshape⟩ := (hes e List.mem_cons_self).expression (r := q :: (v ++ r)) hu
      (quiet_cons hq (by decide))
    refine ⟨_, .more he' hq hes', ?_⟩
    unfold sameShape at hshape
    rw [Tree.agreeAll, hshape, hesshape]
    rfl

theorem readable_call {callee : Identifier} {arguments : List Expr}
    (hname : isName callee.name = true) (h : ∀ e ∈ arguments, Readable e) :
    Readable (.call l callee arguments) := by
  intro w r hw _
  obtain ⟨f, w, rfl, hs, hf, hw⟩ := hw.cons
  obtain ⟨o, v, c, rfl, ho, hv, hc⟩ := hw.bracketed
  have hfname := hs.isName hf hname
  have hopens := Grammar.opensOperand_eq_false hs (.inr (.inr hfname))
  -- A call without arguments is a form of its own: the bracket closes at once.
  by_cases hne : arguments = []
  · subst hne
    obtain rfl := Token.spells_nil_iff.1 hv
    refine ⟨_, .callEmpty hfname hopens ho hc, ?_⟩
    simp [sameShape, Tree.agree, Tree.agreeAll, Token.text_of_is hf]
  · obtain ⟨es', hes', hshape⟩ := readable_arguments h hne v (c :: r) hv
      (quiet_cons hc (by decide)) (Token.is_eq_false_of_is hc (by decide))
    have hclose := (hes'.sound hv.spelt).starts_eq_false hv.spelt (x := ")") (by decide)
    refine ⟨_, .call hfname hopens ho hclose hes' hc, ?_⟩
    simp [sameShape, Tree.agree, hshape, Token.text_of_is hf]

/-- What stands last in a block is its result, and nothing does where that is the unit value. -/
theorem readable_result {result : Expr} (h : isUnit result = true ∨ Readable result) {c : Token}
    (hc : c.is closeBrace = true)
    (hw : Spells w (if isUnit result then [] else result.lexemes)) :
    ∃ e', Reading .items w (c :: r) [e'] ∧ sameShape e' result = true := by
  by_cases hu : isUnit result = true
  · rw [if_pos hu] at hw
    obtain rfl := Token.spells_nil_iff.1 hw
    refine ⟨_, .leftOut hc, ?_⟩
    unfold isUnit at hu
    split at hu
    · rfl
    · cases hu
  · rw [if_neg hu] at hw
    obtain ⟨e', he', hshape⟩ := (h.resolve_left hu).expression (r := c :: r) hw
      (quiet_cons hc (by decide))
    have hsound := he'.sound hw.spelt
    have hvar := hsound.starts_eq_false hw.spelt (x := "var") (by decide)
    have hbrace := hsound.starts_eq_false hw.spelt (x := closeBrace) (by decide)
    have hsemicolon : starts (c :: r) ";" = false := Token.is_eq_false_of_is hc (by decide)
    exact ⟨e', .result hbrace (.statement hvar he') hsemicolon (fun _ => hc)
      (he'.values e' List.mem_cons_self), hshape⟩

theorem readable_items {result : Expr} {c : Token} (h : isUnit result = true ∨ Readable result)
    (hc : c.is closeBrace = true) {statements : List Expr}
    (hes : ∀ e ∈ statements, ReadableStatement e) (hw : Spells w
      ((lexemesEach statements).flatMap (· ++ [";"]) ++
        if isUnit result then [] else result.lexemes)) :
    ∃ es' e', Reading .items w (c :: r) (es' ++ [e']) ∧
      Tree.agreeAll shape es' statements = true ∧ sameShape e' result = true := by
  induction statements generalizing w with
  | nil =>
    obtain ⟨e', he', hshape⟩ := readable_result (r := r) h hc hw
    exact ⟨[], e', he', rfl, hshape⟩
  | cons e es ih =>
    have hw : Spells w (e.lexemes ++ ";" :: ((lexemesEach es).flatMap (· ++ [";"]) ++
        if isUnit result then [] else result.lexemes)) := by
      simpa [lexemesEach] using hw
    obtain ⟨u, q, v, rfl, hu, hq, hv⟩ := hw.parted
    obtain ⟨es', e', hes', hesshape, hshape⟩ := ih (List.forall_mem_cons.1 hes).2 hv
    obtain ⟨d, hd, hdshape⟩ := hes e List.mem_cons_self u (q :: (v ++ c :: r)) hu
      (quiet_cons hq (by decide))
    have hbrace := (hd.sound hu.spelt).1.starts_eq_false hu.spelt (x := closeBrace)
      (by decide)
    refine ⟨d :: es', e', .terminated hbrace hd hq hes', ?_, hshape⟩
    unfold sameShape at hdshape
    rw [Tree.agreeAll, hdshape, hesshape]
    rfl

theorem readable_block {statements : List Expr} {result : Expr}
    (hes : ∀ e ∈ statements, ReadableStatement e) (h : isUnit result = true ∨ Readable result) :
    Readable (.block l statements result) := by
  intro w r hw _
  have hw : Spells w (openBrace :: (((lexemesEach statements).flatMap (· ++ [";"]) ++
      if isUnit result then [] else result.lexemes) ++ [closeBrace])) := by
    simpa [lexemes] using hw
  obtain ⟨o, v, c, rfl, ho, hv, hc⟩ := hw.bracketed
  obtain ⟨es', e', hitems, hesshape, hshape⟩ := readable_items (r := r) h hc hes hv
  refine ⟨_, .block ho hitems hc, ?_⟩
  unfold sameShape at *
  simp [Tree.agree, hesshape, hshape]

theorem readableStatement_declaration {name : Identifier} {ascription : Option Ascription}
    {value : Expr} (hname : isName name.name = true)
    (ha : ascription.all Ascription.wellNamed = true) (hv : Readable value) :
    ReadableStatement (.declaration l name ascription value) := by
  intro w r hw hr
  obtain ⟨d, w, rfl, -, hd, hw⟩ := hw.cons
  obtain ⟨n, w, rfl, hs, hn, hw⟩ := hw.cons
  have hnname := hs.isName hn hname
  cases ascription with
  | none =>
    obtain ⟨q, v, rfl, -, hq, hw⟩ := Spells.cons hw
    obtain ⟨e', he', hshape⟩ := hv.expression hw hr
    refine ⟨_, .declaration hd hnname hq (Token.is_eq_false_of_is hq (by decide)) he', ?_⟩
    unfold sameShape at *
    simp [Tree.agree, Tree.agreeOption, hshape, Token.text_of_is hn]
  | some a =>
    obtain ⟨c, w, rfl, -, hc, hw⟩ := Spells.cons hw
    obtain ⟨u, q, v, rfl, hu, hq, hw⟩ := Spells.parted hw
    obtain ⟨a', ha', hashape⟩ := a.readable ha u (q :: (v ++ r)) hu
    obtain ⟨e', he', hshape⟩ := hv.expression hw hr
    refine ⟨_, .ascribed hd hnname hc ha' hq he', ?_⟩
    unfold sameShape at *
    simp [Tree.agree, Tree.agreeOption, hshape, hashape, Token.text_of_is hn]

/-- As an operand, or as a statement where declarations may stand. -/
def Reads : Bool → Expr → Prop
  | false => Readable
  | true => ReadableStatement

theorem Readable.reads (h : Readable e) (declares : Bool) : Reads declares e := by
  cases declares with
  | false => exact h
  | true => exact h.statement

mutual

theorem reads : ∀ (declares : Bool) (e : Expr), e.placed declares = true → e.wellNamed = true →
    Reads declares e
  | declares, .literal _ (.int _), _, h => (readable_int h).reads declares
  | declares, .literal _ (.bool value), _, _ => (readable_bool value).reads declares
  | _, .literal _ .unit, _, h => by cases h
  | declares, .identifier _ _, _, h => (readable_name h).reads declares
  | declares, .binary _ _ left right, hp, h => by
    simp only [Tree.placed, wellNamed, Bool.and_eq_true] at hp h
    apply Readable.reads
    exact readable_binary (reads false left hp.1 h.1) (reads false right hp.2 h.2)
  | declares, .unary _ _ operand, hp, h => by
    apply Readable.reads
    exact readable_unary (reads false operand hp h)
  | declares, .ifThen _ condition consequent, hp, h => by
    simp only [Tree.placed, wellNamed, Bool.and_eq_true] at hp h
    apply Readable.reads
    exact readable_ifThen (reads false condition hp.1 h.1) (reads false consequent hp.2 h.2)
  | declares, .ifThenElse _ condition consequent alternative, hp, h => by
    simp only [Tree.placed, wellNamed, Bool.and_eq_true] at hp h
    apply Readable.reads
    exact readable_ifThenElse (reads false condition hp.1.1 h.1.1)
      (reads false consequent hp.1.2 h.1.2) (reads false alternative hp.2 h.2)
  | declares, .loop _ condition body, hp, h => by
    simp only [Tree.placed, wellNamed, Bool.and_eq_true] at hp h
    apply Readable.reads
    exact readable_loop (reads false condition hp.1 h.1) (reads false body hp.2 h.2)
  | declares, .block _ statements result, hp, h => by
    simp only [Tree.placed, wellNamed, Bool.and_eq_true, Bool.or_eq_true] at hp h
    apply Readable.reads
    exact readable_block (reads_each true statements hp.1 h.1)
      (h.2.imp_right (reads false result hp.2))
  | true, .declaration _ name ascription value, hp, h => by
    simp only [Tree.placed, wellNamed, Bool.and_eq_true] at hp h
    exact readableStatement_declaration h.1.1 h.1.2 (reads false value hp.2 h.2)
  | false, .declaration .., hp, _ => by simp [Tree.placed] at hp
  | declares, .assignment _ target value, hp, h => by
    simp only [Tree.placed, wellNamed, Bool.and_eq_true] at hp h
    apply Readable.reads
    exact readable_assignment (reads false target hp.1 h.1) (reads false value hp.2 h.2)
  | declares, .call _ callee arguments, hp, h => by
    simp only [Tree.placed, wellNamed, Bool.and_eq_true] at hp h
    apply Readable.reads
    exact readable_call h.1 (reads_each false arguments hp h.2)

theorem reads_each : ∀ (declares : Bool) (es : List Expr), Tree.placedAll declares es = true →
    wellNamedAll es = true → ∀ e ∈ es, Reads declares e
  | _, [], _, _ => by simp
  | declares, e :: es, hp, h => by
    simp only [Tree.placedAll, wellNamedAll, Bool.and_eq_true] at hp h
    exact List.forall_mem_cons.2 ⟨reads declares e hp.1 h.1, reads_each declares es hp.2 h.2⟩

end

/-- Reading undoes writing: the spelling of a tree is read as the tree, but for its places. -/
theorem read_spelling {e : Expr} (h : e.WellFormed) (file : String) :
    ∃ e', Expr.read e.spelling file = .ok e' ∧ sameShape e' e = true := by
  have hw := Token.spells_scan_spelling h.wellNamed file
  have hend : Rule.EndFree (Token.scan e.spelling.toList file) := fun t ht => (hw.spelt t ht).isEnd
  -- Nothing follows the spelling, so that the tree is the only statement of the program.
  obtain ⟨e', he', hshape⟩ := reads true e h.placed h.wellNamed _ [] hw Grammar.quiet_nil
  exact ⟨e', (Expr.ofTokens_closed_iff hend).2 ⟨[e'], he'.statements, rfl⟩, hshape⟩

/-- A block with a declaration, a call in brackets, and no result. -/
theorem read_spelling_block :
    let e : Expr := .block .null
      [.declaration .null ⟨"x", .null⟩ (some (.simple "Int" .null)) (.literal .null (.int 1)),
        .binary .null .plus (.identifier .null "x")
          (.call .null ⟨"f", .null⟩ [.literal .null (.bool true)])]
      (.literal .null .unit)
    e.WellFormed ∧ ∃ e', Expr.read e.spelling "" = .ok e' ∧ sameShape e' e = true := by
  intro e
  have h : e.WellFormed := ⟨rfl, rfl⟩
  exact ⟨h, read_spelling h ""⟩

end Expr

end ExprLang
