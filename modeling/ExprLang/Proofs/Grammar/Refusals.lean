import ExprLang.Proofs.Grammar.Braces

/-!
Declarations that a block refuses as its result. Main statements: behind a declaration that nothing
ends a block refuses the declaration, whatever token comes next, though it refuses this token behind
any other statement; and nothing else is refused as a declaration.
-/

namespace ExprLang

open ExprLang.Token (openBrace closeBrace)

namespace Grammar

variable {s : TokenStream} {o : Token} {u v r : List Token} {es : List Expr} {item : Expr}

/-- A block behind its items, where it asks for the closing brace. -/
theorem block_of_items {w : List Token} {result : Expr} (hs : s.ahead = o :: (w ++ r))
    (ho : o.is openBrace = true) (hw : Reading .items w r (es ++ [result])) :
    Grammar.block s =
      let t := s.pass (o :: w)
      if t.current.is closeBrace then
        .ok (.block (o.span.through t.current.span) es result) t.advance
      else Parser.unexpected (.oneOf [";", closeBrace]) t := by
  have hopen : s.ahead = [o] ++ (w ++ r) := hs
  have hitems : Rule.blockItems (Rule.statement (Rule.operand s.remaining) s.remaining) s.remaining
      (s.pass [o]) = .ok (es, result) ((s.pass [o]).pass w) := by
    have hbound := Parser.remaining_pass_one hopen (Nat.le_succ s.remaining)
    have hstatement := Rule.denotes_statement (Rule.denotes_operand s.remaining)
    exact (Rule.denotes_blockItems hstatement _ (Nat.le_refl _) _ hbound (es, result) _).2
      ⟨w, r, TokenStream.ahead_pass hopen, rfl, hw⟩
  rw [← TokenStream.pass_append] at hitems
  refine (Sequence.bind_of_ok (Rule.expect_openBrace hs ho)).trans
    ((Sequence.bind_of_ok hitems).trans ?_)
  rw [List.singleton_append]
  dsimp only
  split
  next hc => exact Sequence.bind_of_ok (Parser.demand_of_is hc _)
  next hc =>
    exact Sequence.bind_of_error (Parser.demand_of_not_is (Bool.eq_false_iff.2 hc) _)

/-- What a block makes of a statement that nothing ends, behind other items. A declaration is
refused whatever token comes next. Anything else is the result if this is the closing brace, and
the token is refused if it is not. -/
theorem block_of_unended (hs : s.ahead = o :: (u ++ (v ++ r))) (ho : o.is openBrace = true)
    (hspelt : ∀ t ∈ v, t.Spelt) (hu : Leading u (v ++ r) es) (hv : Unended v r item) :
    Grammar.block s =
      let t := s.pass (o :: (u ++ v))
      let next := t.current
      if item.isDeclaration then .error ⟨.declarationAsResult, item.span.start⟩ t
      else if next.is closeBrace then .ok (.block (o.span.through next.span) es item) t.advance
      else .error ⟨.unexpectedToken (.oneOf [";", closeBrace]) next.text next.kind, next.location⟩
        t := by
  have hbrace := hv.reading.starts_eq_false hspelt
  cases hd : item.isDeclaration with
  | true =>
    have hopen : s.ahead = [o] ++ (u ++ (v ++ r)) := hs
    have hitems := hu.blockItems_of_declaration
      (Parser.remaining_pass_one hopen (Nat.le_succ s.remaining)) (TokenStream.ahead_pass hopen)
      hbrace hv hd
    rw [← TokenStream.pass_append] at hitems
    exact Rule.block_of_blockItems hs ho hitems
  | false =>
    have hitems : Reading .items (u ++ v) r (es ++ [item]) :=
      hu.items rfl (.result hbrace hv.reading hv.semicolon hv.brace hd)
    rw [← List.append_assoc] at hs
    exact block_of_items hs ho hitems

end Grammar

namespace Expr

open ExprLang.Grammar (Unended)

/-- Where a text is refused for a declaration in the place of a result, the tokens that were read
end in this declaration, no semicolon comes next, and nothing but a closing brace does if the
declaration itself ends in one. -/
theorem unended_of_declarationAsResult {text file : String} {k : Nat} {e : Error}
    (h : FailsAt (Token.read text file) file k e) (hcause : e.cause = .declarationAsResult) :
    ∃ (u v r : List Token) (item : Expr),
      ((Token.read text file).filter fun t => !t.isEnd) = u ++ v ++ r ∧ k = (u ++ v).length ∧
      Unended v r item ∧ item.isDeclaration = true ∧ e.position = item.span.start := by
  obtain ⟨stop, hrun, hk⟩ := h
  rw [Token.filter_read]
  have hahead : (TokenStream.ofTokens (Token.read text file) file).ahead =
      Token.scan text.toList file := by
    rw [Token.read, TokenStream.ofTokens_closed]
  have hspelt : ∀ t ∈ Token.scan text.toList file, t.Spelt := fun t => Token.spelt_of_mem_scan
  obtain ⟨w, r, hw, rfl, hfaults, -⟩ := Rule.fails_program _ _ (Nat.le_refl _)
    (by rwa [hahead]) e stop hrun
  rw [Parser.remaining_of_ahead hw] at hk
  obtain ⟨u, v, item, hsplit, hunended, hd, hplace⟩ := hfaults.declaration hcause
  rw [TokenStream.ahead_pass hw] at hunended
  obtain rfl : w = u ++ v := hsplit
  exact ⟨u, v, r, item, by rw [← hahead, hw], by omega, hunended, hd, hplace⟩

/-- A block ends the declaration here. -/
theorem unended_of_declarationAsResult_block :
    let e : Error := ⟨.declarationAsResult, ⟨1, 2, ""⟩⟩
    ∃ (k : Nat) (u v r : List Token) (item : Expr),
      FailsAt (Token.read "\x7bvar x=\x7b\x7d\x7d" "") "" k e ∧
      ((Token.read "\x7bvar x=\x7b\x7d\x7d" "").filter fun t => !t.isEnd) = u ++ v ++ r ∧
      k = (u ++ v).length ∧ Unended v r item ∧ e.position = item.span.start := by
  intro e
  obtain ⟨k, hk⟩ := exists_failsAt_iff.2
    (show Expr.ofTokens (Token.read "\x7bvar x=\x7b\x7d\x7d" "") "" = .error e by
      with_unfolding_all rfl)
  obtain ⟨u, v, r, item, hsplit, hlength, hunended, -, hplace⟩ :=
    unended_of_declarationAsResult hk rfl
  exact ⟨k, u, v, r, item, hk, hsplit, hlength, hunended, hplace⟩

/-- A name follows the declaration of this block. -/
theorem declarationAsResult_before_name :
    ∃ (k : Nat) (t : Token), FailsAt (Token.read "\x7b var x = 1 y \x7d" "") "" k
        ⟨.declarationAsResult, ⟨1, 3, ""⟩⟩ ∧
      (Token.read "\x7b var x = 1 y \x7d" "")[k]? = some t ∧ t.is closeBrace = false ∧
      t.text = "y" := by
  refine ⟨5, ⟨.identifier, "y", ⟨⟨1, 13, ""⟩, ⟨1, 14, ""⟩⟩⟩, ?_, ?_, ?_, rfl⟩
  · exact ⟨_, by with_unfolding_all rfl, by decide +kernel⟩
  · decide +kernel
  · decide

end Expr

end ExprLang
