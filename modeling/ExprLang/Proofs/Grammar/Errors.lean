import ExprLang.Proofs.Grammar.Acceptance
import ExprLang.Proofs.Grammar.Bounds
import ExprLang.Proofs.Grammar.Viability

/-!
Where a token list is refused. Main statement: at the first token that does not go on with those
before it, whatever stands behind it.
-/

namespace ExprLang

open ExprLang.Token (closed endAfter scan)

namespace TokenStream

variable {w r : List Token} {x : Token}

theorem ofTokens_concat (ts : List Token) (last : Token) (file : String) :
    ofTokens (ts ++ [last]) file =
      if h : last.isEnd = true then ⟨file, none, ts, last, h⟩
      else ⟨file, none, ts ++ [last], endAfter (some last), rfl⟩ := by
  simp [ofTokens]

theorem ofTokens_closed (ts : List Token) (file : String) :
    ofTokens (closed ts) file = ⟨file, none, ts, endAfter ts.getLast?, rfl⟩ := by
  rw [closed, ofTokens_concat, dif_pos (Token.isEnd_endAfter _)]

/-- A token of the list is ahead, or it closes the list. -/
theorem ofTokens_append (w : List Token) (x : Token) (r : List Token) (file : String) :
    (∃ r', (ofTokens (w ++ x :: r) file).ahead = w ++ r') ∧
      ((ofTokens (w ++ x :: r) file).pass w).current = x := by
  rcases List.eq_nil_or_concat r with rfl | ⟨r, y, rfl⟩
  · rw [ofTokens_concat]
    by_cases hx : x.isEnd = true
    · simp [hx, pass, current]
    · simp [hx, pass, current]
  · have hlist : w ++ x :: r.concat y = (w ++ x :: r) ++ [y] := by simp
    rw [hlist, ofTokens_concat]
    by_cases hy : y.isEnd = true
    · simp [hy, pass, current]
    · simp [hy, pass, current]

/-- Lists with the same tokens up to `x` look alike to what stops there. -/
theorem alike_ofTokens {s : TokenStream} (hs : s.previous = none) (hx : (s.pass w).current = x)
    (r : List Token) (file : String) : Alike w s (ofTokens (w ++ x :: r) file) :=
  ⟨by rw [previous_ofTokens, hs], (ofTokens_append w x r file).1,
    by rw [(ofTokens_append w x r file).2, hx]⟩

/-- The token behind the first ones is one of the list or the end mark that closes it. -/
theorem closed_eq_append {ts : List Token} (h : ts = w ++ r) (file : String) :
    ∃ x r', ((ofTokens (closed ts) file).pass w).current = x ∧ closed ts = w ++ x :: r' := by
  rw [ofTokens_closed]
  cases r with
  | nil => exact ⟨endAfter ts.getLast?, [], by simp [h, pass, current], by simp [h, closed]⟩
  | cons y r =>
    exact ⟨y, r ++ [endAfter ts.getLast?], by simp [h, pass, current], by simp [h, closed]⟩

end TokenStream

namespace Expr

open ExprLang.Grammar (Viable)
open ExprLang.Parser (Answers)
open ExprLang.TokenStream (Alike)

/-- Reading these tokens fails with `e` and stops at the token with index `k`: so many tokens fewer
are ahead there than at the start. -/
def FailsAt (tokens : List Token) (file : String) (k : Nat) (e : Error) : Prop :=
  ∃ stop, Grammar.program.run (.ofTokens tokens file) = .error e stop ∧
    k = (TokenStream.ofTokens tokens file).remaining - stop.remaining

theorem exists_failsAt_iff {tokens : List Token} {file : String} {e : Error} :
    (∃ k, FailsAt tokens file k e) ↔ Expr.ofTokens tokens file = .error e := by
  unfold FailsAt Expr.ofTokens
  cases Grammar.program.run (.ofTokens tokens file) with
  | ok a t => simp
  | error e' t => simp

/-- Lists that have a token and all before it in common split there alike. -/
theorem exists_eq_append_of_getElem? {tokens w r : List Token} {x : Token}
    (h : ∀ i ≤ w.length, tokens[i]? = (w ++ x :: r)[i]?) : ∃ r', tokens = w ++ x :: r' := by
  induction w generalizing tokens with
  | nil =>
    cases tokens with
    | nil => simp at h
    | cons y tokens => exact ⟨tokens, by simpa using h⟩
  | cons y w ih =>
    have hfirst := h 0 (Nat.zero_le _)
    cases tokens with
    | nil => simp at hfirst
    | cons z tokens =>
      obtain rfl : z = y := by simpa using hfirst
      obtain ⟨r', rfl⟩ := ih fun i hi => by simpa using h (i + 1) (Nat.succ_le_succ hi)
      exact ⟨r', rfl⟩

/-- A viable prefix of a program is read in full once it is completed. -/
theorem exists_ofTokens_of_viable {w : List Token} (hw : ∀ t ∈ w, t.Spelt)
    (h : Viable (Grammar.Derives .program) w) (file : String) :
    ∃ u e, (∀ t ∈ u, t.Spelt) ∧ Expr.ofTokens (closed (w ++ u)) file = .ok e := by
  obtain ⟨u, hu, hprogram⟩ := h
  have hspelt : ∀ t ∈ w ++ u, t.Spelt := List.forall_mem_append.2 ⟨hw, hu⟩
  obtain ⟨es, hes, hne⟩ := (Grammar.derives_program_iff hspelt).1 hprogram
  obtain ⟨e, he⟩ := Grammar.exists_treeOf.2 hne
  exact ⟨u, e, hu, (Expr.ofTokens_closed_iff fun t ht => (hspelt t ht).isEnd).2 ⟨es, hes, he⟩⟩

/-- Reading a closed list of tokens that a text can have fails behind a viable prefix of programs,
at a token that the error blames. -/
theorem exists_of_program_error {ts : List Token} {file : String} {e : Error} {stop : TokenStream}
    (hspelt : ∀ t ∈ ts, t.Spelt)
    (hrun : Grammar.program.run (.ofTokens (closed ts) file) = .error e stop) :
    ∃ w r x r', ts = w ++ r ∧ stop = (TokenStream.ofTokens (closed ts) file).pass w ∧
      stop.current = x ∧ closed ts = w ++ x :: r' ∧ e.Blames w x ∧
      Viable (Grammar.Derives .program) w := by
  have hahead : (TokenStream.ofTokens (closed ts) file).ahead = ts := by
    rw [TokenStream.ofTokens_closed]
  obtain ⟨w, r, hw, rfl, hfaults, hviable⟩ :=
    Rule.fails_program _ (.ofTokens (closed ts) file) (Nat.le_refl _) (by rwa [hahead]) e stop hrun
  rw [hahead] at hw
  obtain ⟨x, r', hx, hlist⟩ := TokenStream.closed_eq_append hw file
  exact ⟨w, r, x, r', hw, rfl, hx, hlist, hx ▸ hfaults.blames, hviable⟩

/-- An error is raised at the first offending token, the one with index `k`. Any other list fails
with the same error at the same place if it has the same tokens up to this one; the error blames
this token; and the tokens before it can be completed to a program. -/
theorem first_offence {text file : String} {k : Nat} {e : Error}
    (h : FailsAt (Token.read text file) file k e) :
    ∃ x, (Token.read text file)[k]? = some x ∧
      (∀ tokens file', (∀ i ≤ k, tokens[i]? = (Token.read text file)[i]?) →
        FailsAt tokens file' k e) ∧
      e.Blames ((Token.read text file).take k) x ∧
      ∃ u e', (∀ t ∈ u, t.Spelt) ∧
        Expr.ofTokens (closed ((Token.read text file).take k ++ u)) file = .ok e' := by
  obtain ⟨stop, hrun, hk⟩ := h
  have hread : Token.read text file = closed (scan text.toList file) := rfl
  have hspelt : ∀ t ∈ scan text.toList file, t.Spelt := fun t => Token.spelt_of_mem_scan
  rw [hread] at hrun hk ⊢
  generalize scan text.toList file = ts at hspelt hrun hk ⊢
  obtain ⟨w, r, x, r', hw, rfl, hx, hlist, hblames, hviable⟩ := exists_of_program_error hspelt hrun
  have hahead : (TokenStream.ofTokens (closed ts) file).ahead = w ++ r := by
    rw [TokenStream.ofTokens_closed, ← hw]
  rw [Parser.remaining_of_ahead hahead] at hk
  obtain rfl : k = w.length := by omega
  have htake : (closed ts).take w.length = w := by
    rw [hlist]
    exact List.take_left
  rw [htake]
  refine ⟨x, by simp [hlist], fun tokens file' htokens => ?_, hblames, ?_⟩
  · rw [hlist] at htokens
    obtain ⟨r'', rfl⟩ := exists_eq_append_of_getElem? htokens
    have halike :=
      TokenStream.alike_ofTokens (TokenStream.previous_ofTokens (closed ts) file) hx r'' file'
    obtain ⟨v, hv⟩ := halike.ahead
    refine ⟨_, Grammar.local_program.error hahead hrun halike, ?_⟩
    rw [Parser.remaining_of_ahead hv]
    omega
  · have hspeltw : ∀ t ∈ w, t.Spelt := fun t ht =>
      hspelt t (by rw [hw]; exact List.mem_append_left r ht)
    exact exists_ofTokens_of_viable hspeltw hviable file

/-- An argument is missing behind a comma. -/
theorem first_offence_argument :
    let e : Error := ⟨.unexpectedToken Rule.operandStart ")" .punctuation, ⟨1, 6, ""⟩⟩
    ∃ k x u e', FailsAt (Token.read "f(1, )" "") "" k e ∧
      (Token.read "f(1, )" "")[k]? = some x ∧ x.text = ")" ∧
      Expr.ofTokens (closed ((Token.read "f(1, )" "").take k ++ u)) "" = .ok e' := by
  intro e
  have hrun : Expr.ofTokens (Token.read "f(1, )" "") "" = .error e := by
    with_unfolding_all rfl
  obtain ⟨k, hk⟩ := exists_failsAt_iff.2 hrun
  obtain ⟨x, hx, -, hblames, u, e', -, hread⟩ := first_offence hk
  exact ⟨k, x, u, e', hk, hx, hblames.1.symm, hread⟩

end Expr

end ExprLang
