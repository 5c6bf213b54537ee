import ExprLang.Proofs.Grammar.Completeness

/-!
The language of programs. Main statement: a text has a tree exactly if the grammar derives its
tokens.
-/

namespace ExprLang

open ExprLang.Token (starts finishes openBrace closeBrace Spelt)

namespace Grammar

variable {w r : List Token}

theorem Derives.exists_reading (h : Derives .statement w) (hs : ∀ t ∈ w, t.Spelt)
    (hr : Follows w r) : ∃ e, Reading .statement w r [e] :=
  (splitting (w.length + 1)).statement (Nat.lt_succ_self _) hs h hr

/-- Items up to the end of the program are statements of it. -/
theorem Derives.exists_statements (h : Derives (.items none) w) (hs : ∀ t ∈ w, t.Spelt)
    (b : Bool) : ∃ es, Statements b w es := by
  generalize hc : Category.items none = c at h
  induction h generalizing b with
  | noItems => exact ⟨[], .done⟩
  | @moreItems next w v hw hv _ ih =>
    cases hc
    obtain ⟨hsw, hsv⟩ := List.forall_mem_append.1 hs
    obtain ⟨es, hes⟩ := ih hsv false rfl
    rw [Option.or_none] at hw
    cases hw with
    | @terminated _ w q hst hq =>
      obtain ⟨e, he⟩ := hst.exists_reading (List.forall_mem_append.1 hsw).1
        (follows_cons (r := v) hq (by decide))
      rw [List.append_assoc]
      exact ⟨_, .terminated he hq hes⟩
    | closed hst hf hnext =>
      obtain ⟨e, he⟩ := hst.exists_reading hsw (follows_of_opensText hf fun t ht =>
        ⟨hv.opensText hsv t ht, (hnext t ht).2⟩)
      refine ⟨_, .closed he (Token.starts_eq_false_iff.2 fun t ht => ?_) hf hes⟩
      simpa using (hnext t ht).1
  | _ => cases hc

/-- The tokens of a program are statements up to its end, of which there is at least one. -/
theorem derives_program_iff (hs : ∀ t ∈ w, t.Spelt) :
    Derives .program w ↔ ∃ es, Statements true w es ∧ es ≠ [] := by
  constructor
  · intro h
    have hne := h.ne_nil rfl
    have hsome : ∀ es, Statements true w es → es ≠ [] := by
      rintro es hes rfl
      cases hes
      exact hne rfl
    cases h with
    | single hst =>
      obtain ⟨e, he⟩ := hst.exists_reading hs follows_nil
      exact ⟨[e], he.statements, List.cons_ne_nil e []⟩
    | several _ hw =>
      obtain ⟨es, hes⟩ := hw.exists_statements hs true
      exact ⟨es, hes, hsome es hes⟩
  · rintro ⟨es, hes, hne⟩
    exact hes.derives hne hs

end Grammar

/-- The rules accept the language of the grammar, neither more nor less. -/
theorem Expr.exists_read_iff_derives (text file : String) :
    (∃ e, Expr.read text file = .ok e) ↔
      Grammar.Derives .program ((Token.read text file).filter fun t => !t.isEnd) := by
  rw [Token.filter_read]
  have hs : ∀ t ∈ Token.scan text.toList file, t.Spelt := fun t => Token.spelt_of_mem_scan
  have hend : Rule.EndFree (Token.scan text.toList file) := fun t ht => (hs t ht).isEnd
  rw [Grammar.derives_program_iff hs]
  unfold Expr.read Token.read
  constructor
  · rintro ⟨e, he⟩
    obtain ⟨es, hes, htree⟩ := (Expr.ofTokens_closed_iff hend).1 he
    exact ⟨es, hes, Grammar.exists_treeOf.1 ⟨e, htree⟩⟩
  · rintro ⟨es, hes, hne⟩
    obtain ⟨e, htree⟩ := Grammar.exists_treeOf.2 hne
    exact ⟨e, (Expr.ofTokens_closed_iff hend).2 ⟨es, hes, htree⟩⟩

end ExprLang
