import ExprLang.Proofs.Grammar.Declarations
import ExprLang.Proofs.Grammar.Errors
import ExprLang.Proofs.Token.LongestMatch
import ExprLang.Proofs.Typing.Causes

/-!
What checking may take for granted of a tree that is read. Main statement: such a tree is well
formed, so that reading fails by the rules of the grammar only, and checking by those of types and
names.
-/

namespace ExprLang

open ExprLang.Token (closed scan Spelt IsName)

namespace Token

variable {t : Token}

/-- What is read as a name is one: no word of another kind and no reserved word. -/
theorem Spelt.isName_text (hs : t.Spelt) (ht : t.IsName) :
    ExprLang.isName t.text = true := by
  obtain ⟨hkind, hreserved⟩ := ht
  have hform := hs.hasForm
  rw [hkind] at hform
  obtain ⟨⟨c, cs, htext, hc, hcs⟩, htruth, hoperator⟩ := hform
  have hchars : ((c.isAlpha || c == '_') && cs.all fun d => d.isAlphanum || d == '_') = true := by
    simp only [Bool.and_eq_true, List.all_eq_true, Bool.or_eq_true, beq_iff_eq]
    exact ⟨hc, hcs⟩
  have hword : ∀ word ∈ keywords, t.text ≠ word := by
    simp only [Piece.truthWords, Piece.operatorWords, List.mem_cons, List.not_mem_nil, or_false,
      not_or] at htruth hoperator hreserved
    simp [keywords, htruth, hoperator, hreserved]
  unfold ExprLang.isName
  rw [htext, Bool.and_eq_true, Bool.not_eq_true']
  exact ⟨hchars, by simpa using fun h => hword _ h rfl⟩

/-- A number without a sign is never negative. -/
theorem Spelt.int64?_nonneg (hs : t.Spelt) (hk : t.kind = .integer) {value : Int}
    (hv : Text.int64? t.text = some value) : 0 ≤ value ∧ value ≤ 9223372036854775807 := by
  rw [hs.int64? hk] at hv
  split at hv
  next hle =>
    obtain rfl := Option.some_inj.1 hv
    exact ⟨Int.natCast_nonneg _, Int.ofNat_le.2 hle⟩
  next => cases hv

end Token

namespace Ascription

attribute [local simp] wellNamed Ascription.wellNamedAll

/-- Ascriptions that are read name types, and there is one at least. -/
theorem Reading.wellNamedAll {p : Part} {w r : List Token} {as : List Ascription}
    (h : Reading p w r as) : as ≠ [] ∧ Ascription.wellNamedAll as = true := by
  induction h with
  | simple _ hname => simpa using hname
  | function _ _ _ _ _ ihp ihr =>
    obtain ⟨hne, hparams⟩ := ihp
    simp_all
  | last _ _ ih => exact ih
  | more _ _ _ ih ihs => simp_all

end Ascription

namespace Grammar

open ExprLang.Expr (wellNamed wellNamedAll isUnit)

/-- Trees of well-named parts. What a level goes on from has to be one, and only the result of a
block can be the unit value. -/
def Part.WellNamed : Part → List Expr → Prop
  | leaning _ a, es => wellNamed a = true → wellNamedAll es = true
  | items, es => ∃ statements result, es = statements ++ [result] ∧
      wellNamedAll statements = true ∧ (isUnit result || wellNamed result) = true
  | _, es => wellNamedAll es = true

attribute [local simp] Expr.wellNamed Expr.wellNamedAll Part.WellNamed

/-- A statement in front of the items of a block. -/
theorem Part.WellNamed.cons {e : Expr} {es : List Expr} (he : wellNamed e = true)
    (hes : Part.items.WellNamed es) : Part.items.WellNamed (e :: es) := by
  obtain ⟨statements, result, rfl, hstatements, hresult⟩ := hes
  exact ⟨e :: statements, result, rfl, by simp [he, hstatements], hresult⟩

theorem Reading.wellNamed {p : Part} {w r : List Token} {es : List Expr} (h : Reading p w r es) :
    (∀ t ∈ w, t.Spelt) → p.WellNamed es := by
  induction h with
  | integer hk _ hv =>
    intro hs
    simp [(hs _ List.mem_cons_self).int64?_nonneg hk hv]
  | boolean | stop => simp
  | name ht =>
    intro hs
    simp [(hs _ List.mem_cons_self).isName_text ht]
  | callEmpty hf =>
    intro hs
    simp [(hs _ List.mem_cons_self).isName_text hf]
  | tightest _ ih | value _ _ ih | last _ _ ih | statement _ _ ih => exact ih
  | call hf =>
    intro hs
    simp only [List.forall_mem_cons, List.forall_mem_append] at hs
    simp_all [hs.1.isName_text hf]
  | grouping | signed | ifThen | ifThenElse | loop | assignment | level | step | more =>
    intro hs
    simp only [List.forall_mem_cons, List.forall_mem_append] at hs
    simp_all
  | block _ _ _ ih =>
    intro hs
    simp only [List.forall_mem_cons, List.forall_mem_append] at hs
    obtain ⟨statements, result, hsplit, hstatements, hresult⟩ := ih hs.2.1
    obtain ⟨rfl, hlast⟩ := List.append_inj' hsplit rfl
    obtain rfl := List.singleton_inj.1 hlast
    simpa using And.intro hstatements hresult
  | declaration _ hn =>
    intro hs
    simp only [List.forall_mem_cons] at hs
    simp_all [hs.2.1.isName_text hn]
  | ascribed _ hn _ ha _ _ ih =>
    intro hs
    simp only [List.forall_mem_cons, List.forall_mem_append] at hs
    have hascription := ha.wellNamedAll.2
    simp_all [hs.2.1.isName_text hn, Ascription.wellNamedAll]
  | leftOut => exact fun _ => ⟨[], _, rfl, rfl, rfl⟩
  | result _ _ _ _ _ ih =>
    intro hs
    have hresult := ih hs
    exact ⟨[], _, rfl, rfl, by simp_all⟩
  | terminated _ _ _ _ ih ihs =>
    intro hs
    simp only [List.forall_mem_cons, List.forall_mem_append] at hs
    exact .cons (by simpa using ih hs.1) (ihs hs.2.2)
  | closed _ _ _ _ _ _ ih ihs =>
    intro hs
    rw [List.forall_mem_append] at hs
    exact .cons (by simpa using ih hs.1) (ihs hs.2)

theorem Statements.wellNamed {b : Bool} {w : List Token} {es : List Expr}
    (h : Statements b w es) : (∀ t ∈ w, t.Spelt) → wellNamedAll es = true := by
  induction h with
  | done => exact fun _ => rfl
  | only hst => exact hst.wellNamed
  | terminated hst _ _ ih =>
    intro hs
    simp only [List.forall_mem_cons, List.forall_mem_append] at hs
    have hfirst := hst.wellNamed hs.1
    simp_all
  | closed hst _ _ _ ih =>
    intro hs
    rw [List.forall_mem_append] at hs
    have hfirst := hst.wellNamed hs.1
    simp_all

/-- A program of several statements is a block whose result is left out. -/
theorem wellNamed_treeOf {close : Token} {es : List Expr} {e : Expr}
    (h : treeOf close es = some e) (hes : wellNamedAll es = true) : wellNamed e = true := by
  match es with
  | [] => cases h
  | [only] =>
    obtain rfl := Option.some_inj.1 h
    simpa using hes
  | first :: second :: rest =>
    obtain rfl := Option.some_inj.1 h
    simpa [isUnit, Expr.implicitUnit] using hes

end Grammar

namespace Expr

theorem wellNamed_of_ofTokens {ts : List Token} {file : String} {e : Expr}
    (hs : ∀ t ∈ ts, t.Spelt) (h : Expr.ofTokens (closed ts) file = .ok e) :
    e.wellNamed = true := by
  obtain ⟨es, hes, htree⟩ := (Expr.ofTokens_closed_iff fun t ht => (hs t ht).isEnd).1 h
  exact Grammar.wellNamed_treeOf htree (hes.wellNamed hs)

theorem wellFormed_of_read {text file : String} {e : Expr} (h : Expr.read text file = .ok e) :
    e.WellFormed :=
  ⟨placed_of_read h, wellNamed_of_ofTokens (fun _ => Token.spelt_of_mem_scan) h⟩

/-- What is blamed on a token is a fault of the grammar. -/
theorem kind_of_read_error {text file : String} {error : Error}
    (h : Expr.read text file = .error error) : error.cause.kind = .grammatical := by
  obtain ⟨k, stop, hrun, -⟩ := exists_failsAt_iff.2 h
  obtain ⟨w, r, x, r', -, -, -, -, hblames, -⟩ :=
    exists_of_program_error (fun t => Token.spelt_of_mem_scan) hrun
  unfold Error.Blames at hblames
  split at hblames
  next hcause => rw [hcause]; rfl
  next hcause => rw [hcause]; rfl
  next hcause => rw [hcause]; rfl
  next => exact hblames.elim

/-- Reading and checking keep apart. A tree that is read is well formed: declarations stand at the
root and directly in blocks, a unit value only as the result of a block, every number, name and
ascription is one that a program can write. So a text is refused by the rules of the grammar or, in
whatever scope its tree is checked, by those of types and names, and never for what no program
has. -/
theorem contract_of_read (text file : String) :
    (∀ e, Expr.read text file = .ok e →
      e.WellFormed ∧ ∀ s error t, check e s = .error error t → error.cause.kind = .semantic) ∧
    ∀ error, Expr.read text file = .error error → error.cause.kind = .grammatical := by
  refine ⟨fun e h => ?_, fun error h => kind_of_read_error h⟩
  have hformed := wellFormed_of_read h
  exact ⟨hformed, fun s error t hcheck => kind_of_check_error hformed.wellNamed hcheck⟩

/-- A declaration whose value is not of the type that it states. -/
theorem contract_of_read_declaration :
    ∃ e error t, Expr.read "var x: Int = true" "" = .ok e ∧ e.WellFormed ∧
      check e (.ofBase builtins) = .error error t ∧ error.cause.kind = .semantic := by
  have hrun : ∃ e, Expr.read "var x: Int = true" "" = .ok e ∧
      ∃ error t, check e (.ofBase builtins) = .error error t :=
    ⟨_, by with_unfolding_all rfl, _, _, by with_unfolding_all rfl⟩
  obtain ⟨e, hread, error, t, hcheck⟩ := hrun
  obtain ⟨hformed, hkind⟩ := (contract_of_read "var x: Int = true" "").1 e hread
  exact ⟨e, error, t, hread, hformed, hcheck, hkind _ _ _ hcheck⟩

end Expr

end ExprLang
