import ExprLang.Proofs.Grammar.Programs
import ExprLang.Proofs.Token.Spelling
import ExprLang.Proofs.Typing.Placement

/-!
Where declarations stand in a program. Main statement: in a tree that is read they stand at the root
and directly in blocks, and nowhere else.
-/

namespace ExprLang

namespace Grammar

/-- Where a part allows for declarations: in statements, but in no expression and no result. -/
def Part.Places : Part → List Expr → Prop
  | leaning _ a, es => a.placed false = true → ∀ e ∈ es, e.placed false = true
  | operand, es | binary _, es | expression, es | expressions, es =>
    ∀ e ∈ es, e.placed false = true
  | statement, es => ∀ e ∈ es, e.placed true = true
  | items, es => ∀ statements result, es = statements ++ [result] →
    (∀ e ∈ statements, e.placed true = true) ∧ result.placed false = true

/-- A statement in front of the items of a block. -/
theorem places_cons {e : Expr} {es : List Expr} (he : e.placed true = true)
    (hes : Part.items.Places es) (hne : ∃ statements result, es = statements ++ [result]) :
    Part.items.Places (e :: es) := by
  obtain ⟨ss, r, rfl⟩ := hne
  intro statements result h
  obtain ⟨hss, hr⟩ := hes ss r rfl
  rw [← List.cons_append] at h
  obtain ⟨rfl, hlast⟩ := List.append_inj' h rfl
  obtain rfl : r = result := List.singleton_inj.1 hlast
  exact ⟨List.forall_mem_cons.2 ⟨he, hss⟩, hr⟩

theorem Reading.places {p : Part} {w r : List Token} {es : List Expr} (h : Reading p w r es) :
    p.Places es := by
  have hsingle {a : Expr} {d : Bool} (ha : a.placed d = true) : ∀ e ∈ [a], e.placed d = true := by
    intro e he
    rw [List.mem_singleton.1 he]
    exact ha
  have hresult {a : Expr} (ha : a.placed false = true) : Part.items.Places [a] := by
    intro statements result h
    have hnil : [] ++ [a] = statements ++ [result] := h
    obtain ⟨rfl, hlast⟩ := List.append_inj' hnil rfl
    obtain rfl : a = result := List.singleton_inj.1 hlast
    exact ⟨by simp, ha⟩
  induction h with
  | integer | boolean | name | callEmpty => exact hsingle rfl
  | call _ _ _ _ _ _ ih => exact hsingle (Tree.placedAll_iff.2 ih)
  | grouping _ _ _ ih | tightest _ ih | value _ _ ih | last _ _ ih => exact ih
  | signed _ _ _ ih =>
    apply hsingle
    simp [Tree.placed, ih _ List.mem_cons_self]
  | ifThen _ _ _ _ _ ihc iht =>
    apply hsingle
    simp [Tree.placed, ihc _ List.mem_cons_self, iht _ List.mem_cons_self]
  | ifThenElse _ _ _ _ _ _ ihc iht ihe =>
    apply hsingle
    simp [Tree.placed, ihc _ List.mem_cons_self, iht _ List.mem_cons_self,
      ihe _ List.mem_cons_self]
  | loop _ _ _ _ ihc ihb | assignment _ _ _ ihc ihb =>
    apply hsingle
    simp [Tree.placed, ihc _ List.mem_cons_self, ihb _ List.mem_cons_self]
  | block _ _ _ ih =>
    obtain ⟨hss, hr⟩ := ih _ _ rfl
    apply hsingle
    simp [Tree.placed, Tree.placedAll_iff.2 hss, hr]
  | level _ _ _ iha ihe => exact ihe (iha _ List.mem_cons_self)
  | stop => exact hsingle
  | step _ _ _ ihb ihe =>
    intro ha
    apply ihe
    simp [Tree.placed, ha, ihb _ List.mem_cons_self]
  | more _ _ _ ih ihs => exact List.forall_mem_cons.2 ⟨ih _ List.mem_cons_self, ihs⟩
  | declaration _ _ _ _ _ ih | ascribed _ _ _ _ _ _ ih =>
    apply hsingle
    simp [Tree.placed, ih _ List.mem_cons_self]
  | statement _ _ ih => exact hsingle (Tree.placed_true (ih _ List.mem_cons_self))
  | leftOut => exact hresult rfl
  | terminated _ _ _ hes ih ihs => exact places_cons (ih _ List.mem_cons_self) ihs hes.exists_result
  | closed _ _ _ _ _ hes ih ihs =>
    exact places_cons (ih _ List.mem_cons_self) ihs hes.exists_result
  | result _ _ _ _ hd ih => exact hresult (Tree.placed_false (ih _ List.mem_cons_self) hd)

theorem Statements.places {b : Bool} {w : List Token} {es : List Expr} (h : Statements b w es) :
    ∀ e ∈ es, e.placed true = true := by
  induction h with
  | done => simp
  | terminated hst _ _ ih => exact List.forall_mem_cons.2 ⟨hst.places _ List.mem_cons_self, ih⟩
  | closed hst _ _ _ ih => exact List.forall_mem_cons.2 ⟨hst.places _ List.mem_cons_self, ih⟩
  | only hst => exact hst.places

theorem placed_treeOf {close : Token} {es : List Expr} {e : Expr} (h : treeOf close es = some e)
    (hes : ∀ e ∈ es, e.placed true = true) : e.placed true = true := by
  match es with
  | [] => cases h
  | [a] =>
    obtain rfl := Option.some_inj.1 h
    exact hes a List.mem_cons_self
  | a :: b :: es =>
    obtain rfl := Option.some_inj.1 h
    have hall := Tree.placedAll_iff.2 hes
    simp [Tree.placed, hall, Expr.implicitUnit]

end Grammar

/-- In a tree that is read, declarations stand only at the root and directly in blocks. -/
theorem Expr.placed_of_read {text file : String} {e : Expr} (h : Expr.read text file = .ok e) :
    e.placed true = true := by
  have hend : Rule.EndFree (Token.scan text.toList file) := fun t ht =>
    (Token.spelt_of_mem_scan ht).isEnd
  obtain ⟨es, hes, htree⟩ := (Expr.ofTokens_closed_iff hend).1 h
  exact Grammar.placed_treeOf htree hes.places

end ExprLang
