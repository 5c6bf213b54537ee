import Mathlib.Data.Prod.Lex
import Mathlib.Order.Lattice
import ExprLang.Token.Reader

/-!
The order of places in a text. Main statement: the tokens of a text follow each other in it.
-/

namespace ExprLang

namespace Position

/-- Places come in the order of their lines and, in one line, of their columns. -/
instance : Preorder Position := Preorder.lift fun p => toLex (p.line, p.column)

theorem le_iff {p q : Position} :
    p ≤ q ↔ p.line < q.line ∨ p.line = q.line ∧ p.column ≤ q.column :=
  Prod.Lex.toLex_le_toLex

theorem le_next (p : Position) (c : Char) : p ≤ p.next c := by
  rw [le_iff]
  unfold next
  split
  · exact .inl (Nat.lt_succ_self _)
  · exact .inr ⟨rfl, Nat.le_succ _⟩

theorem le_after (p : Position) (text : List Char) : p ≤ p.after text := by
  induction text generalizing p with
  | nil => exact le_refl p
  | cons c text ih => exact (p.le_next c).trans (ih _)

end Position

namespace Token

/-- No token stops before it starts, and each stops before the later ones start. -/
structure InOrder (ts : List Token) : Prop where
  forward : ∀ t ∈ ts, t.span.start ≤ t.span.stop
  apart : ts.Pairwise fun t u => t.span.stop ≤ u.span.start

namespace InOrder

variable {t : Token} {u v ts : List Token}

theorem sublist (h : InOrder ts) (hu : u.Sublist ts) : InOrder u :=
  ⟨fun t ht => h.forward t (hu.subset ht), h.apart.sublist hu⟩

theorem tail (h : InOrder (t :: ts)) : InOrder ts := h.sublist (List.sublist_cons_self t ts)

theorem left (h : InOrder (u ++ v)) : InOrder u := h.sublist (List.sublist_append_left u v)

theorem right (h : InOrder (u ++ v)) : InOrder v := h.sublist (List.sublist_append_right u v)

/-- Nothing stops behind the last token. -/
theorem stop_le_of_getLast? {last : Token} (h : InOrder ts) (hlast : ts.getLast? = some last)
    (ht : t ∈ ts) : t.span.stop ≤ last.span.stop := by
  obtain ⟨u, rfl⟩ := List.getLast?_eq_some_iff.1 hlast
  rcases List.mem_append.1 ht with ht | ht
  · have hnext := (List.pairwise_append.1 h.apart).2.2 t ht last (List.mem_singleton_self last)
    exact hnext.trans (h.forward last (by simp))
  · rw [List.mem_singleton.1 ht]

end InOrder

/-- The pieces of a text are laid end to end, and so its tokens are in order. -/
theorem inOrder_tokens (p : Position) (ps : List Piece) :
    InOrder (Piece.tokens p ps) ∧ ∀ t ∈ Piece.tokens p ps, p ≤ t.span.start := by
  fun_induction Piece.tokens p ps with
  | case1 => exact ⟨⟨by simp, .nil⟩, by simp⟩
  | case2 p text rest ih => exact ⟨ih.1, fun t ht => (p.le_after text).trans (ih.2 t ht)⟩
  | case3 p kind text rest ih =>
    have hstop := p.le_after text
    refine ⟨⟨?_, .cons ih.2 ih.1.apart⟩, ?_⟩ <;> rw [List.forall_mem_cons]
    · exact ⟨hstop, ih.1.forward⟩
    · exact ⟨le_refl p, fun t ht => hstop.trans (ih.2 t ht)⟩

theorem inOrder_scan (text : List Char) (file : String) : InOrder (scan text file) :=
  (inOrder_tokens _ _).1

end Token

end ExprLang
