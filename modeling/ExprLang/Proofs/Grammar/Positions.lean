import ExprLang.Proofs.Grammar.Errors
import ExprLang.Proofs.Typing.Positions

/-!
Where the errors of a text stand. Main statement: an error of reading or of typing stands at the
start of a token of the text, if the text has any.
-/

namespace ExprLang

open ExprLang.Token (closed endAfter scan location)

namespace Expr

theorem start_mem_positions (e : Expr) : e.span.start ∈ e.positions := by
  cases e <;> simp [positions, span, Tree.label]

theorem positionsAll_append (ds es : List Expr) :
    positionsAll (ds ++ es) = positionsAll ds ++ positionsAll es := by
  induction ds with
  | nil => rfl
  | cons d ds ih => simp [positionsAll, ih]

end Expr

namespace Ascription

/-- An ascription and its parts start where tokens of it do. -/
theorem Reading.positions_subset {p : Part} {w r : List Token} {as : List Ascription}
    (h : Reading p w r as) : positionsAll as ⊆ w.map location := by
  induction h with
  | simple => simp [positionsAll, positions, location]
  | last _ _ ih => exact ih
  | function | more =>
    simp only [positionsAll, positions, List.append_nil] at *
    grind [location, Span.through]

end Ascription

namespace Grammar

open ExprLang.Expr (positionsAll start_mem_positions)

/-- Where the trees of a part can start: at its tokens, at what it goes on from, and for a result
left out at the token that ends the block. -/
def Part.sources : Part → List Token → List Token → List Position
  | leaning _ a, w, _ => a.positions ++ w.map location
  | items, w, r => w.map location ++ (r.head?.map location).toList
  | _, w, _ => w.map location

theorem Reading.positions_subset {p : Part} {w r : List Token} {es : List Expr}
    (h : Reading p w r es) : positionsAll es ⊆ p.sources w r := by
  induction h with
  | integer | boolean | name | callEmpty =>
    simp [positionsAll, Expr.positions, Part.sources, Span.through, location]
  | tightest _ ih | value _ _ ih | statement _ _ ih | last _ _ ih => exact ih
  | stop => simp [positionsAll, Part.sources]
  | leftOut => simp [positionsAll, Expr.positions, Part.sources, Expr.implicitUnit, location]
  | ascribed _ _ _ ha _ _ ih =>
    have hascription := ha.positions_subset
    simp only [positionsAll, Ascription.positionsAll, Expr.positions, Part.sources,
      List.append_nil] at *
    grind [location, Span.through]
  -- What has two operands starts where the first one does.
  | @level _ _ _ _ a | @assignment _ _ _ _ a | @step _ _ _ _ _ _ a =>
    have hstart := start_mem_positions a
    simp only [positionsAll, Expr.positions, Part.sources, List.append_nil] at *
    grind [location, Span.through]
  | block _ _ _ ih =>
    rw [Expr.positionsAll_append] at ih
    simp only [positionsAll, Expr.positions, Part.sources, List.append_nil] at *
    grind [location, Span.through]
  | _ =>
    simp only [positionsAll, Expr.positions, Part.sources, List.append_nil] at *
    grind [location, Span.through]

theorem Statements.positions_subset {b : Bool} {w : List Token} {es : List Expr}
    (h : Statements b w es) : positionsAll es ⊆ w.map location := by
  induction h with
  | done => simp [positionsAll]
  | only hst => exact hst.positions_subset
  | terminated hst _ _ ih | closed hst _ _ _ ih =>
    have hfirst := hst.positions_subset
    simp only [positionsAll, Part.sources, List.append_nil] at *
    grind

/-- The tree of a program starts where its statements do, but for the result that they do not have,
which stands at the end of the program. -/
theorem positions_treeOf {close : Token} {es : List Expr} {e : Expr}
    (h : treeOf close es = some e) : e.positions ⊆ positionsAll es ++ [close.location] := by
  match es with
  | [] => cases h
  | [only] =>
    obtain rfl := Option.some_inj.1 h
    simp [positionsAll]
  | first :: second :: rest =>
    obtain rfl := Option.some_inj.1 h
    have hstart := start_mem_positions first
    simp only [positionsAll, Expr.positions, Expr.implicitUnit]
    grind [location, Span.through]

end Grammar

namespace Token

/-- The end mark borrows the place of the last token. -/
theorem location_of_mem_closed {ts : List Token} {t : Token} (ht : t ∈ closed ts) (hts : ts ≠ []) :
    t.location ∈ ts.map location := by
  rcases List.mem_append.1 ht with ht | ht
  · exact List.mem_map_of_mem ht
  · obtain ⟨last, hlast⟩ : ∃ t, ts.getLast? = some t :=
      Option.isSome_iff_exists.1 (by simpa using hts)
    have hend : t.location = last.location := by
      rw [List.mem_singleton.1 ht, hlast]
      rfl
    rw [hend]
    exact List.mem_map_of_mem (List.mem_of_getLast? hlast)

theorem file_of_mem_tokens {p : Position} {pieces : List Piece} {t : Token}
    (h : t ∈ Piece.tokens p pieces) : t.location.file = p.file := by
  fun_induction Piece.tokens p pieces with
  | case1 => simp at h
  | case2 p text rest ih => rw [ih h, Position.after_file]
  | case3 p kind text rest ih =>
    rcases List.mem_cons.1 h with rfl | h
    · rfl
    · rw [ih h, Position.after_file]

/-- Every token of a text stands in the file of the text. -/
theorem file_of_mem_scan {text : List Char} {file : String} {t : Token} (h : t ∈ scan text file) :
    t.location.file = file := file_of_mem_tokens h

end Token

namespace Expr

theorem positions_of_read {text file : String} {e : Expr} (h : Expr.read text file = .ok e) :
    scan text.toList file ≠ [] ∧ e.positions ⊆ (scan text.toList file).map location := by
  have hs : ∀ t ∈ scan text.toList file, t.Spelt := fun t => Token.spelt_of_mem_scan
  obtain ⟨es, hes, htree⟩ := (Expr.ofTokens_closed_iff fun t ht => (hs t ht).isEnd).1 h
  have hne : scan text.toList file ≠ [] := by
    intro hnil
    rw [hnil, Rule.statements_nil_iff] at hes
    rw [hes] at htree
    cases htree
  refine ⟨hne, fun x hx => ?_⟩
  rcases List.mem_append.1 (Grammar.positions_treeOf htree hx) with hx | hx
  · exact hes.positions_subset hx
  · rw [List.mem_singleton.1 hx]
    exact Token.location_of_mem_closed (List.mem_append_right _ (List.mem_singleton_self _)) hne

theorem position_of_read_error {text file : String} {err : Error}
    (h : Expr.read text file = .error err) :
    ∃ t ∈ closed (scan text.toList file), err.position = t.location := by
  obtain ⟨k, stop, hrun, -⟩ := exists_failsAt_iff.2 h
  obtain ⟨w, r, x, r', -, -, -, hlist, hblames, -⟩ :=
    exists_of_program_error (fun t => Token.spelt_of_mem_scan) hrun
  rw [hlist]
  rcases hblames.position with hplace | ⟨t, ht, hplace⟩
  · exact ⟨x, by simp, hplace⟩
  · exact ⟨t, by simp [ht], hplace⟩

/-- Every error of the front end stands at the start of a token of the text. Only a text without
tokens has an error that stands nowhere. -/
theorem error_position {text file : String} {err : Error}
    (h : Expr.read text file = .error err ∨
      ∃ e base, Expr.read text file = .ok e ∧ e.typed base = .error err) :
    let tokens := (Token.read text file).filter fun t => !t.isEnd
    (∃ t ∈ tokens, err.position = t.span.start ∧ err.position.file = file) ∨
      (tokens = [] ∧ err.position = .null) := by
  intro tokens
  have htokens : tokens = scan text.toList file := Token.filter_read text file
  rw [htokens]
  have hplace (hmem : err.position ∈ (scan text.toList file).map location) :
      ∃ t ∈ scan text.toList file, err.position = t.span.start ∧ err.position.file = file := by
    obtain ⟨t, ht, hlocation⟩ := List.mem_map.1 hmem
    exact ⟨t, ht, hlocation.symm, by rw [← hlocation, Token.file_of_mem_scan ht]⟩
  rcases h with h | ⟨e, base, hread, htyped⟩
  · obtain ⟨t, ht, hlocation⟩ := position_of_read_error h
    by_cases hnil : scan text.toList file = []
    · rw [hnil] at ht
      refine .inr ⟨hnil, ?_⟩
      rw [hlocation, List.mem_singleton.1 ht]
      rfl
    · exact .inl (hplace (hlocation ▸ Token.location_of_mem_closed ht hnil))
  · refine .inl (hplace ((positions_of_read hread).2 ?_))
    unfold Expr.typed at htyped
    split at htyped
    · cases htyped
    next hcheck =>
      cases htyped
      exact position_of_check_error hcheck

/-- A name that is defined nowhere. -/
theorem error_position_name :
    let e : Expr := .unary ⟨⟨1, 1, "f"⟩, ⟨1, 4, "f"⟩⟩ .negate
      (.identifier ⟨⟨1, 3, "f"⟩, ⟨1, 4, "f"⟩⟩ "y")
    let err : Error := ⟨.notDefined "y", ⟨1, 3, "f"⟩⟩
    Expr.read "- y" "f" = .ok e ∧ e.typed builtins = .error err ∧
      ∃ t ∈ (Token.read "- y" "f").filter fun t => !t.isEnd, err.position = t.span.start := by
  intro e err
  have hread : Expr.read "- y" "f" = .ok e := by with_unfolding_all rfl
  have htyped : e.typed builtins = .error err := rfl
  refine ⟨hread, htyped, ?_⟩
  rcases error_position (.inr ⟨e, builtins, hread, htyped⟩) with ⟨t, ht, hplace, -⟩ | ⟨-, hnull⟩
  · exact ⟨t, ht, hplace⟩
  · cases hnull

end Expr

end ExprLang
