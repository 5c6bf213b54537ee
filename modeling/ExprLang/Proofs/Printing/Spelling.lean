import ExprLang.Proofs.Printing.Lexemes
import ExprLang.Proofs.Token.Spacing

/-!
The lexemes of a tree are lexemes. Main statement: so the tokens of its spelling are spelt as its
lexemes.
-/

namespace ExprLang

open ExprLang.Token (Spelt)

/-- The text is one lexeme. -/
def IsLexeme (x : String) : Prop := (Piece.kindOf? x.toList).isSome = true

namespace Piece

variable {c : Char} {cs : List Char}

theorem kindOf?_of_isWord (hc : c.isAlpha = true ∨ c = '_')
    (hcs : ∀ d ∈ cs, d.isAlphanum = true ∨ d = '_') :
    kindOf? (c :: cs) = some (wordKind (c :: cs)) := by
  have hstart := isWordStart_iff.2 hc
  have hblank : Text.isBlank c = false := by
    apply isBlank_eq_false_of_isAlphanum
    exact hc.imp_left fun h => by simp [Char.isAlphanum, h]
  have hcomment : opensComment c cs = false := by
    apply opensComment_of_ne <;> rintro rfl <;> revert hc <;> decide
  have hrun := run_append (f := fun word => some (wordKind word)) (c := c) (u := [])
    (fun d hd => isWordPart_iff.2 (hcs d hd)) (by simp)
  rw [List.append_nil] at hrun
  rw [kindOf?_eq_some_iff]
  unfold cut
  rw [hblank, hcomment, if_neg (by simp), if_neg (by simp), if_pos hstart, hrun]

theorem isWordStart_of_isDigit (hc : c.isDigit = true) : isWordStart c = false := by
  have hhigh : c.toNat ≤ 57 := (Char.isDigit_iff_toNat.1 hc).2
  cases hw : isWordStart c with
  | false => rfl
  | true =>
    rcases isWordStart_iff.1 hw with hw | rfl
    · have hlow := isAlpha_iff_toNat.1 hw
      omega
    · revert hhigh
      decide

theorem kindOf?_of_isDigit (hc : c.isDigit = true) (hcs : ∀ d ∈ cs, d.isDigit = true) :
    kindOf? (c :: cs) = some .integer := by
  have hblank : Text.isBlank c = false := by
    apply isBlank_eq_false_of_isAlphanum
    exact .inl (by simp [Char.isAlphanum, hc])
  have hcomment : opensComment c cs = false := by
    apply opensComment_of_ne <;> rintro rfl <;> revert hc <;> decide
  have hrun := run_append (f := fun _ => some .integer) (c := c) (u := []) hcs (by simp)
  rw [List.append_nil] at hrun
  rw [kindOf?_eq_some_iff]
  unfold cut
  rw [hblank, hcomment, isWordStart_of_isDigit hc, if_neg (by simp), if_neg (by simp),
    if_neg (by simp), if_pos hc, hrun]

end Piece

theorem kindOf?_of_isName {x : String} (h : isName x = true) :
    Piece.kindOf? x.toList = some .identifier ∧ Token.reservedWords.contains x = false := by
  unfold isName at h
  rw [Bool.and_eq_true, Bool.not_eq_true'] at h
  obtain ⟨hchars, hkeyword⟩ := h
  have hwords : ∀ word ∈ keywords, x ≠ word := by
    rintro word hword rfl
    rw [List.contains_iff_mem.2 hword] at hkeyword
    cases hkeyword
  have hreserved : Token.reservedWords.contains x = false := by
    have hne := hwords
    simp only [keywords, List.forall_mem_cons] at hne
    simp [Token.reservedWords, hne]
  refine ⟨?_, hreserved⟩
  cases hx : x.toList with
  | nil => simp [hx] at hchars
  | cons c cs =>
    simp only [hx, Bool.and_eq_true, List.all_eq_true, Bool.or_eq_true, beq_iff_eq] at hchars
    have hlist (word : String) (hword : word ∈ keywords) : c :: cs ≠ word.toList := by
      rw [← hx]
      exact fun h => hwords word hword (String.toList_injective h)
    have hkind : Piece.wordKind (c :: cs) = .identifier := by
      have h1 := hlist "true" (by decide)
      have h2 := hlist "false" (by decide)
      have h3 := hlist "and" (by decide)
      have h4 := hlist "or" (by decide)
      have h5 := hlist "not" (by decide)
      unfold Piece.wordKind
      rw [if_neg (by exact not_or.2 ⟨h1, h2⟩), if_neg (by exact not_or.2 ⟨h3, not_or.2 ⟨h4, h5⟩⟩)]
    rw [Piece.kindOf?_of_isWord hchars.1 hchars.2, hkind]

/-- A number that is not negative is written in digits. -/
theorem toList_render_int {value : Int} (h : 0 ≤ value) :
    (Literal.int value).render.toList = Nat.toDigits 10 value.toNat := by
  show (toString value).toList = _
  rw [Int.toString_eq_repr, Int.repr_eq_if, if_pos h, Nat.toList_repr]

theorem kindOf?_render_int {value : Int} (h : 0 ≤ value) :
    Piece.kindOf? (Literal.int value).render.toList = some .integer := by
  rw [toList_render_int h]
  have hdigits : ∀ d ∈ Nat.toDigits 10 value.toNat, d.isDigit = true := fun d hd =>
    Nat.isDigit_of_mem_toDigits (by decide) (by decide) hd
  cases hd : Nat.toDigits 10 value.toNat with
  | nil => exact absurd hd Nat.toDigits_ne_nil
  | cons c cs =>
    rw [hd] at hdigits
    exact Piece.kindOf?_of_isDigit (hdigits c List.mem_cons_self)
      fun d hd => hdigits d (List.mem_cons_of_mem c hd)

theorem ofDigitChars_render_int {value : Int} (h : 0 ≤ value) :
    Nat.ofDigitChars 10 (Literal.int value).render.toList 0 = value.toNat := by
  rw [toList_render_int h]
  exact Nat.ofDigitChars_ten_toDigits

theorem isLexeme_name {x : String} (h : isName x = true) : IsLexeme x := by
  unfold IsLexeme
  rw [(kindOf?_of_isName h).1]
  rfl

theorem isLexeme_operator (op : BinaryOp) : IsLexeme op.text := by
  unfold IsLexeme
  cases op <;> decide

theorem isLexeme_unary (op : UnaryOp) : IsLexeme op.text := by
  unfold IsLexeme
  cases op <;> decide

/-- The texts that stand in a spelling whatever the tree. -/
theorem isLexeme_mark {x : String}
    (h : x ∈ ["(", ")", ",", ";", ":", "=", "=>", Token.openBrace, Token.closeBrace, "if", "then",
      "else", "while", "do", "var", "true", "false", "Int", "Bool", "Unit"]) : IsLexeme x := by
  unfold IsLexeme
  revert x
  decide

/-- A lexeme is read in front of what ends it. -/
theorem IsLexeme.lexemes_append {x : String} {u : List Char} (hx : IsLexeme x)
    (hu : ∀ b ∈ u.head?, Piece.EndsLexeme b) :
    Piece.lexemes (x.toList ++ u) = x :: Piece.lexemes u := by
  obtain ⟨k, hk⟩ := Option.isSome_iff_exists.1 hx
  exact Piece.lexemes_append hk hu

/-- Every text of a list is one lexeme. -/
def AllLexemes (xs : List String) : Prop := ∀ x ∈ xs, IsLexeme x

theorem allLexemes_nil : AllLexemes [] := by simp [AllLexemes]

theorem allLexemes_cons {x : String} {xs : List String} (hx : IsLexeme x) (hxs : AllLexemes xs) :
    AllLexemes (x :: xs) := List.forall_mem_cons.2 ⟨hx, hxs⟩

theorem AllLexemes.append {xs ys : List String} (hxs : AllLexemes xs) (hys : AllLexemes ys) :
    AllLexemes (xs ++ ys) := List.forall_mem_append.2 ⟨hxs, hys⟩

theorem allLexemes_withCommas {xss : List (List String)} (h : ∀ xs ∈ xss, AllLexemes xs) :
    AllLexemes (withCommas xss) := by
  fun_induction withCommas xss with
  | case1 => exact allLexemes_nil
  | case2 xs => exact h xs List.mem_cons_self
  | case3 xs ys rest ih =>
    have hrest := ih fun zs hzs => h zs (List.mem_cons_of_mem xs hzs)
    exact (h xs List.mem_cons_self).append (allLexemes_cons (isLexeme_mark (by decide)) hrest)

namespace Ascription

mutual

theorem allLexemes : ∀ a : Ascription, a.wellNamed = true → AllLexemes a.lexemes
  | simple name _, h => by
    refine allLexemes_cons ?_ allLexemes_nil
    simp only [wellNamed, simpleNames, List.contains_iff_mem, List.mem_cons, List.not_mem_nil,
      or_false] at h
    rcases h with rfl | rfl | rfl <;> exact isLexeme_mark (by decide)
  | function params result _, h => by
    simp only [wellNamed, Bool.and_eq_true] at h
    refine allLexemes_cons (isLexeme_mark (by decide)) (AllLexemes.append ?_ ?_)
    · exact allLexemes_withCommas (allLexemes_each params h.1.2)
    · refine allLexemes_cons (isLexeme_mark (by decide)) (allLexemes_cons (isLexeme_mark ?_) ?_)
      · decide
      · exact allLexemes result h.2

theorem allLexemes_each : ∀ as : List Ascription, wellNamedAll as = true →
    ∀ xs ∈ lexemesEach as, AllLexemes xs
  | [], _ => by simp [lexemesEach]
  | a :: as, h => by
    simp only [wellNamedAll, Bool.and_eq_true] at h
    exact List.forall_mem_cons.2 ⟨allLexemes a h.1, allLexemes_each as h.2⟩

end

end Ascription

namespace Expr

mutual

theorem allLexemes : ∀ e : Expr, e.wellNamed = true → AllLexemes e.lexemes
  | .literal _ value, h => by
    refine allLexemes_cons ?_ allLexemes_nil
    cases value with
    | int value =>
      simp only [wellNamed, Bool.and_eq_true, decide_eq_true_eq] at h
      unfold IsLexeme
      rw [kindOf?_render_int h.1]
      rfl
    | bool value => cases value <;> exact isLexeme_mark (by decide)
    | unit => cases h
  | .identifier _ name, h => allLexemes_cons (isLexeme_name h) allLexemes_nil
  | .binary _ op left right, h => by
    simp only [wellNamed, Bool.and_eq_true] at h
    have hright := (allLexemes right h.2).append
      (allLexemes_cons (isLexeme_mark (x := ")") (by decide)) allLexemes_nil)
    exact allLexemes_cons (isLexeme_mark (by decide))
      ((allLexemes left h.1).append (allLexemes_cons (isLexeme_operator op) hright))
  | .unary _ op operand, h => by
    have hrest := (allLexemes operand h).append
      (allLexemes_cons (isLexeme_mark (x := ")") (by decide)) allLexemes_nil)
    exact allLexemes_cons (isLexeme_mark (by decide)) (allLexemes_cons (isLexeme_unary op) hrest)
  | .ifThen _ condition consequent, h => by
    simp only [wellNamed, Bool.and_eq_true] at h
    have hrest := (allLexemes consequent h.2).append
      (allLexemes_cons (isLexeme_mark (x := ")") (by decide)) allLexemes_nil)
    exact allLexemes_cons (isLexeme_mark (by decide)) (allLexemes_cons (isLexeme_mark (by decide))
      ((allLexemes condition h.1).append (allLexemes_cons (isLexeme_mark (by decide)) hrest)))
  | .ifThenElse _ condition consequent alternative, h => by
    simp only [wellNamed, Bool.and_eq_true] at h
    have hrest := (allLexemes alternative h.2).append
      (allLexemes_cons (isLexeme_mark (x := ")") (by decide)) allLexemes_nil)
    have hthen := (allLexemes consequent h.1.2).append
      (allLexemes_cons (isLexeme_mark (x := "else") (by decide)) hrest)
    exact allLexemes_cons (isLexeme_mark (by decide)) (allLexemes_cons (isLexeme_mark (by decide))
      ((allLexemes condition h.1.1).append (allLexemes_cons (isLexeme_mark (by decide)) hthen)))
  | .loop _ condition body, h => by
    simp only [wellNamed, Bool.and_eq_true] at h
    have hrest := (allLexemes body h.2).append
      (allLexemes_cons (isLexeme_mark (x := ")") (by decide)) allLexemes_nil)
    exact allLexemes_cons (isLexeme_mark (by decide)) (allLexemes_cons (isLexeme_mark (by decide))
      ((allLexemes condition h.1).append (allLexemes_cons (isLexeme_mark (by decide)) hrest)))
  | .block _ statements result, h => by
    simp only [wellNamed, Bool.and_eq_true, Bool.or_eq_true] at h
    have hstatements : AllLexemes ((lexemesEach statements).flatMap (· ++ [";"])) := by
      intro x hx
      obtain ⟨xs, hxs, hx⟩ := List.mem_flatMap.1 hx
      exact (allLexemes_each statements h.1 xs hxs).append
        (allLexemes_cons (isLexeme_mark (by decide)) allLexemes_nil) x hx
    have hresult : AllLexemes (if isUnit result then [] else lexemes result) := by
      by_cases hu : isUnit result = true
      · rw [if_pos hu]
        exact allLexemes_nil
      · rw [if_neg hu]
        exact allLexemes result (h.2.resolve_left hu)
    exact allLexemes_cons (isLexeme_mark (by decide)) (hstatements.append (hresult.append
      (allLexemes_cons (isLexeme_mark (by decide)) allLexemes_nil)))
  | .declaration _ name ascription value, h => by
    simp only [wellNamed, Bool.and_eq_true] at h
    have hvalue := allLexemes_cons (isLexeme_mark (x := "=") (by decide)) (allLexemes value h.2)
    refine allLexemes_cons (isLexeme_mark (by decide)) (allLexemes_cons (isLexeme_name h.1.1) ?_)
    cases ascription with
    | none => exact hvalue
    | some a =>
      exact (allLexemes_cons (isLexeme_mark (by decide)) (a.allLexemes h.1.2)).append hvalue
  | .assignment _ target value, h => by
    simp only [wellNamed, Bool.and_eq_true] at h
    have hrest := (allLexemes value h.2).append
      (allLexemes_cons (isLexeme_mark (x := ")") (by decide)) allLexemes_nil)
    exact allLexemes_cons (isLexeme_mark (by decide))
      ((allLexemes target h.1).append (allLexemes_cons (isLexeme_mark (by decide)) hrest))
  | .call _ callee arguments, h => by
    simp only [wellNamed, Bool.and_eq_true] at h
    have harguments := (allLexemes_withCommas (allLexemes_each arguments h.2)).append
      (allLexemes_cons (isLexeme_mark (x := ")") (by decide)) allLexemes_nil)
    exact allLexemes_cons (isLexeme_name h.1)
      (allLexemes_cons (isLexeme_mark (by decide)) harguments)

theorem allLexemes_each : ∀ es : List Expr, wellNamedAll es = true →
    ∀ xs ∈ lexemesEach es, AllLexemes xs
  | [], _ => by simp [lexemesEach]
  | e :: es, h => by
    simp only [wellNamedAll, Bool.and_eq_true] at h
    exact List.forall_mem_cons.2 ⟨allLexemes e h.1, allLexemes_each es h.2⟩

end

end Expr

namespace Token

/-- The tokens are spelt as these texts, one by one. -/
structure Spells (w : List Token) (xs : List String) : Prop where
  text : w.map Token.text = xs
  spelt : ∀ t ∈ w, t.Spelt

variable {w : List Token} {x : String} {xs ys : List String}

theorem spells_nil_iff : Spells w [] ↔ w = [] := by
  constructor
  · intro h
    exact List.map_eq_nil_iff.1 h.text
  · rintro rfl
    exact ⟨rfl, by simp⟩

theorem Spells.append (h : Spells w (xs ++ ys)) :
    ∃ u v, w = u ++ v ∧ Spells u xs ∧ Spells v ys := by
  obtain ⟨u, v, rfl, hu, hv⟩ := List.map_eq_append_iff.1 h.text
  exact ⟨u, v, rfl, ⟨hu, fun t ht => h.spelt t (by simp [ht])⟩,
    ⟨hv, fun t ht => h.spelt t (by simp [ht])⟩⟩

theorem Spells.cons (h : Spells w (x :: xs)) :
    ∃ t v, w = t :: v ∧ t.Spelt ∧ t.is x = true ∧ Spells v xs := by
  obtain ⟨t, v, rfl, ht, hv⟩ := List.map_eq_cons_iff.1 h.text
  have hs := h.spelt t List.mem_cons_self
  refine ⟨t, v, rfl, hs, ?_, hv, fun t ht => h.spelt t (List.mem_cons_of_mem _ ht)⟩
  rw [is, hs.isEnd, ht]
  simp

/-- The tokens of a spelling are spelt as the lexemes of the tree. -/
theorem spells_scan_spelling {e : Expr} (h : e.wellNamed = true) (file : String) :
    Spells (scan e.spelling.toList file) e.lexemes :=
  ⟨map_text_scan_joined file fun x hx => Option.isSome_iff_exists.1 (e.allLexemes h x hx),
    fun _ => spelt_of_mem_scan⟩

end Token

end ExprLang
