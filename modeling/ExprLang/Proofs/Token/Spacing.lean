import ExprLang.Proofs.Token.LineBreaks
import ExprLang.Text.Joined

/-!
Lexemes next to each other. Main statement: a text is read as the lexemes it is made of, if each of
them ends in front of what follows it, such as a blank or a mark.
-/

namespace ExprLang

namespace Piece

variable {c : Char} {u : List Char} {k : Token.Kind} {x : String}

theorem endsLexeme_blank : EndsLexeme ' ' := endsLexeme_of_isBlank (by decide)

theorem isMark_iff : isMark c = true ↔
    c = '(' ∨ c = ')' ∨ c = '{' ∨ c = '}' ∨ c = ',' ∨ c = ';' ∨ c = ':' := by
  simp [isMark]

/-- A mark is part of no other lexeme. -/
theorem endsLexeme_of_isMark (hc : isMark c = true) : EndsLexeme c := by
  obtain rfl | rfl | rfl | rfl | rfl | rfl | rfl := isMark_iff.1 hc
  all_goals constructor <;> decide

/-- What follows a lexeme behind a blank ends it. -/
theorem ends_blank (u : List Char) : ∀ b ∈ (' ' :: u).head?, EndsLexeme b := by
  simp [endsLexeme_blank]

theorem ends_mark (hc : isMark c = true) (u : List Char) : ∀ b ∈ (c :: u).head?, EndsLexeme b := by
  simp [endsLexeme_of_isMark hc]

/-- No lexeme goes on from a mark. -/
theorem cut_of_isMark (hc : isMark c = true) (u : List Char) :
    cut c u = (⟨some .punctuation, [c]⟩, u) := by
  obtain ⟨hblank, hhash, hslash, hword, hdigit, hequals, hpair, hsign⟩ :
      Text.isBlank c = false ∧ c ≠ '#' ∧ c ≠ '/' ∧ isWordStart c = false ∧ c.isDigit = false ∧
        c ≠ '=' ∧ ['=', '!', '<', '>'].contains c = false ∧ isOperatorChar c = false := by
    obtain rfl | rfl | rfl | rfl | rfl | rfl | rfl := isMark_iff.1 hc <;> decide
  have hcomment : opensComment c u = false := opensComment_of_ne hhash hslash
  have hnopair : u.head?.any (isOperatorPair c) = false := by
    cases u with
    | nil => rfl
    | cons d u =>
      simp only [List.head?_cons, Option.any_some, isOperatorPair, hpair]
      simp [hequals]
  simp [cut, hblank, hcomment, hword, hdigit, hnopair, hsign, hc]

/-- The texts of the lexemes of a text, in order. -/
def lexemes (text : List Char) : List String :=
  ((pieces text).filter (·.kind.isSome)).map fun piece => String.ofList piece.text

theorem map_text_tokens (p : Position) (text : List Char) :
    (tokens p (pieces text)).map Token.text = lexemes text := by
  unfold lexemes
  generalize pieces text = ps
  fun_induction tokens p ps with
  | case1 => rfl
  | case2 p text rest ih => simpa using ih
  | case3 p kind text rest ih => simpa using ih

@[simp] theorem lexemes_nil : lexemes [] = [] := by simp [lexemes, pieces]

/-- A blank adds no lexeme. -/
@[simp] theorem lexemes_blank (u : List Char) : lexemes (' ' :: u) = lexemes u := by
  have hskip := tokens_pieces_blanks (g := [' ']) .null u (List.forall_mem_singleton.2 (by decide))
  have htexts := congrArg (List.map Token.text) hskip
  rwa [List.singleton_append, map_text_tokens, map_text_tokens] at htexts

theorem lexemes_mark (hc : isMark c = true) (u : List Char) :
    lexemes (c :: u) = String.ofList [c] :: lexemes u := by
  rw [lexemes, pieces, cut_of_isMark hc]
  rfl

/-- A lexeme is read in front of what ends it, or of the end of the text. -/
theorem lexemes_append (hx : kindOf? x.toList = some k) (hu : ∀ b ∈ u.head?, EndsLexeme b) :
    lexemes (x.toList ++ u) = x :: lexemes u := by
  have htext : String.ofList x.toList = x := String.ofList_toList
  generalize x.toList = text at hx htext
  cases text with
  | nil => cases hx
  | cons c cs =>
    have hcut := cut_append_of_cut (kindOf?_eq_some_iff.1 hx) hu
    rw [List.cons_append, lexemes, pieces, hcut, List.filter_cons_of_pos rfl, List.map_cons, htext]
    rfl

end Piece

namespace Token

/-- The tokens of lexemes with blanks between them are these lexemes. -/
theorem map_text_scan_joined {xs : List String} (file : String)
    (h : ∀ x ∈ xs, ∃ k, Piece.kindOf? x.toList = some k) :
    (scan (Text.joined " " xs).toList file).map Token.text = xs := by
  rw [scan, Piece.map_text_tokens]
  induction xs with
  | nil => simp [Text.joined]
  | cons x xs ih =>
    obtain ⟨⟨k, hk⟩, hxs⟩ := List.forall_mem_cons.1 h
    cases xs with
    | nil =>
      have hx := Piece.lexemes_append (u := []) hk (by simp)
      rwa [List.append_nil, Piece.lexemes_nil] at hx
    | cons y ys =>
      have htext : (Text.joined " " (x :: y :: ys)).toList =
          x.toList ++ ' ' :: (Text.joined " " (y :: ys)).toList := by
        simp [Text.joined]
      rw [htext, Piece.lexemes_append hk (Piece.ends_blank _), Piece.lexemes_blank,
        ih hxs]

end Token

end ExprLang
