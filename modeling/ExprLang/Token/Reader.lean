import ExprLang.Token.Lexeme

/-!
Reading a text as tokens: its lexemes in order, each with its place, and the end mark. Gaps only
move the place.
-/

namespace ExprLang

namespace Piece

/-- The tokens of pieces laid end to end from `p` on. -/
def tokens (p : Position) : List Piece → List Token
  | [] => []
  | ⟨none, text⟩ :: rest => tokens (p.after text) rest
  | ⟨some kind, text⟩ :: rest =>
    ⟨kind, String.ofList text, ⟨p, p.after text⟩⟩ :: tokens (p.after text) rest

theorem tokens_append (p : Position) (a b : List Piece) :
    tokens p (a ++ b) = tokens p a ++ tokens (p.after (a.flatMap Piece.text)) b := by
  fun_induction tokens p a with
  | case1 => rfl
  | case2 p text rest ih => simp [tokens, ih, Position.after_append]
  | case3 p kind text rest ih => simp [tokens, ih, Position.after_append]

end Piece

namespace Token

/-- A token list closed by an end mark at the place of its last token. -/
def closed (ts : List Token) : List Token := ts ++ [endAfter ts.getLast?]

/-- The end mark stands where the last token does or, if there is none, nowhere. -/
theorem exists_closed_eq (ts : List Token) :
    ∃ place, closed ts = ts ++ [⟨.endMark, "", ⟨place, place⟩⟩] ∧
      (ts = [] → place = .null) ∧ ∀ t ∈ ts.getLast?, place = t.span.start := by
  refine ⟨_, rfl, fun hnil => ?_, fun t ht => ?_⟩
  · rw [hnil]
    rfl
  · rw [Option.mem_def.1 ht]
    rfl

/-- The tokens of a text without the end mark. -/
def scan (text : List Char) (file : String) : List Token :=
  Piece.tokens (.origin file) (Piece.pieces text)

/-- The tokens of the text called `file`, the end mark last. -/
def read (text : String) (file : String) : List Token := closed (scan text.toList file)

end Token

end ExprLang
