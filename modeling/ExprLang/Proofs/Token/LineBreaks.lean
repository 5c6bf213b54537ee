import ExprLang.Proofs.Token.Spelling

/-!
Texts with a line break in them. Main statement: the tokens of such a text are those of both sides,
the ones behind the break so many lines further down as there are lines before it.
-/

namespace ExprLang

namespace Position

/-- The same column `n` lines further down. -/
def down (n : Nat) (p : Position) : Position := ⟨p.line + n, p.column, p.file⟩

theorem next_down (n : Nat) (p : Position) (c : Char) : (p.down n).next c = (p.next c).down n := by
  unfold next
  split
  · simp [down, Nat.add_right_comm]
  · rfl

theorem after_down (n : Nat) (p : Position) (text : List Char) :
    (p.down n).after text = (p.after text).down n := by
  induction text generalizing p with
  | nil => rfl
  | cons c text ih => rw [after_cons, after_cons, next_down, ih]

/-- Every line feed opens a line. -/
theorem line_after (p : Position) (text : List Char) :
    (p.after text).line = p.line + text.count '\n' := by
  induction text generalizing p with
  | nil => rfl
  | cons c text ih =>
    rw [after_cons, ih, List.count_cons]
    unfold next
    by_cases hc : c = '\n'
    · simp [hc, Nat.add_assoc, Nat.add_comm 1]
    · simp [hc]

/-- Behind a line feed a text goes on as if it started there, but for the lines before it. -/
theorem origin_after_newline (file : String) (text : List Char) :
    (origin file).after (text ++ ['\n']) = (origin file).down (text.count '\n' + 1) := by
  have hline := line_after (origin file) text
  rw [after_append, after_cons, after_nil, next, if_pos rfl, hline, after_file]
  simp [origin, down, Nat.add_assoc]

end Position

def Span.down (n : Nat) (s : Span) : Span := ⟨s.start.down n, s.stop.down n⟩

/-- The same token `n` lines further down. -/
def Token.down (n : Nat) (t : Token) : Token := ⟨t.kind, t.text, t.span.down n⟩

namespace Piece

variable {c d : Char} {cs rest : List Char}

theorem tokens_down (n : Nat) (p : Position) (ps : List Piece) :
    tokens (p.down n) ps = (tokens p ps).map (Token.down n) := by
  fun_induction tokens p ps with
  | case1 => rfl
  | case2 p text rest ih => rw [tokens, Position.after_down, ih]
  | case3 p kind text rest ih =>
    rw [tokens, Position.after_down, ih]
    rfl

/-- A blank is neither part of a word nor of any operator. -/
theorem endsLexeme_of_isBlank (hd : Text.isBlank d = true) : EndsLexeme d := by
  constructor
  · cases hw : isWordPart d with
    | false => rfl
    | true =>
      rw [isBlank_eq_false_of_isAlphanum (isWordPart_iff.1 hw)] at hd
      cases hd
  all_goals
    rintro rfl
    revert hd
    decide

theorem run_append_of_stop {f : List Char → Option Token.Kind} {p : Char → Bool}
    (hp : p d = false) :
    run f p c (cs ++ d :: rest) = ((run f p c cs).1, (run f p c cs).2 ++ d :: rest) := by
  have hstop : (cs ++ d :: rest).takeWhile p = cs.takeWhile p ∧
      (cs ++ d :: rest).dropWhile p = cs.dropWhile p ++ d :: rest := by
    induction cs with
    | nil => simp [hp]
    | cons x cs ih => by_cases hx : p x = true <;> simp [hx, ih.1, ih.2]
  unfold run
  rw [hstop.1, hstop.2]

/-- No piece but one of blanks goes on over a blank, and a comment does not go on over a line
feed. -/
theorem cut_append_blank (hd : Text.isBlank d = true) (hc : Text.isBlank c = false)
    (hcomment : opensComment c cs = true → d = '\n') :
    cut c (cs ++ d :: rest) = ((cut c cs).1, (cut c cs).2 ++ d :: rest) := by
  have hends := endsLexeme_of_isBlank hd
  have hopens : opensComment c (cs ++ d :: rest) = opensComment c cs := by
    cases cs <;> simp [opensComment, hends.ne_slash]
  have hpair : (cs ++ d :: rest).head?.any (isOperatorPair c) =
      cs.head?.any (isOperatorPair c) := by
    cases cs <;> simp [isOperatorPair, hends.ne_equals, hends.ne_greater]
  -- The cases are those of `cut`, which both texts take alike.
  unfold cut
  rw [hopens, hpair]
  simp only [hc, Bool.false_eq_true, if_false]
  by_cases hopen : opensComment c cs = true
  · simp only [if_pos hopen]
    apply run_append_of_stop
    simp [hcomment hopen]
  simp only [if_neg hopen]
  by_cases hword : isWordStart c = true
  · simp only [if_pos hword]
    exact run_append_of_stop hends.isWordPart
  simp only [if_neg hword]
  by_cases hnumber : c.isDigit = true
  · simp only [if_pos hnumber]
    exact run_append_of_stop hends.isDigit
  simp only [if_neg hnumber]
  by_cases htwo : cs.head?.any (isOperatorPair c) = true
  · simp only [if_pos htwo]
    cases cs with
    | nil => cases htwo
    | cons x cs => rfl
  simp only [if_neg htwo]
  split
  · rfl
  split <;> rfl

theorem cut_of_isBlank (hc : Text.isBlank c = true) :
    cut c cs = run (fun _ => none) Text.isBlank c cs := by
  unfold cut
  rw [if_pos hc]

/-- Blanks in front of a text add no token to it. -/
theorem tokens_pieces_skip (p : Position) (text : List Char) :
    tokens p (pieces text) =
      tokens (p.after (text.takeWhile Text.isBlank)) (pieces (text.dropWhile Text.isBlank)) := by
  cases text with
  | nil => rfl
  | cons c cs =>
    by_cases hc : Text.isBlank c = true
    · rw [pieces, cut_of_isBlank hc, List.takeWhile_cons_of_pos hc, List.dropWhile_cons_of_pos hc]
      rfl
    · rw [List.takeWhile_cons_of_neg hc, List.dropWhile_cons_of_neg hc]
      rfl

theorem tokens_pieces_blanks (p : Position) {g : List Char} (text : List Char)
    (hg : ∀ d ∈ g, Text.isBlank d = true) :
    tokens p (pieces (g ++ text)) = tokens (p.after g) (pieces text) := by
  rw [tokens_pieces_skip p, tokens_pieces_skip (p.after g), List.takeWhile_append_of_pos hg,
    List.dropWhile_append_of_pos hg, Position.after_append]

theorem tokens_cons (p : Position) (x : Piece) (xs : List Piece) :
    tokens p (x :: xs) = tokens p [x] ++ tokens (p.after x.text) xs := by
  simpa using tokens_append p [x] xs

/-- The first piece is cut off in the same way where a line feed follows. It is only longer if it
is of blanks, which makes no token. -/
theorem tokens_pieces_cut_newline (p : Position) (c : Char) (cs b : List Char) :
    tokens p (pieces (c :: cs ++ '\n' :: b)) =
      tokens p ((cut c cs).1 :: pieces ((cut c cs).2 ++ '\n' :: b)) := by
  by_cases hc : Text.isBlank c = true
  · have hblank : ∀ d ∈ c :: cs.takeWhile Text.isBlank, Text.isBlank d = true :=
      List.forall_mem_cons.2 ⟨hc, fun d hd => List.mem_takeWhile_imp hd⟩
    have happend := tokens_pieces_blanks p (cs.dropWhile Text.isBlank ++ '\n' :: b) hblank
    rw [List.cons_append, ← List.append_assoc, List.takeWhile_append_dropWhile] at happend
    rw [cut_of_isBlank hc]
    exact happend
  · rw [List.cons_append, pieces,
      cut_append_blank (by decide) (by simpa using hc) fun _ => rfl]

/-- A line feed parts the tokens of a text, whatever stands at it on either side. -/
theorem tokens_pieces_newline (p : Position) (a b : List Char) :
    tokens p (pieces (a ++ '\n' :: b)) =
      tokens p (pieces a) ++ tokens (p.after (a ++ ['\n'])) (pieces b) := by
  fun_induction pieces a generalizing p with
  | case1 =>
    exact tokens_pieces_blanks (g := ['\n']) p b (List.forall_mem_singleton.2 (by decide))
  | case2 c cs ih =>
    have hplace : p.after (c :: cs ++ ['\n']) =
        (p.after (cut c cs).1.text).after ((cut c cs).2 ++ ['\n']) := by
      rw [← cut_append, List.append_assoc, Position.after_append]
    rw [tokens_pieces_cut_newline, tokens_cons p (cut c cs).1 (pieces (_ ++ _)), ih,
      tokens_cons p (cut c cs).1 (pieces (cut c cs).2), List.append_assoc, hplace]

end Piece

namespace Token

/-- All tokens but end marks. -/
def unclosed (ts : List Token) : List Token := ts.filter fun t => !t.isEnd

theorem scan_newline (a b : List Char) (file : String) :
    scan (a ++ '\n' :: b) file = scan a file ++ (scan b file).map (down (a.count '\n' + 1)) := by
  unfold scan
  rw [Piece.tokens_pieces_newline, Position.origin_after_newline, Piece.tokens_down]

/-- A text can be read up to a line break and behind it. Its tokens are those of both parts, where
those of the second part stand as many lines further down as there are line breaks before it. The
end mark stands where the last of them does or, if there is none, nowhere. -/
theorem read_newline (a b file : String) :
    unclosed (read (a ++ "\n" ++ b) file) =
        unclosed (read a file) ++ (unclosed (read b file)).map (down (a.toList.count '\n' + 1)) ∧
      ∃ place, read (a ++ "\n" ++ b) file =
          unclosed (read (a ++ "\n" ++ b) file) ++ [⟨.endMark, "", ⟨place, place⟩⟩] ∧
        (unclosed (read (a ++ "\n" ++ b) file) = [] → place = .null) ∧
        ∀ t ∈ (unclosed (read (a ++ "\n" ++ b) file)).getLast?, place = t.span.start := by
  have htext : (a ++ "\n" ++ b).toList = a.toList ++ '\n' :: b.toList := by simp
  constructor
  · simp only [unclosed, filter_read]
    rw [htext, scan_newline]
  · simp only [unclosed, filter_read]
    exact exists_closed_eq _

end Token

end ExprLang
