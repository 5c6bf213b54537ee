import ExprLang.Proofs.Printing.Spelling
import ExprLang.Proofs.Token.LineBreaks
import ExprLang.Proofs.Token.LongestMatch

/-!
Lexemes with anything between them that parts them: blanks, and comments behind a first blank. Main
statement: the tokens of such a text are its lexemes.
-/

namespace ExprLang

/-- A text that is one lexeme: a word, a number, an operator or a mark. -/
structure Lexeme where
  text : String
  formed : Piece.IsWord text.toList ∨ Piece.IsNumber text.toList ∨ text ∈ Piece.operatorSigns ∨
    text ∈ Piece.marks

/-- The kind that a text tells. -/
def Lexeme.kindOf (text : String) : Token.Kind :=
  if text ∈ Piece.truthWords then .boolean
  else if text ∈ Piece.operatorWords ∨ text ∈ Piece.operatorSigns then .operator
  else if text ∈ Piece.marks then .punctuation
  else if text.toList.all Char.isDigit then .integer
  else .identifier

/-- What stands between lexemes: blanks, and comments with the line feed that ends them. -/
inductive Filler where
  | blank (c : Char) (isBlank : Text.isBlank c = true)
  | comment (opening body : List Char) (opens : opening = ['#'] ∨ opening = ['/', '/'])
    (inLine : '\n' ∉ body)

def Filler.text : Filler → List Char
  | blank c _ => [c]
  | comment opening body _ _ => opening ++ body ++ ['\n']

/-- What parts two lexemes starts with a blank, since a comment would go on from an operator. -/
structure Separator where
  first : Char
  isBlank_first : Text.isBlank first = true
  rest : List Filler

def Separator.text (s : Separator) : List Char := s.first :: s.rest.flatMap Filler.text

/-- Lexemes with a separator behind each but the last, which may have none. There may be one in
front of the first. -/
structure Layout where
  lead : Option Separator
  spaced : List (Lexeme × Separator)
  last : Option Lexeme

namespace Layout

def lexemes (l : Layout) : List Lexeme := l.spaced.map Prod.fst ++ l.last.toList

/-- What stands behind the first separator. -/
def body (spaced : List (Lexeme × Separator)) (last : Option Lexeme) : List Char :=
  spaced.flatMap (fun x => x.1.text.toList ++ x.2.text) ++
    last.toList.flatMap fun x => x.text.toList

def text (l : Layout) : String :=
  String.ofList (l.lead.toList.flatMap Separator.text ++ body l.spaced l.last)

end Layout

namespace Piece

variable {c : Char} {cs u text : List Char} {k : Token.Kind}

/-- The text of a kind tells the kind. -/
theorem HasForm.kindOf_eq {text : String} (h : HasForm text k) : Lexeme.kindOf text = k := by
  cases k with
  | identifier =>
    obtain ⟨⟨c, cs, htext, hc, -⟩, htruth, hoperator⟩ := h
    have hstart : ∀ x ∈ operatorSigns ++ marks, x.toList.head?.any isWordStart = false := by decide
    have hno : text ∉ operatorSigns ++ marks := fun hmem => by
      have hhead := hstart text hmem
      rw [htext, List.head?_cons, Option.any_some, isWordStart_iff.2 hc] at hhead
      cases hhead
    have hdigit : c.isDigit = false := by
      cases hd : c.isDigit with
      | false => rfl
      | true =>
        rw [← isWordStart_iff, isWordStart_of_isDigit hd] at hc
        cases hc
    rw [List.mem_append, not_or] at hno
    simp [Lexeme.kindOf, htruth, hoperator, hno, htext, hdigit]
  | integer =>
    have hword : ∀ x ∈ truthWords ++ operatorWords ++ operatorSigns ++ marks,
        x.toList.all Char.isDigit = false := by decide
    have hdigits : text.toList.all Char.isDigit = true := List.all_eq_true.2 h.2
    have hno : text ∉ truthWords ++ operatorWords ++ operatorSigns ++ marks := fun hmem => by
      rw [hword text hmem] at hdigits
      cases hdigits
    simp only [List.mem_append, not_or] at hno
    obtain ⟨⟨⟨htruth, hoperator⟩, hsign⟩, hmark⟩ := hno
    unfold Lexeme.kindOf
    rw [if_neg htruth, if_neg (not_or.2 ⟨hoperator, hsign⟩), if_neg hmark, if_pos hdigits]
  | boolean => exact if_pos h
  | operator =>
    have hall : ∀ x ∈ operatorWords ++ operatorSigns, Lexeme.kindOf x = .operator := by decide
    exact hall text (List.mem_append.2 h)
  | punctuation =>
    have hall : ∀ x ∈ marks, Lexeme.kindOf x = .punctuation := by decide
    exact hall text h
  | endMark => cases h

/-- A text of one of the forms is one lexeme, of the kind that it tells. -/
theorem kindOf?_lexeme (x : Lexeme) : kindOf? x.text.toList = some (Lexeme.kindOf x.text) := by
  have hkind : ∃ k, kindOf? x.text.toList = some k := by
    have hfixed : ∀ y ∈ operatorSigns ++ marks, (kindOf? y.toList).isSome = true := by decide
    rcases x.formed with ⟨c, cs, htext, hc, hcs⟩ | ⟨hne, hdigits⟩ | hsign | hmark
    · exact ⟨_, (congrArg kindOf? htext).trans (kindOf?_of_isWord hc hcs)⟩
    · obtain ⟨c, cs, htext⟩ := List.exists_cons_of_ne_nil hne
      rw [htext, List.forall_mem_cons] at hdigits
      exact ⟨_, (congrArg kindOf? htext).trans (kindOf?_of_isDigit hdigits.1 hdigits.2)⟩
    · exact Option.isSome_iff_exists.1 (hfixed _ (List.mem_append_left _ hsign))
    · exact Option.isSome_iff_exists.1 (hfixed _ (List.mem_append_right _ hmark))
  obtain ⟨k, hk⟩ := hkind
  have hform := hasForm_of_kindOf? hk
  rw [String.ofList_toList] at hform
  rw [hk, hform.kindOf_eq]

/-- A comment is cut off up to the line feed that ends it. -/
theorem cut_comment (hc : Text.isBlank c = false) (ho : opensComment c (cs ++ '\n' :: u) = true)
    (hcs : '\n' ∉ cs) : cut c (cs ++ '\n' :: u) = (⟨none, c :: cs⟩, '\n' :: u) := by
  unfold cut
  rw [if_neg (by simp [hc]), if_pos ho]
  refine run_append (fun d hd => ?_) (by simp)
  rw [bne_iff_ne]
  rintro rfl
  exact hcs hd

/-- Blanks and comments add no token to what stands behind them. -/
theorem tokens_pieces_filler (p : Position) (f : Filler) (text : List Char) :
    tokens p (pieces (f.text ++ text)) = tokens (p.after f.text) (pieces text) := by
  have hcomment (c : Char) (cs : List Char) (hc : Text.isBlank c = false)
      (ho : opensComment c (cs ++ '\n' :: text) = true) (hcs : '\n' ∉ cs) :
      tokens p (pieces (c :: (cs ++ '\n' :: text))) =
        tokens (p.after (c :: cs ++ ['\n'])) (pieces text) := by
    rw [pieces, cut_comment hc ho hcs, Position.after_append]
    exact tokens_pieces_blanks _ text (List.forall_mem_singleton.2 (by decide))
  cases f with
  | blank c hc => exact tokens_pieces_blanks p text (List.forall_mem_singleton.2 hc)
  | comment opening body hopens hbody =>
    rcases hopens with rfl | rfl
    · simpa [Filler.text] using hcomment '#' body (by decide) rfl hbody
    · simpa [Filler.text] using hcomment '/' ('/' :: body) (by decide) rfl (by simpa)

theorem tokens_pieces_separator (p : Position) (s : Separator) (text : List Char) :
    tokens p (pieces (s.text ++ text)) = tokens (p.after s.text) (pieces text) := by
  have hrest : ∀ p, tokens p (pieces (s.rest.flatMap Filler.text ++ text)) =
      tokens (p.after (s.rest.flatMap Filler.text)) (pieces text) := by
    induction s.rest with
    | nil => exact fun _ => rfl
    | cons f fs ih =>
      intro p
      rw [List.flatMap_cons, List.append_assoc, tokens_pieces_filler, ih, Position.after_append]
  have hfirst := tokens_pieces_blanks p (s.rest.flatMap Filler.text ++ text)
    (List.forall_mem_singleton.2 s.isBlank_first)
  exact hfirst.trans (hrest _)

/-- What follows a lexeme is nothing or a blank. -/
theorem tokens_pieces_lexeme (p : Position) (x : Lexeme) (text : List Char)
    (htext : ∀ d ∈ text.head?, Text.isBlank d = true) :
    ∃ t, tokens p (pieces (x.text.toList ++ text)) =
        t :: tokens (p.after x.text.toList) (pieces text) ∧
      t.kind = Lexeme.kindOf x.text ∧ t.text = x.text := by
  have hkind := kindOf?_lexeme x
  have hx : String.ofList x.text.toList = x.text := String.ofList_toList
  generalize x.text.toList = cs at hkind hx
  cases cs with
  | nil => cases hkind
  | cons c cs =>
    have hcut := cut_append_of_cut (kindOf?_eq_some_iff.1 hkind) fun d hd =>
      endsLexeme_of_isBlank (htext d hd)
    rw [List.cons_append, pieces, hcut]
    exact ⟨_, rfl, rfl, hx⟩

end Piece

namespace Token

/-- The kind and the text of a token, without its place. -/
def plain (t : Token) : Kind × String := (t.kind, t.text)

theorem map_plain_body (p : Position) (spaced : List (Lexeme × Separator))
    (last : Option Lexeme) :
    (Piece.tokens p (Piece.pieces (Layout.body spaced last))).map plain =
      (spaced.map Prod.fst ++ last.toList).map fun x => (Lexeme.kindOf x.text, x.text) := by
  induction spaced generalizing p with
  | nil =>
    cases last with
    | none => simp [Layout.body, Piece.pieces, Piece.tokens]
    | some x =>
      obtain ⟨t, ht, hkind, htext⟩ := Piece.tokens_pieces_lexeme p x [] (by simp)
      have hbody : Layout.body [] (some x) = x.text.toList ++ [] := by simp [Layout.body]
      rw [hbody, ht]
      simp [Piece.pieces, Piece.tokens, plain, hkind, htext]
  | cons y spaced ih =>
    obtain ⟨x, s⟩ := y
    have hbody : Layout.body ((x, s) :: spaced) last =
        x.text.toList ++ (s.text ++ Layout.body spaced last) := by
      simp [Layout.body]
    obtain ⟨t, ht, hkind, htext⟩ := Piece.tokens_pieces_lexeme p x
      (s.text ++ Layout.body spaced last) (by simp [Separator.text, s.isBlank_first])
    rw [hbody, ht, Piece.tokens_pieces_separator, List.map_cons, ih]
    simp [plain, hkind, htext]

/-- A text that is laid out is read as its lexemes in order, each of the kind that its text tells,
and the end mark. -/
theorem read_layout (l : Layout) (file : String) :
    (read l.text file).map plain =
      l.lexemes.map (fun x => (Lexeme.kindOf x.text, x.text)) ++ [(.endMark, "")] := by
  have hbody : ∃ p, scan l.text.toList file =
      Piece.tokens p (Piece.pieces (Layout.body l.spaced l.last)) := by
    unfold scan Layout.text
    rw [String.toList_ofList]
    cases l.lead with
    | none => exact ⟨_, rfl⟩
    | some s =>
      refine ⟨(Position.origin file).after s.text, ?_⟩
      simpa using Piece.tokens_pieces_separator (.origin file) s (Layout.body l.spaced l.last)
  obtain ⟨p, hp⟩ := hbody
  rw [read, closed, List.map_append, hp, map_plain_body]
  rfl

end Token

end ExprLang
