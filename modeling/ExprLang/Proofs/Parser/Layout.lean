import Mathlib.Data.List.Forall2
import ExprLang.Parser
import ExprLang.Proofs.Lockstep

/-!
Two layouts of the same tokens. Main statement: lists of the same lexemes make streams that differ
in the places only.
-/

namespace ExprLang

/-- The same token in another place. `P` tells which places stand for one another. -/
structure Token.Relaid (P : Position → Position → Prop) (x y : Token) : Prop where
  kind : x.kind = y.kind
  text : x.text = y.text
  start : P x.location y.location

/-- The same name in another place. -/
structure Identifier.Relaid (P : Position → Position → Prop) (a b : Identifier) : Prop where
  name : a.name = b.name
  start : P a.span.start b.span.start

/-- Streams of the same tokens in other places, read equally far. -/
structure TokenStream.Relaid (P : Position → Position → Prop) (s t : TokenStream) : Prop where
  previous : Option.Rel (Token.Relaid P) s.previous t.previous
  ahead : List.Forall₂ (Token.Relaid P) s.ahead t.ahead
  closing : Token.Relaid P s.closing t.closing

/-- What a token is, wherever it stands. -/
def Token.lexeme (t : Token) : Token.Kind × String := (t.kind, t.text)

/-- A token list with the end mark that closes it, a new one unless the list ends in one. -/
def Token.ended (tokens : List Token) : List Token :=
  if tokens.getLast?.any (·.isEnd) then tokens else tokens ++ [.endAfter tokens.getLast?]

section

variable {P : Position → Position → Prop} {x y : Token} {s t : TokenStream}

namespace Token.Relaid

theorem isEnd_eq (h : Relaid P x y) : x.isEnd = y.isEnd := by
  unfold isEnd
  rw [h.kind]

theorem is_eq (h : Relaid P x y) (text : String) : x.is text = y.is text := by
  unfold Token.is
  rw [h.isEnd_eq, h.text]

end Token.Relaid

namespace TokenStream.Relaid

theorem current (h : Relaid P s t) : Token.Relaid P s.current t.current := by
  obtain ⟨_, _, _, _, _⟩ := s
  obtain ⟨_, _, _, _, _⟩ := t
  cases h.ahead with
  | nil => exact h.closing
  | cons hxy _ => exact hxy

theorem advance (h : Relaid P s t) : Relaid P s.advance t.advance where
  previous := .some h.current
  ahead := by
    obtain ⟨_, _, _, _, _⟩ := s
    obtain ⟨_, _, _, _, _⟩ := t
    cases h.ahead with
    | nil => exact .nil
    | cons _ hrest => exact hrest
  closing := h.closing

theorem previousIs_eq (h : Relaid P s t) (text : String) :
    s.previousIs text = t.previousIs text := by
  obtain ⟨_, _, _, _, _⟩ := s
  obtain ⟨_, _, _, _, _⟩ := t
  cases h.previous with
  | none => rfl
  | some hxy => exact hxy.is_eq text

end TokenStream.Relaid

theorem Token.isEnd_eq_of_lexeme (h : x.lexeme = y.lexeme) : x.isEnd = y.isEnd := by
  unfold isEnd
  rw [(Prod.mk.inj h).1]

theorem TokenStream.ended_eq (tokens : List Token) (file : String) :
    Token.ended tokens = (ofTokens tokens file).ahead ++ [(ofTokens tokens file).closing] := by
  unfold ofTokens
  split
  next hnone =>
    rw [List.getLast?_eq_none_iff] at hnone
    subst hnone
    rfl
  next last hlast =>
    unfold Token.ended
    rw [hlast, Option.any_some]
    split
    · exact (List.dropLast_append_getLast? last hlast).symm
    · rfl

/-- Lists of the same lexemes are closed alike. -/
theorem Token.map_lexeme_ended {xs ys : List Token} (h : xs.map lexeme = ys.map lexeme) :
    (ended xs).map lexeme = (ended ys).map lexeme := by
  have hlast : xs.getLast?.map lexeme = ys.getLast?.map lexeme := by
    rw [← List.getLast?_map, ← List.getLast?_map, h]
  unfold ended
  cases hx : xs.getLast? with
  | none =>
    cases hy : ys.getLast? with
    | none => simpa using h
    | some y => simp [hx, hy] at hlast
  | some x =>
    cases hy : ys.getLast? with
    | none => simp [hx, hy] at hlast
    | some y =>
      have hend : x.isEnd = y.isEnd := isEnd_eq_of_lexeme (by simpa [hx, hy] using hlast)
      simp only [Option.any_some, hend]
      split
      · exact h
      · rw [List.map_append, List.map_append, h]
        rfl

/-- Both positions are where the tokens of one index start. -/
def AtOneIndex (xs ys : List Token) (p q : Position) : Prop :=
  ∃ (i : Nat) (x y : Token), xs[i]? = some x ∧ ys[i]? = some y ∧ p = x.location ∧ q = y.location

theorem Token.relaid_of_getElem? {xs ys : List Token} (h : xs.map lexeme = ys.map lexeme)
    {i : Nat} (hx : xs[i]? = some x) (hy : ys[i]? = some y) :
    Relaid (AtOneIndex xs ys) x y := by
  have hlexeme : (xs.map lexeme)[i]? = (ys.map lexeme)[i]? := by rw [h]
  rw [List.getElem?_map, List.getElem?_map, hx, hy] at hlexeme
  obtain ⟨hkind, htext⟩ := Prod.mk.inj (Option.some_inj.1 hlexeme)
  exact ⟨hkind, htext, i, x, y, hx, hy, rfl, rfl⟩

/-- Streams of lists of the same lexemes are the same but for the places. -/
theorem TokenStream.relaid_ofTokens {xs ys : List Token}
    (h : xs.map Token.lexeme = ys.map Token.lexeme) (file file' : String) :
    Relaid (AtOneIndex (Token.ended xs) (Token.ended ys)) (ofTokens xs file)
      (ofTokens ys file') := by
  have hended := Token.map_lexeme_ended h
  rw [ended_eq xs file, ended_eq ys file'] at *
  have hprevious := previous_ofTokens xs file
  have hprevious' := previous_ofTokens ys file'
  generalize ofTokens xs file = s at *
  generalize ofTokens ys file' = t at *
  have hlength : s.ahead.length = t.ahead.length := by
    simpa using congrArg List.length hended
  refine ⟨?_, List.forall₂_iff_get.2 ⟨hlength, fun i hi hi' => ?_⟩, ?_⟩
  · rw [hprevious, hprevious']
    exact .none
  · apply Token.relaid_of_getElem? hended
    · rw [List.getElem?_append_left hi]
      exact List.getElem?_eq_getElem hi
    · rw [List.getElem?_append_left hi']
      exact List.getElem?_eq_getElem hi'
  · apply Token.relaid_of_getElem? hended
    · exact List.getElem?_concat_length
    · rw [hlength]
      exact List.getElem?_concat_length

end

/-- Two runs over streams that differ in their layout. Both succeed or both fail, and then at the
same token for the same cause. -/
def Parser.layout (P : Position → Position → Prop) : Lockstep Error TokenStream :=
  ⟨TokenStream.Relaid P, fun e e' => e.cause = e'.cause ∧ P e.position e'.position, True⟩

end ExprLang
