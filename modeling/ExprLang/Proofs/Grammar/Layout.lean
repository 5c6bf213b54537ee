import ExprLang.Expr.Agreement
import ExprLang.Proofs.Grammar.Likeness
import ExprLang.Proofs.Parser.Layout

/-!
The layout of a program does not count. Main statement: tokens of the same kinds and texts give
trees of the same shape, or the same error at the same token, wherever they stand.
-/

namespace ExprLang

open ExprLang.Parser

/-- The same expression in another place. -/
structure Expr.Relaid (P : Position → Position → Prop) (a b : Expr) : Prop where
  shape : Tree.agree Expr.shape a b = true
  start : P a.span.start b.span.start

section

variable {P : Position → Position → Prop}

theorem Ascription.agreeAll_of_forall₂ {as bs : List Ascription}
    (h : List.Forall₂ (fun a b => a.sameShape b = true) as bs) :
    agreeAll (fun _ _ => true) as bs = true := by
  induction h with
  | nil => rfl
  | cons hab _ ih =>
    simp only [agreeAll, Bool.and_eq_true]
    exact ⟨hab, ih⟩

namespace Expr.Relaid

theorem agreeAll {as bs : List Expr} (h : List.Forall₂ (Expr.Relaid P) as bs) :
    Tree.agreeAll Expr.shape as bs = true := by
  induction h with
  | nil => rfl
  | cons hab _ ih =>
    simp only [Tree.agreeAll, Bool.and_eq_true]
    exact ⟨hab.shape, ih⟩

theorem isDeclaration_eq {a b : Expr} (h : Expr.Relaid P a b) :
    a.isDeclaration = b.isDeclaration := by
  have hshape := h.shape
  cases a <;> cases b <;> first | rfl | cases hshape

end Expr.Relaid

end

attribute [local simp] Tree.agree

/-- Tokens in another place are read to trees in another place, and nothing excuses a failure. -/
def Likeness.relaid (P : Position → Position → Prop) : Likeness where
  runs := layout P
  excused _ := False
  place := P
  token := Token.Relaid P
  name := Identifier.Relaid P
  ascription a b := a.sameShape b = true
  expr := Expr.Relaid P
  current h := h.current
  advance h := h.advance
  previousIs_eq h := h.previousIs_eq _
  remaining_eq h := h.ahead.length_eq
  token_start h := h.start
  kind_eq h := h.kind
  text_eq h _ := h.text
  is_eq h text _ := h.is_eq text
  unexpected h expected := ⟨by rw [h.text, h.kind], h.start⟩
  declarationAsResult h := ⟨rfl, h.start⟩
  numeral {x y} h := by
    rw [h.text]
    cases Text.int64? y.text with
    | none => exact ⟨rfl, h.start⟩
    | some n => exact ⟨by simp, h.start⟩
  boolean h := ⟨by simp [h.text], h.start⟩
  implicitUnit h := ⟨by simp [Expr.implicitUnit], h.start⟩
  named h htext := ⟨htext, h.start⟩
  typeName h htext := by simp [Ascription.sameShape, Ascription.agree, htext]
  functionType hparams hresult := by
    unfold Ascription.sameShape at *
    simp [Ascription.agree, Ascription.agreeAll_of_forall₂ hparams, hresult]
  name_start h := h.start
  expr_start h := h.start
  isDeclaration_eq h := h.isDeclaration_eq
  identifier h := ⟨by simp [h.name], h.start⟩
  binary hl _ h h' := ⟨by simp [h.shape, h'.shape], hl⟩
  unary hl _ h := ⟨by simp [h.shape], hl⟩
  ifThen hl h h' := ⟨by simp [h.shape, h'.shape], hl⟩
  ifThenElse hl h h' h'' := ⟨by simp [h.shape, h'.shape, h''.shape], hl⟩
  loop hl h h' := ⟨by simp [h.shape, h'.shape], hl⟩
  block hl hs h := ⟨by simp [Expr.Relaid.agreeAll hs, h.shape], hl⟩
  declaration hl hn hwritten h := by
    cases hwritten with
    | none => exact ⟨by simp [hn.name, h.shape, Tree.agreeOption], hl⟩
    | some hab => exact ⟨by simp [hn.name, h.shape, Tree.agreeOption, hab], hl⟩
  assignment hl h h' := ⟨by simp [h.shape, h'.shape], hl⟩
  call hl hn hs := ⟨by simp [hn.name, Expr.Relaid.agreeAll hs], hl⟩

namespace Expr

/-- Two lists of tokens are read to trees of one shape, or refused for one cause at tokens of one
index, their end marks counted. -/
def ReadAlike (xs ys : List Token) : Except Error Expr → Except Error Expr → Prop
  | .ok a, .ok b => a.sameShape b = true
  | .error e, .error e' =>
    e.cause = e'.cause ∧ AtOneIndex (Token.ended xs) (Token.ended ys) e.position e'.position
  | _, _ => False

theorem readAlike_ofTokens {xs ys : List Token} (h : xs.map Token.lexeme = ys.map Token.lexeme)
    (file file' : String) : ReadAlike xs ys (ofTokens xs file) (ofTokens ys file') := by
  let P := AtOneIndex (Token.ended xs) (Token.ended ys)
  have hmeets : (layout P).Meets (Expr.Relaid P)
      (Grammar.program.run (.ofTokens xs file)) (Grammar.program.run (.ofTokens ys file')) :=
    Lockstep.keeps_iff.2 (Grammar.keeps_program (L := .relaid P)) _ _
      (TokenStream.relaid_ofTokens h file file')
  unfold ofTokens
  cases hx : Grammar.program.run (.ofTokens xs file) with
  | ok a s =>
    rw [hx] at hmeets
    obtain ⟨b, t, hy, hab, -⟩ := hmeets.exists_ok
    rw [hy]
    exact hab.shape
  | error e s =>
    rw [hx] at hmeets
    obtain ⟨e', t, hy, he, -⟩ := hmeets.exists_error trivial
    rw [hy]
    exact he

/-- Layout does not influence reading: what is read of a list of tokens does not depend on where
they stand, nor what is read of a text on its blanks, comments and other gaps. -/
theorem read_ignores_layout :
    (∀ xs ys file file', xs.map Token.lexeme = ys.map Token.lexeme →
      ReadAlike xs ys (ofTokens xs file) (ofTokens ys file')) ∧
    ∀ text text' file file',
      (Token.read text file).map Token.lexeme = (Token.read text' file').map Token.lexeme →
        ReadAlike (Token.read text file) (Token.read text' file') (Expr.read text file)
          (Expr.read text' file') :=
  ⟨fun _ _ file file' h => readAlike_ofTokens h file file',
    fun _ _ file file' h => readAlike_ofTokens h file file'⟩

/-- The operand that is missing behind a sign is missed at the end mark of either layout. -/
theorem read_ignores_layout_missing_operand :
    (Token.read "1 +" "a").map Token.lexeme = (Token.read "\n 1+ # sum" "b").map Token.lexeme ∧
    Expr.read "1 +" "a" =
      .error ⟨.unexpectedToken Rule.operandStart "" .endMark, ⟨1, 3, "a"⟩⟩ ∧
    Expr.read "\n 1+ # sum" "b" =
      .error ⟨.unexpectedToken Rule.operandStart "" .endMark, ⟨2, 3, "b"⟩⟩ ∧
    ReadAlike (Token.read "1 +" "a") (Token.read "\n 1+ # sum" "b") (Expr.read "1 +" "a")
      (Expr.read "\n 1+ # sum" "b") := by
  have h : (Token.read "1 +" "a").map Token.lexeme =
      (Token.read "\n 1+ # sum" "b").map Token.lexeme := by with_unfolding_all rfl
  exact ⟨h, by with_unfolding_all rfl, by with_unfolding_all rfl,
    read_ignores_layout.2 "1 +" "\n 1+ # sum" "a" "b" h⟩

end Expr

end ExprLang
