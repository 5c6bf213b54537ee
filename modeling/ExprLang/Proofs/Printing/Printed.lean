import ExprLang.Proofs.Printing.Types
import ExprLang.Proofs.Typing.Causes

/-!
Printed expressions. Main statement: the lexemes of an expression that is printed are the words of
nested lists, so that expressions that are printed alike are the same nested lists.
-/

namespace ExprLang

open ExprLang.Piece (EndsLexeme ends_blank ends_mark lexemes_blank lexemes_mark)

namespace Expr

/-- What stands between the name and the value of a declaration. -/
def ascribed : Option Ascription → List Listing
  | none => []
  | some a => .word ":" :: a.listings

def ascribedText : Option Ascription → List Char
  | none => []
  | some a => ':' :: ' ' :: a.render.toList

mutual

/-- What an expression is printed as, without the blanks. -/
def listing : Expr → Listing
  | .literal _ value => .word value.render
  | .identifier _ name => .word name
  | .binary _ op left right => .round [.word op.text, listing left, listing right]
  | .unary _ op operand => .round [.word op.text, listing operand]
  | .ifThen _ condition consequent => .round [.word "if", listing condition, listing consequent]
  | .ifThenElse _ condition consequent alternative =>
    .round [.word "if", listing condition, listing consequent, listing alternative]
  | .loop _ condition body => .round [.word "while", listing condition, listing body]
  | .block _ statements result =>
    .braced ((listings statements).flatMap (fun x => [x, .word ";"]) ++ [listing result])
  | .declaration _ name ascription value =>
    .round (.word "var" :: .word name.name :: (ascribed ascription ++ [listing value]))
  | .assignment _ target value => .round [.word "=", listing target, listing value]
  | .call _ callee arguments => .round (.word callee.name :: listings arguments)

def listings : List Expr → List Listing
  | [] => []
  | e :: es => listing e :: listings es

end

mutual

/-- Names are names, but no variable has the name that the unit value is printed as, and numbers
are written without a sign. -/
def listable : Expr → Bool
  | .literal _ (.int value) => 0 ≤ value
  | .literal _ _ => true
  | .identifier _ name => isName name && name != "unit"
  | .binary _ _ left right => listable left && listable right
  | .unary _ _ operand => listable operand
  | .ifThen _ condition consequent => listable condition && listable consequent
  | .ifThenElse _ condition consequent alternative =>
    listable condition && listable consequent && listable alternative
  | .loop _ condition body => listable condition && listable body
  | .block _ statements result => listableAll statements && listable result
  | .declaration _ name ascription value =>
    isName name.name && ascription.all Ascription.wellNamed && listable value
  | .assignment _ target value => listable target && listable value
  | .call _ callee arguments => isName callee.name && listableAll arguments

def listableAll : List Expr → Bool
  | [] => true
  | e :: es => listable e && listableAll es

end

/-- A lexeme that is no bracket. -/
structure IsWord (x : String) : Prop where
  lexeme : IsLexeme x
  plain : (Listing.word x).plain = true

theorem isWord_of_kindOf? {x : String} {k : Token.Kind} (hx : Piece.kindOf? x.toList = some k)
    (hk : k ≠ .punctuation) : IsWord x := by
  have hbrackets : ∀ y ∈ Listing.brackets, Piece.kindOf? y.toList = some .punctuation := by decide
  refine ⟨Option.isSome_iff_exists.2 ⟨k, hx⟩, ?_⟩
  rw [Listing.plain, Bool.not_eq_true', ← Bool.not_eq_true, List.contains_iff_mem]
  intro hmem
  exact hk (Option.some_inj.1 (hx.symm.trans (hbrackets x hmem)))

theorem isWord_name {x : String} (hx : isName x = true) : IsWord x :=
  isWord_of_kindOf? (kindOf?_of_isName hx).1 (by decide)

theorem isWord_operator (op : BinaryOp) : IsWord op.text :=
  ⟨isLexeme_operator op, by cases op <;> decide⟩

theorem isWord_unary (op : UnaryOp) : IsWord op.text :=
  ⟨isLexeme_unary op, by cases op <;> decide⟩

theorem isWord_keyword {x : String} (hx : x ∈ ["if", "while", "var", "="]) : IsWord x := by
  simp only [List.mem_cons, List.not_mem_nil, or_false] at hx
  rcases hx with rfl | rfl | rfl | rfl <;> exact ⟨isLexeme_mark (by decide), by decide⟩

theorem isWord_literal {l : Span} {value : Literal} (h : listable (.literal l value) = true) :
    IsWord value.render := by
  cases value with
  | int value =>
    exact isWord_of_kindOf? (kindOf?_render_int (by simpa [listable] using h)) (by decide)
  | bool value => cases value <;> exact ⟨isLexeme_mark (by decide), by decide⟩
  | unit => exact isWord_name (by decide)

/-- The lexemes of the printed expression are the words of its listing, whatever follows it. -/
structure Lists (e : Expr) : Prop where
  lexemes : ∀ ⦃u : List Char⦄, (∀ b ∈ u.head?, EndsLexeme b) →
    Piece.lexemes (e.render.toList ++ u) = e.listing.words ++ Piece.lexemes u
  plain : e.listing.plain = true

theorem Lists.mark {e : Expr} {c : Char} (he : Lists e) (hc : Piece.isMark c = true)
    (u : List Char) : Piece.lexemes (e.render.toList ++ c :: u) =
      e.listing.words ++ String.ofList [c] :: Piece.lexemes u := by
  rw [he.lexemes (ends_mark hc u), lexemes_mark hc]

theorem ends_renderArguments (es : List Expr) (u : List Char) :
    ∀ b ∈ ((renderArguments es).toList ++ ')' :: u).head?, EndsLexeme b := by
  cases es with
  | nil => exact ends_mark (by decide) u
  | cons e es =>
    rw [renderArguments, String.toList_append, String.toList_append]
    exact ends_blank _

theorem lexemes_renderArguments {es : List Expr} (hes : ∀ e ∈ es, Lists e) (u : List Char) :
    Piece.lexemes ((renderArguments es).toList ++ ')' :: u) =
      Listing.wordsAll (listings es) ++ ")" :: Piece.lexemes u := by
  induction es with
  | nil => exact lexemes_mark (by decide) u
  | cons e es ih =>
    obtain ⟨he, hes⟩ := List.forall_mem_cons.1 hes
    have htext : (renderArguments (e :: es)).toList ++ ')' :: u =
        ' ' :: (e.render.toList ++ ((renderArguments es).toList ++ ')' :: u)) := by
      simp [renderArguments]
    rw [htext, lexemes_blank, he.lexemes (ends_renderArguments es u), ih hes, listings,
      Listing.wordsAll, List.append_assoc]

theorem plainAll_listings {es : List Expr} (hes : ∀ e ∈ es, Lists e) :
    Listing.plainAll (listings es) = true := by
  induction es with
  | nil => rfl
  | cons e es ih =>
    obtain ⟨he, hes⟩ := List.forall_mem_cons.1 hes
    rw [listings, Listing.plainAll, he.plain, ih hes]
    rfl

/-- What is printed as a word and expressions behind it, all in round brackets. -/
theorem lists_of_round {e : Expr} {head : String} (es : List Expr) (hhead : IsWord head)
    (hes : ∀ e ∈ es, Lists e)
    (hrender : e.render.toList = '(' :: (head.toList ++ ((renderArguments es).toList ++ [')'])))
    (hlisting : e.listing = .round (.word head :: listings es)) : Lists e where
  lexemes u _ := by
    have htext : e.render.toList ++ u =
        '(' :: (head.toList ++ ((renderArguments es).toList ++ ')' :: u)) := by
      simp [hrender]
    rw [htext, lexemes_mark (by decide),
      hhead.lexeme.lexemes_append (ends_renderArguments es u), lexemes_renderArguments hes,
      hlisting]
    simp [Listing.words, Listing.wordsAll]
  plain := by
    rw [hlisting, Listing.plain, Listing.plainAll, hhead.plain, plainAll_listings hes]
    rfl

/-- Statements, each with a semicolon and a blank behind it, in front of `v`. -/
theorem lexemes_renderStatements {es : List Expr} (hes : ∀ e ∈ es, Lists e) (v : List Char) :
    Piece.lexemes ((renderStatements es).toList ++ v) =
      Listing.wordsAll ((listings es).flatMap fun x => [x, .word ";"]) ++ Piece.lexemes v := by
  induction es with
  | nil => rfl
  | cons e es ih =>
    obtain ⟨he, hes⟩ := List.forall_mem_cons.1 hes
    have htext : (renderStatements (e :: es)).toList ++ v =
        e.render.toList ++ ';' :: ' ' :: ((renderStatements es).toList ++ v) := by
      simp [renderStatements]
    rw [htext, he.mark (by decide), lexemes_blank, ih hes]
    simp [listings, Listing.wordsAll, Listing.words]

/-- A semicolon behind every statement is no bracket. -/
theorem plainAll_statements {xs : List Listing} (h : Listing.plainAll xs = true) :
    Listing.plainAll (xs.flatMap fun x => [x, .word ";"]) = true := by
  have hsemicolon : (Listing.word ";").plain = true := by decide
  induction xs with
  | nil => rfl
  | cons x xs ih =>
    rw [Listing.plainAll, Bool.and_eq_true] at h
    rw [List.flatMap_cons, Listing.plainAll_append, ih h.2, Listing.plainAll, h.1,
      Listing.plainAll, hsemicolon]
    rfl

theorem lists_block {l : Span} {statements : List Expr} {result : Expr}
    (hes : ∀ e ∈ statements, Lists e) (hresult : Lists result) :
    Lists (.block l statements result) where
  lexemes u _ := by
    have htext : (render (.block l statements result)).toList ++ u =
        '{' :: ((renderStatements statements).toList ++ (result.render.toList ++ '}' :: u)) := by
      simp [render, Token.openBrace, Token.closeBrace]
    rw [htext, lexemes_mark (by decide), lexemes_renderStatements hes, hresult.mark (by decide)]
    simp [listing, Listing.words, Listing.wordsAll, Listing.wordsAll_append, Token.openBrace,
      Token.closeBrace]
  plain := by
    rw [listing, Listing.plain, Listing.plainAll_append,
      plainAll_statements (plainAll_listings hes), Listing.plainAll, hresult.plain]
    rfl

/-- What stands behind the name of a declaration ends the name. -/
theorem lexemes_ascribed {x : String} (hx : IsWord x) {ascription : Option Ascription}
    (h : ascription.all Ascription.wellNamed = true) (u : List Char) :
    Piece.lexemes (x.toList ++ (ascribedText ascription ++ ' ' :: u)) =
      x :: (Listing.wordsAll (ascribed ascription) ++ Piece.lexemes u) := by
  cases ascription with
  | none =>
    rw [ascribedText, List.nil_append, hx.lexeme.lexemes_append (ends_blank u), lexemes_blank]
    rfl
  | some a =>
    obtain ⟨t, ht⟩ := a.exists_type_of_wellNamed h
    have hcolon : Piece.isMark ':' = true := by decide
    rw [ascribedText, ← Ty.render_of_type ht, List.cons_append, List.cons_append,
      hx.lexeme.lexemes_append (ends_mark hcolon _), lexemes_mark hcolon, lexemes_blank,
      Ty.lexemes_render t (ends_blank u), lexemes_blank, ← Ascription.wordsAll_listings,
      Ty.listings_of_type ht]
    rfl

theorem plainAll_ascribed {ascription : Option Ascription}
    (h : ascription.all Ascription.wellNamed = true) :
    Listing.plainAll (ascribed ascription) = true := by
  cases ascription with
  | none => rfl
  | some a =>
    obtain ⟨t, ht⟩ := a.exists_type_of_wellNamed h
    have hcolon : (Listing.word ":").plain = true := by decide
    rw [ascribed, Listing.plainAll, hcolon, ← Ty.listings_of_type ht, t.plainAll_listings]
    rfl

theorem lists_declaration {l : Span} {name : Identifier} {ascription : Option Ascription}
    {value : Expr} (hname : isName name.name = true)
    (hascription : ascription.all Ascription.wellNamed = true) (hvalue : Lists value) :
    Lists (.declaration l name ascription value) := by
  have hname := isWord_name hname
  have hvar : IsWord "var" := isWord_keyword (by decide)
  refine ⟨fun u _ => ?_, ?_⟩
  · have htext : (render (.declaration l name ascription value)).toList ++ u =
        '(' :: ("var".toList ++ ' ' :: (name.name.toList ++ (ascribedText ascription ++ ' ' ::
          (value.render.toList ++ ')' :: u)))) := by
      cases ascription <;> simp [render, ascribedText]
    rw [htext, lexemes_mark (by decide), hvar.lexeme.lexemes_append (ends_blank _), lexemes_blank,
      lexemes_ascribed hname hascription, hvalue.mark (by decide)]
    simp [listing, Listing.words, Listing.wordsAll, Listing.wordsAll_append]
  · rw [listing, Listing.plain, Listing.plainAll, Listing.plainAll, hvar.plain, hname.plain,
      Listing.plainAll_append, plainAll_ascribed hascription, Listing.plainAll, hvalue.plain]
    rfl

theorem lists_word {e : Expr} {x : String} (hx : IsWord x) (hrender : e.render = x)
    (hlisting : e.listing = .word x) : Lists e where
  lexemes u hu := by
    rw [hrender, hlisting, hx.lexeme.lexemes_append hu]
    rfl
  plain := hlisting ▸ hx.plain

mutual

theorem lists : ∀ e : Expr, e.listable = true → Lists e
  | .literal .., h => lists_word (isWord_literal h) rfl rfl
  | .identifier .., h => by
    simp only [listable, Bool.and_eq_true] at h
    exact lists_word (isWord_name h.1) rfl rfl
  | .binary _ op left right, h => by
    simp only [listable, Bool.and_eq_true] at h
    exact lists_of_round [left, right] (isWord_operator op)
      (by simp [lists left h.1, lists right h.2]) (by simp [render, renderArguments]) rfl
  | .unary _ op operand, h => by
    exact lists_of_round [operand] (isWord_unary op) (by simp [lists operand h])
      (by simp [render, renderArguments]) rfl
  | .ifThen _ condition consequent, h => by
    simp only [listable, Bool.and_eq_true] at h
    exact lists_of_round [condition, consequent] (isWord_keyword (x := "if") (by decide))
      (by simp [lists condition h.1, lists consequent h.2]) (by simp [render, renderArguments]) rfl
  | .ifThenElse _ condition consequent alternative, h => by
    simp only [listable, Bool.and_eq_true] at h
    exact lists_of_round [condition, consequent, alternative]
      (isWord_keyword (x := "if") (by decide))
      (by simp [lists condition h.1.1, lists consequent h.1.2, lists alternative h.2])
      (by simp [render, renderArguments]) rfl
  | .loop _ condition body, h => by
    simp only [listable, Bool.and_eq_true] at h
    exact lists_of_round [condition, body] (isWord_keyword (x := "while") (by decide))
      (by simp [lists condition h.1, lists body h.2]) (by simp [render, renderArguments]) rfl
  | .block _ statements result, h => by
    simp only [listable, Bool.and_eq_true] at h
    exact lists_block (lists_each statements h.1) (lists result h.2)
  | .declaration _ _ _ value, h => by
    simp only [listable, Bool.and_eq_true] at h
    exact lists_declaration h.1.1 h.1.2 (lists value h.2)
  | .assignment _ target value, h => by
    simp only [listable, Bool.and_eq_true] at h
    exact lists_of_round [target, value] (isWord_keyword (x := "=") (by decide))
      (by simp [lists target h.1, lists value h.2]) (by simp [render, renderArguments]) rfl
  | .call _ _ arguments, h => by
    simp only [listable, Bool.and_eq_true] at h
    exact lists_of_round arguments (isWord_name h.1) (lists_each arguments h.2)
      (by simp [render]) rfl

theorem lists_each : ∀ es : List Expr, listableAll es = true → ∀ e ∈ es, Lists e
  | [], _ => by simp
  | e :: es, h => by
    simp only [listableAll, Bool.and_eq_true] at h
    exact List.forall_mem_cons.2 ⟨lists e h.1, lists_each es h.2⟩

end

theorem listing_eq_of_render_eq {a b : Expr} (ha : a.listable = true) (hb : b.listable = true)
    (h : a.render = b.render) : a.listing = b.listing := by
  have hwords {e : Expr} (he : Lists e) : Piece.lexemes e.render.toList = e.listing.words := by
    have hlexemes := he.lexemes (u := []) (by simp)
    rwa [List.append_nil, Piece.lexemes_nil, List.append_nil] at hlexemes
  have hla := lists a ha
  have hlb := lists b hb
  have heq : a.listing.words = b.listing.words := by rw [← hwords hla, ← hwords hlb, h]
  have hlist : [a.listing] = [b.listing] := Listing.eq_of_wordsAll_eq
    (by rw [Listing.plainAll, hla.plain]; rfl) (by rw [Listing.plainAll, hlb.plain]; rfl)
    (congrArg (· ++ []) heq)
  exact (List.cons.inj hlist).1

end Expr

end ExprLang
