import ExprLang.Proofs.Grammar.Contract
import ExprLang.Proofs.Grammar.Likeness
import ExprLang.Proofs.Grammar.Yield
import ExprLang.Proofs.Printing.Spelling

/-!
The numbers of a program. Main statement: they are read exactly, or the first one that does not fit
is refused, and nothing before it.
-/

namespace ExprLang

open ExprLang.Token (closed scan Spelt)

/-- The number that a text writes in digits, however many they are. -/
def Text.numeral? (s : String) : Option Int :=
  if Piece.kindOf? s.toList = some .integer then some (Int.ofNat (Nat.ofDigitChars 10 s.toList 0))
  else none

/-- The number that a token writes. -/
def Token.numeral? (t : Token) : Option Int :=
  if t.kind = .integer then some (Int.ofNat t.number) else none

/-- Is the token a number that does not fit into 64 bits? -/
def Token.overflows (t : Token) : Bool := t.numeral?.any (9223372036854775807 < ·)

/-- The same token with 0 for a number. -/
def Token.zeroed (t : Token) : Token := if t.kind = .integer then { t with text := "0" } else t

namespace Expr

mutual

/-- The integers of a tree, in the order in which they are written. -/
def integers : Expr → List Int
  | .literal _ (.int value) => [value]
  | .literal .. | .identifier .. => []
  | .binary _ _ left right => integers left ++ integers right
  | .unary _ _ operand => integers operand
  | .ifThen _ condition consequent => integers condition ++ integers consequent
  | .ifThenElse _ condition consequent alternative =>
    integers condition ++ (integers consequent ++ integers alternative)
  | .loop _ condition body => integers condition ++ integers body
  | .block _ statements result => integersAll statements ++ integers result
  | .declaration _ _ _ value => integers value
  | .assignment _ target value => integers target ++ integers value
  | .call _ _ arguments => integersAll arguments

def integersAll : List Expr → List Int
  | [] => []
  | e :: es => integers e ++ integersAll es

end

end Expr

section Yields

theorem Text.numeral?_of_kind {s : String} {kind : Token.Kind}
    (h : Piece.kindOf? s.toList = some kind) (hkind : kind ≠ .integer) : numeral? s = none := by
  rw [numeral?, h, if_neg (by simpa using hkind)]

theorem Text.numeral?_name {s : String} (h : isName s = true) : numeral? s = none :=
  numeral?_of_kind (kindOf?_of_isName h).1 (by decide)

theorem Text.numeral?_render {value : Int} (h : 0 ≤ value) :
    numeral? (Literal.int value).render = some value := by
  rw [numeral?, if_pos (kindOf?_render_int h), ofDigitChars_render_int h]
  exact congrArg some (Int.toNat_of_nonneg h)

/-- What a token contributes to the yield is a numeral exactly if the token is one. -/
theorem Token.Spelt.numeral?_content {t : Token} (hs : t.Spelt) :
    t.content.bind Text.numeral? = t.numeral? := by
  unfold content Token.numeral?
  cases hkind : t.kind with
  | integer =>
    generalize t.number = n
    show Text.numeral? (Literal.int (Int.ofNat n)).render = some (Int.ofNat n)
    exact Text.numeral?_render (Int.natCast_nonneg n)
  | identifier | boolean | operator =>
    rw [Spelt, hkind] at hs
    exact Text.numeral?_of_kind hs (by decide)
  | punctuation | endMark => rfl

attribute [local simp] List.filterMap_append List.filterMap_cons

namespace Ascription

mutual

theorem numerals_yield : ∀ a : Ascription, a.wellNamed = true →
    a.yield.filterMap Text.numeral? = []
  | simple name _, h => by
    simp only [wellNamed, simpleNames, List.contains_iff_mem, List.mem_cons, List.not_mem_nil,
      or_false] at h
    rcases h with rfl | rfl | rfl <;> rfl
  | function params result _, h => by
    simp only [wellNamed, Bool.and_eq_true] at h
    have hparams := numerals_yieldAll params h.1.2
    have hresult := numerals_yield result h.2
    have harrow : Text.numeral? "=>" = none := rfl
    simp [yield, hparams, hresult, harrow]

theorem numerals_yieldAll : ∀ as : List Ascription, wellNamedAll as = true →
    (yieldAll as).filterMap Text.numeral? = []
  | [], _ => rfl
  | a :: as, h => by
    simp only [wellNamedAll, Bool.and_eq_true] at h
    simp [yieldAll, numerals_yield a h.1, numerals_yieldAll as h.2]

end

end Ascription

theorem BinaryOp.numeral?_text (op : BinaryOp) : Text.numeral? op.text = none := by
  cases op <;> rfl

theorem UnaryOp.numeral?_text (op : UnaryOp) : Text.numeral? op.text = none := by
  cases op <;> rfl

/-- No word that shapes an expression is a numeral. -/
theorem Text.numeral?_word {s : String}
    (h : s ∈ ["if", "then", "else", "while", "do", "var", "=", "true", "false"]) :
    numeral? s = none := by
  revert s
  decide

namespace Expr

mutual

/-- The numerals of the yield are the integers of the tree, if the names in it are names. -/
theorem numerals_yield : ∀ e : Expr, (e.isUnit || e.wellNamed) = true →
    e.yield.filterMap Text.numeral? = e.integers
  | .literal _ (.int value), h => by
    simp only [isUnit, wellNamed, Bool.false_or, Bool.and_eq_true, decide_eq_true_eq] at h
    simp [yield, integers, Text.numeral?_render h.1]
  | .literal _ (.bool true), _ | .literal _ (.bool false), _ | .literal _ .unit, _ => rfl
  | .identifier _ name, h => by
    simp only [isUnit, wellNamed, Bool.false_or] at h
    simp [yield, integers, Text.numeral?_name h]
  | .binary _ op left right, h => by
    simp only [isUnit, wellNamed, Bool.false_or, Bool.and_eq_true] at h
    simp [yield, integers, BinaryOp.numeral?_text, numerals_yield left (by simp [h]),
      numerals_yield right (by simp [h])]
  | .unary _ op operand, h => by
    simp only [isUnit, wellNamed, Bool.false_or] at h
    simp [yield, integers, UnaryOp.numeral?_text, numerals_yield operand (by simp [h])]
  | .ifThen _ condition consequent, h => by
    simp only [isUnit, wellNamed, Bool.false_or, Bool.and_eq_true] at h
    simp [yield, integers, Text.numeral?_word, numerals_yield condition (by simp [h]),
      numerals_yield consequent (by simp [h])]
  | .ifThenElse _ condition consequent alternative, h => by
    simp only [isUnit, wellNamed, Bool.false_or, Bool.and_eq_true] at h
    simp [yield, integers, Text.numeral?_word, numerals_yield condition (by simp [h]),
      numerals_yield consequent (by simp [h]), numerals_yield alternative (by simp [h])]
  | .loop _ condition body, h => by
    simp only [isUnit, wellNamed, Bool.false_or, Bool.and_eq_true] at h
    simp [yield, integers, Text.numeral?_word, numerals_yield condition (by simp [h]),
      numerals_yield body (by simp [h])]
  | .block _ statements result, h => by
    simp only [isUnit, wellNamed, Bool.false_or, Bool.and_eq_true] at h
    simp [yield, integers, numerals_yieldAll statements h.1, numerals_yield result h.2]
  | .declaration _ name none value, h => by
    simp only [isUnit, wellNamed, Bool.false_or, Bool.and_eq_true] at h
    simp [yield, integers, Text.numeral?_word, Text.numeral?_name h.1.1,
      numerals_yield value (by simp [h])]
  | .declaration _ name (some ascription) value, h => by
    simp only [isUnit, wellNamed, Bool.false_or, Bool.and_eq_true, Option.all_some] at h
    simp [yield, integers, Text.numeral?_word, Text.numeral?_name h.1.1,
      Ascription.numerals_yield ascription h.1.2, numerals_yield value (by simp [h])]
  | .assignment _ target value, h => by
    simp only [isUnit, wellNamed, Bool.false_or, Bool.and_eq_true] at h
    simp [yield, integers, Text.numeral?_word, numerals_yield target (by simp [h]),
      numerals_yield value (by simp [h])]
  | .call _ callee arguments, h => by
    simp only [isUnit, wellNamed, Bool.false_or, Bool.and_eq_true] at h
    simp [yield, integers, Text.numeral?_name h.1, numerals_yieldAll arguments h.2]

theorem numerals_yieldAll : ∀ es : List Expr, wellNamedAll es = true →
    (yieldAll es).filterMap Text.numeral? = integersAll es
  | [], _ => rfl
  | e :: es, h => by
    simp only [wellNamedAll, Bool.and_eq_true] at h
    simp [yieldAll, integersAll, numerals_yield e (by simp [h]), numerals_yieldAll es h.2]

end

mutual

theorem integers_le : ∀ e : Expr, (e.isUnit || e.wellNamed) = true →
    ∀ n ∈ e.integers, n ≤ 9223372036854775807
  | .literal _ (.int value), h => by
    simp only [isUnit, wellNamed, Bool.false_or, Bool.and_eq_true, decide_eq_true_eq] at h
    simpa [integers] using h.2
  | .literal _ (.bool _), _ | .literal _ .unit, _ | .identifier .., _ => by simp [integers]
  | .unary _ _ operand, h => integers_le operand (by simp_all [isUnit, wellNamed])
  | .binary _ _ left right, h | .ifThen _ left right, h | .loop _ left right, h
  | .assignment _ left right, h => by
    simp only [isUnit, wellNamed, Bool.false_or, Bool.and_eq_true] at h
    exact List.forall_mem_append.2
      ⟨integers_le left (by simp [h]), integers_le right (by simp [h])⟩
  | .ifThenElse _ condition consequent alternative, h => by
    simp only [isUnit, wellNamed, Bool.false_or, Bool.and_eq_true] at h
    exact List.forall_mem_append.2 ⟨integers_le condition (by simp [h]), List.forall_mem_append.2
      ⟨integers_le consequent (by simp [h]), integers_le alternative (by simp [h])⟩⟩
  | .block _ statements result, h => by
    simp only [isUnit, wellNamed, Bool.false_or, Bool.and_eq_true] at h
    exact List.forall_mem_append.2 ⟨integersAll_le statements h.1, integers_le result h.2⟩
  | .declaration _ _ _ value, h => integers_le value (by simp_all [isUnit, wellNamed])
  | .call _ _ arguments, h => integersAll_le arguments (by simp_all [isUnit, wellNamed])

theorem integersAll_le : ∀ es : List Expr, wellNamedAll es = true →
    ∀ n ∈ integersAll es, n ≤ 9223372036854775807
  | [], _ => by simp [integersAll]
  | e :: es, h => by
    simp only [wellNamedAll, Bool.and_eq_true] at h
    exact List.forall_mem_append.2 ⟨integers_le e (by simp [h]), integersAll_le es h.2⟩

end

/-- The integers of a program are the numbers of its tokens, all of them in range. -/
theorem integers_of_ofTokens {ts : List Token} {file : String} {e : Expr}
    (hs : ∀ t ∈ ts, t.Spelt) (h : ofTokens (closed ts) file = .ok e) :
    e.integers = ts.filterMap Token.numeral? ∧
      ∀ n ∈ ts.filterMap Token.numeral?, n ≤ 9223372036854775807 := by
  have hnamed : (e.isUnit || e.wellNamed) = true := by simp [wellNamed_of_ofTokens hs h]
  have hintegers : e.integers = ts.filterMap Token.numeral? := by
    rw [← numerals_yield e hnamed, ← yields_of_ofTokens hs h, List.filterMap_filterMap]
    exact List.filterMap_congr fun t ht => (hs t ht).numeral?_content
  exact ⟨hintegers, hintegers ▸ integers_le e hnamed⟩

end Expr

end Yields

section Zeroed

variable {x : Token} {s : TokenStream}

namespace Token

@[simp] theorem kind_zeroed (t : Token) : t.zeroed.kind = t.kind := by
  unfold zeroed
  split <;> rfl

@[simp] theorem span_zeroed (t : Token) : t.zeroed.span = t.span := by
  unfold zeroed
  split <;> rfl

theorem zeroed_of_ne (h : x.kind ≠ .integer) : x.zeroed = x := by rw [zeroed, if_neg h]

theorem text_zeroed (h : x.kind = .integer) : x.zeroed.text = "0" := by rw [zeroed, if_pos h]

theorem Spelt.zeroed (h : x.Spelt) : x.zeroed.Spelt := by
  by_cases hkind : x.kind = .integer
  · rw [Spelt, kind_zeroed, text_zeroed hkind, hkind]
    decide
  · rwa [zeroed_of_ne hkind]

theorem is_zeroed (h : x.Spelt ∨ x.isEnd = true) {text : String}
    (htext : Piece.kindOf? text.toList ≠ some .integer) : x.is text = x.zeroed.is text := by
  by_cases hkind : x.kind = .integer
  · rcases h with hs | hend
    · rw [hs.is_eq_false (by rwa [hkind]), hs.zeroed.is_eq_false (by rwa [kind_zeroed, hkind])]
    · simp [isEnd, hkind] at hend
  · rw [zeroed_of_ne hkind]

theorem zeroed_of_isEnd (h : x.isEnd = true) : x.zeroed = x := by
  refine zeroed_of_ne fun hkind => ?_
  simp [isEnd, hkind] at h

theorem endAfter_map_zeroed (last : Option Token) :
    endAfter (last.map zeroed) = endAfter last := by
  cases last with
  | none => rfl
  | some t => simp [endAfter, location]

theorem map_zeroed_closed (ts : List Token) :
    (closed ts).map zeroed = closed (ts.map zeroed) := by
  rw [closed, closed, List.getLast?_map, endAfter_map_zeroed, List.map_append, List.map_singleton,
    zeroed_of_isEnd (isEnd_endAfter _)]

end Token

namespace TokenStream

/-- The same stream with 0 for every number. -/
def zeroed (s : TokenStream) : TokenStream :=
  { s with previous := s.previous.map Token.zeroed, ahead := s.ahead.map Token.zeroed }

theorem current_zeroed (s : TokenStream) : s.zeroed.current = s.current.zeroed := by
  obtain ⟨file, previous, ahead, closing, hclosing⟩ := s
  cases ahead with
  | nil => exact (Token.zeroed_of_isEnd hclosing).symm
  | cons t ahead => rfl

theorem advance_zeroed (s : TokenStream) : s.zeroed.advance = s.advance.zeroed := by
  unfold advance
  rw [current_zeroed]
  simp [zeroed]

theorem ofTokens_zeroed (ts : List Token) (file : String) :
    ofTokens (closed (ts.map Token.zeroed)) file = (ofTokens (closed ts) file).zeroed := by
  rw [ofTokens_closed, ofTokens_closed]
  simp [zeroed, List.getLast?_map, Token.endAfter_map_zeroed]

/-- Every token that is ahead or read last is one of these. -/
def Among (ts : List Token) (s : TokenStream) : Prop :=
  ∀ x, x ∈ s.ahead ∨ s.previous = some x → x ∈ ts ∨ x.isEnd = true

theorem Among.current {ts : List Token} (h : s.Among ts) :
    s.current ∈ ts ∨ s.current.isEnd = true := by
  obtain ⟨file, previous, ahead, closing, hclosing⟩ := s
  cases ahead with
  | nil => exact .inr hclosing
  | cons t ahead => exact h t (.inl List.mem_cons_self)

theorem Among.advance {ts : List Token} (h : s.Among ts) : s.advance.Among ts := by
  rintro x (hx | hx)
  · exact h x (.inl (List.mem_of_mem_tail hx))
  · obtain rfl : s.current = x := Option.some_inj.1 hx
    exact h.current

theorem among_ofTokens (ts : List Token) (file : String) :
    (ofTokens (closed ts) file).Among ts := by
  rw [ofTokens_closed]
  rintro x (hx | hx)
  · exact .inl hx
  · cases hx

theorem Among.previousIs_zeroed {ts : List Token} (hs : ∀ t ∈ ts, t.Spelt) (h : s.Among ts)
    {text : String} (htext : Piece.kindOf? text.toList ≠ some .integer) :
    s.previousIs text = s.zeroed.previousIs text := by
  unfold previousIs zeroed
  cases hprevious : s.previous with
  | none => rfl
  | some x => exact Token.is_zeroed ((h x (.inr hprevious)).imp_left (hs x)) htext

end TokenStream

/-- The refusal of a number of these tokens. -/
def Error.RefusesNumeral (ts : List Token) (e : Error) : Prop :=
  ∃ x ∈ ts, x.kind = .integer ∧ Text.int64? x.text = none ∧
    e = ⟨.numberOutOfRange x.text, x.location⟩

/-- Tokens against the same ones with 0 for every number. The trees that are read have nothing to do
with one another, but the second run is refused only where the first one is, and the first one else
for a number only. -/
def Likeness.zeroed (ts : List Token) (hs : ∀ t ∈ ts, t.Spelt) : Likeness where
  runs := ⟨fun s t => s.Among ts ∧ t = s.zeroed, fun _ _ => True, True⟩
  excused := Error.RefusesNumeral ts
  place _ _ := True
  token x y := (x ∈ ts ∨ x.isEnd = true) ∧ y = x.zeroed
  name _ _ := True
  ascription _ _ := True
  expr a b := a.isDeclaration = b.isDeclaration
  current {s t} h := ⟨h.1.current, by rw [h.2, TokenStream.current_zeroed]⟩
  advance {s t} h := ⟨h.1.advance, by rw [h.2, TokenStream.advance_zeroed]⟩
  previousIs_eq {s t} h := by rw [h.2, h.1.previousIs_zeroed hs (by decide)]
  remaining_eq {s t} h := by simp [h.2, TokenStream.zeroed, TokenStream.remaining]
  token_start _ := trivial
  kind_eq h := by rw [h.2, Token.kind_zeroed]
  text_eq h hkind := by rw [h.2, Token.zeroed_of_ne hkind]
  is_eq h _ htext := by rw [h.2, Token.is_zeroed (h.1.imp_left (hs _)) htext]
  unexpected _ _ := trivial
  declarationAsResult _ := trivial
  numeral {x y} h := by
    obtain ⟨hx, rfl⟩ := h
    by_cases hkind : x.kind = .integer
    · have hzero : Text.int64? x.zeroed.text = some 0 := by
        rw [Token.text_zeroed hkind]
        decide
      rw [hzero]
      cases hx64 : Text.int64? x.text with
      | none =>
        have hmem : x ∈ ts := hx.resolve_right fun hend => by simp [Token.isEnd, hkind] at hend
        exact ⟨x, hmem, hkind, hx64, rfl⟩
      | some n => rfl
    · rw [Token.zeroed_of_ne hkind]
      cases Text.int64? x.text <;> trivial
  boolean _ := rfl
  implicitUnit _ := rfl
  named _ _ := trivial
  typeName _ _ := trivial
  functionType _ _ := trivial
  name_start _ := trivial
  expr_start _ := trivial
  isDeclaration_eq h := h
  identifier _ := rfl
  binary _ _ _ _ := rfl
  unary _ _ _ := rfl
  ifThen _ _ _ := rfl
  ifThenElse _ _ _ _ := rfl
  loop _ _ _ := rfl
  block _ _ _ := rfl
  declaration _ _ _ _ := rfl
  assignment _ _ _ := rfl
  call _ _ _ := rfl

end Zeroed

/-- A number does not fit exactly if it is not converted. -/
theorem Token.Spelt.overflows_iff {t : Token} (hs : t.Spelt) :
    t.overflows = true ↔ t.kind = .integer ∧ Text.int64? t.text = none := by
  unfold overflows numeral?
  by_cases hkind : t.kind = .integer
  · have hcast : (9223372036854775807 : Int) < t.number ↔ 9223372036854775807 < t.number := by
      omega
    rw [if_pos hkind, hs.int64? hkind]
    simp [hkind, hcast]
  · simp [hkind]

/-- A token of the same text is of the same kind, since the end mark has none. -/
theorem Token.kind_of_text {ts : List Token} {x z : Token} (hs : ∀ t ∈ ts, t.Spelt)
    (hx : x ∈ closed ts) (hz : z.Spelt) (htext : z.text = x.text) : x.kind = z.kind := by
  rcases List.mem_append.1 hx with hx | hx
  · have hspelt := hs x hx
    rw [Spelt, ← htext, hz] at hspelt
    exact (Option.some_inj.1 hspelt).symm
  · have hempty : z.text = "" := by rw [htext, List.mem_singleton.1 hx]; rfl
    rw [Spelt, hempty] at hz
    cases hz

namespace Expr

variable {ts : List Token} {file : String} {e : Expr} {error : Error}

theorem overflows_of_ofTokens (hs : ∀ t ∈ ts, t.Spelt) (h : ofTokens (closed ts) file = .ok e) :
    ∀ t ∈ ts, t.overflows = false := by
  intro t ht
  have hle := (integers_of_ofTokens hs h).2
  unfold Token.overflows
  cases hn : t.numeral? with
  | none => rfl
  | some n => simpa using hle n (List.mem_filterMap.2 ⟨t, ht, hn⟩)

/-- If a list is a program with 0 for every number, then numbers alone can spoil it. -/
theorem ofTokens_of_zeroed (hs : ∀ t ∈ ts, t.Spelt)
    (h : ∃ e, ofTokens ((closed ts).map Token.zeroed) file = .ok e) :
    (∃ e, ofTokens (closed ts) file = .ok e) ∨
      ∃ error, error.RefusesNumeral ts ∧ ofTokens (closed ts) file = .error error := by
  obtain ⟨e₀, h⟩ := h
  rw [Token.map_zeroed_closed] at h
  have hruns := Grammar.keeps_program (L := .zeroed ts hs) (.ofTokens (closed ts) file)
    (.ofTokens (closed (ts.map Token.zeroed)) file)
    ⟨TokenStream.among_ofTokens ts file, TokenStream.ofTokens_zeroed ts file⟩
  unfold ofTokens EStateM.run at h ⊢
  rcases hruns with ⟨error, s, hrun, herror⟩ | hmeets
  · exact .inr ⟨error, herror, by rw [hrun]⟩
  · cases hrun : Grammar.program (.ofTokens (closed ts) file) with
    | ok e s => exact .inl ⟨e, rfl⟩
    | error error s =>
      -- Both runs fail then, but the second one does not.
      rw [hrun] at hmeets
      obtain ⟨error', s', hrun', -⟩ := hmeets.exists_error trivial
      rw [hrun'] at h
      cases h

/-- Of several numbers that do not fit the first one is refused. -/
theorem refuses_first (hs : ∀ t ∈ ts, t.Spelt) (hread : ofTokens (closed ts) file = .error error)
    (herror : error.RefusesNumeral ts) :
    ∃ x, (closed ts).find? Token.overflows = some x ∧
      error = ⟨.numberOutOfRange x.text, x.location⟩ := by
  obtain ⟨z, hz, hkind, hz64, rfl⟩ := herror
  obtain ⟨k, stop, hrun, -⟩ := exists_failsAt_iff.2 hread
  obtain ⟨w, r, x, r', hw, -, -, hclosed, ⟨htext, hplace⟩, hviable⟩ :=
    exists_of_program_error hs hrun
  have hoverflows := (hs z hz).overflows_iff.2 ⟨hkind, hz64⟩
  have hxoverflows : x.overflows = true := by
    have hmem : x ∈ closed ts := by simp [hclosed]
    rwa [Token.overflows, Token.numeral?, Token.number, Token.kind_of_text hs hmem (hs z hz) htext,
      ← htext]
  have hspeltw : ∀ t ∈ w, t.Spelt := fun t ht => hs t (by rw [hw]; exact List.mem_append_left r ht)
  obtain ⟨u, e, hu, hcompleted⟩ := exists_ofTokens_of_viable hspeltw hviable file
  have hfits := overflows_of_ofTokens (List.forall_mem_append.2 ⟨hspeltw, hu⟩) hcompleted
  refine ⟨x, List.find?_eq_some_iff_append.2 ⟨hxoverflows, w, r', hclosed, fun t ht => ?_⟩, ?_⟩
  · simp [hfits t (List.mem_append_left u ht)]
  · exact congrArg₂ Error.mk (congrArg Cause.numberOutOfRange htext) hplace

/-- Integers are exact or refused. A text that is a program with 0 for every number is read, and the
integers of its tree are its numbers in order, or the first number is refused that does not fit. -/
theorem read_numbers {text file : String}
    (h : ∃ e, ofTokens ((Token.read text file).map Token.zeroed) file = .ok e) :
    match (Token.read text file).find? Token.overflows with
    | none => ∃ e, Expr.read text file = .ok e ∧
        e.integers = (Token.read text file).filterMap Token.numeral?
    | some x => Expr.read text file = .error ⟨.numberOutOfRange x.text, x.location⟩ := by
  have hs : ∀ t ∈ scan text.toList file, t.Spelt := fun t => Token.spelt_of_mem_scan
  have hread : Token.read text file = closed (scan text.toList file) := rfl
  unfold Expr.read
  rw [hread] at h ⊢
  rcases ofTokens_of_zeroed hs h with ⟨e, he⟩ | ⟨error, herror, he⟩
  · have hclosing : (closed (scan text.toList file)).filterMap Token.numeral? =
        (scan text.toList file).filterMap Token.numeral? := by
      simp [closed, Token.numeral?, Token.endAfter]
    have hnone : (closed (scan text.toList file)).find? Token.overflows = none := by
      rw [List.find?_eq_none]
      intro t ht
      rcases List.mem_append.1 ht with ht | ht
      · simp [overflows_of_ofTokens hs he t ht]
      · rw [List.mem_singleton.1 ht]
        exact Bool.false_ne_true
    rw [hnone]
    exact ⟨e, he, by rw [(integers_of_ofTokens hs he).1, hclosing]⟩
  · obtain ⟨x, hx, rfl⟩ := refuses_first hs he herror
    rw [hx]
    exact he

/-- The least number that does not fit, behind a sign with which it would. -/
theorem read_numbers_least :
    Expr.read "f(007, -9223372036854775808)" "" =
      .error ⟨.numberOutOfRange "9223372036854775808", ⟨1, 9, ""⟩⟩ := by
  have hfind : (Token.read "f(007, -9223372036854775808)" "").find? Token.overflows =
      some ⟨.integer, "9223372036854775808", ⟨⟨1, 9, ""⟩, ⟨1, 28, ""⟩⟩⟩ := by
    with_unfolding_all rfl
  have hzeroed : ∃ e, ofTokens ((Token.read "f(007, -9223372036854775808)" "").map Token.zeroed) ""
      = .ok e := ⟨_, by with_unfolding_all rfl⟩
  have h := read_numbers hzeroed
  rw [hfind] at h
  exact h

end Expr

end ExprLang
