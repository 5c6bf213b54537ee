import Mathlib.Data.List.TakeWhile
import ExprLang.Token.Reader
import ExprLang.Text.Numeral

/-!
How tokens are spelt. Main statement: the text of a token alone tells its kind, since the text is
cut into one lexeme again when nothing follows it, or what ends every lexeme.
-/

namespace ExprLang

namespace Piece

variable {c : Char} {cs ds rest u : List Char} {k : Token.Kind}

theorem isAlpha_iff_toNat : c.isAlpha = true ↔
    (65 ≤ c.toNat ∧ c.toNat ≤ 90) ∨ (97 ≤ c.toNat ∧ c.toNat ≤ 122) := by
  show (decide ('A'.val ≤ c.val ∧ c.val ≤ 'Z'.val) ||
    (decide ('a'.val ≤ c.val) && decide (c.val ≤ 'z'.val))) = true ↔ _
  rw [Bool.or_eq_true, Bool.and_eq_true, decide_eq_true_iff, decide_eq_true_iff,
    decide_eq_true_iff]
  exact Iff.rfl

theorem isBlank_eq_false_of_isAlphanum (h : c.isAlphanum = true ∨ c = '_') :
    Text.isBlank c = false := by
  have hrange : (48 ≤ c.toNat ∧ c.toNat ≤ 57) ∨ (65 ≤ c.toNat ∧ c.toNat ≤ 90) ∨
      (97 ≤ c.toNat ∧ c.toNat ≤ 122) ∨ c.toNat = 95 := by
    rcases h with h | rfl
    · rw [Char.isAlphanum, Bool.or_eq_true] at h
      rcases h with h | h
      · exact .inr ((isAlpha_iff_toNat.1 h).imp_right .inl)
      · exact .inl (Char.isDigit_iff_toNat.1 h)
    · exact .inr (.inr (.inr (by decide)))
  simp only [Text.isBlank, Text.inRanges, Text.blankRanges, List.any_cons, List.any_nil,
    Bool.or_false, Bool.or_eq_false_iff, Bool.and_eq_false_iff, decide_eq_false_iff_not]
  omega

theorem opensComment_of_ne (h : c ≠ '#') (h' : c ≠ '/') : opensComment c cs = false := by
  simp [opensComment, h, h']

/-- A run that the end of the text or a blank stops. -/
theorem run_append {f : List Char → Option Token.Kind} {p : Char → Bool}
    (hds : ∀ d ∈ ds, p d = true) (hu : ∀ b ∈ u.head?, p b = false) :
    run f p c (ds ++ u) = (⟨f (c :: ds), c :: ds⟩, u) := by
  have hstop : u.takeWhile p = [] ∧ u.dropWhile p = u := by
    cases u with
    | nil => simp
    | cons b u => simp [hu b rfl]
  unfold run
  rw [List.takeWhile_append_of_pos hds, List.dropWhile_append_of_pos hds, hstop.1, hstop.2,
    List.append_nil]

/-- In front of such a character every lexeme ends. -/
structure EndsLexeme (c : Char) : Prop where
  isWordPart : isWordPart c = false
  ne_equals : c ≠ '='
  ne_greater : c ≠ '>'
  ne_slash : c ≠ '/'

theorem EndsLexeme.isDigit (h : EndsLexeme c) : c.isDigit = false := by
  have hpart := h.isWordPart
  simp only [Piece.isWordPart, Char.isAlphanum, Bool.or_eq_false_iff] at hpart
  exact hpart.1.2

/-- A run of a lexeme ends where the text does, or at a character outside of it. -/
theorem run_append_of_run {f : List Char → Option Token.Kind} {p : Char → Bool}
    (h : run f p c cs = (⟨some k, c :: ds⟩, rest)) (hu : ∀ b ∈ u.head?, p b = false) :
    run f p c (ds ++ u) = (⟨some k, c :: ds⟩, u) := by
  simp only [run, Prod.mk.injEq, Piece.mk.injEq, List.cons.injEq, true_and] at h
  obtain ⟨⟨hk, hds⟩, -⟩ := h
  have hall : ∀ d ∈ ds, p d = true := by
    intro d hd
    rw [← hds] at hd
    exact List.mem_takeWhile_imp hd
  rw [run_append hall hu, ← hk, hds]

/-- Only a hash opens a comment by itself. -/
theorem opensComment_of_ends (h : c ≠ '#') (hu : ∀ b ∈ u.head?, EndsLexeme b) :
    opensComment c u = false := by
  cases u with
  | nil => simp [opensComment, h]
  | cons b u => simp [opensComment, h, (hu b rfl).ne_slash]

/-- What ends a lexeme is not the second character of a pair. -/
theorem isOperatorPair_of_ends (hu : ∀ b ∈ u.head?, EndsLexeme b) :
    ¬u.head?.any (isOperatorPair c) = true := by
  cases u with
  | nil => simp
  | cons b u => simp [isOperatorPair, (hu b rfl).ne_equals, (hu b rfl).ne_greater]

/-- A lexeme is cut off in the same way whatever ends it. -/
theorem cut_append_of_cut (h : cut c cs = (⟨some k, c :: ds⟩, rest))
    (hu : ∀ b ∈ u.head?, EndsLexeme b) : cut c (ds ++ u) = (⟨some k, c :: ds⟩, u) := by
  -- The cases are those of `cut`. Only a pair of characters looks at the text behind the first one.
  unfold cut at h
  by_cases hblank : Text.isBlank c = true
  · simp [hblank, run] at h
  rw [if_neg hblank] at h
  by_cases hcomment : opensComment c cs = true
  · simp [hcomment, run] at h
  rw [if_neg hcomment] at h
  unfold cut
  rw [if_neg hblank]
  by_cases hword : isWordStart c = true
  · have hne : opensComment c (ds ++ u) = false := by
      apply opensComment_of_ne <;> rintro rfl <;> revert hword <;> decide
    rw [if_pos hword] at h
    rw [hne, if_neg Bool.false_ne_true, if_pos hword,
      run_append_of_run h fun b hb => (hu b hb).isWordPart]
  rw [if_neg hword] at h
  by_cases hdigit : c.isDigit = true
  · have hne : opensComment c (ds ++ u) = false := by
      apply opensComment_of_ne <;> rintro rfl <;> revert hdigit <;> decide
    rw [if_pos hdigit] at h
    rw [hne, if_neg Bool.false_ne_true, if_neg hword, if_pos hdigit,
      run_append_of_run h fun b hb => (hu b hb).isDigit]
  rw [if_neg hdigit] at h
  by_cases hpair : cs.head?.any (isOperatorPair c) = true
  · rw [if_pos hpair] at h
    simp only [Prod.mk.injEq, Piece.mk.injEq, List.cons.injEq, true_and] at h
    obtain ⟨⟨hk, rfl⟩, -⟩ := h
    cases cs with
    | nil => simp at hpair
    | cons d cs =>
      have hne : opensComment c (d :: u) = false := by
        apply opensComment_of_ne <;> rintro rfl <;> simp [isOperatorPair] at hpair
      simp only [List.head?_cons, Option.any_some] at hpair
      simp [hne, hword, hdigit, hpair, ← hk]
  rw [if_neg hpair] at h
  have hnopair := isOperatorPair_of_ends (c := c) hu
  by_cases hoperator : isOperatorChar c = true
  · rw [if_pos hoperator] at h
    simp only [Prod.mk.injEq, Piece.mk.injEq, List.cons.injEq, true_and] at h
    obtain ⟨⟨hk, rfl⟩, -⟩ := h
    have hhash : c ≠ '#' := by
      rintro rfl
      revert hoperator
      decide
    rw [List.nil_append, opensComment_of_ends hhash hu, if_neg Bool.false_ne_true, if_neg hword,
      if_neg hdigit, if_neg hnopair, if_pos hoperator, ← hk]
  rw [if_neg hoperator] at h
  by_cases hmark : isMark c = true
  · rw [if_pos hmark] at h
    simp only [Prod.mk.injEq, Piece.mk.injEq, List.cons.injEq, true_and] at h
    obtain ⟨⟨hk, rfl⟩, -⟩ := h
    have hhash : c ≠ '#' := by
      rintro rfl
      revert hmark
      decide
    rw [List.nil_append, opensComment_of_ends hhash hu, if_neg Bool.false_ne_true, if_neg hword,
      if_neg hdigit, if_neg hnopair, if_neg hoperator, if_pos hmark, ← hk]
  rw [if_neg hmark] at h
  simp at h

theorem exists_text_cut (c : Char) (cs : List Char) : ∃ ds, (cut c cs).1.text = c :: ds := by
  unfold cut run
  repeat' split
  all_goals simp

/-- The kind of a text that is one lexeme. -/
def kindOf? : List Char → Option Token.Kind
  | [] => none
  | c :: cs => if (cut c cs).2 = [] then (cut c cs).1.kind else none

theorem kindOf?_eq_some_iff :
    kindOf? (c :: cs) = some k ↔ cut c cs = (⟨some k, c :: cs⟩, []) := by
  have happend := cut_append c cs
  show (if (cut c cs).2 = [] then (cut c cs).1.kind else none) = some k ↔ _
  constructor
  · intro h
    by_cases hrest : (cut c cs).2 = []
    · rw [if_pos hrest] at h
      rw [hrest, List.append_nil] at happend
      rw [← h, ← hrest]
      exact Prod.ext (by rw [← happend]) rfl
    · rw [if_neg hrest] at h
      cases h
  · intro h
    rw [h, if_pos rfl]

/-- The text of a lexeme is one lexeme. -/
theorem kindOf?_text_cut (h : (cut c cs).1.kind = some k) :
    kindOf? (cut c cs).1.text = some k := by
  obtain ⟨ds, hds⟩ := exists_text_cut c cs
  have hcut : cut c cs = (⟨some k, c :: ds⟩, (cut c cs).2) := by rw [← h, ← hds]
  rw [hds, kindOf?_eq_some_iff]
  simpa using cut_append_of_cut hcut (u := []) (by simp)

theorem kindOf?_of_mem_pieces {text : List Char} {p : Piece} (hp : p ∈ pieces text)
    (h : p.kind = some k) : kindOf? p.text = some k := by
  fun_induction pieces text with
  | case1 => simp at hp
  | case2 c cs ih =>
    rcases List.mem_cons.1 hp with rfl | hp
    · exact kindOf?_text_cut h
    · exact ih hp

theorem wordKind_cases (word : List Char) :
    wordKind word = .boolean ∨ wordKind word = .operator ∨ wordKind word = .identifier := by
  unfold wordKind
  split
  · exact .inl rfl
  · split
    · exact .inr (.inl rfl)
    · exact .inr (.inr rfl)

/-- No lexeme is an end mark. -/
theorem kindOf?_ne_endMark (text : List Char) : kindOf? text ≠ some .endMark := by
  cases text with
  | nil => simp [kindOf?]
  | cons c cs =>
    have hkind : (cut c cs).1.kind ≠ some .endMark := by
      have hword := wordKind_cases (c :: cs.takeWhile isWordPart)
      unfold cut run
      repeat' split
      all_goals simp
      rcases hword with hword | hword | hword <;> simp [hword]
    show (if (cut c cs).2 = [] then (cut c cs).1.kind else none) ≠ _
    split
    · exact hkind
    · simp

/-- What is cut off as a number is digits only. -/
theorem all_isDigit_of_kindOf? {text : List Char} (h : kindOf? text = some .integer) :
    text ≠ [] ∧ ∀ d ∈ text, d.isDigit = true := by
  cases text with
  | nil => simp [kindOf?] at h
  | cons c cs =>
    refine ⟨List.cons_ne_nil c cs, ?_⟩
    rw [kindOf?_eq_some_iff] at h
    have hword := wordKind_cases (c :: cs.takeWhile isWordPart)
    unfold cut run at h
    repeat' split at h
    all_goals simp at h
    · rcases hword with hword | hword | hword <;> simp [hword] at h
    · rename_i hc
      simpa [hc] using h

end Piece

namespace Token

/-- The text of the token alone tells its kind. -/
def Spelt (t : Token) : Prop := Piece.kindOf? t.text.toList = some t.kind

theorem spelt_of_mem_tokens {p : Position} {pieces : List Piece} {t : Token}
    (h : ∀ piece ∈ pieces, ∀ k, piece.kind = some k → Piece.kindOf? piece.text = some k)
    (ht : t ∈ Piece.tokens p pieces) : t.Spelt := by
  fun_induction Piece.tokens p pieces with
  | case1 => simp at ht
  | case2 p text rest ih => exact ih (fun x hx => h x (List.mem_cons_of_mem _ hx)) ht
  | case3 p kind text rest ih =>
    rcases List.mem_cons.1 ht with rfl | ht
    · unfold Spelt
      rw [String.toList_ofList]
      exact h _ List.mem_cons_self kind rfl
    · exact ih (fun x hx => h x (List.mem_cons_of_mem _ hx)) ht

/-- Every token of a text is spelt as its kind says. -/
theorem spelt_of_mem_scan {text : List Char} {file : String} {t : Token} (h : t ∈ scan text file) :
    t.Spelt :=
  spelt_of_mem_tokens (fun _ hp _ => Piece.kindOf?_of_mem_pieces hp) h

theorem Spelt.isEnd {t : Token} (h : t.Spelt) : t.isEnd = false := by
  have hne := Piece.kindOf?_ne_endMark t.text.toList
  rw [h] at hne
  simpa [Token.isEnd] using hne

/-- The tokens of a text are those that are read but for the end mark. -/
theorem filter_read (text file : String) :
    (read text file).filter (fun t => !t.isEnd) = scan text.toList file := by
  have hend : ∀ t ∈ scan text.toList file, (!t.isEnd) = true := by
    intro t ht
    simp [(spelt_of_mem_scan ht).isEnd]
  simp [read, closed, List.filter_append, List.filter_eq_self.2 hend]

/-- A token that stands for a text has the kind of that text. -/
theorem Spelt.kind_of_is {t : Token} {text : String} (h : t.Spelt) (ht : t.is text = true) :
    Piece.kindOf? text.toList = some t.kind := by
  rw [← text_of_is ht]
  exact h

/-- A token stands for no text that is cut into another kind. -/
theorem Spelt.is_eq_false {t : Token} {text : String} (h : t.Spelt)
    (ht : Piece.kindOf? text.toList ≠ some t.kind) : t.is text = false := by
  cases hi : t.is text with
  | false => rfl
  | true => exact absurd (h.kind_of_is hi) ht

/-- The number that a token writes in decimal digits. -/
def number (t : Token) : Nat := Nat.ofDigitChars 10 t.text.toList 0

theorem fitsInt64_ofNat_iff {n : Nat} :
    Text.fitsInt64 (Int.ofNat n) = true ↔ n ≤ 9223372036854775807 := by
  unfold Text.fitsInt64 Text.minInt64 Text.maxInt64
  simp only [Bool.and_eq_true, decide_eq_true_eq, Int.ofNat_eq_natCast]
  omega

theorem Spelt.int64? {t : Token} (h : t.Spelt) (hk : t.kind = .integer) :
    Text.int64? t.text =
      if t.number ≤ 9223372036854775807 then some (Int.ofNat t.number) else none := by
  unfold Spelt at h
  rw [hk] at h
  obtain ⟨hne, hdigits⟩ := Piece.all_isDigit_of_kindOf? h
  have hsigned : Text.signed? t.text.toList = some (Int.ofNat t.number) := by
    unfold number
    generalize t.text.toList = ds at hne hdigits
    have hnatural : Text.natural? ds = some (Nat.ofDigitChars 10 ds 0) := by
      simp only [Text.natural?, List.isEmpty_iff, Bool.or_eq_true, hne, Text.digitsValue_eq]
      simpa using hdigits
    have hsign : ∀ c ∈ ds.head?, c ≠ '+' ∧ c ≠ '-' := by
      intro c hc
      have hd := hdigits c (List.mem_of_head? hc)
      constructor <;> rintro rfl <;> revert hd <;> decide
    unfold Text.signed?
    split
    · exact absurd rfl (hsign '+' rfl).1
    · exact absurd rfl (hsign '-' rfl).2
    · rw [hnatural]
      rfl
  unfold Text.int64?
  rw [hsigned]
  by_cases hle : t.number ≤ 9223372036854775807
  · rw [if_pos hle]
    exact Option.filter_eq_some_iff.2 ⟨rfl, fitsInt64_ofNat_iff.2 hle⟩
  · rw [if_neg hle]
    exact Option.filter_eq_none_iff.2 fun n hn => by
      obtain rfl := Option.some_inj.1 hn
      exact fun h => hle (fitsInt64_ofNat_iff.1 h)

end Token

end ExprLang
