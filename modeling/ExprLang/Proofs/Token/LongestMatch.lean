import ExprLang.Proofs.Token.Spelling

/-!
How a text is cut. Main statement: every text is gaps and tokens in turn, where a gap is layout and
noise only, and a token goes on for as long as it can.
-/

namespace ExprLang

namespace Piece

/-- A letter or an underscore, then any of these and digits. -/
def IsWord (text : List Char) : Prop :=
  ∃ c cs, text = c :: cs ∧ (c.isAlpha = true ∨ c = '_') ∧ ∀ d ∈ cs, d.isAlphanum = true ∨ d = '_'

def IsNumber (text : List Char) : Prop := text ≠ [] ∧ ∀ d ∈ text, d.isDigit = true

/-- Words that are no identifiers. -/
def truthWords : List String := ["true", "false"]

def operatorWords : List String := ["and", "or", "not"]

/-- The operators that are spelt with signs. -/
def operatorSigns : List String :=
  ["==", "!=", "<=", ">=", "=>", "-", "+", "*", "/", "%", "=", "<", ">"]

def marks : List String := ["(", ")", Token.openBrace, Token.closeBrace, ",", ";", ":"]

/-- Which texts a kind has. -/
def HasForm (text : String) : Token.Kind → Prop
  | .identifier => IsWord text.toList ∧ text ∉ truthWords ∧ text ∉ operatorWords
  | .integer => IsNumber text.toList
  | .boolean => text ∈ truthWords
  | .operator => text ∈ operatorWords ∨ text ∈ operatorSigns
  | .punctuation => text ∈ marks
  | .endMark => False

/-- Does a lexeme, or a comment, go on from `text` with the character `c`? -/
def GoesOn (text : List Char) (c : Char) : Prop :=
  (IsWord text ∧ (c.isAlphanum = true ∨ c = '_')) ∨ (IsNumber text ∧ c.isDigit = true) ∨
    (text = ['='] ∧ (c = '=' ∨ c = '>')) ∨ ((text = ['<'] ∨ text = ['>']) ∧ c = '=') ∨
    (text = ['/'] ∧ c = '/')

/-- Characters that mean something by themselves, beside letters, digits and the underscore. -/
def signs : List Char :=
  ['+', '-', '*', '/', '%', '=', '<', '>', '(', ')', '{', '}', ',', ';', ':', '#']

/-- Is `c`, before `rest`, a character of no lexeme and no gap but this one? -/
def Unrecognised (c : Char) (rest : List Char) : Prop :=
  if c = '!' then rest.head? ≠ some '='
  else Text.isBlank c = false ∧ c.isAlphanum = false ∧ c ≠ '_' ∧ c ∉ signs

/-- `Gap g rest`: before `rest`, the characters `g` are blanks, comments up to the end of their
line, and characters that are not recognised. -/
inductive Gap : List Char → List Char → Prop where
  | nil {rest} : Gap [] rest
  | blank {c g rest} : Text.isBlank c = true → Gap g rest → Gap (c :: g) rest
  | comment {opening body g rest} : opening = ['#'] ∨ opening = ['/', '/'] → '\n' ∉ body →
      (∀ c ∈ (g ++ rest).head?, c = '\n') → Gap g rest → Gap (opening ++ body ++ g) rest
  | noise {c g rest} : Unrecognised c (g ++ rest) → Gap g rest → Gap (c :: g) rest

/-- `Woven ts text`: the text is the tokens `ts` in order, with gaps before, between and behind
them, and each of them is as long as it can be. -/
inductive Woven : List Token → List Char → Prop where
  | last {g} : Gap g [] → Woven [] g
  | next {g t ts rest} : Gap g (t.text.toList ++ rest) → HasForm t.text t.kind →
      (∀ c ∈ rest.head?, ¬GoesOn t.text.toList c) → Woven ts rest →
      Woven (t :: ts) (g ++ (t.text.toList ++ rest))

theorem Gap.append {g h rest : List Char} (hg : Gap g (h ++ rest)) (hh : Gap h rest) :
    Gap (g ++ h) rest := by
  generalize hr : h ++ rest = r at hg
  induction hg with
  | nil => exact hh
  | blank hc _ ih => exact .blank hc (ih hr)
  | comment ho hb hend _ ih =>
    subst hr
    rw [List.append_assoc]
    exact .comment ho hb (by rwa [List.append_assoc]) (ih rfl)
  | @noise c g _ hc _ ih =>
    subst hr
    rw [← List.append_assoc] at hc
    exact .noise hc (ih rfl)

theorem gap_of_isBlank {g rest : List Char} (h : ∀ c ∈ g, Text.isBlank c = true) : Gap g rest := by
  induction g with
  | nil => exact .nil
  | cons c g ih =>
    obtain ⟨hc, hg⟩ := List.forall_mem_cons.1 h
    exact .blank hc (ih hg)

/-- A gap in front of a text belongs to its first gap. -/
theorem Woven.gap_append {g text : List Char} {ts : List Token} (hg : Gap g text)
    (h : Woven ts text) : Woven ts (g ++ text) := by
  cases h with
  | last hlast => exact .last (Gap.append (by rwa [List.append_nil]) hlast)
  | next hgap hform hstop hrest =>
    rw [← List.append_assoc]
    exact .next (hg.append hgap) hform hstop hrest

variable {c : Char} {cs : List Char}

theorem hasForm_wordKind {word : List Char} (h : IsWord word) :
    HasForm (String.ofList word) (wordKind word) := by
  unfold wordKind
  split
  · rename_i hword
    rcases hword with rfl | rfl <;> simp [HasForm, truthWords, String.ext_iff]
  split
  · rename_i hword
    rcases hword with rfl | rfl | rfl <;> simp [HasForm, operatorWords, String.ext_iff]
  rename_i htruth hoperator
  refine ⟨by rwa [String.toList_ofList], fun hmem => htruth ?_, fun hmem => hoperator ?_⟩
  · simpa [truthWords, String.ext_iff] using hmem
  · simpa [operatorWords, String.ext_iff] using hmem

/-- What is cut off a text is a gap, or a lexeme that nothing goes on with. -/
def IsCut (x : Piece × List Char) : Prop :=
  match x.1.kind with
  | none => Gap x.1.text x.2
  | some k => HasForm (String.ofList x.1.text) k ∧ ∀ d ∈ x.2.head?, ¬GoesOn x.1.text d

theorem isCut_blanks (hc : Text.isBlank c = true) :
    IsCut (run (fun _ => none) Text.isBlank c cs) := by
  apply gap_of_isBlank
  intro d hd
  rcases List.mem_cons.1 hd with rfl | hd
  · exact hc
  · exact List.mem_takeWhile_imp hd

theorem isCut_comment (hc : opensComment c cs = true) :
    IsCut (run (fun _ => none) (· != '\n') c cs) := by
  have hline (ds : List Char) : '\n' ∉ ds.takeWhile (· != '\n') := fun h => by
    simpa using List.mem_takeWhile_imp h
  have hend (ds : List Char) : ∀ d ∈ (ds.dropWhile (· != '\n')).head?, d = '\n' := by
    intro d hd
    have := List.head?_dropWhile_not (· != '\n') ds
    rw [hd] at this
    simpa using this
  simp only [opensComment, Bool.or_eq_true, Bool.and_eq_true, beq_iff_eq] at hc
  rcases hc with rfl | ⟨rfl, hslash⟩
  · have h := Gap.comment (.inl rfl) (hline cs) (hend cs) .nil
    rwa [List.append_nil] at h
  · obtain ⟨ds, rfl⟩ : ∃ ds, cs = '/' :: ds := by
      cases cs with
      | nil => cases hslash
      | cons d ds => exact ⟨ds, by rw [Option.some_inj.1 hslash]⟩
    have h := Gap.comment (.inr rfl) (hline ds) (hend ds) .nil
    rwa [List.append_nil] at h

/-- Behind a run stands nothing that belongs to it. -/
theorem head?_dropWhile {p : Char → Bool} {d : Char} (hd : d ∈ (cs.dropWhile p).head?) :
    p d = false := by
  have := List.head?_dropWhile_not p cs
  rw [hd] at this
  simpa using this

/-- The first character of a text tells which characters it can go on with. -/
theorem not_goesOn {d : Char} {ds : List Char} (hword : isWordStart c = true → isWordPart d = false)
    (hnumber : c.isDigit = true → d.isDigit = false)
    (hpair : ds = [] → isOperatorPair c d = false) (hslash : ds = [] → ¬(c = '/' ∧ d = '/')) :
    ¬GoesOn (c :: ds) d := by
  rintro (⟨⟨x, xs, h, hx, -⟩, hd⟩ | ⟨⟨-, h⟩, hd⟩ | ⟨h, hd⟩ | ⟨h, rfl⟩ | ⟨h, rfl⟩)
  · obtain ⟨rfl, -⟩ := List.cons.inj h
    exact absurd (isWordPart_iff.2 hd) (Bool.eq_false_iff.1 (hword (isWordStart_iff.2 hx)))
  · rw [hnumber (h c List.mem_cons_self)] at hd
    cases hd
  · obtain ⟨rfl, rfl⟩ := List.cons.inj h
    have := hpair rfl
    rcases hd with rfl | rfl <;> revert this <;> decide
  · rcases h with h | h <;>
    · obtain ⟨rfl, rfl⟩ := List.cons.inj h
      have := hpair rfl
      revert this
      decide
  · obtain ⟨rfl, rfl⟩ := List.cons.inj h
    exact hslash rfl ⟨rfl, rfl⟩

theorem isCut_word (hc : isWordStart c = true) :
    IsCut (run (fun word => some (wordKind word)) isWordPart c cs) := by
  have hword : IsWord (c :: cs.takeWhile isWordPart) :=
    ⟨c, _, rfl, isWordStart_iff.1 hc, fun d hd => isWordPart_iff.1 (List.mem_takeWhile_imp hd)⟩
  refine ⟨hasForm_wordKind hword, fun d hd => not_goesOn (fun _ => head?_dropWhile hd) ?_ ?_ ?_⟩
  · intro _
    have hpart := head?_dropWhile hd
    simp only [isWordPart, Char.isAlphanum, Bool.or_eq_false_iff] at hpart
    exact hpart.1.2
  · intro _
    have hne : c ≠ '=' ∧ c ≠ '!' ∧ c ≠ '<' ∧ c ≠ '>' := by
      refine ⟨?_, ?_, ?_, ?_⟩ <;> rintro rfl <;> revert hc <;> decide
    simp [isOperatorPair, hne]
  · rintro - ⟨rfl, -⟩
    revert hc
    decide

theorem isCut_number (hword : isWordStart c = false) (hc : c.isDigit = true) :
    IsCut (run (fun _ => some .integer) Char.isDigit c cs) := by
  have hnumber : IsNumber (c :: cs.takeWhile Char.isDigit) := by
    refine ⟨List.cons_ne_nil _ _, List.forall_mem_cons.2 ⟨hc, fun d hd => ?_⟩⟩
    exact List.mem_takeWhile_imp hd
  have hne : c ≠ '=' ∧ c ≠ '!' ∧ c ≠ '<' ∧ c ≠ '>' ∧ c ≠ '/' := by
    refine ⟨?_, ?_, ?_, ?_, ?_⟩ <;> rintro rfl <;> revert hc <;> decide
  refine ⟨by rwa [HasForm, String.toList_ofList], fun d hd =>
    not_goesOn (by simp [hword]) (fun _ => head?_dropWhile hd) ?_ ?_⟩
  · simp [isOperatorPair, hne]
  · simp [hne]

theorem isCut_pair (hword : isWordStart c = false) (hdigit : c.isDigit = false)
    (hpair : cs.head?.any (isOperatorPair c) = true) :
    IsCut (⟨some .operator, c :: cs.take 1⟩, cs.drop 1) := by
  cases cs with
  | nil => cases hpair
  | cons d ds =>
    refine ⟨.inr ?_, fun e _ => not_goesOn (by simp [hword]) (by simp [hdigit]) (by simp) (by simp)⟩
    simp only [List.head?_cons, Option.any_some, isOperatorPair, Bool.or_eq_true, Bool.and_eq_true,
      beq_iff_eq, List.contains_iff_mem, List.mem_cons, List.not_mem_nil, or_false] at hpair
    rcases hpair with ⟨rfl, rfl | rfl | rfl | rfl⟩ | ⟨rfl, rfl⟩ <;>
      simp [operatorSigns, String.ext_iff]

/-- A sign that starts no pair and no comment stands alone. -/
theorem isCut_sign {k : Token.Kind} (hword : isWordStart c = false) (hdigit : c.isDigit = false)
    (hpair : ¬cs.head?.any (isOperatorPair c) = true) (hcomment : ¬opensComment c cs = true)
    (hform : HasForm (String.ofList [c]) k) : IsCut (⟨some k, [c]⟩, cs) := by
  refine ⟨hform, fun d hd => not_goesOn (by simp [hword]) (by simp [hdigit]) (fun _ => ?_) ?_⟩
  · simpa [Option.mem_def.1 hd] using hpair
  · rintro - ⟨rfl, rfl⟩
    exact hcomment (by simp [opensComment, Option.mem_def.1 hd])

theorem isCut_noise (hblank : Text.isBlank c = false) (hcomment : ¬opensComment c cs = true)
    (hword : isWordStart c = false) (hdigit : c.isDigit = false)
    (hpair : ¬cs.head?.any (isOperatorPair c) = true) (hoperator : ¬isOperatorChar c = true)
    (hmark : ¬isMark c = true) : IsCut (⟨none, [c]⟩, cs) := by
  refine Gap.noise ?_ .nil
  unfold Unrecognised
  rw [List.nil_append]
  split
  · rename_i hbang
    intro hd
    rw [hbang, hd] at hpair
    exact hpair (by decide)
  · simp only [isWordStart, Bool.or_eq_false_iff, beq_eq_false_iff_ne] at hword
    simp only [opensComment, Bool.or_eq_true, beq_iff_eq, not_or] at hcomment
    simp only [isOperatorChar, isMark, List.contains_iff_mem, List.mem_cons, List.not_mem_nil,
      or_false] at hoperator hmark
    refine ⟨hblank, by simp [Char.isAlphanum, hword.1, hdigit], hword.2, ?_⟩
    simp only [signs, List.mem_cons, List.not_mem_nil, or_false]
    grind

theorem isCut_cut (c : Char) (cs : List Char) : IsCut (cut c cs) := by
  -- The cases are those of `cut`, of which each knows that the ones before it failed.
  unfold cut
  by_cases hblank : Text.isBlank c = true
  · rw [if_pos hblank]
    exact isCut_blanks hblank
  rw [if_neg hblank]
  by_cases hcomment : opensComment c cs = true
  · rw [if_pos hcomment]
    exact isCut_comment hcomment
  rw [if_neg hcomment]
  by_cases hword : isWordStart c = true
  · rw [if_pos hword]
    exact isCut_word hword
  rw [if_neg hword]
  rw [Bool.not_eq_true] at hblank hword
  by_cases hdigit : c.isDigit = true
  · rw [if_pos hdigit]
    exact isCut_number hword hdigit
  rw [if_neg hdigit]
  rw [Bool.not_eq_true] at hdigit
  by_cases hpair : cs.head?.any (isOperatorPair c) = true
  · rw [if_pos hpair]
    exact isCut_pair hword hdigit hpair
  rw [if_neg hpair]
  by_cases hoperator : isOperatorChar c = true
  · rw [if_pos hoperator]
    refine isCut_sign hword hdigit hpair hcomment (.inr ?_)
    simp only [isOperatorChar, List.contains_iff_mem, List.mem_cons, List.not_mem_nil,
      or_false] at hoperator
    rcases hoperator with rfl | rfl | rfl | rfl | rfl | rfl | rfl | rfl <;>
      simp [operatorSigns, String.ext_iff]
  rw [if_neg hoperator]
  by_cases hmark : isMark c = true
  · rw [if_pos hmark]
    refine isCut_sign hword hdigit hpair hcomment ?_
    simp only [isMark, List.contains_iff_mem, List.mem_cons, List.not_mem_nil, or_false] at hmark
    rcases hmark with rfl | rfl | rfl | rfl | rfl | rfl | rfl <;>
      simp [HasForm, marks, Token.openBrace, Token.closeBrace, String.ext_iff]
  rw [if_neg hmark]
  exact isCut_noise hblank hcomment hword hdigit hpair hoperator hmark

/-- The text of a lexeme has the form of its kind. -/
theorem hasForm_of_kindOf? {text : List Char} {k : Token.Kind} (h : kindOf? text = some k) :
    HasForm (String.ofList text) k := by
  cases text with
  | nil => cases h
  | cons c cs =>
    have hcut := isCut_cut c cs
    rw [kindOf?_eq_some_iff.1 h] at hcut
    exact hcut.1

/-- The tokens of a text, at whatever place it starts, are woven into it. -/
theorem woven_tokens_pieces (p : Position) (text : List Char) :
    Woven (tokens p (pieces text)) text := by
  fun_induction pieces text generalizing p with
  | case1 => exact .last .nil
  | case2 c cs ih =>
    have hcut := isCut_cut c cs
    have happend := cut_append c cs
    generalize cut c cs = x at *
    obtain ⟨⟨kind, text⟩, rest⟩ := x
    rw [← happend]
    cases kind with
    | none => exact (ih _).gap_append hcut
    | some k =>
      have htext : (String.ofList text).toList = text := String.toList_ofList
      have h := Woven.next (t := ⟨k, String.ofList text, ⟨p, p.after text⟩⟩) (g := []) .nil hcut.1
        (by rw [htext]; exact hcut.2) (ih (p.after text))
      rwa [List.nil_append, htext] at h

theorem text_ne_nil_of_mem_pieces {text : List Char} {piece : Piece} (h : piece ∈ pieces text) :
    piece.text ≠ [] := by
  fun_induction pieces text with
  | case1 => cases h
  | case2 c cs ih =>
    rcases List.mem_cons.1 h with rfl | h
    · obtain ⟨ds, hds⟩ := exists_text_cut c cs
      rw [hds]
      exact List.cons_ne_nil c ds
    · exact ih h

end Piece

namespace Token

theorem Spelt.hasForm {t : Token} (h : t.Spelt) : Piece.HasForm t.text t.kind := by
  rw [← String.ofList_toList (s := t.text)]
  exact Piece.hasForm_of_kindOf? h

/-- A text is its tokens in order and the gaps between them, each token as long as it can be. Every
step of the cutting takes a character, and one end mark closes the list, at the place of the last
token or, if there is none, nowhere. -/
theorem woven_read (text file : String) :
    let ts := (read text file).filter fun t => !t.isEnd
    Piece.Woven ts text.toList ∧ (∀ piece ∈ Piece.pieces text.toList, piece.text ≠ []) ∧
      ∃ place, read text file = ts ++ [⟨.endMark, "", ⟨place, place⟩⟩] ∧
        (ts = [] → place = .null) ∧ ∀ t ∈ ts.getLast?, place = t.span.start := by
  intro ts
  have hts : ts = scan text.toList file := filter_read text file
  rw [hts]
  exact ⟨Piece.woven_tokens_pieces _ _, fun piece => Piece.text_ne_nil_of_mem_pieces,
    exists_closed_eq _⟩

end Token

end ExprLang
