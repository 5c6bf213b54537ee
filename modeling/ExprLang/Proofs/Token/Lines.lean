import Mathlib.Data.List.DropRight
import ExprLang.Proofs.Token.LineBreaks
import ExprLang.Proofs.Token.LongestMatch
import ExprLang.Proofs.Token.Order
import ExprLang.Text.Line

/-!
The lines of a text and the places in it. Main statement: the place of a token tells on which line
the token is written, and from which column on.
-/

namespace ExprLang

namespace Text

variable {p : Char → Bool} {a b text rest : List Char} {c : Char} {l : List Char}
  {ls : List (List Char)}

/-- What stands behind the last line feed of a text. -/
def openLine (text : List Char) : List Char := text.rtakeWhile (· != '\n')

theorem openLine_newline (text : List Char) : openLine (text ++ ['\n']) = [] :=
  List.rtakeWhile_concat_neg _ _ _ (by decide)

theorem openLine_concat (hc : c ≠ '\n') : openLine (text ++ [c]) = openLine text ++ [c] :=
  List.rtakeWhile_concat_pos _ _ _ (by simpa using hc)

/-- Behind the lines that a text ends, its open line goes on with the first line of what follows. -/
theorem drop_lines (text : List Char) (h : lines rest = l :: ls) :
    (lines (text ++ rest)).drop (text.count '\n') = (openLine text ++ l) :: ls := by
  induction text using List.reverseRecOn generalizing rest l ls with
  | nil => simpa [openLine] using h
  | append_singleton text c ih =>
    rw [List.append_assoc, List.singleton_append, List.count_append]
    by_cases hc : c = '\n'
    · subst hc
      have hlines : lines ('\n' :: rest) = ['\n'] :: lines rest := by simp [lines]
      rw [List.count_singleton_self, ← List.drop_drop, ih hlines, openLine_newline, h]
      rfl
    · have hlines : lines (c :: rest) = (c :: l) :: ls := by simp [lines, hc, h]
      rw [List.count_singleton, if_neg (by simpa using hc), Nat.add_zero, ih hlines,
        openLine_concat hc, List.append_assoc, List.singleton_append]

/-- A text without a line feed stays on the line on which it starts. -/
theorem exists_lines_append (hne : a ≠ []) (ha : '\n' ∉ a) (rest : List Char) :
    ∃ l ls, lines (a ++ rest) = (a ++ l) :: ls := by
  induction a with
  | nil => exact absurd rfl hne
  | cons c a ih =>
    rw [List.mem_cons, not_or] at ha
    rw [List.cons_append, lines, if_neg (Ne.symm ha.1)]
    by_cases hnil : a = []
    · subst hnil
      cases h : lines rest with
      | nil => exact ⟨[], [], by simp [h]⟩
      | cons l ls => exact ⟨l, ls, by simp [h]⟩
    · obtain ⟨l, ls, h⟩ := ih hnil ha.2
      exact ⟨l, ls, by rw [h]; rfl⟩

/-- Trimming does not reach what ends in a character that stays. -/
theorem prefix_trimRight (ha : ∀ c ∈ a.getLast?, p c = false) (b : List Char) :
    a <+: trimRight p (a ++ b) := by
  induction b using List.reverseRecOn with
  | nil =>
    have hself : trimRight p a = a := by
      refine List.rdropWhile_eq_self_iff.2 fun hne => ?_
      simp [ha _ (List.getLast?_eq_getLast_of_ne_nil hne)]
    simp [hself]
  | append_singleton b c ih =>
    rw [← List.append_assoc]
    by_cases hc : p c = true
    · rwa [trimRight, ← List.rdropWhile, List.rdropWhile_concat_pos _ _ _ hc]
    · rw [trimRight, ← List.rdropWhile, List.rdropWhile_concat_neg _ _ _ hc, List.append_assoc]
      exact List.prefix_append a (b ++ [c])

end Text

namespace Position

variable {a : List Char}

/-- A column counts the characters of the line that is open, and itself. -/
theorem column_after (file : String) (text : List Char) :
    ((origin file).after text).column = (Text.openLine text).length + 1 := by
  induction text using List.reverseRecOn with
  | nil => rfl
  | append_singleton text c ih =>
    rw [after_append, after_cons, after_nil, next]
    by_cases hc : c = '\n'
    · rw [if_pos hc, hc, Text.openLine_newline]
      rfl
    · rw [if_neg hc, Text.openLine_concat hc, ih]
      simp

/-- Without a line feed every character takes a column of the same line. -/
theorem after_of_notMem (ha : '\n' ∉ a) (p : Position) :
    p.after a = ⟨p.line, p.column + a.length, p.file⟩ := by
  induction a generalizing p with
  | nil => rfl
  | cons c a ih =>
    rw [List.mem_cons, not_or] at ha
    rw [after_cons, ih ha.2, next, if_neg (Ne.symm ha.1)]
    simp [Nat.add_assoc, Nat.add_comm 1]

end Position

namespace Text

variable {a : List Char}

/-- A text without blanks stands on the line that its place tells, from the column on that it
tells. What is trimmed off a line stands behind the text. -/
theorem exists_line? (file : String) (before : List Char) (hne : a ≠ [])
    (ha : ∀ c ∈ a, isBlank c = false) (rest : List Char) :
    ∃ line, line? (before ++ (a ++ rest)) ((Position.origin file).after before).line = some line ∧
      openLine before ++ a <+: line := by
  have hfeed : '\n' ∉ a := fun h => by
    have hblank := ha _ h
    revert hblank
    decide
  have hlast : ∀ c ∈ (openLine before ++ a).getLast?, (c == '\n' || c == '\r') = false := by
    intro c hc
    rw [List.getLast?_append_of_ne_nil _ hne] at hc
    have hblank := ha c (List.mem_of_getLast? hc)
    rw [Bool.or_eq_false_iff, beq_eq_false_iff_ne, beq_eq_false_iff_ne]
    constructor <;> rintro rfl <;> revert hblank <;> decide
  obtain ⟨l, ls, hlines⟩ := exists_lines_append hne hfeed rest
  have hdrop := drop_lines before hlines
  have hget : (lines (before ++ (a ++ rest)))[before.count '\n']? =
      some (openLine before ++ a ++ l) := by
    rw [← List.head?_drop, hdrop, List.append_assoc]
    rfl
  refine ⟨_, ?_, prefix_trimRight hlast l⟩
  rw [Position.line_after]
  have hline : (Position.origin file).line + before.count '\n' = before.count '\n' + 1 :=
    Nat.add_comm _ _
  rw [hline, line?, hget]
  rfl

end Text

namespace Piece

variable {p : Position} {ps : List Piece} {t : Token} {text : String} {k : Token.Kind}

/-- No lexeme is empty, and none has a blank in it. -/
theorem HasForm.isBlank_eq_false (h : HasForm text k) :
    text.toList ≠ [] ∧ ∀ c ∈ text.toList, Text.isBlank c = false := by
  have hall : ∀ x ∈ truthWords ++ operatorWords ++ operatorSigns ++ marks,
      x.toList ≠ [] ∧ x.toList.all (!Text.isBlank ·) = true := by decide
  have hfixed : ∀ x ∈ truthWords ++ operatorWords ++ operatorSigns ++ marks,
      x.toList ≠ [] ∧ ∀ c ∈ x.toList, Text.isBlank c = false := fun x hx =>
    ⟨(hall x hx).1, by simpa using (hall x hx).2⟩
  cases k with
  | identifier =>
    obtain ⟨⟨c, cs, htext, hc, hcs⟩, -⟩ := h
    rw [htext]
    refine ⟨List.cons_ne_nil c cs, List.forall_mem_cons.2 ⟨?_, fun d hd => ?_⟩⟩ <;>
      apply isBlank_eq_false_of_isAlphanum
    · exact hc.imp_left fun h => by simp [Char.isAlphanum, h]
    · exact hcs d hd
  | integer =>
    refine ⟨h.1, fun d hd => isBlank_eq_false_of_isAlphanum (.inl ?_)⟩
    simp [Char.isAlphanum, h.2 d hd]
  | boolean => exact hfixed text (by simp [show text ∈ truthWords from h])
  | operator =>
    apply hfixed
    rcases h with h | h <;> simp [h]
  | punctuation => exact hfixed text (by simp [show text ∈ marks from h])
  | endMark => cases h

/-- A token stands where the pieces before it end, as long as it is. -/
theorem exists_of_mem_tokens (h : t ∈ tokens p ps) : ∃ before rest,
    ps.flatMap Piece.text = before ++ (t.text.toList ++ rest) ∧
      t.span = ⟨p.after before, (p.after before).after t.text.toList⟩ := by
  fun_induction tokens p ps with
  | case1 => cases h
  | case2 p text ps ih =>
    obtain ⟨before, rest, hps, hspan⟩ := ih h
    exact ⟨text ++ before, rest, by simp [hps], by rw [hspan, Position.after_append]⟩
  | case3 p kind text ps ih =>
    rcases List.mem_cons.1 h with rfl | h
    · exact ⟨[], ps.flatMap Piece.text, by simp, by simp⟩
    · obtain ⟨before, rest, hps, hspan⟩ := ih h
      exact ⟨text ++ before, rest, by simp [hps], by rw [hspan, Position.after_append]⟩

end Piece

namespace Token

variable {t : Token} {text : List Char} {file : String}

theorem Spelt.isBlank_eq_false (h : t.Spelt) :
    t.text.toList ≠ [] ∧ ∀ c ∈ t.text.toList, Text.isBlank c = false :=
  h.hasForm.isBlank_eq_false

/-- The line of a token: what stands before it on the line fills the columns up to its own. -/
theorem exists_line? (h : t ∈ scan text file) :
    ∃ line before, Text.line? text t.span.start.line = some line ∧
      before ++ t.text.toList <+: line ∧ t.span.start.column = before.length + 1 ∧
      t.span.stop =
        ⟨t.span.start.line, t.span.start.column + t.text.length, t.span.start.file⟩ := by
  obtain ⟨hne, hblank⟩ := (spelt_of_mem_scan h).isBlank_eq_false
  obtain ⟨before, rest, htext, hspan⟩ := Piece.exists_of_mem_tokens h
  rw [Piece.flatMap_text_pieces] at htext
  obtain ⟨line, hline, hprefix⟩ := Text.exists_line? file before hne hblank rest
  rw [htext, hspan]
  refine ⟨line, Text.openLine before, hline, hprefix, Position.column_after file before, ?_⟩
  refine (Position.after_of_notMem (fun hfeed => ?_) _).trans (by rw [String.length_toList])
  have hnewline := hblank _ hfeed
  revert hnewline
  decide

/-- Tokens stand where their spans say. The line of a token is there, and from its column on it
goes on with the text of the token, which ends on that line after as many columns as it has
characters; and every token ends before the later ones start. -/
theorem located_read (text file : String) :
    let ts := (read text file).filter fun t => !t.isEnd
    (∀ t ∈ ts, t.text ≠ "" ∧ 1 ≤ t.span.start.column ∧
      (∃ line, Text.line? text.toList t.span.start.line = some line ∧
        t.text.toList <+: line.drop (t.span.start.column - 1)) ∧
      t.span.stop =
        ⟨t.span.start.line, t.span.start.column + t.text.length, t.span.start.file⟩) ∧
    ts.Pairwise fun t u => t.span.stop ≤ u.span.start := by
  intro ts
  have hts : ts = scan text.toList file := filter_read text file
  rw [hts]
  refine ⟨fun t ht => ?_, (inOrder_scan text.toList file).apart⟩
  have hne := (spelt_of_mem_scan ht).isBlank_eq_false.1
  obtain ⟨line, before, hline, ⟨rest, rfl⟩, hcolumn, hstop⟩ := exists_line? ht
  refine ⟨fun h => hne (by simp [h]), by omega, ⟨_, hline, ?_⟩, hstop⟩
  rw [hcolumn, Nat.add_sub_cancel, List.append_assoc, List.drop_left]
  exact List.prefix_append _ rest

/-- A number on an indented line, with more white space and a line end of two characters behind. -/
theorem located_read_indented :
    let text := "f\r\n  x = 10 \t\r\n"
    ∃ t ∈ (read text "a").filter (fun t => !t.isEnd), t.text = "10" ∧
      t.span.start = ⟨2, 7, "a"⟩ ∧ t.span.stop = ⟨2, 9, "a"⟩ ∧
      ∃ line, Text.line? text.toList 2 = some line ∧ "10".toList <+: line.drop 6 := by
  intro text
  have hmem : ∃ t ∈ (read text "a").filter (fun t => !t.isEnd), t.text = "10" ∧
      t.span.start = ⟨2, 7, "a"⟩ := by decide +kernel
  obtain ⟨t, ht, htext, hstart⟩ := hmem
  obtain ⟨-, -, hline, hstop⟩ := (located_read text "a").1 t ht
  rw [htext, hstart] at hline hstop
  exact ⟨t, ht, htext, hstart, hstop, hline⟩

end Token

end ExprLang
