import ExprLang.Error.Report
import ExprLang.Proofs.Token.Lines

/-!
The last lines of a report. Main statement: of an error at a token they quote the line of the token,
and the caret stands under its first character.
-/

namespace ExprLang

namespace Text

variable {a rest line text : List Char} {n : Nat}

/-- A line feed parts the lines of a text. -/
theorem lines_append_newline (a rest : List Char) :
    lines (a ++ '\n' :: rest) = lines (a ++ ['\n']) ++ lines rest := by
  induction a with
  | nil => simp [lines]
  | cons c a ih =>
    rw [List.cons_append, List.cons_append, lines, lines, ih]
    by_cases hc : c = '\n'
    · rw [if_pos hc, if_pos hc, List.cons_append]
    · rw [if_neg hc, if_neg hc]
      cases h : lines (a ++ ['\n']) with
      | nil =>
        have hflat := flatten_lines (a ++ ['\n'])
        simp [h] at hflat
      | cons l ls => rfl

theorem lines_of_notMem (ha : '\n' ∉ a) : lines (a ++ ['\n']) = [a ++ ['\n']] := by
  induction a with
  | nil => rfl
  | cons c a ih =>
    rw [List.mem_cons, not_or] at ha
    rw [List.cons_append, lines, if_neg (Ne.symm ha.1), ih ha.2]

/-- Only at the end of a line there is a line feed. -/
theorem newline_notMem_of_mem_lines {l : List Char} (h : l ∈ lines text) :
    '\n' ∉ l ∨ ∃ a, '\n' ∉ a ∧ l = a ++ ['\n'] := by
  induction text generalizing l with
  | nil => cases h
  | cons c cs ih =>
    rw [lines] at h
    by_cases hc : c = '\n'
    · rw [if_pos hc, List.mem_cons] at h
      rcases h with rfl | h
      · exact .inr ⟨[], by simp, by rw [hc]; rfl⟩
      · exact ih h
    · rw [if_neg hc] at h
      cases hlines : lines cs with
      | nil =>
        rw [hlines, List.mem_singleton] at h
        exact .inl (by rw [h]; simpa using Ne.symm hc)
      | cons first others =>
        rw [hlines] at h ih
        rcases List.mem_cons.1 h with rfl | h
        · rcases ih List.mem_cons_self with hfirst | ⟨a, ha, rfl⟩
          · exact .inl (by simp [Ne.symm hc, hfirst])
          · exact .inr ⟨c :: a, by simp [Ne.symm hc, ha], rfl⟩
        · exact ih (List.mem_cons_of_mem _ h)

theorem newline_notMem_of_line? (h : line? text n = some line) : '\n' ∉ line := by
  match n with
  | 0 => cases h
  | i + 1 =>
    obtain ⟨l, hl, rfl⟩ := Option.map_eq_some_iff.1 h
    rcases newline_notMem_of_mem_lines (List.mem_of_getElem? hl) with hfeed | ⟨a, ha, rfl⟩
    · exact fun hmem => hfeed ((List.rdropWhile_prefix _ _).subset hmem)
    · intro hmem
      rw [trimRight, ← List.rdropWhile, List.rdropWhile_concat_pos _ _ _ (by decide)] at hmem
      exact ha ((List.rdropWhile_prefix _ _).subset hmem)

/-- A character outside `p` ends what a text starts with of `p`. -/
theorem takeWhile_append_cons {p : Char → Bool} {c : Char} (hc : p c = false)
    (a rest : List Char) : (a ++ c :: rest).takeWhile p = a.takeWhile p ∧
      (a ++ c :: rest).dropWhile p = a.dropWhile p ++ c :: rest := by
  induction a with
  | nil => simp [hc]
  | cons d a ih => by_cases hd : p d = true <;> simp [hd, ih.1, ih.2]

end Text

namespace Report

variable {n column : Nat} {line before rest : List Char} {c : Char}

theorem newline_notMem_toString (n : Nat) : '\n' ∉ (toString n).toList := by
  intro h
  rw [show toString n = n.repr from rfl, Nat.toList_repr] at h
  have hdigit := Nat.isDigit_of_mem_toDigits (by decide) (by decide) h
  revert hdigit
  decide

theorem toList_quotation (n : Nat) (line : List Char) :
    (quotation n line).toList = (toString n).toList ++ ' ' :: '|' :: ' ' ::
      Text.trimRight Text.isBlank (line.dropWhile (· == ' ')) := by
  simp [quotation]

theorem toList_caret (n : Nat) (line : List Char) (column : Nat) :
    (caret n line column).toList = List.replicate ((toString n).length + 1) ' ' ++ '|' :: ' ' ::
      (List.replicate (column - indent line - 1) '-' ++ ['^']) := by
  simp [caret, gutter]

theorem bar_of_quotation (n : Nat) (line : List Char) :
    (quotation n line).toList[(toString n).length + 1]? = some '|' := by
  rw [toList_quotation, ← String.length_toList, List.getElem?_append_right (Nat.le_add_right _ 1),
    Nat.add_sub_cancel_left]
  rfl

theorem bar_of_caret (n : Nat) (line : List Char) (column : Nat) :
    (caret n line column).toList[(toString n).length + 1]? = some '|' := by
  rw [toList_caret, List.getElem?_append_right (by rw [List.length_replicate]),
    List.length_replicate, Nat.sub_self]
  rfl

theorem getLast?_caret (n : Nat) (line : List Char) (column : Nat) :
    (caret n line column).toList.getLast? = some '^' := by
  have hcaret : (caret n line column).toList = (List.replicate ((toString n).length + 1) ' ' ++
      '|' :: ' ' :: List.replicate (column - indent line - 1) '-') ++ ['^'] := by
    rw [toList_caret, List.append_assoc]
    rfl
  rw [hcaret, List.getLast?_concat]

/-- What is quoted of a line is a part of it. -/
theorem quoted_part (line : List Char) :
    Text.trimRight Text.isBlank (line.dropWhile (· == ' ')) <:+: line :=
  (List.rdropWhile_prefix _ _).isInfix.trans (List.dropWhile_suffix _).isInfix

/-- The blanks in front of the line are missing in the quotation and in the caret's line alike, so
that the quotation has as much before the character at the column as stands before the caret. -/
theorem exists_quotation_eq (n : Nat) (before rest : List Char) (hc : Text.isBlank c = false) :
    let line := before ++ c :: rest
    ∃ left right, (quotation n line).toList = left ++ c :: right ∧
      (caret n line (before.length + 1)).toList.length = left.length + 1 := by
  intro line
  have hspace : (c == ' ') = false := by
    rw [beq_eq_false_iff_ne]
    rintro rfl
    revert hc
    decide
  obtain ⟨htake, hdrop⟩ := Text.takeWhile_append_cons (p := (· == ' ')) hspace before rest
  have hlength : before.length = indent line + (before.dropWhile (· == ' ')).length := by
    rw [indent, htake, ← List.length_append, List.takeWhile_append_dropWhile]
  have hprefix : before.dropWhile (· == ' ') ++ [c] <+:
      Text.trimRight Text.isBlank (line.dropWhile (· == ' ')) := by
    rw [hdrop, ← List.singleton_append (l := rest), ← List.append_assoc]
    refine Text.prefix_trimRight (fun d hd => ?_) rest
    rw [List.getLast?_concat, Option.mem_some_iff] at hd
    rwa [← hd]
  obtain ⟨right, hright⟩ := hprefix
  refine ⟨(toString n).toList ++ ' ' :: '|' :: ' ' :: before.dropWhile (· == ' '), right, ?_, ?_⟩
  · rw [toList_quotation, ← hright]
    simp
  · rw [toList_caret]
    simp only [List.length_append, List.length_replicate, List.length_cons, List.length_nil,
      String.length_toList]
    omega

/-- Behind the head of a report stand the quotation and the caret. -/
theorem toList_report {e : Error} {source : String}
    (h : Text.line? source.toList e.position.line = some line) :
    (e.report source).toList = (headline e.cause ++ "\n-> " ++ e.position.render ++ "\n" ++
        gutter e.position.line).toList ++ '\n' ::
      ((quotation e.position.line line).toList ++ '\n' ::
        ((caret e.position.line line e.position.column).toList ++ ['\n'])) := by
  simp [Error.report, lines, h]

theorem newline_notMem_quotation (h : '\n' ∉ line) : '\n' ∉ (quotation n line).toList := by
  have hdigits := newline_notMem_toString n
  have hquoted := fun hmem => h ((quoted_part line).subset hmem)
  simp only [toList_quotation, List.mem_append, List.mem_cons, not_or]
  exact ⟨hdigits, by decide, by decide, by decide, hquoted⟩

theorem newline_notMem_caret : '\n' ∉ (caret n line column).toList := by
  rw [toList_caret]
  simp [List.mem_replicate]

/-- The quotation and the caret are lines of the report, and its last ones. -/
theorem lines_report {e : Error} {source : String}
    (h : Text.line? source.toList e.position.line = some line) :
    ∃ above, Text.lines (e.report source).toList =
      above ++ [(quotation e.position.line line).toList ++ ['\n'],
        (caret e.position.line line e.position.column).toList ++ ['\n']] := by
  have hline := Text.newline_notMem_of_line? h
  have hquotation := newline_notMem_quotation (n := e.position.line) hline
  rw [toList_report h, Text.lines_append_newline,
    Text.lines_append_newline (quotation e.position.line line).toList,
    Text.lines_of_notMem hquotation, Text.lines_of_notMem newline_notMem_caret]
  exact ⟨_, rfl⟩

end Report

/-- A report of an error at a token ends in two lines. The first one has the number of the line, a
bar, and of the line all but the white space around it. In the second one a bar stands under the
bar, and a caret, its last character, stands under the first character of the token. -/
theorem Error.caret_of_report (text file : String) (e : Error) (t : Token)
    (ht : t ∈ (Token.read text file).filter fun t => !t.isEnd) (he : e.position = t.span.start) :
    let n := toString e.position.line
    ∃ above quoted caret line body c,
      Text.lines (e.report text).toList = above ++ [quoted ++ ['\n'], caret ++ ['\n']] ∧
      Text.line? text.toList e.position.line = some line ∧ body <:+: line ∧
      quoted = n.toList ++ ' ' :: '|' :: ' ' :: body ∧
      quoted[n.length + 1]? = some '|' ∧ caret[n.length + 1]? = some '|' ∧
      caret.getLast? = some '^' ∧
      t.text.toList.head? = some c ∧ quoted[caret.length - 1]? = some c := by
  intro n
  rw [Token.filter_read] at ht
  obtain ⟨hne, hblank⟩ := (Token.spelt_of_mem_scan ht).isBlank_eq_false
  obtain ⟨line, before, hline, ⟨rest, rfl⟩, hcolumn, -⟩ := Token.exists_line? ht
  obtain ⟨c, cs, hcs⟩ := List.exists_cons_of_ne_nil hne
  rw [← he] at hline hcolumn
  rw [hcs, List.append_assoc, List.cons_append] at hline
  obtain ⟨above, hlines⟩ := Report.lines_report hline
  obtain ⟨left, right, hquotation, hlength⟩ := Report.exists_quotation_eq e.position.line before
    (cs ++ rest) (hblank c (by simp [hcs]))
  rw [hcolumn] at hlines
  refine ⟨above, _, _, _, _, c, hlines, hline, Report.quoted_part _, Report.toList_quotation _ _,
    Report.bar_of_quotation _ _, Report.bar_of_caret _ _ _, Report.getLast?_caret _ _ _,
    by rw [hcs]; rfl, ?_⟩
  rw [hlength, Nat.add_sub_cancel, hquotation]
  simp

/-- Blanks and a tab in front of the token, of which only the blanks are left out. -/
theorem Error.caret_of_report_indented :
    let text := "\n\n\n\n\n\n\n\n\n  \tx = true  \r\n"
    let e : Error := ⟨.notDeclared "x", ⟨10, 4, "a"⟩⟩
    ∃ t ∈ (Token.read text "a").filter (fun t => !t.isEnd), t.text = "x" ∧
      e.position = t.span.start ∧ ∃ above quoted caret,
        Text.lines (e.report text).toList = above ++ [quoted ++ ['\n'], caret ++ ['\n']] ∧
        quoted[3]? = some '|' ∧ caret[3]? = some '|' ∧ caret.getLast? = some '^' ∧
        quoted[caret.length - 1]? = some 'x' := by
  intro text e
  have hmem : ∃ t ∈ (Token.read text "a").filter (fun t => !t.isEnd), t.text = "x" ∧
      e.position = t.span.start := by decide +kernel
  obtain ⟨t, ht, htext, he⟩ := hmem
  obtain ⟨above, quoted, caret, line, body, c, hlines, -, -, -, hquoted, hcaret, hlast, hc,
    hunder⟩ := caret_of_report text "a" e t ht he
  have hbar : (toString e.position.line).length + 1 = 3 := by decide
  rw [hbar] at hquoted hcaret
  obtain rfl : 'x' = c := by simpa [htext] using hc
  exact ⟨t, ht, htext, he, above, quoted, caret, hlines, hquoted, hcaret, hlast, hunder⟩

end ExprLang
