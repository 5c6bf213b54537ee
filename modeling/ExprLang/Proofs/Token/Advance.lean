import Mathlib.Algebra.GroupWithZero.Nat
import Mathlib.Data.List.Infix
import Mathlib.Data.String.Basic
import ExprLang.Proofs.Token.Lines
import ExprLang.Token.Cursor

/-!
Moving a cursor in many steps. A step may end between two characters, or behind the text; then it
stops at the end. Main statement: after any such steps the cursor stands where one step by their sum
brings it, and that place is told by the text that is passed.
-/

namespace ExprLang

namespace Text

variable {bytes : Nat}

/-- Byte number `bytes` of a text is the first of a character, or lies behind the text. -/
def IsBoundary (text : String) (bytes : Nat) : Prop :=
  String.Pos.Raw.IsValid text ⟨bytes⟩ ∨ text.utf8ByteSize ≤ bytes

instance (text : String) (bytes : Nat) : Decidable (IsBoundary text bytes) :=
  inferInstanceAs (Decidable (_ ∨ _))

/-- `before` is what a step by `bytes` passes when `behind` stands behind it. -/
def IsPassed (bytes : Nat) (before behind : List Char) : Prop :=
  String.utf8Len before = bytes ∨ behind = [] ∧ String.utf8Len before ≤ bytes

theorem utf8Len_toList (text : String) : String.utf8Len text.toList = text.utf8ByteSize := by
  rw [← String.utf8ByteSize_ofList, String.ofList_toList]

/-- A text is divided at each of its boundaries. -/
theorem IsBoundary.exists_isPassed {text : String} (h : IsBoundary text bytes) :
    ∃ before behind, text.toList = before ++ behind ∧ IsPassed bytes before behind := by
  rcases h with hvalid | hend
  · obtain ⟨before, behind, htext, hbytes⟩ := String.Pos.Raw.isValid_iff_exists_append.1 hvalid
    refine ⟨before.toList, behind.toList, by rw [htext, String.toList_append], .inl ?_⟩
    rw [utf8Len_toList]
    exact (congrArg String.Pos.Raw.byteIdx hbytes).symm
  · refine ⟨text.toList, [], (List.append_nil _).symm, .inr ⟨rfl, ?_⟩⟩
    rwa [utf8Len_toList]

/-- Whole characters end at a boundary. -/
theorem isBoundary_utf8Len {text : String} {before behind : List Char}
    (h : text.toList = before ++ behind) : IsBoundary text (String.utf8Len before) := by
  refine .inl (String.Pos.Raw.isValid_iff_exists_append.2
    ⟨String.ofList before, String.ofList behind, ?_, ?_⟩)
  · rw [← String.ofList_append, ← h, String.ofList_toList]
  · rw [String.rawEndPos, String.utf8ByteSize_ofList]

/-- What is passed is as long as the step, unless the text is shorter. -/
theorem IsPassed.utf8Len_eq {before behind : List Char} (h : IsPassed bytes before behind) :
    String.utf8Len before = min bytes (String.utf8Len (before ++ behind)) := by
  rw [String.utf8Len_append]
  rcases h with h | ⟨rfl, h⟩
  · omega
  · rw [String.utf8Len_nil]
    omega

end Text

namespace Position

/-- The place behind a text is told by its line feeds and by what stands behind the last one. -/
theorem origin_after (file : String) (text : List Char) :
    (origin file).after text = ⟨1 + text.count '\n', 1 + (Text.openLine text).length, file⟩ := by
  have hline := line_after (origin file) text
  have hcolumn := column_after file text
  have hfile := after_file (origin file) text
  cases h : (origin file).after text with
  | mk line column name =>
    rw [h] at hline hcolumn hfile
    rw [mk.injEq]
    exact ⟨hline, hcolumn.trans (Nat.add_comm _ 1), hfile⟩

end Position

namespace Cursor

open Text

variable {before behind text : List Char} {c : Cursor} {m n : Nat}

/-- Whole characters in front of a text are passed one by one. -/
theorem splitAtByte_utf8Len_add (before behind : List Char) (n : Nat) :
    splitAtByte (String.utf8Len before + n) (before ++ behind) =
      (before ++ (splitAtByte n behind).1, (splitAtByte n behind).2) := by
  induction before with
  | nil => simp
  | cons x before ih =>
    have hpos := x.utf8Size_pos
    have hsub : String.utf8Len (x :: before) + n - x.utf8Size = String.utf8Len before + n := by
      rw [String.utf8Len_cons]
      omega
    rw [List.cons_append, splitAtByte, hsub, ih, if_neg]
    · rfl
    · rw [String.utf8Len_cons]
      omega

/-- A step that goes behind the text passes all of it. -/
theorem splitAtByte_of_utf8Len_le (h : String.utf8Len text ≤ n) :
    splitAtByte n text = (text, []) := by
  have hsplit := splitAtByte_utf8Len_add text [] (n - String.utf8Len text)
  rwa [Nat.add_sub_cancel' h, List.append_nil, splitAtByte, List.append_nil] at hsplit

theorem advance_eq (c : Cursor) (n : Nat) :
    c.advance n = ⟨c.position.after (splitAtByte n c.rest).1, (splitAtByte n c.rest).2⟩ :=
  rfl

/-- One step: the cursor moves over what the step passes, character by character. -/
theorem advance_of_isPassed (hrest : c.rest = before ++ behind) (h : IsPassed n before behind) :
    c.advance n = ⟨c.position.after before, behind⟩ := by
  rw [advance_eq, hrest]
  rcases h with rfl | ⟨rfl, h⟩
  · have hsplit : splitAtByte 0 behind = ([], behind) := by cases behind <;> rfl
    have h := splitAtByte_utf8Len_add before behind 0
    rw [Nat.add_zero, hsplit, List.append_nil] at h
    rw [h]
  · rw [List.append_nil, splitAtByte_of_utf8Len_le h]

/-- Two steps are one by their sum, if the first one ends at a boundary. -/
theorem advance_advance (hrest : c.rest = before ++ behind) (h : IsPassed m before behind)
    (n : Nat) : (c.advance m).advance n = c.advance (m + n) := by
  rw [advance_of_isPassed hrest h]
  rcases h with rfl | ⟨rfl, h⟩
  · rw [advance_eq, advance_eq c, hrest, splitAtByte_utf8Len_add, Position.after_append]
  · rw [advance_of_isPassed hrest (.inr ⟨rfl, by omega⟩)]
    rfl

/-- Any number of steps, each of which ends at a boundary, are one by their sum. -/
theorem foldl_advance {text : String} {steps : List Nat} (hrest : c.rest = text.toList)
    (h : ∀ taken, taken <+: steps → IsBoundary text taken.sum) :
    steps.foldl advance c = c.advance steps.sum := by
  induction steps using List.reverseRecOn with
  | nil => exact c.advance_zero.symm
  | append_singleton steps n ih =>
    have hsteps : steps <+: steps ++ [n] := List.prefix_append steps [n]
    obtain ⟨before, behind, htext, hpassed⟩ := (h steps hsteps).exists_isPassed
    rw [List.foldl_concat, ih fun taken htaken => h taken (htaken.trans hsteps),
      advance_advance (hrest.trans htext) hpassed, List.sum_append, List.sum_singleton]

/-- Where a cursor stands is told by the text that it has passed. That text is as long as all steps
together, at most the whole text, and what remains is the rest. Its line feeds give the line, and
what stands behind the last of them gives the column. -/
theorem located_foldl_advance (text file : String) (steps : List Nat)
    (h : ∀ taken, taken <+: steps → IsBoundary text taken.sum) :
    let c := steps.foldl advance (start text file)
    c = (start text file).advance steps.sum ∧
      ∃ before, text.toList = before ++ c.rest ∧
        String.utf8Len before = min steps.sum text.utf8ByteSize ∧
        (∀ x, c.next? = some x ↔ ∃ behind, text.toList = before ++ x :: behind) ∧
        (c.atEnd = true ↔ text.utf8ByteSize ≤ steps.sum) ∧
        c.position = ⟨1 + before.count '\n', 1 + (openLine before).length, file⟩ ∧
        c.position.line + c.position.column ≤ text.length + 2 := by
  intro c
  have hsum : c = (start text file).advance steps.sum := foldl_advance rfl h
  obtain ⟨before, behind, htext, hpassed⟩ := (h steps (List.prefix_refl steps)).exists_isPassed
  have hc : c = ⟨(Position.origin file).after before, behind⟩ :=
    hsum.trans (advance_of_isPassed htext hpassed)
  have hsize : text.utf8ByteSize = String.utf8Len (before ++ behind) := by
    rw [← htext, utf8Len_toList]
  have hbytes : String.utf8Len before = min steps.sum text.utf8ByteSize := by
    rw [hpassed.utf8Len_eq, hsize]
  have hposition : c.position = ⟨1 + before.count '\n', 1 + (openLine before).length, file⟩ := by
    rw [hc, Position.origin_after]
  refine ⟨hsum, before, by rw [hc, htext], hbytes, fun x => ?_, ?_, hposition, ?_⟩
  · rw [hc, htext, next?, List.head?_eq_some_iff]
    simp only [List.append_cancel_left_eq]
  · have hbehind : behind = [] ↔ String.utf8Len behind = 0 := String.utf8Len_eq_zero.symm
    rw [String.utf8Len_append] at hsize
    rw [hc, atEnd, List.isEmpty_iff, hbehind]
    omega
  · obtain ⟨-, -, hplace⟩ := (Position.origin file).bounds_after before (Nat.le_refl 1)
    have hlength : text.length = before.length + behind.length := by
      rw [← String.length_toList, htext, List.length_append]
    rw [hc]
    exact hplace.trans (by simp only [Position.origin]; omega)

/-- Past a line feed and a character of two bytes, in steps that go on behind the end. -/
theorem located_foldl_advance_accented :
    let text := "a\néb"
    let c := [2, 2, 0, 9, 1].foldl advance (start text "f")
    (∀ taken, taken <+: [2, 2, 0, 9, 1] → IsBoundary text taken.sum) ∧
      c = (start text "f").advance 14 ∧ c.position = ⟨2, 3, "f"⟩ ∧ text.utf8ByteSize = 5 := by
  intro text c
  have hsteps : ∀ taken ∈ [2, 2, 0, 9, 1].inits, IsBoundary text taken.sum := by decide
  have h : ∀ taken, taken <+: [2, 2, 0, 9, 1] → IsBoundary text taken.sum := fun taken htaken =>
    hsteps taken ((List.mem_inits _ _).2 htaken)
  exact ⟨h, (located_foldl_advance text "f" [2, 2, 0, 9, 1] h).1, by decide, by decide⟩

end Cursor

namespace Token

/-- A token starts where a cursor stands that moves up to its text, and stops where the cursor goes
by as many bytes as that text has. -/
theorem exists_advance_of_mem_scan {text file : String} {t : Token}
    (h : t ∈ scan text.toList file) : ∃ bytes, Text.IsBoundary text bytes ∧
      let c := (Cursor.start text file).advance bytes
      t.text.toList <+: c.rest ∧
        t.span = ⟨c.position, (c.advance t.text.utf8ByteSize).position⟩ := by
  obtain ⟨before, rest, htext, hspan⟩ := Piece.exists_of_mem_tokens h
  rw [Piece.flatMap_text_pieces] at htext
  refine ⟨String.utf8Len before, Text.isBoundary_utf8Len htext, ?_⟩
  intro c
  have hc : c = ⟨(Position.origin file).after before, t.text.toList ++ rest⟩ :=
    Cursor.advance_of_isPassed htext (.inl rfl)
  rw [hc, Cursor.advance_of_isPassed rfl (.inl (Text.utf8Len_toList t.text))]
  exact ⟨List.prefix_append _ rest, hspan⟩

end Token

end ExprLang
