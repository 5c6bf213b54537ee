import ExprLang.Error
import ExprLang.Text.Line

/-!
The report of an error: its name, its place, and the line of the program with a caret under the
character at fault.

    Error: TypeMatchError (Expected type `Int`, received `Bool`)
    -> a:2:8
      |
    2 | x = true;
      | ----^
-/

namespace ExprLang

namespace Report

/-- The name of the cause, with its tip in brackets. -/
def headline (cause : Cause) : String :=
  match cause.tip with
  | none => "Error: " ++ cause.name
  | some tip => "Error: " ++ cause.name ++ " (" ++ tip ++ ")"

/-- The bar that stands under the bar of line `n`. -/
def gutter (n : Nat) : String :=
  String.ofList (List.replicate ((toString n).length + 1) ' ') ++ "|"

/-- The blanks in front of a line are left out of its quotation. -/
def indent (line : List Char) : Nat := (line.takeWhile (· == ' ')).length

/-- Line `n` as it is quoted: without the blanks in front and the white space behind. -/
def quotation (n : Nat) (line : List Char) : String :=
  toString n ++ " | " ++
    String.ofList (Text.trimRight Text.isBlank (line.dropWhile (· == ' ')))

/-- A caret under the given column of the quoted line, and never left of its first character. -/
def caret (n : Nat) (line : List Char) (column : Nat) : String :=
  gutter n ++ " " ++ String.ofList (List.replicate (column - indent line - 1) '-') ++ "^"

/-- The lines of the report, without their line ends. -/
def lines (e : Error) (source : String) : List String :=
  let n := e.position.line
  [headline e.cause, "-> " ++ e.position.render] ++
    match Text.line? source.toList n with
    | none => []
    | some line => [gutter n, quotation n line, caret n line e.position.column]

end Report

/-- The report of an error in the text `source`. Every line of it is ended by a line feed. -/
def Error.report (e : Error) (source : String) : String :=
  String.join ((Report.lines e source).map (· ++ "\n"))

end ExprLang
