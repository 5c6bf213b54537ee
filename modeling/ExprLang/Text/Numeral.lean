/-!
Decimal numerals with an optional sign, bounded to the 64-bit signed range.
-/

namespace ExprLang.Text

def minInt64 : Int := -9223372036854775808

def maxInt64 : Int := 9223372036854775807

/-- Does an integer fit into 64 bits with a sign? -/
def fitsInt64 (n : Int) : Bool := minInt64 ≤ n && n ≤ maxInt64

example : minInt64 = Int64.minValue.toInt ∧ maxInt64 = Int64.maxValue.toInt := by decide

/-- The value of a string of decimal digits, most significant first. -/
def digitsValue (ds : List Char) : Nat :=
  ds.foldl (fun n d => 10 * n + (d.toNat - '0'.toNat)) 0

theorem digitsValue_eq (ds : List Char) : digitsValue ds = Nat.ofDigitChars 10 ds 0 := rfl

/-- A non-empty string of ASCII digits. -/
def natural? (ds : List Char) : Option Nat :=
  if ds.isEmpty || !ds.all Char.isDigit then none else some (digitsValue ds)

/-- A numeral is digits behind at most one sign. -/
def signed? : List Char → Option Int
  | '+' :: ds => (natural? ds).map Int.ofNat
  | '-' :: ds => (natural? ds).map fun n => -Int.ofNat n
  | ds => (natural? ds).map Int.ofNat

/-- The integer that a text writes, if the text is a numeral and its value is in range. -/
def int64? (text : String) : Option Int := (signed? text.toList).filter fitsInt64

end ExprLang.Text
