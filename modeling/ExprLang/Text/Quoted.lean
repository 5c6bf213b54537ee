import ExprLang.Text.Printable
import ExprLang.Text.Combining

/-!
Quoted text: a message shows a text between double quotes on one line, so that every character of
it can be told: as itself, behind a backslash, or by its number. Main statement: a character that
is neither special nor invisible is written as itself.
-/

namespace ExprLang.Text

/-- A code point in lower-case hexadecimal digits, between the braces of a numbered escape. -/
def numbered (c : Char) : List Char :=
  ['\\', 'u', '{'] ++ Nat.toDigits 16 c.toNat ++ ['}']

/-- How one character is written inside quotes. -/
def escape (c : Char) : List Char :=
  if c = '"' then ['\\', '"']
  else if c = '\\' then ['\\', '\\']
  else if c = '\n' then ['\\', 'n']
  else if c = '\r' then ['\\', 'r']
  else if c = '\t' then ['\\', 't']
  else if c = '\x00' then ['\\', '0']
  else if isPrintable c && !isCombining c then [c]
  else numbered c

def quote (s : String) : String :=
  String.ofList ('"' :: s.toList.flatMap escape ++ ['"'])

/-- A plain character is written as itself. -/
theorem escape_plain {c : Char} (hp : isPrintable c = true) (hc : isCombining c = false)
    (hq : c ≠ '"') (hb : c ≠ '\\') : escape c = [c] := by
  have h : ∀ d : Char, isPrintable d = false → c ≠ d := fun d hd e => by simp [e, hd] at hp
  simp [escape, hp, hc, hq, hb, h '\n' (by decide +kernel), h '\r' (by decide +kernel),
    h '\t' (by decide +kernel), h '\x00' (by decide +kernel)]

end ExprLang.Text
