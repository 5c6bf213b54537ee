/-!
Lists of texts joined by a separator.
-/

namespace ExprLang.Text

/-- `xs` in order, with `separator` between neighbours only. -/
def joined (separator : String) : List String → String
  | [] => ""
  | [x] => x
  | x :: y :: xs => x ++ separator ++ joined separator (y :: xs)

end ExprLang.Text
