import ExprLang.Token

/-!
A token list while it is read: the tokens ahead, the end mark behind them, and the token read last.
The end mark is current once no other token is left, and reading it again changes nothing ahead.
-/

namespace ExprLang

structure TokenStream where
  /-- The name of the text that the tokens come from. -/
  file : String
  /-- The token read last. -/
  previous : Option Token
  ahead : List Token
  closing : Token
  isEnd_closing : closing.isEnd = true

namespace TokenStream

/-- A list that ends in an end mark is closed by it; any other list is closed by a new one. -/
def ofTokens (tokens : List Token) (file : String) : TokenStream :=
  match tokens.getLast? with
  | none => ⟨file, none, [], .endAfter none, rfl⟩
  | some last =>
    if h : last.isEnd = true then ⟨file, none, tokens.dropLast, last, h⟩
    else ⟨file, none, tokens, .endAfter (some last), rfl⟩

theorem previous_ofTokens (tokens : List Token) (file : String) :
    (ofTokens tokens file).previous = none := by
  unfold ofTokens
  split
  · rfl
  · split <;> rfl

def current (s : TokenStream) : Token := s.ahead.head?.getD s.closing

def advance (s : TokenStream) : TokenStream :=
  { s with previous := some s.current, ahead := s.ahead.tail }

def hasTokens (s : TokenStream) : Bool := !s.current.isEnd

def previousIs (s : TokenStream) (text : String) : Bool := s.previous.any (·.is text)

/-- Behind a closing brace a statement ends by itself, unless the next token ends it. -/
def followsBrace (s : TokenStream) : Bool :=
  s.previousIs Token.closeBrace && !s.current.isOneOf [";", Token.closeBrace]

/-- How many tokens stand before the end mark that closes the list. -/
def remaining (s : TokenStream) : Nat := s.ahead.length

@[simp] theorem remaining_advance (s : TokenStream) : s.advance.remaining = s.remaining - 1 := by
  simp [remaining, advance]

@[simp] theorem closing_advance (s : TokenStream) : s.advance.closing = s.closing := rfl

@[simp] theorem previous_advance (s : TokenStream) : s.advance.previous = some s.current := rfl

theorem current_eq_closing {s : TokenStream} (h : s.remaining = 0) : s.current = s.closing := by
  simp [remaining] at h
  simp [current, h]

/-- A current token that is no end mark is still ahead. -/
theorem remaining_pos {s : TokenStream} (h : s.current.isEnd = false) : 0 < s.remaining := by
  rcases Nat.eq_zero_or_pos s.remaining with h0 | h0
  · rw [current_eq_closing h0, s.isEnd_closing] at h
    exact absurd h (by simp)
  · exact h0

end TokenStream

end ExprLang
