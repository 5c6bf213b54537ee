import ExprLang.Proofs.Printing.Lexemes

/-!
Nested lists of words, in round brackets or in braces. Main statement: lists that are the same word
by word, brackets included, are the same.
-/

namespace ExprLang

/-- A word, or listings in brackets of one kind. -/
inductive Listing where
  | word (text : String)
  | round (parts : List Listing)
  | braced (parts : List Listing)

namespace Listing

mutual

/-- Word by word from the front, where brackets are words too. -/
def words : Listing → List String
  | word x => [x]
  | round parts => "(" :: (wordsAll parts ++ [")"])
  | braced parts => Token.openBrace :: (wordsAll parts ++ [Token.closeBrace])

def wordsAll : List Listing → List String
  | [] => []
  | x :: xs => words x ++ wordsAll xs

end

def brackets : List String := ["(", ")", Token.openBrace, Token.closeBrace]

mutual

/-- Does no word look like a bracket? -/
def plain : Listing → Bool
  | word x => !brackets.contains x
  | round parts => plainAll parts
  | braced parts => plainAll parts

def plainAll : List Listing → Bool
  | [] => true
  | x :: xs => plain x && plainAll xs

end

/-- Ends the innermost of the open lists as a part of the next one. -/
def enclose (f : List Listing → Listing) : List (List Listing) → List (List Listing)
  | inner :: outer :: rest => (f inner :: outer) :: rest
  | lists => lists

/-- Words are read from behind. What has been read are the lists that are still open, innermost
first, and `x` is the word in front of them. -/
def gather (x : String) (lists : List (List Listing)) : List (List Listing) :=
  if x = "(" then enclose round lists
  else if x = Token.openBrace then enclose braced lists
  else if x = ")" ∨ x = Token.closeBrace then [] :: lists
  else match lists with
    | inner :: rest => (word x :: inner) :: rest
    | [] => []

theorem gather_open (inner outer : List Listing) (rest : List (List Listing)) :
    gather "(" (inner :: outer :: rest) = (round inner :: outer) :: rest ∧
      gather Token.openBrace (inner :: outer :: rest) = (braced inner :: outer) :: rest := by
  constructor <;> rfl

theorem gather_close (lists : List (List Listing)) :
    gather ")" lists = [] :: lists ∧ gather Token.closeBrace lists = [] :: lists := by
  constructor <;> rfl

theorem gather_word {x : String} (hx : (word x).plain = true) (inner : List Listing)
    (rest : List (List Listing)) : gather x (inner :: rest) = (word x :: inner) :: rest := by
  simp [plain, brackets] at hx
  obtain ⟨hopen, hclose, hopenBrace, hcloseBrace⟩ := hx
  rw [gather, if_neg hopen, if_neg hopenBrace, if_neg (not_or.2 ⟨hclose, hcloseBrace⟩)]

mutual

/-- The words of a listing put it in front of the list that is open behind them. -/
theorem foldr_words : ∀ x : Listing, x.plain = true → ∀ inner rest,
    (words x).foldr gather (inner :: rest) = (x :: inner) :: rest
  | word x, h, inner, rest => gather_word h inner rest
  | round parts, h, inner, rest => by
    rw [words, List.foldr_cons, List.foldr_append, List.foldr_cons, List.foldr_nil,
      (gather_close _).1, foldr_wordsAll parts h, List.append_nil, (gather_open _ _ _).1]
  | braced parts, h, inner, rest => by
    rw [words, List.foldr_cons, List.foldr_append, List.foldr_cons, List.foldr_nil,
      (gather_close _).2, foldr_wordsAll parts h, List.append_nil, (gather_open _ _ _).2]

theorem foldr_wordsAll : ∀ xs : List Listing, plainAll xs = true → ∀ inner rest,
    (wordsAll xs).foldr gather (inner :: rest) = (xs ++ inner) :: rest
  | [], _, _, _ => rfl
  | x :: xs, h, inner, rest => by
    rw [plainAll, Bool.and_eq_true] at h
    rw [wordsAll, List.foldr_append, foldr_wordsAll xs h.2, foldr_words x h.1, List.cons_append]

end

/-- The words tell where each list starts and where it ends. -/
theorem eq_of_wordsAll_eq {xs ys : List Listing} (hx : plainAll xs = true)
    (hy : plainAll ys = true) (h : wordsAll xs = wordsAll ys) : xs = ys := by
  have hread := congrArg (List.foldr gather [[]]) h
  rw [foldr_wordsAll xs hx, foldr_wordsAll ys hy] at hread
  simpa using hread

theorem wordsAll_append (xs ys : List Listing) :
    wordsAll (xs ++ ys) = wordsAll xs ++ wordsAll ys := by
  induction xs with
  | nil => rfl
  | cons x xs ih => rw [List.cons_append, wordsAll, wordsAll, ih, List.append_assoc]

theorem plainAll_append (xs ys : List Listing) :
    plainAll (xs ++ ys) = (plainAll xs && plainAll ys) := by
  induction xs with
  | nil => rfl
  | cons x xs ih => rw [List.cons_append, plainAll, plainAll, ih, Bool.and_assoc]

/-- Lists of listings with a comma between neighbours. -/
def withCommas : List (List Listing) → List Listing
  | [] => []
  | [xs] => xs
  | xs :: ys :: rest => xs ++ word "," :: withCommas (ys :: rest)

theorem wordsAll_withCommas (xss : List (List Listing)) :
    wordsAll (withCommas xss) = ExprLang.withCommas (xss.map wordsAll) := by
  fun_induction withCommas xss with
  | case1 => rfl
  | case2 xs => rfl
  | case3 xs ys rest ih =>
    rw [wordsAll_append, wordsAll, ih]
    rfl

theorem plainAll_withCommas {xss : List (List Listing)} (h : ∀ xs ∈ xss, plainAll xs = true) :
    plainAll (withCommas xss) = true := by
  fun_induction withCommas xss with
  | case1 => rfl
  | case2 xs => exact h xs List.mem_cons_self
  | case3 xs ys rest ih =>
    rw [plainAll_append, plainAll, h xs List.mem_cons_self,
      ih fun zs hzs => h zs (List.mem_cons_of_mem xs hzs)]
    rfl

end Listing

end ExprLang
