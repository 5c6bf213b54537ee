import ExprLang.Parser
import ExprLang.Proofs.Sequence

/-!
What a parser accepts, as a relation between the tokens it reads, those it leaves, and its answer.
Main statement: the relation of a sequence is composed of the relations of its steps.
-/

namespace ExprLang

namespace Token

/-- Does the first of these tokens stand for `text`? -/
def starts (tokens : List Token) (text : String) : Bool := tokens.head?.any (·.is text)

/-- Does the last of these tokens stand for `text`? -/
def finishes (tokens : List Token) (text : String) : Bool := tokens.getLast?.any (·.is text)

/-- Names are the identifiers but for the words that shape expressions and declarations. -/
def IsName (t : Token) : Prop :=
  t.kind = .identifier ∧ t.text ∉ ["if", "then", "else", "while", "do", "var"]

instance (t : Token) : Decidable t.IsName := inferInstanceAs (Decidable (_ ∧ _))

theorem isName_iff {t : Token} : t.IsName ↔ t.kind = .identifier ∧ t.isReserved = false := by
  refine and_congr_right fun hk => ?_
  rw [isReserved, hk, reservedWords, BEq.rfl, Bool.true_and, ← Bool.not_eq_true,
    List.contains_iff_mem]

@[simp] theorem starts_nil (text : String) : starts [] text = false := rfl

@[simp] theorem starts_cons (t : Token) (ts : List Token) (text : String) :
    starts (t :: ts) text = t.is text := rfl

theorem starts_eq_false_iff {ts : List Token} {text : String} :
    starts ts text = false ↔ ∀ t ∈ ts.head?, ¬t.is text = true := by
  cases ts with
  | nil => simp
  | cons t ts => simp

theorem starts_append {w : List Token} (hw : w ≠ []) (r : List Token) (text : String) :
    starts (w ++ r) text = starts w text := by
  cases w with
  | nil => exact absurd rfl hw
  | cons t w => rfl

theorem finishes_append {w : List Token} (hw : w ≠ []) (v : List Token) (text : String) :
    finishes (v ++ w) text = finishes w text := by
  obtain ⟨t, ht⟩ : ∃ t, w.getLast? = some t := Option.isSome_iff_exists.1 (by simpa using hw)
  simp [finishes, List.getLast?_append, ht]

/-- One token does not stand for two texts. -/
theorem is_eq_false_of_is {t : Token} {a b : String} (h : t.is a = true) (hab : a ≠ b) :
    t.is b = false := by
  have ht : t.text = a := text_of_is h
  simp [is, ht, hab]

theorem IsName.is_eq_false {t : Token} {text : String} (h : t.IsName)
    (ht : reservedWords.contains text = true) : t.is text = false := by
  cases hi : t.is text with
  | false => rfl
  | true =>
    have hreserved := (isName_iff.1 h).2
    rw [isReserved, h.1, text_of_is hi, ht] at hreserved
    cases hreserved

theorem isEnd_eq_false_of_is {t : Token} {text : String} (h : t.is text = true) :
    t.isEnd = false := by
  simp only [is, Bool.and_eq_true, Bool.not_eq_true'] at h
  exact h.1

theorem isEnd_eq_false_of_isOneOf {t : Token} {texts : List String} (h : t.isOneOf texts = true) :
    t.isEnd = false := by
  obtain ⟨text, -, ht⟩ := List.any_eq_true.1 h
  exact isEnd_eq_false_of_is ht

end Token

namespace TokenStream

/-- The stream behind its first tokens `w`. -/
def pass (s : TokenStream) (w : List Token) : TokenStream :=
  { s with previous := w.getLast?.or s.previous, ahead := s.ahead.drop w.length }

@[simp] theorem pass_nil (s : TokenStream) : s.pass [] = s := rfl

theorem pass_append (s : TokenStream) (v w : List Token) :
    s.pass (v ++ w) = (s.pass v).pass w := by
  simp [pass, List.getLast?_append, Option.or_assoc]

@[simp] theorem closing_pass (s : TokenStream) (w : List Token) :
    (s.pass w).closing = s.closing := rfl

theorem ahead_pass {s : TokenStream} {w r : List Token} (h : s.ahead = w ++ r) :
    (s.pass w).ahead = r := by
  simp [pass, h]

theorem advance_eq_pass {s : TokenStream} {t : Token} {r : List Token} (h : s.ahead = t :: r) :
    s.advance = s.pass [t] := by
  simp [advance, pass, current, h]

theorem current_of_ahead {s : TokenStream} {t : Token} {r : List Token} (h : s.ahead = t :: r) :
    s.current = t := by
  simp [current, h]

/-- The end mark behind the tokens stands for no text. -/
theorem current_is (s : TokenStream) (text : String) :
    s.current.is text = Token.starts s.ahead text := by
  cases h : s.ahead with
  | nil => simp [current, h, Token.is_of_isEnd s.isEnd_closing]
  | cons t r => simp [current, h]

theorem previousIs_pass {w : List Token} (hw : w ≠ []) (s : TokenStream) (text : String) :
    (s.pass w).previousIs text = Token.finishes w text := by
  obtain ⟨t, ht⟩ : ∃ t, w.getLast? = some t := Option.isSome_iff_exists.1 (by simpa using hw)
  simp [previousIs, pass, Token.finishes, ht]

end TokenStream

namespace Parser

variable {α β : Type} {n : Nat} {p q : Parser α} {s t u : TokenStream}

/-- What a parser reads (first list), with what behind it (second list), and what it answers. -/
abbrev Relation (α : Type) := List Token → List Token → α → Prop

/-- On the stream `s`, `p` succeeds exactly as `R` says. -/
def DenotesAt (p : Parser α) (s : TokenStream) (R : Relation α) : Prop :=
  ∀ a t, p s = .ok a t ↔ ∃ w r, s.ahead = w ++ r ∧ t = s.pass w ∧ R w r a

/-- On streams of at most `n` tokens ahead, `p` succeeds exactly as `R` says. -/
def Denotes (p : Parser α) (n : Nat) (R : Relation α) : Prop :=
  ∀ s, s.remaining ≤ n → DenotesAt p s R

/-- Every answer of the relation takes a token. -/
def Consuming (R : Relation α) : Prop := ∀ w r a, R w r a → w ≠ []

theorem remaining_of_ahead {w r : List Token} (h : s.ahead = w ++ r) :
    s.remaining = w.length + (s.pass w).remaining := by
  simp [TokenStream.remaining, TokenStream.ahead_pass h, h]

/-- A parser has one answer, and so has its relation. -/
theorem Denotes.unique {R : Relation α} {w r : List Token} {a b : α} (h : Denotes p n R)
    (hn : (w ++ r).length ≤ n) (ha : R w r a) (hb : R w r b) : a = b := by
  let s : TokenStream := ⟨"", none, w ++ r, Token.endAfter none, rfl⟩
  have hrun (c : α) (hc : R w r c) : p s = .ok c (s.pass w) :=
    (h s hn c _).2 ⟨w, r, rfl, rfl, hc⟩
  have heq := (hrun a ha).symm.trans (hrun b hb)
  cases heq
  rfl

theorem Denotes.mono {R : Relation α} {m : Nat} (h : Denotes p n R) (hm : m ≤ n) :
    Denotes p m R := fun s hs => h s (Nat.le_trans hs hm)

theorem DenotesAt.congr {P Q : Relation α} (h : DenotesAt p s P)
    (hPQ : ∀ w r a, s.ahead = w ++ r → (P w r a ↔ Q w r a)) : DenotesAt p s Q := by
  intro a t
  rw [h a t]
  refine exists_congr fun w => exists_congr fun r => and_congr_right fun hw => ?_
  rw [hPQ w r a hw]

/-- Two relations that agree on lists of the allowed length serve equally well. -/
theorem Denotes.congr {P Q : Relation α} (h : Denotes p n P)
    (hPQ : ∀ w r a, (w ++ r).length ≤ n → (P w r a ↔ Q w r a)) : Denotes p n Q :=
  fun s hs => (h s hs).congr fun w r a hw => hPQ w r a (by rw [← hw]; exact hs)

theorem denotes_pure (a : α) : Denotes (pure a) n fun w _ b => w = [] ∧ b = a := by
  intro s hs b t
  show EStateM.Result.ok a s = .ok b t ↔ _
  constructor
  · intro h
    cases h
    exact ⟨[], s.ahead, rfl, rfl, rfl, rfl⟩
  · rintro ⟨w, r, -, rfl, rfl, rfl⟩
    rfl

theorem denotes_unexpected (e : Expected) :
    Denotes (unexpected e : Parser α) n fun _ _ _ => False := by
  intro s hs a t
  simp [unexpected]

/-- The second step of a sequence may depend on what the first one has read. -/
theorem DenotesAt.bind {P : Relation α} {Q : List Token → α → Relation β} {f : α → Parser β}
    (hp : DenotesAt p s P)
    (hf : ∀ v u a, s.ahead = v ++ u → P v u a → DenotesAt (f a) (s.pass v) (Q v a)) :
    DenotesAt (p >>= f) s fun w r b =>
      ∃ v u a, w = v ++ u ∧ P v (u ++ r) a ∧ Q v a u r b := by
  intro b t
  rw [Sequence.bind_eq_ok]
  -- The second step starts on the stream behind what the first one has read.
  constructor
  · rintro ⟨a, t₁, h₁, h₂⟩
    obtain ⟨v, r₁, hv, rfl, hP⟩ := (hp a t₁).1 h₁
    obtain ⟨u, r, hu, rfl, hQ⟩ := (hf v r₁ a hv hP b t).1 h₂
    rw [TokenStream.ahead_pass hv] at hu
    subst hu
    exact ⟨v ++ u, r, by simp [hv], (s.pass_append v u).symm, v, u, a, rfl, hP, hQ⟩
  · rintro ⟨_, r, hw, rfl, v, u, a, rfl, hP, hQ⟩
    have hv : s.ahead = v ++ (u ++ r) := by rw [hw, List.append_assoc]
    refine ⟨a, s.pass v, (hp a _).2 ⟨v, u ++ r, hv, rfl, hP⟩, ?_⟩
    exact (hf v _ a hv hP b _).2 ⟨u, r, TokenStream.ahead_pass hv, s.pass_append v u, hQ⟩

/-- The steps of a sequence, of which the second may need a smaller bound. -/
theorem Denotes.bind_of {P : Relation α} {Q : α → Relation β} {f : α → Parser β} {m : Nat}
    (hp : Denotes p n P) (hm : ∀ w r a, P w r a → (w ++ r).length ≤ n → r.length ≤ m)
    (hf : ∀ a, Denotes (f a) m (Q a)) :
    Denotes (p >>= f) n fun w r b => ∃ v u a, w = v ++ u ∧ P v (u ++ r) a ∧ Q a u r b := by
  intro s hs
  refine (hp s hs).bind fun v r a hv hP => hf a _ ?_
  rw [TokenStream.remaining, TokenStream.ahead_pass hv]
  exact hm v r a hP (by rw [← hv]; exact hs)

theorem Denotes.bind {P : Relation α} {Q : α → Relation β} {f : α → Parser β}
    (hp : Denotes p n P) (hf : ∀ a, Denotes (f a) n (Q a)) :
    Denotes (p >>= f) n fun w r b => ∃ v u a, w = v ++ u ∧ P v (u ++ r) a ∧ Q a u r b := by
  refine hp.bind_of (fun w r a _ h => ?_) hf
  rw [List.length_append] at h
  omega

/-- Behind a step that takes a token the bound is smaller by one. -/
theorem Denotes.bind_consuming {P : Relation α} {Q : α → Relation β} {f : α → Parser β}
    (hp : Denotes p (n + 1) P) (hP : Consuming P) (hf : ∀ a, Denotes (f a) n (Q a)) :
    Denotes (p >>= f) (n + 1) fun w r b => ∃ v u a, w = v ++ u ∧ P v (u ++ r) a ∧ Q a u r b := by
  refine hp.bind_of (fun w r a h hlen => ?_) hf
  have hw : 0 < w.length := List.length_pos_iff.2 (hP w r a h)
  rw [List.length_append] at hlen
  omega

/-- A choice by the current token, which no end mark decides for the first case. -/
theorem denotesAt_if {b : Token → Bool} {f g : Token → Parser α} {P Q : Relation α}
    (hend : ∀ t, t.isEnd = true → b t = false)
    (hg : ∀ x r, s.ahead = x :: r → b x = true → DenotesAt (g x) s P)
    (hf : s.ahead.head?.any b = false → DenotesAt (current >>= f) s Q) :
    DenotesAt (do let t ← current; if b t then g t else f t) s fun w r a =>
      ((w ++ r).head?.any b = true ∧ P w r a) ∨ ((w ++ r).head?.any b = false ∧ Q w r a) := by
  intro a t
  show (if b s.current then g s.current else f s.current) s = .ok a t ↔ _
  -- No end mark decides for the first case, so that only tokens ahead have to be looked at.
  have hcur : b s.current = s.ahead.head?.any b := by
    cases h : s.ahead with
    | nil => simp [TokenStream.current, h, hend _ s.isEnd_closing]
    | cons x r => simp [TokenStream.current, h]
  have hc : ∀ w r, s.ahead = w ++ r → (w ++ r).head?.any b = b s.current :=
    fun w r h => by rw [hcur, h]
  cases h : b s.current with
  | true =>
    obtain ⟨x, r₀, hx⟩ : ∃ x r, s.ahead = x :: r := by
      cases hs : s.ahead with
      | nil => simp [hcur, hs] at h
      | cons x r => exact ⟨x, r, rfl⟩
    have hcx := TokenStream.current_of_ahead hx
    rw [if_pos rfl, hcx, hg x r₀ hx (hcx ▸ h) a t]
    refine exists_congr fun w => exists_congr fun r => and_congr_right fun hw => ?_
    simp only [hc w r hw, h, true_and, false_and, or_false, Bool.true_eq_false]
  | false =>
    rw [if_neg (by simp)]
    refine (hf (hcur ▸ h) a t).trans ?_
    refine exists_congr fun w => exists_congr fun r => and_congr_right fun hw => ?_
    simp only [hc w r hw, h, true_and, false_and, false_or, Bool.false_eq_true]

/-- A choice by the text of the current token. -/
theorem denotesAt_ite {f : Token → Parser α} {P Q : Relation α} (text : String)
    (hp : Token.starts s.ahead text = true → DenotesAt p s P)
    (hf : Token.starts s.ahead text = false → DenotesAt (current >>= f) s Q) :
    DenotesAt (do let t ← current; if t.is text then p else f t) s fun w r a =>
      (Token.starts (w ++ r) text = true ∧ P w r a) ∨
        (Token.starts (w ++ r) text = false ∧ Q w r a) := by
  refine denotesAt_if (fun _ h => Token.is_of_isEnd h text) (fun x r hx hb => hp ?_) hf
  rwa [hx]

theorem denotes_ite_current {f : Token → Parser α} {P Q : Relation α} (text : String)
    (hp : Denotes p n P) (hf : Denotes (current >>= f) n Q) :
    Denotes (do let t ← current; if t.is text then p else f t) n fun w r a =>
      (Token.starts (w ++ r) text = true ∧ P w r a) ∨
        (Token.starts (w ++ r) text = false ∧ Q w r a) :=
  fun s hs => denotesAt_ite text (fun _ => hp s hs) (fun _ => hf s hs)

theorem denotes_ite {P Q : Relation α} (text : String) (hp : Denotes p n P)
    (hq : Denotes q n Q) :
    Denotes (do if (← current).is text then p else q) n fun w r a =>
      (Token.starts (w ++ r) text = true ∧ P w r a) ∨
        (Token.starts (w ++ r) text = false ∧ Q w r a) :=
  denotes_ite_current (f := fun _ => q) text hp hq

/-- A look at the current token reads nothing. -/
theorem current_bind {f : Token → Parser β} : (current >>= f) s = f s.current s := rfl

/-- A parser that reads the current token goes on behind it. -/
theorem advance_bind {f : Token → Parser β} {t : Token} {r : List Token}
    (h : s.ahead = t :: r) : (advance >>= f) s = f t (s.pass [t]) := by
  rw [← TokenStream.advance_eq_pass h, ← TokenStream.current_of_ahead h]
  rfl

/-- A current token that is no end mark is the first of those ahead. -/
theorem ahead_of_current (h : s.current.isEnd = false) : ∃ r, s.ahead = s.current :: r := by
  obtain ⟨x, r, hx⟩ := List.exists_cons_of_length_pos (TokenStream.remaining_pos h)
  exact ⟨r, by rw [hx, TokenStream.current_of_ahead hx]⟩

/-- Reading the current token puts it in front of what is read behind it. -/
theorem denotesAt_advance {x : Token} {r₀ : List Token} {P : Relation α}
    (hx : s.ahead = x :: r₀) (hp : DenotesAt p (s.pass [x]) P) :
    DenotesAt (do let _ ← advance; p) s fun w r a => ∃ v, w = x :: v ∧ P v r a := by
  intro a t
  have hr₀ : (s.pass [x]).ahead = r₀ := TokenStream.ahead_pass (w := [x]) hx
  rw [advance_bind hx, hp a t]
  constructor
  · rintro ⟨v, r, hv, rfl, hP⟩
    refine ⟨x :: v, r, ?_, (s.pass_append [x] v).symm, v, rfl, hP⟩
    rw [hx, ← hr₀, hv]
    rfl
  · rintro ⟨_, r, hw, rfl, v, rfl, hP⟩
    obtain ⟨-, rfl⟩ := List.cons.inj (hx.symm.trans hw)
    exact ⟨v, r, hr₀, s.pass_append [x] v, hP⟩

theorem remaining_pass_one {x : Token} {r : List Token} (hx : s.ahead = x :: r)
    (hs : s.remaining ≤ n + 1) : (s.pass [x]).remaining ≤ n := by
  rw [remaining_of_ahead (w := [x]) hx, List.length_singleton] at hs
  omega

/-- A choice by the current token, which is read in the first case. -/
theorem denotes_take {c : Token → Prop} [DecidablePred c] {f : Token → Parser α}
    {P : Token → Relation α} {Q : Relation α} (hend : ∀ t, c t → t.isEnd = false)
    (hf : ∀ t, Denotes (f t) n (P t)) (hq : Denotes q (n + 1) Q) :
    Denotes (do let t ← current; if c t then (do let _ ← advance; f t) else q) (n + 1)
      fun w r a => (∃ t v, w = t :: v ∧ c t ∧ P t v r a) ∨
        ((∀ t ∈ (w ++ r).head?, ¬c t) ∧ Q w r a) := by
  intro s hs a t
  show (if c s.current then (do let _ ← advance; f s.current) else q) s = .ok a t ↔ _
  by_cases hc : c s.current
  · obtain ⟨r₀, hx⟩ := ahead_of_current (hend _ hc)
    rw [if_pos hc, denotesAt_advance hx (hf _ _ (remaining_pass_one hx hs)) a t]
    refine exists_congr fun w => exists_congr fun r => and_congr_right fun hw =>
      and_congr_right fun _ => ?_
    constructor
    · rintro ⟨v, rfl, hP⟩
      exact .inl ⟨s.current, v, rfl, hc, hP⟩
    · rintro (⟨y, v, rfl, -, hP⟩ | ⟨hne, -⟩)
      · obtain ⟨rfl, -⟩ := List.cons.inj (hx.symm.trans hw)
        exact ⟨v, rfl, hP⟩
      · exact absurd hc (hne _ (by simp [← hw, hx]))
  · rw [if_neg hc, hq s hs a t]
    refine exists_congr fun w => exists_congr fun r => and_congr_right fun hw =>
      and_congr_right fun _ => ?_
    constructor
    · intro hQ
      refine .inr ⟨fun y hy => ?_, hQ⟩
      rwa [TokenStream.current, hw, hy] at hc
    · rintro (⟨y, v, rfl, hy, -⟩ | ⟨-, hQ⟩)
      · rw [TokenStream.current_of_ahead hw] at hc
        exact absurd hy hc
      · exact hQ

/-- The relation of a parser that reads one token with a given property. -/
def One (c : Token → Prop) : Relation Token := fun w _ t => w = [t] ∧ c t

theorem consuming_one (c : Token → Prop) : Consuming (One c) := by
  rintro w r t ⟨rfl, -⟩
  exact List.cons_ne_nil t []

theorem denotes_demand (text : String) (e : Expected) :
    Denotes (demand text e) n (One (·.is text = true)) := by
  intro s hs a t
  cases h : s.current.is text with
  | true =>
    obtain ⟨r, hx⟩ := ahead_of_current (Token.isEnd_eq_false_of_is h)
    rw [demand_of_is h, TokenStream.advance_eq_pass hx]
    constructor
    · intro h'
      cases h'
      exact ⟨_, r, hx, rfl, rfl, h⟩
    · rintro ⟨w, r', hw, rfl, rfl, -⟩
      obtain ⟨rfl, -⟩ := List.cons.inj (hx.symm.trans hw)
      rfl
  | false =>
    rw [demand_of_not_is h]
    constructor
    · intro h'
      cases h'
    · rintro ⟨w, r, hw, rfl, rfl, ha⟩
      rw [TokenStream.current_of_ahead hw, ha] at h
      cases h

theorem denotes_expect (text : String) : Denotes (expect text) n (One (·.is text = true)) :=
  denotes_demand text _

theorem isEnd_of_identifier {t : Token} (h : t.kind = .identifier) : t.isEnd = false := by
  simp [Token.isEnd, h]

/-- The relation of a parser of names. -/
def Named : Relation Identifier := fun w _ i => ∃ t, w = [t] ∧ t.IsName ∧ i = ⟨t.text, t.span⟩

theorem denotes_identifier : Denotes identifier n Named := by
  refine ((denotes_take (fun t ht => isEnd_of_identifier ht.1)
    (fun t => denotes_pure (⟨t.text, t.span⟩ : Identifier))
    (denotes_unexpected _)).mono (Nat.le_succ n)).congr ?_
  intro w r i _
  constructor
  · rintro (⟨t, v, rfl, ht, rfl, rfl⟩ | ⟨-, h⟩)
    · exact ⟨t, rfl, Token.isName_iff.2 ht, rfl⟩
    · exact h.elim
  · rintro ⟨t, rfl, ht, rfl⟩
    exact .inl ⟨t, [], rfl, Token.isName_iff.1 ht, rfl, rfl⟩

theorem consuming_named : Consuming Named := by
  rintro w r i ⟨t, rfl, -⟩
  exact List.cons_ne_nil t []

/-- Items with commas between them, as many as commas allow. -/
inductive Separated (R : Relation α) : Relation (List α) where
  | last {w r a} : R w r a → Token.starts r "," = false → Separated R w r [a]
  | more {w q v r a as} : R w (q :: (v ++ r)) a → q.is "," = true → Separated R v r as →
      Separated R (w ++ q :: v) r (a :: as)

/-- What follows the first of several items. -/
def BehindFirst (R : Relation α) : Relation (List α) := fun w r as =>
  (w = [] ∧ as = [] ∧ Token.starts r "," = false) ∨
    ∃ q v, w = q :: v ∧ q.is "," = true ∧ Separated R v r as

theorem separated_iff {R : Relation α} {w r : List Token} {as : List α} :
    Separated R w r as ↔
      ∃ v u a bs, w = v ++ u ∧ as = a :: bs ∧ R v (u ++ r) a ∧ BehindFirst R u r bs := by
  constructor
  · intro h
    cases h with
    | last hR hr => exact ⟨_, [], _, [], by simp, rfl, hR, .inl ⟨rfl, rfl, hr⟩⟩
    | more hR hq hS => exact ⟨_, _, _, _, rfl, rfl, hR, .inr ⟨_, _, rfl, hq, hS⟩⟩
  · rintro ⟨v, u, a, bs, rfl, rfl, hR, ⟨rfl, rfl, hr⟩ | ⟨q, u, rfl, hq, hS⟩⟩
    · rw [List.append_nil]
      exact .last hR hr
    · exact .more hR hq hS

theorem denotes_behindCommas {R : Relation α} (h : Denotes p n R) :
    ∀ m ≤ n, Denotes (behindCommas p m) m (BehindFirst R) := by
  intro m
  induction m with
  | zero =>
    refine fun _ => (denotes_pure []).congr fun w r as hlen => ?_
    have hnil : w ++ r = [] := List.eq_nil_of_length_eq_zero (Nat.le_zero.1 hlen)
    obtain ⟨rfl, rfl⟩ := List.append_eq_nil_iff.1 hnil
    simp [BehindFirst]
  | succ m ih =>
    intro hm
    have hp : Denotes p m R := h.mono (by omega)
    refine (denotes_take (c := fun t => t.is "," = true)
      (fun t => Token.isEnd_eq_false_of_is)
      (fun _ => hp.bind fun a => (ih (by omega)).bind fun as => denotes_pure (a :: as))
      (denotes_pure [])).congr ?_
    intro w r as _
    constructor
    · rintro (⟨q, v, rfl, hq, v, _, a, rfl, ha, u, _, bs, rfl, hb, rfl, rfl⟩ | ⟨hq, rfl, rfl⟩)
      · refine .inr ⟨q, _, rfl, hq, separated_iff.2 ⟨v, u, a, bs, ?_, rfl, ?_, hb⟩⟩
        · rw [List.append_nil]
        · rwa [List.append_nil] at ha
      · exact .inl ⟨rfl, rfl, Token.starts_eq_false_iff.2 hq⟩
    · rintro (⟨rfl, rfl, hr⟩ | ⟨q, _, rfl, hq, hS⟩)
      · exact .inr ⟨Token.starts_eq_false_iff.1 hr, rfl, rfl⟩
      · obtain ⟨v, u, a, bs, rfl, rfl, ha, hb⟩ := separated_iff.1 hS
        refine .inl ⟨q, _, rfl, hq, v, u, a, rfl, ha, u, [], bs, by simp, ?_, rfl, rfl⟩
        simpa using hb

theorem denotes_commaSeparated {R : Relation α} (h : Denotes p n R) :
    Denotes (commaSeparated p n) n (Separated R) := by
  refine (h.bind fun a => (denotes_behindCommas h n (Nat.le_refl n)).bind fun as =>
    denotes_pure (a :: as)).congr fun w r as _ => ?_
  rw [separated_iff]
  constructor
  · rintro ⟨v, _, a, rfl, ha, u, _, bs, rfl, hb, rfl, rfl⟩
    exact ⟨v, u, a, bs, by simp, rfl, by simpa using ha, by simpa using hb⟩
  · rintro ⟨v, u, a, bs, rfl, rfl, ha, hb⟩
    exact ⟨v, u, a, rfl, ha, u, [], bs, by simp, by simpa using hb, rfl, rfl⟩

end Parser

end ExprLang
