import ExprLang.Proofs.Parser.Denotation

/-!
What the answer of a parser hangs on. Main statement: a sequence looks no further than its steps do,
which is at the tokens that they read and at the token where they stop.
-/

namespace ExprLang

namespace TokenStream

variable {s t : TokenStream} {v w r : List Token}

/-- A parser that reads `w` and stops at the next token cannot tell the two streams apart. -/
structure Alike (w : List Token) (s t : TokenStream) : Prop where
  previous : t.previous = s.previous
  ahead : ∃ r, t.ahead = w ++ r
  current : (t.pass w).current = (s.pass w).current

theorem Alike.refl (h : s.ahead = w ++ r) : Alike w s s := ⟨rfl, ⟨r, h⟩, rfl⟩

/-- The first token is one of those that are read, or the one behind them. -/
theorem Alike.current_eq (h : Alike w s t) (hs : s.ahead = w ++ r) : t.current = s.current := by
  obtain ⟨r', ht⟩ := h.ahead
  cases w with
  | nil => exact h.current
  | cons x w => rw [current_of_ahead ht, current_of_ahead hs]

theorem Alike.first (h : Alike (v ++ w) s t) (hs : s.ahead = v ++ (w ++ r)) : Alike v s t := by
  obtain ⟨r', ht⟩ := h.ahead
  rw [List.append_assoc] at ht
  refine ⟨h.previous, ⟨w ++ r', ht⟩, ?_⟩
  have hcurrent := h.current
  rw [pass_append, pass_append] at hcurrent
  exact Alike.current_eq (w := w) ⟨by simp [pass, h.previous], ⟨r', ahead_pass ht⟩, hcurrent⟩
    (ahead_pass hs)

theorem Alike.rest (h : Alike (v ++ w) s t) : Alike w (s.pass v) (t.pass v) := by
  obtain ⟨r, ht⟩ := h.ahead
  rw [List.append_assoc] at ht
  refine ⟨by simp [pass, h.previous], ⟨r, ahead_pass ht⟩, ?_⟩
  rw [← pass_append, ← pass_append]
  exact h.current

end TokenStream

namespace Parser

open TokenStream (Alike)

variable {α β : Type} {p q : Parser α} {s : TokenStream}

/-- The parser reads the tokens `w` and stops behind them with this answer or error. -/
def Answers (p : Parser α) (s : TokenStream) (w : List Token) : Except Error α → Prop
  | .ok a => p s = .ok a (s.pass w)
  | .error e => p s = .error e (s.pass w)

/-- The parser answers alike on all streams that are alike up to where it stops on `s`. -/
def LocalAt (p : Parser α) (s : TokenStream) : Prop :=
  ∃ w r answer, s.ahead = w ++ r ∧ ∀ t, Alike w s t → Answers p t w answer

/-- No answer depends on what stands behind the token where the parser stops. -/
def Local (p : Parser α) : Prop := ∀ s, LocalAt p s

/-- What a parser reads and answers is determined. -/
theorem Answers.unique {w w' r r' : List Token} {answer answer' : Except Error α}
    (h : Answers p s w answer) (h' : Answers p s w' answer') (hw : s.ahead = w ++ r)
    (hw' : s.ahead = w' ++ r') : w = w' ∧ answer = answer' := by
  have hpass : s.pass w = s.pass w' ∧ answer = answer' := by
    cases answer <;> cases answer' <;> simp_all [Answers]
  refine ⟨?_, hpass.2⟩
  have hlen := remaining_of_ahead hw
  rw [remaining_of_ahead hw', hpass.1] at hlen
  exact List.append_inj_left (hw.symm.trans hw') (by omega)

/-- An error is raised again on every stream that looks alike up to where it was raised. -/
theorem Local.error {t : TokenStream} {w r : List Token} {e : Error} (hp : Local p)
    (hw : s.ahead = w ++ r) (h : p s = .error e (s.pass w)) (ht : Alike w s t) :
    p t = .error e (t.pass w) := by
  obtain ⟨w', r', answer, hw', hanswer⟩ := hp s
  have hself : Answers p s w (.error e) := h
  obtain ⟨rfl, rfl⟩ := hself.unique (hanswer s (.refl hw')) hw hw'
  exact hanswer t ht

theorem LocalAt.bind {f : α → Parser β} (hp : LocalAt p s) (hf : ∀ a, Local (f a)) :
    LocalAt (p >>= f) s := by
  obtain ⟨v, r, answer, hv, hp⟩ := hp
  cases answer with
  | error e => exact ⟨v, r, .error e, hv, fun t ht => Sequence.bind_of_error (hp t ht)⟩
  | ok a =>
    obtain ⟨w, r', answer, hw, hq⟩ := hf a (s.pass v)
    rw [TokenStream.ahead_pass hv] at hw
    subst hw
    refine ⟨v ++ w, r', answer, by rw [hv, List.append_assoc], fun t ht => ?_⟩
    have hrun : (p >>= f) t = f a (t.pass v) := Sequence.bind_of_ok (hp t (ht.first hv))
    have hanswer := hq _ ht.rest
    cases answer <;> simpa only [Answers, hrun, TokenStream.pass_append] using hanswer

theorem Local.bind {f : α → Parser β} (hp : Local p) (hf : ∀ a, Local (f a)) : Local (p >>= f) :=
  fun s => (hp s).bind hf

theorem local_pure (a : α) : Local (pure a) :=
  fun s => ⟨[], s.ahead, .ok a, rfl, fun _ _ => rfl⟩

theorem local_throw (e : Error) : Local (throw e : Parser α) :=
  fun s => ⟨[], s.ahead, .error e, rfl, fun _ _ => rfl⟩

/-- A look at the current token is a look at the one where the parser stops, or at one it reads. -/
theorem LocalAt.current_bind {f : Token → Parser α} (h : LocalAt (f s.current) s) :
    LocalAt (current >>= f) s := by
  obtain ⟨w, r, answer, hs, h⟩ := h
  refine ⟨w, r, answer, hs, fun t ht => ?_⟩
  have hanswer := h t ht
  rw [← ht.current_eq hs] at hanswer
  cases answer <;> exact hanswer

theorem local_current {f : Token → Parser α} (h : ∀ s, LocalAt (f s.current) s) :
    Local (current >>= f) := fun s => (h s).current_bind

theorem local_unexpected (expected : Expected) : Local (unexpected expected : Parser α) := by
  show Local (current >>= fun x => throw ⟨.unexpectedToken expected x.text x.kind, x.location⟩)
  exact local_current fun s => local_throw _ s

/-- A token that is read is no end mark. -/
theorem localAt_advance (h : s.current.isEnd = false) : LocalAt advance s := by
  obtain ⟨r, hs⟩ := ahead_of_current h
  refine ⟨[s.current], r, .ok s.current, hs, fun t ht => ?_⟩
  obtain ⟨r', ht⟩ := ht.ahead
  show EStateM.Result.ok t.current t.advance = .ok s.current (t.pass [s.current])
  rw [TokenStream.advance_eq_pass ht, TokenStream.current_of_ahead ht]

/-- A choice that looks at the tokens on both sides of the place reached. -/
theorem local_test {test : TokenStream → Bool}
    (h : ∀ s t, t.previous = s.previous → t.current = s.current → test t = test s)
    (hp : Local p) (hq : Local q) : Local (do if test (← get) then p else q) := by
  intro s
  have hlocal : LocalAt (if test s then p else q) s := by
    split
    · exact hp s
    · exact hq s
  obtain ⟨w, r, answer, hs, hlocal⟩ := hlocal
  refine ⟨w, r, answer, hs, fun t ht => ?_⟩
  have hanswer := hlocal t ht
  rw [← h s t ht.previous (ht.current_eq hs)] at hanswer
  cases answer <;> exact hanswer

theorem local_demand (text : String) (expected : Expected) : Local (demand text expected) := by
  refine local_current fun s => ?_
  split
  next h => exact localAt_advance (Token.isEnd_eq_false_of_is h)
  next => exact local_unexpected expected s

theorem local_expect (text : String) : Local (expect text) := local_demand text _

theorem local_identifier : Local identifier := by
  refine local_current fun s => ?_
  split
  next h => exact (localAt_advance (isEnd_of_identifier h.1)).bind fun _ => local_pure _
  next => exact local_unexpected _ s

/-- A token of this text is read before `p`; any other is left to `q`. -/
theorem local_take (text : String) (hp : Local p) (hq : Local q) :
    Local (do if (← current).is text then (do let _ ← advance; p) else q) := by
  refine local_current fun s => ?_
  split
  next h => exact (localAt_advance (Token.isEnd_eq_false_of_is h)).bind fun _ => hp
  next => exact hq s

theorem local_ite (text : String) (hp : Local p) (hq : Local q) :
    Local (do if (← current).is text then p else q) := by
  refine local_current fun s => ?_
  split
  · exact hp s
  · exact hq s

theorem local_behindCommas (hp : Local p) : ∀ n, Local (behindCommas p n)
  | 0 => local_pure []
  | n + 1 => local_take "," (hp.bind fun a => (local_behindCommas hp n).bind fun as =>
      local_pure (a :: as)) (local_pure [])

theorem local_commaSeparated (hp : Local p) (n : Nat) : Local (commaSeparated p n) :=
  hp.bind fun a => (local_behindCommas hp n).bind fun as => local_pure (a :: as)

end Parser

end ExprLang
