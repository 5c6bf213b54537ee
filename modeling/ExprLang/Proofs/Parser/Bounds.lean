import ExprLang.Proofs.Parser.Locality

/-!
When the bound of a parser matters. Main statement: parsers with different bounds agree on streams
of few tokens if the steps that they are made of do.
-/

namespace ExprLang

namespace Parser

variable {α β : Type} {d n : Nat} {p q p' q' : Parser α} {f g : α → Parser β} {s : TokenStream}

/-- The two parsers do the same on `s`, and take at least `d` tokens if they succeed. -/
def AgreeAt (d : Nat) (s : TokenStream) (p q : Parser α) : Prop :=
  p s = q s ∧ ∀ a t, p s = .ok a t → t.remaining + d ≤ s.remaining

/-- The two parsers agree on streams of at most `n` tokens ahead. -/
def Agree (d n : Nat) (p q : Parser α) : Prop := ∀ s, s.remaining ≤ n → AgreeAt d s p q

theorem Agree.mono {m : Nat} (h : Agree d n p q) (hm : m ≤ n) : Agree d m p q :=
  fun s hs => h s (Nat.le_trans hs hm)

theorem AgreeAt.weaken (h : AgreeAt d s p q) : AgreeAt 0 s p q :=
  ⟨h.1, fun a t hrun => Nat.le_trans (Nat.le_add_right _ d) (h.2 a t hrun)⟩

theorem Agree.weaken (h : Agree d n p q) : Agree 0 n p q := fun s hs => (h s hs).weaken

/-- Where no token is left, parsers that take one fail, both in the same way. -/
theorem Agree.exists_error (h : Agree 1 n p q) (hs : s.remaining = 0) :
    ∃ e t, p s = .error e t ∧ q s = .error e t := by
  obtain ⟨hrun, htakes⟩ := h s (by omega)
  cases hp : p s with
  | ok a t =>
    have := htakes a t hp
    omega
  | error e t => exact ⟨e, t, rfl, hrun ▸ hp⟩

theorem agreeAt_error {e : Error} {t : TokenStream} (hp : p s = .error e t)
    (hq : q s = .error e t) : AgreeAt d s p q :=
  ⟨by rw [hp, hq], fun a u h => by rw [hp] at h; cases h⟩

theorem agree_unexpected (expected : Expected) :
    Agree d n (unexpected expected : Parser α) (unexpected expected) :=
  fun _ _ => agreeAt_error rfl rfl

theorem agree_throw (e : Error) : Agree d n (throw e : Parser α) (throw e) :=
  fun _ _ => agreeAt_error rfl rfl

theorem agreeAt_pure {a : α} (hp : p s = .ok a s) (hq : q s = .ok a s) : AgreeAt 0 s p q := by
  refine ⟨by rw [hp, hq], fun b t h => ?_⟩
  rw [hp] at h
  cases h
  exact Nat.le_refl _

theorem agree_pure (a : α) : Agree 0 n (pure a) (pure a) := fun _ _ => agreeAt_pure rfl rfl

/-- Behind a step that takes `d` tokens the bound is smaller by so many. -/
theorem Agree.bind_of {m : Nat} (hp : Agree d m p q) (hm : m ≤ n + d)
    (hf : ∀ a, Agree 0 n (f a) (g a)) : Agree d m (p >>= f) (q >>= g) := by
  intro s hs
  obtain ⟨hrun, htakes⟩ := hp s hs
  cases hps : p s with
  | error e t =>
    exact agreeAt_error (Sequence.bind_of_error hps) (Sequence.bind_of_error (hrun ▸ hps))
  | ok a t =>
    have ht : t.remaining + d ≤ s.remaining := htakes a t hps
    obtain ⟨hrest, hless⟩ := hf a t (by omega)
    have hpf : (p >>= f) s = f a t := Sequence.bind_of_ok hps
    have hqg : (q >>= g) s = g a t := Sequence.bind_of_ok (hrun ▸ hps)
    refine ⟨by rw [hpf, hqg, hrest], fun b u h => ?_⟩
    have hu : u.remaining + 0 ≤ t.remaining := hless b u (hpf ▸ h)
    omega

theorem Agree.bind (hp : Agree d n p q) (hf : ∀ a, Agree 0 n (f a) (g a)) :
    Agree d n (p >>= f) (q >>= g) := hp.bind_of (Nat.le_add_right n d) hf

theorem Agree.bind_taking (hp : Agree 1 (n + 1) p q) (hf : ∀ a, Agree 0 n (f a) (g a)) :
    Agree 1 (n + 1) (p >>= f) (q >>= g) := hp.bind_of (Nat.le_refl _) hf

theorem Agree.trans {r : Parser α} (hp : Agree d n p q) (hq : Agree d n q r) : Agree d n p r :=
  fun s hs => ⟨(hp s hs).1.trans (hq s hs).1, (hp s hs).2⟩

/-- Behind a step that takes a token fewer are ahead than before, however many these were. -/
theorem Agree.bind_below (hp : Agree 1 n p q) (hf : ∀ k < n, ∀ a, Agree 0 k (f a) (g a)) :
    Agree 1 n (p >>= f) (q >>= g) := by
  cases n with
  | zero =>
    intro s hs
    obtain ⟨e, t, hps, hqs⟩ := hp.exists_error (Nat.le_zero.1 hs)
    exact agreeAt_error (Sequence.bind_of_error hps) (Sequence.bind_of_error hqs)
  | succ n => exact hp.bind_taking (hf n (Nat.lt_succ_self n))

theorem AgreeAt.current_bind {f g : Token → Parser α}
    (h : AgreeAt d s (f s.current) (g s.current)) :
    AgreeAt d s (current >>= f) (current >>= g) := h

theorem agree_current {f g : Token → Parser α}
    (h : ∀ s, s.remaining ≤ n → AgreeAt d s (f s.current) (g s.current)) :
    Agree d n (current >>= f) (current >>= g) := fun s hs => (h s hs).current_bind

theorem agreeAt_advance {f g : Token → Parser α} (hend : s.current.isEnd = false)
    (hs : s.remaining ≤ n + 1) (hf : ∀ x, Agree 0 n (f x) (g x)) :
    AgreeAt 1 s (advance >>= f) (advance >>= g) := by
  have hpos : 0 < s.remaining := TokenStream.remaining_pos hend
  have hadvance : s.advance.remaining = s.remaining - 1 := s.remaining_advance
  obtain ⟨hrun, hless⟩ := hf s.current s.advance (by omega)
  refine ⟨hrun, fun b u h => ?_⟩
  have hu : u.remaining + 0 ≤ s.advance.remaining := hless b u h
  omega

theorem agreeAt_advance_below {f g : Token → Parser α} (hend : s.current.isEnd = false)
    (hs : s.remaining ≤ n) (hf : ∀ k < n, ∀ x, Agree 0 k (f x) (g x)) :
    AgreeAt 1 s (advance >>= f) (advance >>= g) := by
  have hpos : 0 < s.remaining := TokenStream.remaining_pos hend
  obtain ⟨n, rfl⟩ := Nat.exists_eq_add_one_of_ne_zero (by omega : n ≠ 0)
  exact agreeAt_advance hend hs (hf n (Nat.lt_succ_self n))

/-- A choice between parsers by what both see alike. -/
theorem agreeAt_ite (c : Prop) [Decidable c] (hp : c → AgreeAt d s p p')
    (hq : ¬c → AgreeAt d s q q') :
    AgreeAt d s (if c then p else q) (if c then p' else q') := by
  by_cases h : c
  · rw [if_pos h, if_pos h]
    exact hp h
  · rw [if_neg h, if_neg h]
    exact hq h

theorem agree_ite (text : String) (hp : Agree d n p p') (hq : Agree d n q q') :
    Agree d n (do if (← current).is text then p else q)
      (do if (← current).is text then p' else q') :=
  agree_current fun s hs => agreeAt_ite _ (fun _ => hp s hs) fun _ => hq s hs

theorem agree_take {m : Nat} (text : String) (hn : n ≤ m + 1) (hp : Agree 0 m p p')
    (hq : Agree 0 n q q') :
    Agree 0 n (do if (← current).is text then (do let _ ← advance; p) else q)
      (do if (← current).is text then (do let _ ← advance; p') else q') := by
  refine agree_current fun s hs => agreeAt_ite _ (fun h => ?_) fun _ => hq s hs
  exact (agreeAt_advance (Token.isEnd_eq_false_of_is h) (by omega) fun _ => hp).weaken

theorem agree_test (test : TokenStream → Bool) (hp : Agree d n p p') (hq : Agree d n q q') :
    Agree d n (do if test (← get) then p else q) (do if test (← get) then p' else q') :=
  fun s hs => agreeAt_ite (test s = true) (fun _ => hp s hs) fun _ => hq s hs

theorem agree_demand (text : String) (expected : Expected) :
    Agree 1 n (demand text expected) (demand text expected) := by
  refine agree_current fun s hs => agreeAt_ite _ (fun h => ?_) fun _ => agree_unexpected _ s hs
  exact agreeAt_advance (f := pure) (Token.isEnd_eq_false_of_is h) (Nat.le_succ_of_le hs)
    fun x => agree_pure x

theorem agree_expect (text : String) : Agree 1 n (expect text) (expect text) := agree_demand text _

theorem agree_identifier : Agree 1 n identifier identifier := by
  refine agree_current fun s hs => agreeAt_ite _ (fun h => ?_) fun _ => agree_unexpected _ s hs
  exact agreeAt_advance (isEnd_of_identifier h.1) (Nat.le_succ_of_le hs) fun _ => agree_pure _

theorem current_isEnd (hs : s.remaining ≤ 0) : s.current.isEnd = true := by
  rw [TokenStream.current_eq_closing (Nat.le_zero.1 hs), s.isEnd_closing]

theorem behindCommas_of_isEnd (h : s.current.isEnd = true) (n : Nat) :
    behindCommas p n s = .ok [] s := by
  cases n with
  | zero => rfl
  | succ n =>
    rw [behindCommas, current_bind, Token.is_of_isEnd h]
    rfl

theorem agree_behindCommas (h : Agree d n p p') :
    ∀ m ≤ n, ∀ a b, m ≤ a → m ≤ b → Agree 0 m (behindCommas p a) (behindCommas p' b) := by
  intro m
  induction m with
  | zero =>
    intro _ a b _ _ s hs
    have hend := current_isEnd hs
    exact agreeAt_pure (behindCommas_of_isEnd hend a) (behindCommas_of_isEnd hend b)
  | succ m ih =>
    intro hm a b ha hb
    obtain ⟨a, rfl⟩ := Nat.exists_eq_add_one_of_ne_zero (by omega : a ≠ 0)
    obtain ⟨b, rfl⟩ := Nat.exists_eq_add_one_of_ne_zero (by omega : b ≠ 0)
    refine agree_take "," (Nat.le_refl _) ?_ (agree_pure [])
    exact (h.mono (by omega)).weaken.bind fun x =>
      (ih (by omega) a b (by omega) (by omega)).bind fun xs => agree_pure (x :: xs)

theorem agree_commaSeparated (h : Agree d n p p') {a b : Nat} (ha : n ≤ a) (hb : n ≤ b) :
    Agree d n (commaSeparated p a) (commaSeparated p' b) :=
  h.bind fun x => (agree_behindCommas h n (Nat.le_refl n) a b ha hb).bind fun xs =>
    agree_pure (x :: xs)

/-- A rule that takes the tokens ahead as its bound is local if its bounds do not matter. -/
theorem local_bounded {rule : Nat → Parser α} (hlocal : ∀ n, Local (rule n))
    (hagree : ∀ n a b, n ≤ a → n ≤ b → Agree 0 n (rule a) (rule b)) : Local (bounded rule) := by
  intro s
  obtain ⟨w, r, answer, hw, hanswer⟩ := hlocal s.remaining s
  refine ⟨w, r, answer, hw, fun t ht => ?_⟩
  -- A bound that covers both streams gives the same answer on each of them.
  let m := max s.remaining t.remaining
  have hs : rule s.remaining s = rule m s :=
    (hagree s.remaining s.remaining m (Nat.le_refl _) (Nat.le_max_left _ _) s (Nat.le_refl _)).1
  have ht' : rule t.remaining t = rule m t :=
    (hagree t.remaining t.remaining m (Nat.le_refl _) (Nat.le_max_right _ _) t (Nat.le_refl _)).1
  obtain ⟨w', r', answer', hw', hanswer'⟩ := hlocal m s
  have hself : Answers (rule m) s w answer := by
    have h := hanswer s (.refl hw)
    cases answer <;> simpa only [Answers, hs] using h
  obtain ⟨rfl, rfl⟩ := hself.unique (hanswer' s (.refl hw')) hw hw'
  have h := hanswer' t ht
  cases answer <;> simpa only [Answers, bounded, ht'] using h

end Parser

end ExprLang
