import ExprLang.Proofs.Sequence

/-!
Two runs side by side. Main statement: two sequences keep in step if each step of the one does with
that of the other.
-/

namespace ExprLang

/-- How two runs are compared on the way: by their states, and by their errors if they fail. -/
structure Lockstep (ε σ : Type) where
  states : σ → σ → Prop
  errors : ε → ε → Prop
  /-- Has the second run to fail where the first one does? -/
  strict : Prop

namespace Lockstep

open ExprLang.Sequence

variable {ε σ α β γ κ : Type} {L : Lockstep ε σ} {Q : α → β → Prop} {R : γ → κ → Prop}
  {c : EStateM ε σ α} {d : EStateM ε σ β} {f : α → EStateM ε σ γ} {g : β → EStateM ε σ κ}
  {s t : σ}

/-- The results of two runs that have kept in step. -/
def Meets (L : Lockstep ε σ) (Q : α → β → Prop) :
    EStateM.Result ε σ α → EStateM.Result ε σ β → Prop
  | .ok a s, .ok b t => Q a b ∧ L.states s t
  | .ok _ _, .error _ _ => False
  | .error e s, .error e' t => L.strict → L.errors e e' ∧ L.states s t
  | .error _ _, .ok _ _ => ¬L.strict

theorem Meets.exists_ok {a : α} {result : EStateM.Result ε σ β}
    (h : L.Meets Q (.ok a s) result) : ∃ b t, result = .ok b t ∧ Q a b ∧ L.states s t := by
  cases result with
  | ok b t => exact ⟨b, t, rfl, h⟩
  | error => exact h.elim

theorem Meets.exists_error {e : ε} {result : EStateM.Result ε σ β} (hstrict : L.strict)
    (h : L.Meets Q (.error e s : EStateM.Result ε σ α) result) :
    ∃ e' t, result = .error e' t ∧ L.errors e e' ∧ L.states s t := by
  cases result with
  | ok => exact absurd hstrict h
  | error e' t => exact ⟨e', t, rfl, h hstrict⟩

/-- From states that compare the two keep in step, and their answers are related by `Q`. -/
def Keeps (L : Lockstep ε σ) (Q : α → β → Prop) (c : EStateM ε σ α) (d : EStateM ε σ β) : Prop :=
  ∀ s t, L.states s t → L.Meets Q (c s) (d t)

/-- Behind a failure of the first run the second one may do anything, unless it has to fail too. -/
theorem meets_of_error {e : ε} {result : EStateM.Result ε σ β} (h : ¬L.strict) :
    L.Meets Q (.error e s : EStateM.Result ε σ α) result := by
  cases result with
  | ok => exact h
  | error => exact fun hstrict => absurd hstrict h

/-- The second steps may rely on what the first ones have done. -/
theorem Meets.bind (hc : L.Meets Q (c s) (d t))
    (hf : ∀ a b s' t', c s = .ok a s' → d t = .ok b t' → Q a b → L.states s' t' →
      L.Meets R (f a s') (g b t')) : L.Meets R ((c >>= f) s) ((d >>= g) t) := by
  cases hs : c s with
  | ok a s' =>
    cases ht : d t with
    | ok b t' =>
      rw [hs, ht] at hc
      rw [bind_of_ok hs, bind_of_ok ht]
      exact hf a b s' t' hs ht hc.1 hc.2
    | error e t' =>
      rw [hs, ht] at hc
      exact hc.elim
  | error e s' =>
    rw [hs] at hc
    rw [bind_of_error hs]
    cases ht : d t with
    | ok b t' =>
      -- The second run goes on alone, which only a run that need not fail may do.
      rw [ht] at hc
      rw [bind_of_ok ht]
      exact meets_of_error hc
    | error e' t' =>
      rw [ht] at hc
      rw [bind_of_error ht]
      exact hc

theorem Keeps.bind (hc : L.Keeps Q c d) (hf : ∀ a b, Q a b → L.Keeps R (f a) (g b)) :
    L.Keeps R (c >>= f) (d >>= g) :=
  fun s t h => (hc s t h).bind fun a b s' t' _ _ hab h' => hf a b hab s' t' h'

theorem keeps_pure {a : α} {b : β} (h : Q a b) : L.Keeps Q (pure a) (pure b) :=
  fun _ _ hstates => ⟨h, hstates⟩

theorem keeps_throw {e e' : ε} (h : L.errors e e') : L.Keeps Q (throw e) (throw e') :=
  fun _ _ hstates _ => ⟨h, hstates⟩

/-- The results of two runs that have kept in step, unless the first one failed for what excuses
it. -/
def MeetsUnless (L : Lockstep ε σ) (excused : ε → Prop) (Q : α → β → Prop)
    (result : EStateM.Result ε σ α) (result' : EStateM.Result ε σ β) : Prop :=
  (∃ e s, result = .error e s ∧ excused e) ∨ L.Meets Q result result'

/-- From states that compare the two keep in step, unless the first run is excused. -/
def KeepsUnless (L : Lockstep ε σ) (excused : ε → Prop) (Q : α → β → Prop) (c : EStateM ε σ α)
    (d : EStateM ε σ β) : Prop :=
  ∀ s t, L.states s t → L.MeetsUnless excused Q (c s) (d t)

variable {excused : ε → Prop}

theorem MeetsUnless.bind (hc : L.MeetsUnless excused Q (c s) (d t))
    (hf : ∀ a b s' t', Q a b → L.states s' t' → L.MeetsUnless excused R (f a s') (g b t')) :
    L.MeetsUnless excused R ((c >>= f) s) ((d >>= g) t) := by
  rcases hc with ⟨e, s', hs, he⟩ | hc
  · exact .inl ⟨e, s', bind_of_error hs, he⟩
  cases hs : c s with
  | error e s' =>
    exact .inr (hc.bind fun a _ _ _ ha => by rw [hs] at ha; cases ha)
  | ok a s' =>
    rw [hs] at hc
    obtain ⟨b, t', ht, hab, hstates⟩ := hc.exists_ok
    rw [bind_of_ok hs, bind_of_ok ht]
    exact hf a b s' t' hab hstates

theorem KeepsUnless.bind (hc : L.KeepsUnless excused Q c d)
    (hf : ∀ a b, Q a b → L.KeepsUnless excused R (f a) (g b)) :
    L.KeepsUnless excused R (c >>= f) (d >>= g) :=
  fun s t h => (hc s t h).bind fun a b s' t' hab h' => hf a b hab s' t' h'

theorem keeps_iff : L.Keeps Q c d ↔ L.KeepsUnless (fun _ => False) Q c d := by
  simp [Keeps, KeepsUnless, MeetsUnless]

theorem Keeps.unless (h : L.Keeps Q c d) : L.KeepsUnless excused Q c d :=
  fun s t hstates => .inr (h s t hstates)

theorem keepsUnless_throw {e : ε} (h : excused e) :
    L.KeepsUnless excused Q (throw e) d := fun s _ _ => .inl ⟨e, s, rfl, h⟩

/-- A choice that both runs make alike. -/
theorem keepsUnless_ite {p q : Prop} [Decidable p] [Decidable q] {c' : EStateM ε σ α}
    {d' : EStateM ε σ β} (h : p ↔ q) (hc : p → L.KeepsUnless excused Q c d)
    (hc' : ¬p → L.KeepsUnless excused Q c' d') :
    L.KeepsUnless excused Q (if p then c else c') (if q then d else d') := by
  by_cases hp : p
  · rw [if_pos hp, if_pos (h.1 hp)]
    exact hc hp
  · rw [if_neg hp, if_neg (mt h.2 hp)]
    exact hc' hp

theorem keeps_ite {p q : Prop} [Decidable p] [Decidable q] {c' : EStateM ε σ α}
    {d' : EStateM ε σ β} (h : p ↔ q) (hc : p → L.Keeps Q c d) (hc' : ¬p → L.Keeps Q c' d') :
    L.Keeps Q (if p then c else c') (if q then d else d') := by
  simp only [keeps_iff] at hc hc' ⊢
  exact keepsUnless_ite h hc hc'

end Lockstep

end ExprLang
