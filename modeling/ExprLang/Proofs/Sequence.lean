/-!
Steps in sequence: a sequence succeeds if every step of it does, and fails where the first of them
does.
-/

namespace ExprLang.Sequence

variable {ε σ α β : Type} {c : EStateM ε σ α} {f : α → EStateM ε σ β} {s t u : σ}

/-- The state that a run ends in, be it a success or a failure. -/
def endState : EStateM.Result ε σ α → σ
  | .ok _ t => t
  | .error _ t => t

/-- The same result in the state `t`. -/
def settled (t : σ) : EStateM.Result ε σ α → EStateM.Result ε σ α
  | .ok a _ => .ok a t
  | .error e _ => .error e t

@[simp] theorem endState_settled (t : σ) (result : EStateM.Result ε σ α) :
    endState (settled t result) = t := by
  cases result <;> rfl

theorem bind_eq_ok {b : β} :
    (c >>= f) s = .ok b u ↔ ∃ a t, c s = .ok a t ∧ f a t = .ok b u := by
  simp only [bind, EStateM.bind]
  cases c s with
  | error e t => simp
  | ok a t =>
    constructor
    · intro h
      exact ⟨a, t, rfl, h⟩
    · rintro ⟨a, t, h, hf⟩
      cases h
      exact hf

theorem bind_of_ok {a : α} (h : c s = .ok a t) : (c >>= f) s = f a t := by
  simp only [bind, EStateM.bind, h]

theorem bind_of_error {e : ε} (h : c s = .error e t) : (c >>= f) s = .error e t := by
  simp only [bind, EStateM.bind, h]

theorem pure_eq_ok {a b : α} : (pure a : EStateM ε σ α) s = .ok b t ↔ b = a ∧ t = s := by
  show EStateM.Result.ok a s = .ok b t ↔ _
  simp [eq_comm]

theorem throw_eq_ok {e : ε} {a : α} : (throw e : EStateM ε σ α) s = .ok a t ↔ False := by
  constructor <;> intro h <;> cases h

end ExprLang.Sequence
