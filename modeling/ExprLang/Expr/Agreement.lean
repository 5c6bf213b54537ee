import ExprLang.Expr

/-!
Comparing trees part by part. Main statement: compared in every part, trees agree exactly when they
are equal. Compared in every part but their places, they agree when they have the same shape.
-/

namespace ExprLang

namespace Tree

variable {ν τ : Type}

/-- How the parts of two trees are compared where they are not trees, operators or literals. -/
structure Comparison (ν τ : Type) where
  label : ν → ν → Bool
  name : Identifier → Identifier → Bool
  ascription : τ → τ → Bool

/-- Two ascriptions agree, or both are missing. -/
def agreeOption (same : τ → τ → Bool) : Option τ → Option τ → Bool
  | some a, some b => same a b
  | none, none => true
  | _, _ => false

mutual

def agree (c : Comparison ν τ) : Tree ν τ → Tree ν τ → Bool
  | literal l a, literal m b => c.label l m && a == b
  | identifier l a, identifier m b => c.label l m && a == b
  | binary l o a₁ a₂, binary m p b₁ b₂ => c.label l m && o == p && agree c a₁ b₁ && agree c a₂ b₂
  | unary l o a, unary m p b => c.label l m && o == p && agree c a b
  | ifThen l a₁ a₂, ifThen m b₁ b₂ => c.label l m && agree c a₁ b₁ && agree c a₂ b₂
  | ifThenElse l a₁ a₂ a₃, ifThenElse m b₁ b₂ b₃ =>
    c.label l m && agree c a₁ b₁ && agree c a₂ b₂ && agree c a₃ b₃
  | loop l a₁ a₂, loop m b₁ b₂ => c.label l m && agree c a₁ b₁ && agree c a₂ b₂
  | block l as a, block m bs b => c.label l m && agreeAll c as bs && agree c a b
  | declaration l n s a, declaration m k t b =>
    c.label l m && c.name n k && agreeOption c.ascription s t && agree c a b
  | assignment l a₁ a₂, assignment m b₁ b₂ => c.label l m && agree c a₁ b₁ && agree c a₂ b₂
  | call l n as, call m k bs => c.label l m && c.name n k && agreeAll c as bs
  | _, _ => false

def agreeAll (c : Comparison ν τ) : List (Tree ν τ) → List (Tree ν τ) → Bool
  | [], [] => true
  | a :: as, b :: bs => agree c a b && agreeAll c as bs
  | _, _ => false

end

/-- Every part is compared by equality. -/
def Comparison.exact [BEq ν] [BEq τ] : Comparison ν τ := ⟨(· == ·), (· == ·), (· == ·)⟩

theorem agreeOption_beq_iff [BEq τ] [LawfulBEq τ] (s t : Option τ) :
    agreeOption (· == ·) s t = true ↔ s = t := by
  cases s <;> cases t <;> simp [agreeOption]

mutual

theorem agree_exact_iff [BEq ν] [LawfulBEq ν] [BEq τ] [LawfulBEq τ] (a b : Tree ν τ) :
    agree .exact a b = true ↔ a = b := by
  match a, b with
  | literal .., b | identifier .., b =>
    cases b <;> simp [agree, Comparison.exact]
  | binary l o a₁ a₂, b =>
    cases b <;> simp [agree, agree_exact_iff a₁, agree_exact_iff a₂, and_assoc]
    simp [Comparison.exact]
  | unary l o a, b =>
    cases b <;> simp [agree, agree_exact_iff a, and_assoc]
    simp [Comparison.exact]
  | ifThen l a₁ a₂, b | loop l a₁ a₂, b | assignment l a₁ a₂, b =>
    cases b <;> simp [agree, agree_exact_iff a₁, agree_exact_iff a₂, and_assoc]
    simp [Comparison.exact]
  | ifThenElse l a₁ a₂ a₃, b =>
    cases b <;> simp [agree, agree_exact_iff a₁, agree_exact_iff a₂, agree_exact_iff a₃, and_assoc]
    simp [Comparison.exact]
  | block l as a, b =>
    cases b <;> simp [agree, agreeAll_exact_iff as, agree_exact_iff a, and_assoc]
    simp [Comparison.exact]
  | declaration l n s a, b =>
    cases b <;> simp [agree, agree_exact_iff a, and_assoc]
    simp [Comparison.exact, agreeOption_beq_iff]
  | call l n as, b =>
    cases b <;> simp [agree, agreeAll_exact_iff as, and_assoc]
    simp [Comparison.exact]

theorem agreeAll_exact_iff [BEq ν] [LawfulBEq ν] [BEq τ] [LawfulBEq τ] (as bs : List (Tree ν τ)) :
    agreeAll .exact as bs = true ↔ as = bs := by
  match as, bs with
  | [], [] => simp [agreeAll]
  | a :: as, b :: bs => simp [agreeAll, agree_exact_iff a b, agreeAll_exact_iff as bs]
  | [], _ :: _ => simp [agreeAll]
  | _ :: _, [] => simp [agreeAll]

end

instance [DecidableEq ν] [DecidableEq τ] : DecidableEq (Tree ν τ) :=
  fun a b => decidable_of_iff _ (agree_exact_iff a b)

end Tree

namespace Expr

/-- Places count for nothing: names, operators, literals and ascriptions do. -/
def shape : Tree.Comparison Span Ascription :=
  ⟨fun _ _ => true, fun a b => a.name == b.name, Ascription.sameShape⟩

@[simp] theorem shape_label (a b : Span) : shape.label a b = true := rfl

@[simp] theorem shape_name (a b : Identifier) : shape.name a b = (a.name == b.name) := rfl

@[simp] theorem shape_ascription : shape.ascription = Ascription.sameShape := rfl

/-- Are two expressions alike wherever they stand? -/
def sameShape (a b : Expr) : Bool := Tree.agree shape a b

end Expr

end ExprLang
