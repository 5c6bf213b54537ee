import Mathlib.Logic.Basic
import Mathlib.Logic.Relation
import ExprLang.Expr.Agreement

/-!
Trees as a whole: the nodes of a tree, and the tree with other labels, names and ascriptions in the
same places. Main statement: expressions have the same shape exactly when they are equal without
their places.
-/

namespace ExprLang

namespace Tree

variable {ν ν' τ τ' : Type}

mutual

/-- A tree and all trees in it. -/
def nodes : Tree ν τ → List (Tree ν τ)
  | literal l v => [literal l v]
  | identifier l x => [identifier l x]
  | binary l op a b => binary l op a b :: (nodes a ++ nodes b)
  | unary l op a => unary l op a :: nodes a
  | ifThen l c a => ifThen l c a :: (nodes c ++ nodes a)
  | ifThenElse l c a b => ifThenElse l c a b :: (nodes c ++ (nodes a ++ nodes b))
  | loop l c a => loop l c a :: (nodes c ++ nodes a)
  | block l ss r => block l ss r :: (nodesAll ss ++ nodes r)
  | declaration l x t v => declaration l x t v :: nodes v
  | assignment l a b => assignment l a b :: (nodes a ++ nodes b)
  | call l f as => call l f as :: nodesAll as

def nodesAll : List (Tree ν τ) → List (Tree ν τ)
  | [] => []
  | e :: es => nodes e ++ nodesAll es

end

theorem self_mem_nodes (e : Tree ν τ) : e ∈ e.nodes := by
  cases e <;> exact List.mem_cons_self

theorem nodesAll_append (as bs : List (Tree ν τ)) :
    nodesAll (as ++ bs) = nodesAll as ++ nodesAll bs := by
  induction as with
  | nil => rfl
  | cons a as ih => rw [List.cons_append, nodesAll, nodesAll, ih, List.append_assoc]

mutual

/-- The same tree with other labels, names and ascriptions. -/
def map (f : ν → ν') (g : Identifier → Identifier) (h : τ → τ') : Tree ν τ → Tree ν' τ'
  | literal l v => literal (f l) v
  | identifier l x => identifier (f l) x
  | binary l op a b => binary (f l) op (map f g h a) (map f g h b)
  | unary l op a => unary (f l) op (map f g h a)
  | ifThen l c a => ifThen (f l) (map f g h c) (map f g h a)
  | ifThenElse l c a b => ifThenElse (f l) (map f g h c) (map f g h a) (map f g h b)
  | loop l c a => loop (f l) (map f g h c) (map f g h a)
  | block l ss r => block (f l) (mapAll f g h ss) (map f g h r)
  | declaration l x t v => declaration (f l) (g x) (t.map h) (map f g h v)
  | assignment l a b => assignment (f l) (map f g h a) (map f g h b)
  | call l x as => call (f l) (g x) (mapAll f g h as)

def mapAll (f : ν → ν') (g : Identifier → Identifier) (h : τ → τ') :
    List (Tree ν τ) → List (Tree ν' τ')
  | [] => []
  | e :: es => map f g h e :: mapAll f g h es

end

@[simp] theorem label_map (f : ν → ν') (g : Identifier → Identifier) (h : τ → τ')
    (e : Tree ν τ) : (e.map f g h).label = f e.label := by
  cases e <;> rfl

variable {c : Comparison ν τ} {f : ν → ν'} {g : Identifier → Identifier}
  {h : τ → τ'}

/-- A comparison that holds where `f`, `g` and `h` have equal values. -/
structure Comparison.Through (c : Comparison ν τ) (f : ν → ν') (g : Identifier → Identifier)
    (h : τ → τ') : Prop where
  label : ∀ l m, c.label l m = true ↔ f l = f m
  name : ∀ x y, c.name x y = true ↔ g x = g y
  ascription : ∀ s t, c.ascription s t = true ↔ h s = h t

theorem Comparison.Through.agreeOption_iff (hc : c.Through f g h) (s t : Option τ) :
    agreeOption c.ascription s t = true ↔ s.map h = t.map h := by
  cases s <;> cases t <;> simp [agreeOption, hc.ascription]

mutual

theorem agree_iff_map_eq (hc : c.Through f g h) (a b : Tree ν τ) :
    agree c a b = true ↔ map f g h a = map f g h b := by
  match a, b with
  | literal l a, b | identifier l a, b => cases b <;> simp [agree, map, hc.label]
  | binary l o a₁ a₂, b =>
    cases b <;> simp [agree, map, hc.label, agree_iff_map_eq hc a₁, agree_iff_map_eq hc a₂,
      and_assoc]
  | unary l o a, b =>
    cases b <;> simp [agree, map, hc.label, agree_iff_map_eq hc a, and_assoc]
  | ifThen l a₁ a₂, b | loop l a₁ a₂, b | assignment l a₁ a₂, b =>
    cases b <;> simp [agree, map, hc.label, agree_iff_map_eq hc a₁, agree_iff_map_eq hc a₂,
      and_assoc]
  | ifThenElse l a₁ a₂ a₃, b =>
    cases b <;> simp [agree, map, hc.label, agree_iff_map_eq hc a₁, agree_iff_map_eq hc a₂,
      agree_iff_map_eq hc a₃, and_assoc]
  | block l as a, b =>
    cases b <;> simp [agree, map, hc.label, agreeAll_iff_mapAll_eq hc as, agree_iff_map_eq hc a,
      and_assoc]
  | declaration l n s a, b =>
    cases b <;> simp [agree, map, hc.label, hc.name, hc.agreeOption_iff, agree_iff_map_eq hc a,
      and_assoc]
  | call l n as, b =>
    cases b <;> simp [agree, map, hc.label, hc.name, agreeAll_iff_mapAll_eq hc as, and_assoc]

theorem agreeAll_iff_mapAll_eq (hc : c.Through f g h) (as bs : List (Tree ν τ)) :
    agreeAll c as bs = true ↔ mapAll f g h as = mapAll f g h bs := by
  match as, bs with
  | [], [] => simp [agreeAll]
  | a :: as, b :: bs =>
    simp [agreeAll, mapAll, agree_iff_map_eq hc a b, agreeAll_iff_mapAll_eq hc as bs]
  | [], _ :: _ => simp [agreeAll, mapAll]
  | _ :: _, [] => simp [agreeAll, mapAll]

end

end Tree

/-- The name without its place. -/
def Identifier.unplaced (x : Identifier) : Identifier := ⟨x.name, .null⟩

namespace Ascription

mutual

/-- The ascription without its places. -/
def unplaced : Ascription → Ascription
  | simple name _ => simple name .null
  | function params result _ => function (unplacedAll params) (unplaced result) .null

def unplacedAll : List Ascription → List Ascription
  | [] => []
  | a :: as => unplaced a :: unplacedAll as

end

mutual

theorem sameShape_iff (a b : Ascription) : a.sameShape b = true ↔ a.unplaced = b.unplaced := by
  unfold sameShape
  match a, b with
  | simple a s, simple b t => simp [agree, unplaced]
  | function ps r s, function qs q t =>
    have hresult : agree (fun _ _ => true) r q = true ↔ r.unplaced = q.unplaced := sameShape_iff r q
    simp [agree, unplaced, agreeAll_iff ps qs, hresult]
  | simple _ _, function _ _ _ => simp [agree, unplaced]
  | function _ _ _, simple _ _ => simp [agree, unplaced]

theorem agreeAll_iff (as bs : List Ascription) :
    agreeAll (fun _ _ => true) as bs = true ↔ unplacedAll as = unplacedAll bs := by
  match as, bs with
  | [], [] => simp [agreeAll]
  | a :: as, b :: bs =>
    have hfirst : agree (fun _ _ => true) a b = true ↔ a.unplaced = b.unplaced := sameShape_iff a b
    simp [agreeAll, unplacedAll, hfirst, agreeAll_iff as bs]
  | [], _ :: _ => simp [agreeAll, unplacedAll]
  | _ :: _, [] => simp [agreeAll, unplacedAll]

end

end Ascription

namespace Expr

/-- The expression without its places. -/
def unplaced (e : Expr) : Expr :=
  Tree.map (fun _ => .null) Identifier.unplaced Ascription.unplaced e

def unplacedAll (es : List Expr) : List Expr :=
  Tree.mapAll (fun _ => .null) Identifier.unplaced Ascription.unplaced es

/-- Expressions have the same shape if they are the same but for their places. -/
theorem sameShape_iff (a b : Expr) : a.sameShape b = true ↔ a.unplaced = b.unplaced :=
  Tree.agree_iff_map_eq ⟨by simp, by simp [Identifier.unplaced], by simp [Ascription.sameShape_iff]⟩
    a b

end Expr

theorem Expr.sameShape_equivalence : Equivalence fun a b : Expr => a.sameShape b = true := by
  simp only [sameShape_iff]
  exact eq_equivalence.comap unplaced

theorem Ascription.sameShape_equivalence :
    Equivalence fun a b : Ascription => a.sameShape b = true := by
  simp only [sameShape_iff]
  exact eq_equivalence.comap unplaced

/-- Trees have the same shape exactly if they are equal once every place in them is forgotten, that
of a node, of a name that is declared or called, and of a part of an ascription. So it is with the
ascriptions alone. Hence sameness of shape is an equivalence, and equal trees have the same
shape. -/
theorem same_shape_up_to_places :
    (∀ a b : Expr, a.sameShape b = true ↔ a.unplaced = b.unplaced) ∧
      (∀ a b : Ascription, a.sameShape b = true ↔ a.unplaced = b.unplaced) ∧
      Equivalence (fun a b : Expr => a.sameShape b = true) ∧
      Equivalence (fun a b : Ascription => a.sameShape b = true) ∧
      (∀ a b : Expr, (a == b) = true → a.sameShape b = true) ∧
      ∀ a b : Ascription, (a == b) = true → a.sameShape b = true := by
  refine ⟨Expr.sameShape_iff, Ascription.sameShape_iff, Expr.sameShape_equivalence,
    Ascription.sameShape_equivalence, fun a b h => ?_, fun a b h => ?_⟩
  · rw [beq_iff_eq] at h
    rw [h]
    exact Expr.sameShape_equivalence.refl b
  · rw [beq_iff_eq] at h
    rw [h]
    exact Ascription.sameShape_equivalence.refl b

/-- Declarations of one name and type in two places are equal without these, and differ with
them. -/
theorem same_shape_up_to_places_declaration :
    let place : Span := ⟨⟨1, 1, ""⟩, ⟨1, 2, ""⟩⟩
    let declared (s : Span) : Expr := .declaration s ⟨"x", s⟩
      (some (.function [.simple "Int" s] (.simple "Bool" s) s)) (.literal s .unit)
    (declared place == declared .null) = false ∧
      (declared place).sameShape (declared .null) = true ∧
      (declared place == declared place) = true ∧
      (declared place).sameShape (declared place) = true := by
  intro place declared
  have hself : (declared place == declared place) = true := by decide
  exact ⟨by decide, (same_shape_up_to_places.1 _ _).2 rfl, hself,
    same_shape_up_to_places.2.2.2.2.1 _ _ hself⟩

end ExprLang
