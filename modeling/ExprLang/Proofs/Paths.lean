import ExprLang.Expr

/-!
Ways through a tree. Main definition: the tree in which other trees stand at some paths.
-/

namespace ExprLang.Tree

variable {ν τ : Type}

/-- The way from the root of a tree to a part of it: the numbers of the parts on the way. The parts
of a node are counted from 0, in the order in which they are written. -/
abbrev Path := List Nat

/-- Paths of the part with this number, as paths of the whole. -/
def under (i : Nat) (ps : List Path) : List Path := ps.map (i :: ·)

mutual

/-- All paths of a tree: a node before its parts, and these in order. -/
def paths : Tree ν τ → List Path
  | literal .. | identifier .. => [[]]
  | binary _ _ left right => [] :: (under 0 (paths left) ++ under 1 (paths right))
  | unary _ _ operand => [] :: under 0 (paths operand)
  | ifThen _ condition consequent =>
    [] :: (under 0 (paths condition) ++ under 1 (paths consequent))
  | ifThenElse _ condition consequent alternative =>
    [] :: (under 0 (paths condition) ++ (under 1 (paths consequent) ++ under 2 (paths alternative)))
  | loop _ condition body => [] :: (under 0 (paths condition) ++ under 1 (paths body))
  | block _ statements result =>
    [] :: (pathsAll 0 statements ++ under statements.length (paths result))
  | declaration _ _ _ value => [] :: under 0 (paths value)
  | assignment _ target value => [] :: (under 0 (paths target) ++ under 1 (paths value))
  | call _ _ arguments => [] :: pathsAll 0 arguments

/-- The paths of trees in a row, the first of which has the number `i`. -/
def pathsAll (i : Nat) : List (Tree ν τ) → List Path
  | [] => []
  | e :: es => under i (paths e) ++ pathsAll (i + 1) es

end

/-- Which trees are to stand at which paths, instead of the trees there. -/
abbrev Graft (ν τ : Type) := Path → Option (Tree ν τ)

namespace Graft

/-- What is to stand within the part with this number. -/
def within (f : Graft ν τ) (i : Nat) : Graft ν τ := fun p => f (i :: p)

/-- One tree at one path. -/
def single (p : Path) (d : Tree ν τ) : Graft ν τ := fun q => if q = p then some d else none

/-- Nothing is to stand at any of these paths. -/
def Avoids (f : Graft ν τ) (ps : List Path) : Prop := ∀ p ∈ ps, f p = none

variable {f : Graft ν τ} {ps qs : List Path} {i : Nat}

@[simp] theorem avoids_nil : f.Avoids [] := by simp [Avoids]

@[simp] theorem avoids_cons {p : Path} : f.Avoids (p :: ps) ↔ f p = none ∧ f.Avoids ps := by
  simp [Avoids]

@[simp] theorem avoids_append : f.Avoids (ps ++ qs) ↔ f.Avoids ps ∧ f.Avoids qs :=
  List.forall_mem_append

@[simp] theorem avoids_under : f.Avoids (under i ps) ↔ (f.within i).Avoids ps := by
  simp [Avoids, under, within]

end Graft

mutual

/-- The tree in which what `f` gives stands at its paths. Where it gives something at a path and at
one that goes on from it, the first counts. -/
def graft (f : Graft ν τ) : Tree ν τ → Tree ν τ
  | literal l v => (f []).getD (literal l v)
  | identifier l x => (f []).getD (identifier l x)
  | binary l op left right =>
    (f []).getD (binary l op (graft (f.within 0) left) (graft (f.within 1) right))
  | unary l op operand => (f []).getD (unary l op (graft (f.within 0) operand))
  | ifThen l condition consequent =>
    (f []).getD (ifThen l (graft (f.within 0) condition) (graft (f.within 1) consequent))
  | ifThenElse l condition consequent alternative =>
    (f []).getD (ifThenElse l (graft (f.within 0) condition) (graft (f.within 1) consequent)
      (graft (f.within 2) alternative))
  | loop l condition body =>
    (f []).getD (loop l (graft (f.within 0) condition) (graft (f.within 1) body))
  | block l statements result =>
    (f []).getD (block l (graftAll f 0 statements) (graft (f.within statements.length) result))
  | declaration l x t value => (f []).getD (declaration l x t (graft (f.within 0) value))
  | assignment l target value =>
    (f []).getD (assignment l (graft (f.within 0) target) (graft (f.within 1) value))
  | call l x arguments => (f []).getD (call l x (graftAll f 0 arguments))

def graftAll (f : Graft ν τ) (i : Nat) : List (Tree ν τ) → List (Tree ν τ)
  | [] => []
  | e :: es => graft (f.within i) e :: graftAll f (i + 1) es

end

variable {f : Graft ν τ} {d e : Tree ν τ}

theorem graft_of_root (h : f [] = some d) : e.graft f = d := by
  cases e <;> simp [graft, h]

/-- What stands below the root makes no name of a node that is none. -/
theorem graft_ne_identifier (h : f [] = none) (he : ∀ l x, e ≠ identifier l x) (l : ν)
    (x : String) : e.graft f ≠ identifier l x := by
  cases e with
  | identifier l' x' => exact absurd rfl (he l' x')
  | _ => simp [graft, h]

end ExprLang.Tree
