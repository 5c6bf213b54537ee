import ExprLang.Bindings

/-!
Scopes: frames of names, innermost first, over a base table that no program can change.
-/

namespace ExprLang

structure Scope where
  base : Bindings
  frames : List Bindings
deriving DecidableEq, Repr

namespace Scope

/-- One empty frame over `base`. -/
def ofBase (base : Bindings) : Scope := ⟨base, [.empty]⟩

def depth (s : Scope) : Nat := s.frames.length

/-- Opens an empty frame. -/
def push (s : Scope) : Scope := ⟨s.base, .empty :: s.frames⟩

/-- Closes the innermost frame, if one is open. -/
def pop (s : Scope) : Scope := ⟨s.base, s.frames.tail⟩

/-- The type of `name` in the innermost frame that has it, or else in the base table. -/
def lookup (s : Scope) (name : String) : Option Ty :=
  (s.frames.findSome? (·.get? name)).or (s.base.get? name)

/-- Gives `name` a type in the innermost frame, which is opened if there is none. -/
def declare (s : Scope) (name : String) (type : Ty) : Scope :=
  match s.frames with
  | [] => ⟨s.base, [Bindings.empty.insert name type]⟩
  | frame :: outer => ⟨s.base, frame.insert name type :: outer⟩

/-- Replaces the type of `name` in the first frame that has it. -/
def rebind (name : String) (type : Ty) : List Bindings → List Bindings
  | [] => []
  | frame :: outer =>
    if frame.contains name then frame.insert name type :: outer
    else frame :: rebind name type outer

/-- Gives a name another type where it was declared, and tells whether the name is known at all.
The base table stays as it is. -/
def assign (s : Scope) (name : String) (type : Ty) : Bool × Scope :=
  ((s.lookup name).isSome, ⟨s.base, rebind name type s.frames⟩)

@[simp] theorem pop_push (s : Scope) : s.push.pop = s := rfl

@[simp] theorem lookup_push (s : Scope) (name : String) : s.push.lookup name = s.lookup name := by
  simp [push, lookup, List.findSome?_cons]

theorem lookup_cons (base frame : Bindings) (outer : List Bindings) (x : String) :
    lookup ⟨base, frame :: outer⟩ x = (frame.get? x).or (lookup ⟨base, outer⟩ x) := by
  simp only [lookup, List.findSome?_cons]
  cases frame.get? x <;> rfl

theorem lookup_declare (s : Scope) (name : String) (type : Ty) (x : String) :
    (s.declare name type).lookup x = if x = name then some type else s.lookup x := by
  obtain ⟨base, frames⟩ := s
  cases frames with
  | nil => by_cases h : x = name <;> simp [declare, lookup, Bindings.get?_insert, h]
  | cons frame outer =>
    by_cases h : x = name <;> simp [declare, lookup_cons, Bindings.get?_insert, h]

end Scope

end ExprLang
