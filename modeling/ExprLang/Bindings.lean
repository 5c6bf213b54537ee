import ExprLang.Ty

/-!
Tables of names and their types. Main statement: a table answers what was inserted last.
-/

namespace ExprLang

/-- A table of names in the order of their first insertion. -/
structure Bindings where
  entries : List (String × Ty)
deriving DecidableEq, Repr

namespace Bindings

def empty : Bindings := ⟨[]⟩

/-- The type in the first entry of `name`. -/
def find (name : String) : List (String × Ty) → Option Ty
  | [] => none
  | (key, type) :: rest => if name = key then some type else find name rest

def get? (b : Bindings) (name : String) : Option Ty := find name b.entries

def contains (b : Bindings) (name : String) : Bool := (b.get? name).isSome

/-- Replaces the entry of `name`, or adds one behind the others. -/
def replaceOrAppend (name : String) (type : Ty) : List (String × Ty) → List (String × Ty)
  | [] => [(name, type)]
  | (key, old) :: rest =>
    if name = key then (name, type) :: rest
    else (key, old) :: replaceOrAppend name type rest

def insert (b : Bindings) (name : String) (type : Ty) : Bindings :=
  ⟨replaceOrAppend name type b.entries⟩

/-- Of two entries of one name the later one counts. -/
def ofList (entries : List (String × Ty)) : Bindings :=
  entries.foldl (fun b entry => b.insert entry.1 entry.2) empty

@[simp] theorem get?_empty (name : String) : empty.get? name = none := rfl

theorem get?_insert (b : Bindings) (name : String) (type : Ty) (x : String) :
    (b.insert name type).get? x = if x = name then some type else b.get? x := by
  obtain ⟨entries⟩ := b
  show find x (replaceOrAppend name type entries) = if x = name then _ else find x entries
  induction entries with
  | nil => simp [replaceOrAppend, find]
  | cons entry rest ih =>
    obtain ⟨key, old⟩ := entry
    by_cases hk : name = key
    · by_cases h : x = name <;> simp_all [replaceOrAppend, find]
    · by_cases hx : x = key
      · have hn : key ≠ name := fun h => hk h.symm
        simp [replaceOrAppend, find, hk, hx, hn]
      · simp [replaceOrAppend, find, hk, hx, ih]

end Bindings

end ExprLang
