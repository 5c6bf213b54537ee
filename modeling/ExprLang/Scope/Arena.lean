import ExprLang.Scope

/-!
Scopes as they are stored: frames in the order in which they were opened, each with the index of the
frame around it, and the index of the current frame. An operation gives no answer if it follows an
index that leads out of the arena, or indices that never end.
-/

namespace ExprLang

structure Arena.Frame where
  bindings : Bindings
  parent : Option Nat
deriving DecidableEq, Repr

structure Arena where
  base : Bindings
  frames : Array Arena.Frame
  current : Option Nat
deriving DecidableEq, Repr

/-- What can be asked of a table of names. -/
inductive Scope.Request where
  | push
  | pop
  | declare (name : String) (type : Ty)
  | lookup (name : String)
  | assign (name : String) (type : Ty)
  | depth
deriving DecidableEq, Repr

/-- What a table of names answers. -/
inductive Scope.Answer where
  | done
  | found (type : Option Ty)
  | assigned (known : Bool)
  | depth (count : Nat)
deriving DecidableEq, Repr

namespace Arena

/-- Opens an empty frame within the current one. -/
def push (a : Arena) : Arena :=
  ⟨a.base, a.frames.push ⟨.empty, a.current⟩, some a.frames.size⟩

/-- One empty frame over `base`. -/
def ofBase (base : Bindings) : Arena := push ⟨base, #[], none⟩

/-- Drops the frame opened last, if one is open, and goes back to the frame around it. -/
def pop (a : Arena) : Arena :=
  match a.frames.back? with
  | none => a
  | some frame => ⟨a.base, a.frames.pop, frame.parent⟩

def depth (a : Arena) : Nat := a.frames.size

/-- Gives `name` a type in the frame at `i`. -/
def write (a : Arena) (i : Nat) (name : String) (type : Ty) : Option Arena :=
  if h : i < a.frames.size then
    let frame := a.frames[i]
    some ⟨a.base, a.frames.set i ⟨frame.bindings.insert name type, frame.parent⟩, a.current⟩
  else none

/-- Gives `name` a type in the current frame, which is opened if there is none. -/
def declare (a : Arena) (name : String) (type : Ty) : Option Arena :=
  let a := if a.current.isNone then a.push else a
  match a.current with
  | none => some a
  | some i => a.write i name type

/-- The first frame that has `name`, from `index` outwards. A search that has not ended after as
many steps as there are frames has come back to one of them. -/
def seek (a : Arena) (name : String) : Nat → Option Nat → Option (Option Nat)
  | _, none => some none
  | 0, some _ => none
  | n + 1, some i => do
    let frame ← a.frames[i]?
    if frame.bindings.contains name then some (some i) else a.seek name n frame.parent

theorem seek_none (a : Arena) (name : String) (n : Nat) : a.seek name n none = some none := by
  cases n <;> rfl

theorem seek_some {a : Arena} {i : Nat} {frame : Frame} (h : a.frames[i]? = some frame)
    (name : String) (n : Nat) : a.seek name (n + 1) (some i) =
      if frame.bindings.contains name then some (some i) else a.seek name n frame.parent := by
  show (a.frames[i]? >>= _) = _
  rw [h]
  rfl

/-- The first frame that has `name`, from the current one outwards. -/
def find (a : Arena) (name : String) : Option (Option Nat) :=
  a.seek name a.frames.size a.current

def lookup (a : Arena) (name : String) : Option (Option Ty) := do
  match ← a.find name with
  | none => some (a.base.get? name)
  | some i => return (← a.frames[i]?).bindings.get? name

/-- Replaces the type of `name` where it is found, and tells whether it is known at all. The base
table is never written to. -/
def assign (a : Arena) (name : String) (type : Ty) : Option (Bool × Arena) := do
  match ← a.find name with
  | none => some (a.base.contains name, a)
  | some i => return (true, ← a.write i name type)

def respond (a : Arena) : Scope.Request → Option (Scope.Answer × Arena)
  | .push => some (.done, a.push)
  | .pop => some (.done, a.pop)
  | .declare name type => return (.done, ← a.declare name type)
  | .lookup name => return (.found (← a.lookup name), a)
  | .assign name type => do
    let (known, a) ← a.assign name type
    return (.assigned known, a)
  | .depth => some (.depth a.depth, a)

/-- Where the frame is that lies around the `n`-th one. -/
def below : Nat → Option Nat
  | 0 => none
  | n + 1 => some n

/-- The frames of a scope in the order in which they were opened. -/
def layOut : List Bindings → List Frame
  | [] => []
  | bindings :: outer => layOut outer ++ [⟨bindings, below outer.length⟩]

/-- Stores the frames of a scope in an arena. -/
def ofScope (s : Scope) : Arena := ⟨s.base, (layOut s.frames).toArray, below s.frames.length⟩

/-- The scope that an arena stores. -/
def scope (a : Arena) : Scope := ⟨a.base, (a.frames.toList.map Frame.bindings).reverse⟩

end Arena

end ExprLang
