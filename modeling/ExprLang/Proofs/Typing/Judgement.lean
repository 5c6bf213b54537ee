import ExprLang.Typing

/-!
Typing as a judgement over an environment that never changes: what a declaration adds is an
environment of its own for the statements behind it.
-/

namespace ExprLang

/-- The types of the names that are known. -/
abbrev Env := String → Option Ty

/-- One more name, which hides an older one. -/
def Env.bind (G : Env) (name : String) (type : Ty) : Env := fun x =>
  if x = name then some type else G x

/-- Does an ascription, if there is one, stand for this type? -/
def Ascribed (ascription : Option Ascription) (type : Ty) : Prop :=
  ∀ a ∈ ascription, a.type = .ok type

mutual

/-- `HasType G e t`: in `G` the expression `e` has the type `t`. -/
inductive HasType : Env → Expr → Ty → Prop where
  | int {G l n} : HasType G (.literal l (.int n)) .int
  | bool {G l b} : HasType G (.literal l (.bool b)) .bool
  | unit {G l} : HasType G (.literal l .unit) .unit
  | identifier {G l x t} : G x = some t → HasType G (.identifier l x) t
  | equality {G l op a b t} : op = .equals ∨ op = .notEquals → HasType G a t → HasType G b t →
      HasType G (.binary l op a b) .bool
  | operator {G l op a b t u v} : op ≠ .equals → op ≠ .notEquals →
      G op.text = some (.function [t, u] v) → HasType G a t → HasType G b u →
      HasType G (.binary l op a b) v
  | negate {G l a} : HasType G a .int → HasType G (.unary l .negate a) .int
  | not {G l a} : HasType G a .bool → HasType G (.unary l .not a) .bool
  | ifThen {G l c a t} : HasType G c .bool → HasType G a t → HasType G (.ifThen l c a) t
  | ifThenElse {G l c a b t} : HasType G c .bool → HasType G a t → HasType G b t →
      HasType G (.ifThenElse l c a b) t
  | loop {G l c a t} : HasType G c .bool → HasType G a t → HasType G (.loop l c a) .unit
  | block {G H l ss r t} : Enters G ss H → HasType H r t → HasType G (.block l ss r) t
  | declaration {G l x A v t} : HasType G v t → Ascribed A t → HasType G (.declaration l x A v) t
  | assignment {G l a b t} : HasType G a t → HasType G b t → HasType G (.assignment l a b) t
  | call {G l f es ps ts t} : G f.name = some (.function ps t) → HaveTypes G es ts →
      (∀ p ∈ ps.head?, ∀ u ∈ ts.head?, u = p) → HasType G (.call l f es) t

/-- `HaveTypes G es ts`: in `G` the expressions `es` have the types `ts`, one by one. -/
inductive HaveTypes : Env → List Expr → List Ty → Prop where
  | nil {G} : HaveTypes G [] []
  | cons {G e es t ts} : HasType G e t → HaveTypes G es ts → HaveTypes G (e :: es) (t :: ts)

/-- `Enters G ss H`: the statements `ss` are typed from `G` on, and what follows them in `H`. -/
inductive Enters : Env → List Expr → Env → Prop where
  | nil {G} : Enters G [] G
  | declaration {G H l x A v t ss} : HasType G (.declaration l x A v) t →
      Enters (G.bind x.name t) ss H → Enters G (.declaration l x A v :: ss) H
  | other {G H e t ss} : e.isDeclaration = false → HasType G e t → Enters G ss H →
      Enters G (e :: ss) H

end

end ExprLang
