import ExprLang.Proofs.Lockstep
import ExprLang.Proofs.Typing.Effects

/-!
What a check reads of a scope. Main statement: only how the names in the tree are resolved; and a
scope that resolves more names gives no other answer where there was one.
-/

namespace ExprLang

namespace Tree

variable {ν τ : Type}

mutual

/-- The names that a check may look up or bind. Signs and negations have no signature. -/
def names : Tree ν τ → List String
  | literal _ _ => []
  | identifier _ name => [name]
  | binary _ op left right => op.text :: (names left ++ names right)
  | unary _ _ operand => names operand
  | ifThen _ condition consequent => names condition ++ names consequent
  | ifThenElse _ condition consequent alternative =>
    names condition ++ names consequent ++ names alternative
  | loop _ condition body => names condition ++ names body
  | block _ statements result => namesAll statements ++ names result
  | declaration _ name _ value => name.name :: names value
  | assignment _ target value => names target ++ names value
  | call _ callee arguments => callee.name :: namesAll arguments

def namesAll : List (Tree ν τ) → List String
  | [] => []
  | e :: es => names e ++ namesAll es

end

end Tree

namespace Scope

variable {N : String → Prop} {strict : Prop} {s t : Scope} {name : String} {type : Ty}

/-- Scopes with an open frame that resolve the names in `N` alike, but that the first one may leave
some unresolved unless `strict`. -/
structure Serves (N : String → Prop) (strict : Prop) (s t : Scope) : Prop where
  names : ∀ x, N x → s.lookup x = t.lookup x ∨ s.lookup x = none ∧ ¬strict
  left : 0 < s.depth
  right : 0 < t.depth

theorem Serves.push (h : Serves N strict s t) : Serves N strict s.push t.push where
  names x hx := by
    rw [lookup_push, lookup_push]
    exact h.names x hx
  left := Nat.succ_pos _
  right := Nat.succ_pos _

theorem Serves.declare (h : Serves N strict s t) (name : String) (type : Ty) :
    Serves N strict (s.declare name type) (t.declare name type) where
  names x hx := by
    rw [lookup_declare, lookup_declare]
    split
    · exact .inl rfl
    · exact h.names x hx
  left := by
    rw [(extends_declare s name type).depth_eq h.left]
    exact h.left
  right := by
    rw [(extends_declare t name type).depth_eq h.right]
    exact h.right

/-- A frame may be written to on one side and none on the other: the name has its type in both. -/
theorem Serves.assign {s₀ t₀ : Scope} (h₀ : Serves N strict s₀ t₀) (h : Serves N strict s t)
    (hs : Extends s₀ s) (ht : Extends t₀ t) (hs₀ : s₀.lookup name = some type)
    (ht₀ : t₀.lookup name = some type) :
    Serves N strict (s.assign name type).2 (t.assign name type).2 where
  names x hx := by
    rw [hs.lookup_assign h₀.left hs₀, ht.lookup_assign h₀.right ht₀]
    split
    · exact .inl rfl
    · exact h.names x hx
  left := by
    rw [depth_assign]
    exact h.left
  right := by
    rw [depth_assign]
    exact h.right

end Scope

namespace Checker

open ExprLang.Sequence

variable {α β : Type} {N : String → Prop} {strict : Prop}

/-- Two checks of one tree, the second one over a scope that serves as well. -/
def overScopes (N : String → Prop) (strict : Prop) : Lockstep Error Scope :=
  ⟨Scope.Serves N strict, Eq, strict⟩

/-- Of a scope the checker reads only how the names in `N` are resolved. -/
def ReadsOnly (N : String → Prop) (strict : Prop) (c : Checker α) : Prop :=
  (overScopes N strict).Keeps Eq c c

theorem ReadsOnly.bind {c : Checker α} {f : α → Checker β} (hc : ReadsOnly N strict c)
    (hf : ∀ a, ReadsOnly N strict (f a)) : ReadsOnly N strict (c >>= f) := by
  apply Lockstep.Keeps.bind hc
  rintro a b rfl
  exact hf a

theorem readsOnly_pure (a : α) : ReadsOnly N strict (pure a) := Lockstep.keeps_pure rfl

theorem readsOnly_throw (e : Error) : ReadsOnly N strict (throw e : Checker α) :=
  Lockstep.keeps_throw rfl

/-- Rules either let a check go on or refuse it. -/
theorem readsOnly_guard (c : Prop) [Decidable c] (a : α) (e : Error) :
    ReadsOnly N strict (if c then pure a else throw e) := by
  split
  · exact readsOnly_pure a
  · exact readsOnly_throw e

/-- A name that is not known may be known in the other scope, which is no harm where the check fails
for it. -/
theorem readsOnly_lookup {name : String} (hname : N name) {f : Option Ty → Checker α}
    (hnone : ∃ e, f none = throw e) (hf : ∀ found, ReadsOnly N strict (f found)) :
    ReadsOnly N strict (lookup name >>= f) := by
  intro s t h
  rw [lookup_bind, lookup_bind]
  rcases h.names name hname with heq | ⟨hs, hstrict⟩
  · rw [← heq]
    exact hf _ s t h
  · obtain ⟨e, he⟩ := hnone
    rw [hs, he]
    exact Lockstep.meets_of_error hstrict

theorem readsOnly_signature {name : String} (hname : N name) (place : Position) :
    ReadsOnly N strict (signature name place) := by
  apply readsOnly_lookup hname ⟨_, rfl⟩
  intro found
  split
  · exact readsOnly_throw _
  · exact readsOnly_pure _
  · exact readsOnly_throw _

theorem readsOnly_binaryType (span : Span) {op : BinaryOp} (hop : N op.text)
    (left right : TypedExpr) : ReadsOnly N strict (binaryType span op left right) := by
  unfold binaryType
  split
  · exact readsOnly_guard _ _ _
  · exact (readsOnly_signature hop span.start).bind fun _ => readsOnly_guard _ _ _

theorem readsOnly_requireType (expected : Ty) (value : TypedExpr) :
    ReadsOnly N strict (requireType expected value) := readsOnly_guard _ _ _

theorem readsOnly_statedType (ascription : Option Ascription) (value : TypedExpr) :
    ReadsOnly N strict (statedType ascription value) := by
  unfold statedType
  split
  · exact readsOnly_pure _
  · split
    · exact readsOnly_throw _
    · exact (readsOnly_requireType _ value).bind fun _ => readsOnly_pure _

theorem readsOnly_requireFirst (params : List Ty) (arguments : List TypedExpr) :
    ReadsOnly N strict (requireFirst params arguments) := by
  unfold requireFirst
  split
  · exact readsOnly_requireType _ _
  · exact readsOnly_pure _

theorem readsOnly_declare (name : String) (type : Ty) :
    ReadsOnly N strict (modify (·.declare name type)) :=
  fun _ _ h => ⟨rfl, h.declare name type⟩

/-- Checks that keep in step do so in frames of their own, if the scopes compare when these have
been opened and when they have been closed. -/
theorem keeps_inFrame {L : Lockstep Error Scope} {Q : α → β → Prop} {c : Checker α} {d : Checker β}
    (hpush : ∀ s t, L.states s t → L.states s.push t.push)
    (hpop : ∀ s t, L.states s t → L.states (endState (c s.push)) (endState (d t.push)) →
      L.states (endState (c s.push)).pop (endState (d t.push)).pop)
    (h : L.Keeps Q c d) : L.Keeps Q (inFrame c) (inFrame d) := by
  intro s t hst
  have hmeets := h s.push t.push (hpush s t hst)
  have hends := hpop s t hst
  unfold inFrame
  cases hcs : c s.push with
  | ok a u =>
    cases hct : d t.push with
    | ok b v =>
      rw [hcs, hct] at hmeets hends
      exact ⟨hmeets.1, hends hmeets.2⟩
    | error e' v =>
      rw [hcs, hct] at hmeets
      exact hmeets
  | error e u =>
    cases hct : d t.push with
    | ok b v =>
      rw [hcs, hct] at hmeets
      exact hmeets
    | error e' v =>
      rw [hcs, hct] at hmeets hends
      exact fun hstrict => ⟨(hmeets hstrict).1, hends (hmeets hstrict).2⟩

/-- A frame of its own hides what happens in it, on both sides. -/
theorem readsOnly_inFrame {inner : Checker α} (hinner : Moves Scope.Extends inner)
    (h : ReadsOnly N strict inner) : ReadsOnly N strict (inFrame inner) := by
  refine keeps_inFrame (fun _ _ => Scope.Serves.push) (fun s t hst _ => ?_) h
  rw [(hinner s.push).pop, (hinner t.push).pop]
  exact hst

/-- The name was found to have `type` before its value was checked, in both scopes. -/
theorem meets_assignTo_identifier {span place : Span} {name : String} {type : Ty} {right : Expr}
    (hright : ReadsOnly N strict (check right)) {s t : Scope}
    (h : (overScopes N strict).states s t) (hs : s.lookup name = some type)
    (ht : t.lookup name = some type) :
    (overScopes N strict).Meets Eq (assignTo span right (.identifier ⟨place, type⟩ name) s)
      (assignTo span right (.identifier ⟨place, type⟩ name) t) := by
  unfold assignTo
  apply (hright s t h).bind
  rintro value _ s' t' hcs hct rfl h'
  have hextends : Scope.Extends s s' := by
    have := check_extends right s
    rwa [hcs] at this
  have hextends' : Scope.Extends t t' := by
    have := check_extends right t
    rwa [hct] at this
  -- Only a value of the type of the name is recorded.
  by_cases htype : value.type = type
  · rw [type_identifier, htype, bind_of_ok (requireType_of_eq htype),
      bind_of_ok (requireType_of_eq htype)]
    exact ⟨rfl, h.assign h' hextends hextends' hs ht⟩
  · rw [type_identifier, bind_of_error (requireType_of_ne htype),
      bind_of_error (requireType_of_ne htype)]
    exact fun _ => ⟨rfl, h'⟩

/-- Where no name is assigned to, nothing is recorded. -/
theorem readsOnly_assignTo {span : Span} {right : Expr}
    (hright : ReadsOnly N strict (check right)) {left : TypedExpr}
    (h : ∀ label name, left ≠ .identifier label name) :
    ReadsOnly N strict (assignTo span right left) := by
  apply hright.bind
  intro value
  apply (readsOnly_requireType _ value).bind
  intro _
  rw [recordAssignment_of_ne_identifier h]
  exact readsOnly_pure _

theorem readsOnly_assignment (span : Span) {left right : Expr}
    (hnames : ∀ place name, left = .identifier place name → N name)
    (hleft : ReadsOnly N strict (check left)) (hright : ReadsOnly N strict (check right)) :
    ReadsOnly N strict (check (.assignment span left right)) := by
  rw [check_assignment]
  intro s t h
  by_cases hname : ∃ place name, left = .identifier place name
  · obtain ⟨place, name, rfl⟩ := hname
    rcases h.names name (hnames place name rfl) with heq | ⟨hs, hstrict⟩
    · cases hs : s.lookup name with
      | none =>
        rw [hs] at heq
        rw [bind_of_error (target_of_lookup_none hs),
          bind_of_error (target_of_lookup_none heq.symm)]
        exact fun _ => ⟨rfl, h⟩
      | some type =>
        rw [hs] at heq
        rw [bind_of_ok (target_of_lookup hs), bind_of_ok (target_of_lookup heq.symm)]
        exact meets_assignTo_identifier hright h hs heq.symm
    · rw [bind_of_error (target_of_lookup_none hs)]
      exact Lockstep.meets_of_error hstrict
  · have hne : ∀ place name, left ≠ .identifier place name := fun place name h =>
      hname ⟨place, name, h⟩
    rw [target_of_ne_identifier hne]
    apply (hleft s t h).bind
    rintro typed _ s' t' hcs - rfl h'
    exact readsOnly_assignTo hright (typed_ne_identifier hne hcs) s' t' h'

mutual

/-- A check reads the names in the tree, and nothing else of the scope. -/
theorem readsOnly_check : ∀ e : Expr, (∀ x ∈ e.names, N x) → ReadsOnly N strict (check e)
  | .literal span value, _ => by
    rw [check]
    exact readsOnly_pure _
  | .identifier span name, h => by
    rw [check]
    apply readsOnly_lookup (h name (List.mem_singleton_self name)) ⟨_, rfl⟩
    intro found
    split
    · exact readsOnly_throw _
    · exact readsOnly_pure _
  | .binary span op left right, h => by
    simp only [Tree.names, List.forall_mem_cons, List.forall_mem_append] at h
    rw [check]
    exact (readsOnly_check left h.2.1).bind fun l =>
      (readsOnly_check right h.2.2).bind fun r =>
      (readsOnly_binaryType span h.1 l r).bind fun _ => readsOnly_pure _
  | .unary span op operand, h => by
    rw [check]
    exact (readsOnly_check operand h).bind fun a =>
      ReadsOnly.bind (readsOnly_guard _ _ _) fun _ => readsOnly_pure _
  | .ifThen span condition consequent, h => by
    simp only [Tree.names, List.forall_mem_append] at h
    rw [check]
    exact (readsOnly_check condition h.1).bind fun c =>
      ReadsOnly.bind (readsOnly_guard _ _ _) fun _ =>
      (readsOnly_check consequent h.2).bind fun _ => readsOnly_pure _
  | .ifThenElse span condition consequent alternative, h => by
    simp only [Tree.names, List.forall_mem_append] at h
    rw [check]
    exact (readsOnly_check condition h.1.1).bind fun c =>
      ReadsOnly.bind (readsOnly_guard _ _ _) fun _ =>
      (readsOnly_check consequent h.1.2).bind fun _ =>
      (readsOnly_check alternative h.2).bind fun _ => readsOnly_guard _ _ _
  | .loop span condition body, h => by
    simp only [Tree.names, List.forall_mem_append] at h
    rw [check]
    exact (readsOnly_check condition h.1).bind fun c =>
      ReadsOnly.bind (readsOnly_guard _ _ _) fun _ =>
      (readsOnly_check body h.2).bind fun _ => readsOnly_pure _
  | .block span statements result, h => by
    simp only [Tree.names, List.forall_mem_append] at h
    rw [check]
    exact readsOnly_inFrame (blockBody_extends span statements result)
      ((readsOnly_checkAll statements h.1).bind fun _ =>
        (readsOnly_check result h.2).bind fun _ => readsOnly_pure _)
  | .declaration span name ascription value, h => by
    simp only [Tree.names, List.forall_mem_cons] at h
    rw [check]
    exact (readsOnly_check value h.2).bind fun v =>
      (readsOnly_statedType ascription v).bind fun _ =>
      (readsOnly_declare name.name v.type).bind fun _ => readsOnly_pure _
  | .assignment span left right, h => by
    simp only [Tree.names, List.forall_mem_append] at h
    refine readsOnly_assignment span ?_ (readsOnly_check left h.1) (readsOnly_check right h.2)
    rintro place name rfl
    exact h.1 name (List.mem_singleton_self name)
  | .call span callee arguments, h => by
    simp only [Tree.names, List.forall_mem_cons] at h
    rw [check]
    exact (readsOnly_signature h.1 _).bind fun found =>
      (readsOnly_checkAll arguments h.2).bind fun as =>
      (readsOnly_requireFirst _ as).bind fun _ => readsOnly_pure _

theorem readsOnly_checkAll : ∀ es : List Expr, (∀ x ∈ Tree.namesAll es, N x) →
    ReadsOnly N strict (checkAll es)
  | [], _ => by
    rw [checkAll]
    exact readsOnly_pure []
  | e :: es, h => by
    simp only [Tree.namesAll, List.forall_mem_append] at h
    rw [checkAll]
    exact (readsOnly_check e h.1).bind fun _ =>
      (readsOnly_checkAll es h.2).bind fun _ => readsOnly_pure _

end

end Checker

open Checker

/-- Checking depends on the scope only through how it resolves names, wherever the names are bound.
A scope that resolves every name which another one resolves, and to the same type, gives the typed
tree that the other one gives. Scopes that resolve the names in the tree alike give the same typed
tree or the same error. -/
theorem check_depends_on_lookup (e : Expr) (s t : Scope) (hs : 0 < s.depth) (ht : 0 < t.depth) :
    ((∀ x type, s.lookup x = some type → t.lookup x = some type) →
      ∀ typed u, check e s = .ok typed u → ∃ v, check e t = .ok typed v) ∧
    ((∀ x ∈ e.names, s.lookup x = t.lookup x) →
      (∃ typed u v, check e s = .ok typed u ∧ check e t = .ok typed v) ∨
        ∃ error u v, check e s = .error error u ∧ check e t = .error error v) := by
  constructor
  · intro h typed u hc
    have hserves : Scope.Serves (fun _ => True) False s t := by
      refine ⟨fun x _ => ?_, hs, ht⟩
      cases hx : s.lookup x with
      | none => exact .inr ⟨rfl, not_false⟩
      | some type => exact .inl (h x type hx).symm
    have hmeets := readsOnly_check e (fun _ _ => trivial) s t hserves
    rw [hc] at hmeets
    obtain ⟨typed', v, hv, rfl, -⟩ := hmeets.exists_ok
    exact ⟨v, hv⟩
  · intro h
    have hserves : Scope.Serves (· ∈ e.names) True s t := ⟨fun x hx => .inl (h x hx), hs, ht⟩
    have hmeets := readsOnly_check e (fun _ hx => hx) s t hserves
    cases hc : check e s with
    | ok typed u =>
      rw [hc] at hmeets
      obtain ⟨typed', v, hv, rfl, -⟩ := hmeets.exists_ok
      exact .inl ⟨typed, u, v, rfl, hv⟩
    | error error u =>
      rw [hc] at hmeets
      obtain ⟨error', v, hv, rfl, -⟩ := hmeets.exists_error trivial
      exact .inr ⟨error, u, v, rfl, hv⟩

/-- A name to assign to stands in the base table of the one scope, and below an empty frame in the
other one. -/
theorem check_depends_on_lookup_assignment :
    let e : Expr := .assignment .null (.identifier .null "x") (.literal .null (.int 1))
    let s := Scope.ofBase (Bindings.empty.insert "x" .int)
    let t := ((Scope.ofBase .empty).declare "x" .int).push
    0 < s.depth ∧ 0 < t.depth ∧ s ≠ t ∧
      (∀ x type, s.lookup x = some type → t.lookup x = some type) ∧
      (∀ x ∈ e.names, s.lookup x = t.lookup x) ∧
      ∃ v, check e t = .ok (.assignment ⟨.null, .int⟩ (.identifier ⟨.null, .int⟩ "x")
        (.literal ⟨.null, .int⟩ (.int 1))) v := by
  intro e s t
  have hlookup (x : String) : s.lookup x = t.lookup x := by
    show Scope.lookup ⟨_, [.empty]⟩ x = _
    rw [Scope.lookup_push, Scope.lookup_declare, Scope.lookup_cons]
    exact Bindings.get?_insert .empty "x" .int x
  have hmono (x : String) (type : Ty) (h : s.lookup x = some type) : t.lookup x = some type := by
    rw [← hlookup]
    exact h
  have h := check_depends_on_lookup e s t (by decide) (by decide)
  have hs : ∃ u, check e s = .ok (.assignment ⟨.null, .int⟩ (.identifier ⟨.null, .int⟩ "x")
      (.literal ⟨.null, .int⟩ (.int 1))) u := ⟨_, rfl⟩
  obtain ⟨u, hu⟩ := hs
  exact ⟨by decide, by decide, by decide, hmono, fun x _ => hlookup x, h.1 hmono _ u hu⟩

end ExprLang
