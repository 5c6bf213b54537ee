import ExprLang.Proofs.Paths
import ExprLang.Proofs.Typing.Effects

/-!
How far a check comes. Main statement: a check that fails has entered the parts of the tree in order
up to some place, and what stands at the others is of no account.
-/

namespace ExprLang

open ExprLang.Sequence
open ExprLang.Tree (Path Graft under)

namespace Checker

variable {α β : Type}

/-- What is entered behind a step, if the step succeeds. -/
def onward (result : EStateM.Result Error Scope α) (next : α → Scope → List Path) : List Path :=
  match result with
  | .ok a t => next a t
  | .error _ _ => []

mutual

/-- The paths that the check of an expression enters, in the order in which it does. A bare name
that is assigned to is looked up where another target would be entered. -/
def entered : Expr → Scope → List Path
  | .literal .., _ | .identifier .., _ => [[]]
  | .binary _ _ left right, s =>
    [] :: (under 0 (entered left s) ++
      onward (check left s) fun _ t => under 1 (entered right t))
  | .unary _ _ operand, s => [] :: under 0 (entered operand s)
  | .ifThen _ condition consequent, s =>
    [] :: (under 0 (entered condition s) ++ onward (check condition s) fun c t =>
      onward (requireBool "if" c t) fun _ u => under 1 (entered consequent u))
  | .ifThenElse _ condition consequent alternative, s =>
    [] :: (under 0 (entered condition s) ++ onward (check condition s) fun c t =>
      onward (requireBool "if" c t) fun _ u => under 1 (entered consequent u) ++
        onward (check consequent u) fun _ v => under 2 (entered alternative v))
  | .loop _ condition body, s =>
    [] :: (under 0 (entered condition s) ++ onward (check condition s) fun c t =>
      onward (requireBool "while" c t) fun _ u => under 1 (entered body u))
  | .block _ statements result, s =>
    [] :: (enteredAll 0 statements s.push ++ onward (checkAll statements s.push) fun _ t =>
      under statements.length (entered result t))
  | .declaration _ _ _ value, s => [] :: under 0 (entered value s)
  | .assignment _ left right, s =>
    [] :: (under 0 (entered left s) ++ onward (target left (check left) s) fun _ t =>
      under 1 (entered right t))
  | .call _ callee arguments, s =>
    [] :: onward (signature callee.name callee.span.start s) fun _ t => enteredAll 0 arguments t

/-- Of expressions in a row, the first of which has the number `i`. -/
def enteredAll (i : Nat) : List Expr → Scope → List Path
  | [], _ => []
  | e :: es, s => under i (entered e s) ++ onward (check e s) fun _ t => enteredAll (i + 1) es t

end

/-- The entered paths are the first ones of all, and a success has entered all. -/
structure Covers (result : EStateM.Result Error Scope α) (ps all : List Path) : Prop where
  initial : ps <+: all
  complete : ∀ a t, result = .ok a t → ps = all

section Covers

variable {ps all rest : List Path} {c : Checker α} {f : α → Checker β} {s : Scope}
  {next : α → Scope → List Path}

theorem covers_self (result : EStateM.Result Error Scope α) (ps : List Path) :
    Covers result ps ps := ⟨List.prefix_rfl, fun _ _ _ => rfl⟩

theorem Covers.bind (hc : Covers (c s) ps all)
    (hf : ∀ a t, c s = .ok a t → Covers (f a t) (next a t) rest) :
    Covers ((c >>= f) s) (ps ++ onward (c s) next) (all ++ rest) := by
  cases hcs : c s with
  | error e t =>
    rw [bind_of_error hcs]
    refine ⟨?_, fun _ _ h => by cases h⟩
    rw [onward, List.append_nil]
    exact hc.initial.trans (List.prefix_append all rest)
  | ok a t =>
    rw [bind_of_ok hcs, hc.complete a t hcs]
    have hnext := hf a t hcs
    refine ⟨(List.prefix_append_right_inj all).2 hnext.initial, fun b u h => ?_⟩
    exact congrArg (all ++ ·) (hnext.complete b u h)

/-- A step that enters no part. -/
theorem covers_bind (hf : ∀ a t, c s = .ok a t → Covers (f a t) (next a t) rest) :
    Covers ((c >>= f) s) (onward (c s) next) rest :=
  (covers_self (c s) []).bind hf

/-- The rule of the node itself enters no part. -/
theorem Covers.last (hc : Covers (c s) ps all) : Covers ((c >>= f) s) ps all := by
  refine ⟨hc.initial, fun b u h => ?_⟩
  obtain ⟨a, t, hcs, -⟩ := bind_eq_ok.1 h
  exact hc.complete a t hcs

theorem Covers.under {result : EStateM.Result Error Scope α} (h : Covers result ps all) (i : Nat) :
    Covers result (under i ps) (under i all) where
  initial := h.initial.map _
  complete a t hresult := by rw [h.complete a t hresult]

theorem Covers.node {result : EStateM.Result Error Scope α} (h : Covers result ps all) :
    Covers result ([] :: ps) ([] :: all) where
  initial := List.prefix_cons_inj [] |>.2 h.initial
  complete a t hresult := by rw [h.complete a t hresult]

theorem Covers.inFrame (h : Covers (c s.push) ps all) : Covers (inFrame c s) ps all := by
  refine ⟨h.initial, fun a t hresult => ?_⟩
  unfold Checker.inFrame at hresult
  cases hc : c s.push with
  | error e u =>
    rw [hc] at hresult
    cases hresult
  | ok b u => exact h.complete b u hc

end Covers

/-- A bare name is found where it is looked up, if at all; any other target is entered. -/
theorem covers_target {left : Expr} {s : Scope}
    (h : Covers (check left s) (entered left s) left.paths) :
    Covers (target left (check left) s) (entered left s) left.paths := by
  cases left with
  | identifier place name => exact covers_self _ _
  | _ => exact h

mutual

/-- Parts are entered in order. -/
theorem covers_check : ∀ (e : Expr) (s : Scope), Covers (check e s) (entered e s) e.paths
  | .literal .., _ => covers_self _ _
  | .identifier .., _ => covers_self _ _
  | .binary span op left right, s => by
    rw [check, entered, Tree.paths]
    exact (((covers_check left s).under 0).bind fun _ t _ =>
      ((covers_check right t).under 1).last).node
  | .unary span op operand, s => by
    rw [check, entered, Tree.paths]
    exact ((covers_check operand s).under 0).last.node
  | .ifThen span condition consequent, s => by
    rw [check, entered, Tree.paths]
    exact (((covers_check condition s).under 0).bind fun _ _ _ => covers_bind fun _ u _ =>
      ((covers_check consequent u).under 1).last).node
  | .ifThenElse span condition consequent alternative, s => by
    rw [check, entered, Tree.paths]
    exact (((covers_check condition s).under 0).bind fun _ _ _ => covers_bind fun _ u _ =>
      ((covers_check consequent u).under 1).bind fun _ v _ =>
      ((covers_check alternative v).under 2).last).node
  | .loop span condition body, s => by
    rw [check, entered, Tree.paths]
    exact (((covers_check condition s).under 0).bind fun _ _ _ => covers_bind fun _ u _ =>
      ((covers_check body u).under 1).last).node
  | .block span statements result, s => by
    rw [check, entered, Tree.paths]
    exact ((covers_checkAll 0 statements s.push).bind fun _ t _ =>
      ((covers_check result t).under statements.length).last).inFrame.node
  | .declaration span name ascription value, s => by
    rw [check, entered, Tree.paths]
    exact ((covers_check value s).under 0).last.node
  | .assignment span left right, s => by
    rw [check, entered, Tree.paths]
    exact (((covers_target (covers_check left s)).under 0).bind fun _ t _ =>
      ((covers_check right t).under 1).last).node
  | .call span callee arguments, s => by
    rw [check, entered, Tree.paths]
    exact (covers_bind fun _ t _ => (covers_checkAll 0 arguments t).last).node

theorem covers_checkAll : ∀ (i : Nat) (es : List Expr) (s : Scope),
    Covers (checkAll es s) (enteredAll i es s) (Tree.pathsAll i es)
  | _, [], _ => covers_self _ _
  | i, e :: es, s => by
    rw [checkAll, enteredAll, Tree.pathsAll]
    exact ((covers_check e s).under i).bind fun _ t _ => (covers_checkAll (i + 1) es t).last

end

/-- Whatever is put into the tree is no bare name, and fails like this in every scope. -/
def Spoils (f : Graft Span Ascription) (error : Error) : Prop :=
  ∀ p d, f p = some d → (∀ l x, d ≠ .identifier l x) ∧ ∀ s, ∃ t, check d s = .error error t

/-- How the check of a tree with other trees at some paths follows the check of the tree: it does
the same if it entered none of those, and otherwise it meets the first of them. -/
structure Follows (f : Graft Span Ascription) (ps : List Path)
    (result result' : EStateM.Result Error Scope α) : Prop where
  same : f.Avoids ps → result' = result
  refused : ∀ error, Spoils f error → ¬f.Avoids ps → ∃ t, result' = .error error t

section Follows

variable {f : Graft Span Ascription} {ps : List Path} {c c' : Checker α} {k k' : α → Checker β}
  {s : Scope} {next : α → Scope → List Path} {i : Nat}

theorem Spoils.within {error : Error} (h : Spoils f error) (i : Nat) :
    Spoils (f.within i) error := fun p => h (i :: p)

theorem follows_self (result : EStateM.Result Error Scope α) : Follows f [] result result where
  same _ := rfl
  refused _ _ h := absurd Graft.avoids_nil h

theorem Follows.bind (hc : Follows f ps (c s) (c' s))
    (hk : ∀ a t, c s = .ok a t → Follows f (next a t) (k a t) (k' a t)) :
    Follows f (ps ++ onward (c s) next) ((c >>= k) s) ((c' >>= k') s) := by
  have hsame : f.Avoids ps → c' s = c s := hc.same
  cases hcs : c s with
  | error e t =>
    rw [hcs] at hsame
    rw [onward, List.append_nil]
    refine ⟨fun h => ?_, fun error hf h => ?_⟩
    · rw [bind_of_error hcs, bind_of_error (hsame h)]
    · obtain ⟨u, hu⟩ := hc.refused error hf h
      exact ⟨u, bind_of_error hu⟩
  | ok a t =>
    rw [hcs] at hsame
    have hnext := hk a t hcs
    refine ⟨fun h => ?_, fun error hf h => ?_⟩
    · rw [Graft.avoids_append] at h
      rw [bind_of_ok hcs, bind_of_ok (hsame h.1)]
      exact hnext.same h.2
    · by_cases hps : f.Avoids ps
      · have hrest : ¬f.Avoids (next a t) := fun hrest => h (Graft.avoids_append.2 ⟨hps, hrest⟩)
        rw [bind_of_ok (hsame hps)]
        exact hnext.refused error hf hrest
      · obtain ⟨u, hu⟩ := hc.refused error hf hps
        exact ⟨u, bind_of_error hu⟩

/-- A step that enters no part. -/
theorem follows_bind (hk : ∀ a t, c s = .ok a t → Follows f (next a t) (k a t) (k' a t)) :
    Follows f (onward (c s) next) ((c >>= k) s) ((c >>= k') s) :=
  (follows_self (c s)).bind hk

/-- The rule of the node itself enters no part. -/
theorem Follows.last (hc : Follows f ps (c s) (c' s)) :
    Follows f ps ((c >>= k) s) ((c' >>= k) s) := by
  have h : Follows f (ps ++ onward (c s) fun _ _ => []) ((c >>= k) s) ((c' >>= k) s) :=
    hc.bind fun a t _ => follows_self (k a t)
  have hnil : (onward (c s) fun _ _ => []) = [] := by cases c s <;> rfl
  rwa [hnil, List.append_nil] at h

theorem Follows.under {result result' : EStateM.Result Error Scope α}
    (h : Follows (f.within i) ps result result') : Follows f (under i ps) result result' where
  same hps := h.same (Graft.avoids_under.1 hps)
  refused error hf hps := h.refused error (hf.within i) (mt Graft.avoids_under.2 hps)

theorem Follows.inFrame (h : Follows f ps (c s.push) (c' s.push)) :
    Follows f ps (inFrame c s) (inFrame c' s) where
  same hps := by rw [Checker.inFrame, Checker.inFrame, h.same hps]
  refused error hf hps := by
    obtain ⟨t, ht⟩ := h.refused error hf hps
    exact ⟨t.pop, by rw [Checker.inFrame, ht]⟩

/-- Another tree at the root is met at once. -/
theorem Follows.node {e : Expr}
    (h : f [] = none → Follows f ps (check e s) (check (e.graft f) s)) :
    Follows f ([] :: ps) (check e s) (check (e.graft f) s) := by
  cases hroot : f [] with
  | none =>
    have hps := h hroot
    refine ⟨fun hall => hps.same (Graft.avoids_cons.1 hall).2, fun error hf hall => ?_⟩
    exact hps.refused error hf fun havoids => hall (Graft.avoids_cons.2 ⟨hroot, havoids⟩)
  | some d =>
    refine ⟨fun hall => ?_, fun error hf _ => ?_⟩
    · have hnone := (Graft.avoids_cons.1 hall).1
      rw [hroot] at hnone
      cases hnone
    · rw [Tree.graft_of_root hroot]
      exact (hf [] d hroot).2 s

end Follows

/-- The root is entered first. -/
theorem root_mem_entered (e : Expr) (s : Scope) : [] ∈ entered e s := by
  cases e <;> simp [entered]

/-- A bare name is looked up instead of checked, and so is no tree that stands for another. -/
theorem follows_target {f : Graft Span Ascription} {left : Expr} {s : Scope}
    (h : Follows f (entered left s) (check left s) (check (left.graft f) s)) :
    Follows f (entered left s) (target left (check left) s)
      (target (left.graft f) (check (left.graft f)) s) := by
  have hcheck : ∀ {d : Expr}, (∀ l x, d ≠ .identifier l x) → target d (check d) s = check d s := by
    intro d hd
    cases d with
    | identifier l x => exact absurd rfl (hd l x)
    | _ => rfl
  cases hroot : f [] with
  | some d =>
    refine ⟨fun hall => ?_, fun error hf _ => ?_⟩
    · rw [hall [] (root_mem_entered left s)] at hroot
      cases hroot
    · rw [Tree.graft_of_root hroot, hcheck (hf [] d hroot).1]
      exact (hf [] d hroot).2 s
  | none =>
    by_cases hleft : ∃ l x, left = .identifier l x
    · obtain ⟨l, x, rfl⟩ := hleft
      have hgraft : Tree.graft f (.identifier l x) = .identifier l x := by
        simp only [Tree.graft, hroot, Option.getD_none]
      refine ⟨fun _ => by rw [hgraft], fun error _ hall => absurd ?_ hall⟩
      rw [entered, Graft.avoids_cons]
      exact ⟨hroot, Graft.avoids_nil⟩
    · have hother : ∀ l x, left ≠ .identifier l x := fun l x hx => hleft ⟨l, x, hx⟩
      rw [hcheck hother, hcheck (Tree.graft_ne_identifier hroot hother)]
      exact h

mutual

/-- Trees at paths that are not entered change nothing, and the first of the others is met. -/
theorem follows_check (f : Graft Span Ascription) :
    ∀ (e : Expr) (s : Scope), Follows f (entered e s) (check e s) (check (e.graft f) s)
  | .literal .., s => by
    rw [entered]
    refine Follows.node fun hroot => ?_
    simp only [Tree.graft, hroot, Option.getD_none]
    exact follows_self _
  | .identifier .., s => by
    rw [entered]
    refine Follows.node fun hroot => ?_
    simp only [Tree.graft, hroot, Option.getD_none]
    exact follows_self _
  | .binary span op left right, s => by
    rw [entered]
    refine Follows.node fun hroot => ?_
    simp only [Tree.graft, hroot, Option.getD_none, check]
    exact (follows_check (f.within 0) left s).under.bind fun _ t _ =>
      (follows_check (f.within 1) right t).under.last
  | .unary span op operand, s => by
    rw [entered]
    refine Follows.node fun hroot => ?_
    simp only [Tree.graft, hroot, Option.getD_none, check]
    exact (follows_check (f.within 0) operand s).under.last
  | .ifThen span condition consequent, s => by
    rw [entered]
    refine Follows.node fun hroot => ?_
    simp only [Tree.graft, hroot, Option.getD_none, check]
    exact (follows_check (f.within 0) condition s).under.bind fun _ _ _ => follows_bind fun _ u _ =>
      (follows_check (f.within 1) consequent u).under.last
  | .ifThenElse span condition consequent alternative, s => by
    rw [entered]
    refine Follows.node fun hroot => ?_
    simp only [Tree.graft, hroot, Option.getD_none, check]
    exact (follows_check (f.within 0) condition s).under.bind fun _ _ _ => follows_bind fun _ u _ =>
      (follows_check (f.within 1) consequent u).under.bind fun _ v _ =>
      (follows_check (f.within 2) alternative v).under.last
  | .loop span condition body, s => by
    rw [entered]
    refine Follows.node fun hroot => ?_
    simp only [Tree.graft, hroot, Option.getD_none, check]
    exact (follows_check (f.within 0) condition s).under.bind fun _ _ _ => follows_bind fun _ u _ =>
      (follows_check (f.within 1) body u).under.last
  | .block span statements result, s => by
    rw [entered]
    refine Follows.node fun hroot => ?_
    simp only [Tree.graft, hroot, Option.getD_none, check]
    exact ((follows_checkAll f 0 statements s.push).bind fun _ t _ =>
      (follows_check (f.within statements.length) result t).under.last).inFrame
  | .declaration span name ascription value, s => by
    rw [entered]
    refine Follows.node fun hroot => ?_
    simp only [Tree.graft, hroot, Option.getD_none, check]
    exact (follows_check (f.within 0) value s).under.last
  | .assignment span left right, s => by
    rw [entered]
    refine Follows.node fun hroot => ?_
    simp only [Tree.graft, hroot, Option.getD_none, check]
    exact (follows_target (follows_check (f.within 0) left s)).under.bind fun _ t _ =>
      (follows_check (f.within 1) right t).under.last
  | .call span callee arguments, s => by
    rw [entered]
    refine Follows.node fun hroot => ?_
    simp only [Tree.graft, hroot, Option.getD_none, check]
    exact follows_bind fun _ t _ => (follows_checkAll f 0 arguments t).last

theorem follows_checkAll (f : Graft Span Ascription) : ∀ (i : Nat) (es : List Expr) (s : Scope),
    Follows f (enteredAll i es s) (checkAll es s) (checkAll (Tree.graftAll f i es) s)
  | _, [], s => by
    rw [enteredAll, Tree.graftAll]
    exact follows_self _
  | i, e :: es, s => by
    rw [enteredAll, Tree.graftAll, checkAll, checkAll]
    exact (follows_check (f.within i) e s).under.bind fun _ t _ =>
      (follows_checkAll f (i + 1) es t).last

end

/-- A declaration that names no type at this place, for which it is refused wherever it stands. -/
def untyped (place : Position) : Expr :=
  .declaration ⟨place, place⟩ ⟨"x", ⟨place, place⟩⟩ (some (.simple "" ⟨place, place⟩))
    (.literal ⟨place, place⟩ .unit)

theorem spoils_untyped (p : Path) (place : Position) :
    Spoils (.single p (untyped place)) ⟨.unknownType "", place⟩ := by
  intro q d hd
  have heq : d = untyped place := by
    by_cases h : q = p
    · rw [Graft.single, if_pos h] at hd
      exact (Option.some.inj hd).symm
    · rw [Graft.single, if_neg h] at hd
      cases hd
  rw [heq]
  exact ⟨fun _ _ h => (by cases h), fun s => ⟨s, rfl⟩⟩

end Checker

open Checker

/-- A check that fails has entered the first ones of all parts in order. Whatever trees stand at the
others, it fails with the same error and the same scope; at each part that was entered some other
tree makes a difference. -/
theorem check_stops_at_first_error {e : Expr} {s t : Scope} {error : Error}
    (h : check e s = .error error t) :
    entered e s <+: e.paths ∧
      (∀ f : Graft Span Ascription, f.Avoids (entered e s) →
        check (e.graft f) s = .error error t) ∧
      ∀ p ∈ entered e s, ∃ d, check (e.graft (.single p d)) s ≠ .error error t := by
  refine ⟨(covers_check e s).initial, fun f hf => ?_, fun p hp => ?_⟩
  · rw [(follows_check f e s).same hf, h]
  · -- An error at another place than this one.
    let place : Position := ⟨error.position.line + 1, 0, ""⟩
    have hmet : ¬(Graft.single p (untyped place)).Avoids (entered e s) := by
      intro havoids
      have hnone := havoids p hp
      rw [Graft.single, if_pos rfl] at hnone
      cases hnone
    obtain ⟨u, hu⟩ := (follows_check _ e s).refused _ (spoils_untyped p place) hmet
    refine ⟨untyped place, fun hsame => ?_⟩
    rw [hu] at hsame
    injection hsame with herror
    have hline : error.position.line + 1 = error.position.line :=
      congrArg (fun e : Error => e.position.line) herror
    omega

/-- Behind a condition that is no truth value an unknown name may stand. -/
theorem check_stops_at_first_error_condition :
    check (.ifThen .null (.literal .null (.int 1)) (.identifier .null "x")) (.ofBase builtins) =
      .error ⟨.conditionNotBool "if" .int, .null⟩ (.ofBase builtins) := by
  let e : Expr := .ifThen .null (.literal .null (.int 1)) (.literal .null .unit)
  let f : Graft Span Ascription := .single [1] (.identifier .null "x")
  have hf : f.Avoids (entered e (.ofBase builtins)) := by
    have hpaths : entered e (.ofBase builtins) = [[], [0]] := rfl
    rw [hpaths, Graft.avoids_cons, Graft.avoids_cons]
    exact ⟨rfl, rfl, Graft.avoids_nil⟩
  exact (check_stops_at_first_error (e := e) rfl).2.1 f hf

end ExprLang
