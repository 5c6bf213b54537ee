import ExprLang.Proofs.Scope.Extension
import ExprLang.Proofs.Sequence
import ExprLang.Proofs.Typing.Placement
import ExprLang.Typing

/-!
What checking does to the scope. Main statement: nothing, but for a declaration at the root.
-/

namespace ExprLang

open ExprLang.Sequence

namespace Checker

variable {α β : Type} {R : Scope → Scope → Prop}

/-- Whether it succeeds or fails, the checker changes the scope as `R` says. -/
def Moves (R : Scope → Scope → Prop) (c : Checker α) : Prop := ∀ s, R s (endState (c s))

/-- The scope stays as it is. -/
def Same (s t : Scope) : Prop := t = s

/-- Relations between scopes that hold of several steps if they hold of each, and of a name that
gets a type again which it had before. -/
structure Steady (R : Scope → Scope → Prop) : Prop where
  refl : ∀ s, R s s
  trans : ∀ {s t u}, R s t → R t u → R s u
  assign : ∀ {s t : Scope} {name type}, R s t → s.lookup name = some type →
    R s (t.assign name type).2

theorem steady_same : Steady Same where
  refl s := rfl
  trans h h' := h'.trans h
  assign h hname := by
    rw [h]
    exact Scope.assign_of_lookup hname

theorem steady_extends : Steady Scope.Extends where
  refl := Scope.Extends.refl
  trans := Scope.Extends.trans
  assign := Scope.Extends.assign

theorem Moves.bind (hR : Steady R) {c : Checker α} {f : α → Checker β} (hc : Moves R c)
    (hf : ∀ a, Moves R (f a)) : Moves R (c >>= f) := by
  intro s
  have hs := hc s
  cases h : c s with
  | ok a t =>
    rw [h] at hs
    rw [bind_of_ok h]
    exact hR.trans hs (hf a t)
  | error e t =>
    rw [h] at hs
    rw [bind_of_error h]
    exact hs

theorem moves_pure (hR : Steady R) (a : α) : Moves R (pure a) := hR.refl

theorem moves_throw (hR : Steady R) (e : Error) : Moves R (throw e : Checker α) := hR.refl

theorem lookup_bind {name : String} {f : Option Ty → Checker α} {s : Scope} :
    (lookup name >>= f) s = f (s.lookup name) s := rfl

theorem moves_lookup (hR : Steady R) (name : String) : Moves R (lookup name) := hR.refl

theorem moves_signature (hR : Steady R) (name : String) (place : Position) :
    Moves R (signature name place) := by
  unfold signature
  apply Moves.bind hR (moves_lookup hR name)
  intro found
  split
  · exact moves_throw hR _
  · exact moves_pure hR _
  · exact moves_throw hR _

/-- Rules either let a check go on or refuse it. -/
theorem moves_guard (hR : Steady R) (c : Prop) [Decidable c] (a : α) (e : Error) :
    Moves R (if c then pure a else throw e) := by
  split
  · exact moves_pure hR a
  · exact moves_throw hR e

theorem moves_requireType (hR : Steady R) (expected : Ty) (value : TypedExpr) :
    Moves R (requireType expected value) := moves_guard hR _ _ _

theorem moves_requireBool (hR : Steady R) (construct : String) (condition : TypedExpr) :
    Moves R (requireBool construct condition) := moves_guard hR _ _ _

theorem moves_unaryType (hR : Steady R) (span : Span) (op : UnaryOp) (operand : TypedExpr) :
    Moves R (unaryType span op operand) := moves_guard hR _ _ _

theorem moves_binaryType (hR : Steady R) (span : Span) (op : BinaryOp) (left right : TypedExpr) :
    Moves R (binaryType span op left right) := by
  unfold binaryType
  split
  · exact moves_guard hR _ _ _
  · apply Moves.bind hR (moves_signature hR op.text span.start)
    intro found
    exact moves_guard hR _ _ _

theorem moves_statedType (hR : Steady R) (ascription : Option Ascription) (value : TypedExpr) :
    Moves R (statedType ascription value) := by
  unfold statedType
  split
  · exact moves_pure hR _
  · split
    · exact moves_throw hR _
    · exact Moves.bind hR (moves_requireType hR _ value) fun _ => moves_pure hR _

theorem moves_requireFirst (hR : Steady R) (params : List Ty) (arguments : List TypedExpr) :
    Moves R (requireFirst params arguments) := by
  unfold requireFirst
  split
  · exact moves_requireType hR _ _
  · exact moves_pure hR _

theorem moves_declare (name : String) (type : Ty) :
    Moves Scope.Extends (modify (·.declare name type)) :=
  fun s => Scope.extends_declare s name type

/-- A frame of its own hides what happens in it. -/
theorem inFrame_eq_settled {inner : Checker α} (h : Moves Scope.Extends inner) (s : Scope) :
    inFrame inner s = settled s (inner s.push) := by
  -- Whatever the inner check declares stands in the frame that is closed behind it.
  have hpop : (endState (inner s.push)).pop = s := (h s.push).pop
  unfold inFrame
  cases hs : inner s.push with
  | ok a t =>
    rw [hs] at hpop
    exact congrArg (EStateM.Result.ok a) hpop
  | error e t =>
    rw [hs] at hpop
    exact congrArg (EStateM.Result.error e) hpop

theorem moves_inFrame (hR : Steady R) {inner : Checker α} (h : Moves Scope.Extends inner) :
    Moves R (inFrame inner) := by
  intro s
  rw [inFrame_eq_settled h, endState_settled]
  exact hR.refl s

end Checker

open Checker

attribute [local simp] check checkAll

/-- A typed name comes from the same name. -/
theorem check_eq_identifier {e : Expr} {label : Typed} {name : String} {s t : Scope}
    (h : check e s = .ok (.identifier label name) t) : ∃ span, e = .identifier span name := by
  cases e with
  | identifier span x =>
    refine ⟨span, ?_⟩
    rw [check, bind_eq_ok] at h
    obtain ⟨found, u, -, h⟩ := h
    cases found with
    | none => cases h
    | some type => cases h; rfl
  | block span ss r =>
    rw [check] at h
    unfold inFrame at h
    split at h
    · rename_i typed u hu
      cases h
      rw [bind_eq_ok] at hu
      obtain ⟨_, _, -, hu⟩ := hu
      rw [bind_eq_ok] at hu
      obtain ⟨_, _, -, hu⟩ := hu
      cases hu
    · cases h
  | _ =>
    rw [check] at h
    repeat' first | rw [bind_eq_ok] at h; obtain ⟨_, _, -, h⟩ := h | split at h
    all_goals cases h

/-- What an assignment does behind its target. -/
def assignTo (span : Span) (right : Expr) (left : TypedExpr) : Checker TypedExpr := do
  let value ← check right
  requireType left.type value
  recordAssignment value.type left
  return .assignment ⟨span, value.type⟩ left value

theorem check_assignment (span : Span) (left right : Expr) :
    check (.assignment span left right) = target left (check left) >>= assignTo span right := by
  rw [check]
  rfl

theorem target_of_ne_identifier {left : Expr} (h : ∀ place name, left ≠ .identifier place name)
    (checked : Checker TypedExpr) : target left checked = checked := by
  cases left with
  | identifier place name => exact absurd rfl (h place name)
  | _ => rfl

theorem target_of_lookup {s : Scope} {place : Span} {name : String} {type : Ty}
    (h : s.lookup name = some type) {checked : Checker TypedExpr} :
    target (.identifier place name) checked s = .ok (.identifier ⟨place, type⟩ name) s := by
  rw [target, lookup_bind, h]
  rfl

theorem target_of_lookup_none {s : Scope} {place : Span} {name : String}
    (h : s.lookup name = none) {checked : Checker TypedExpr} :
    target (.identifier place name) checked s = .error ⟨.notDeclared name, place.start⟩ s := by
  rw [target, lookup_bind, h]
  rfl

theorem type_identifier {place : Span} {name : String} {type : Ty} :
    TypedExpr.type (.identifier ⟨place, type⟩ name) = type := rfl

theorem requireType_of_eq {s : Scope} {type : Ty} {value : TypedExpr} (h : value.type = type) :
    requireType type value s = .ok () s := by
  unfold requireType
  rw [if_pos h]
  rfl

theorem requireType_of_ne {s : Scope} {type : Ty} {value : TypedExpr} (h : value.type ≠ type) :
    requireType type value s = .error ⟨.typeMismatch type value.type, value.start⟩ s := by
  unfold requireType
  rw [if_neg h]
  rfl

theorem recordAssignment_of_ne_identifier {left : TypedExpr}
    (h : ∀ label name, left ≠ .identifier label name) (type : Ty) :
    recordAssignment type left = pure () := by
  cases left with
  | identifier label name => exact absurd rfl (h label name)
  | _ => rfl

/-- A target that is not a bare name has a typed tree that is none either. -/
theorem typed_ne_identifier {e : Expr} (he : ∀ place name, e ≠ .identifier place name)
    {typed : TypedExpr} {s t : Scope} (h : check e s = .ok typed t) (label : Typed)
    (name : String) : typed ≠ .identifier label name := by
  rintro rfl
  obtain ⟨place, rfl⟩ := check_eq_identifier h
  exact he place name rfl

section Assignment

variable {R : Scope → Scope → Prop} {s : Scope} {span : Span} {right : Expr}

/-- A name has the type that it had before the value was checked, so that it gets it again. -/
theorem moves_assignTo_identifier (hR : Steady R) (hright : Moves R (check right))
    {place : Span} {name : String} {type : Ty} (hfound : s.lookup name = some type) :
    R s (endState (assignTo span right (.identifier ⟨place, type⟩ name) s)) := by
  unfold assignTo
  have hs := hright s
  cases hc : check right s with
  | error e t =>
    rw [hc] at hs
    rw [bind_of_error hc]
    exact hs
  | ok value t =>
    rw [hc] at hs
    rw [bind_of_ok hc]
    -- The value may have added names to the innermost frame; this one keeps its old type.
    by_cases htype : value.type = type
    · rw [type_identifier, bind_of_ok (requireType_of_eq htype), htype]
      exact hR.assign hs hfound
    · rw [type_identifier, bind_of_error (requireType_of_ne htype)]
      exact hs

/-- Where no name is assigned to, nothing is recorded. -/
theorem moves_assignTo (hR : Steady R) (hright : Moves R (check right)) {left : TypedExpr}
    (h : ∀ label name, left ≠ .identifier label name) : Moves R (assignTo span right left) := by
  apply Moves.bind hR hright
  intro value
  apply Moves.bind hR (moves_requireType hR _ value)
  intro _
  rw [recordAssignment_of_ne_identifier h]
  exact moves_pure hR _

/-- An assignment gives a name the type that it had before its value was checked. -/
theorem moves_assignment (hR : Steady R) (span : Span) {left : Expr}
    (hleft : Moves R (check left)) (hright : Moves R (check right)) :
    Moves R (check (.assignment span left right)) := by
  rw [check_assignment]
  -- A bare name is looked up before the value is checked; any other target is checked as it stands.
  by_cases hname : ∃ place name, left = .identifier place name
  · obtain ⟨place, name, rfl⟩ := hname
    intro s
    cases hfound : s.lookup name with
    | none =>
      rw [bind_of_error (target_of_lookup_none hfound)]
      exact hR.refl s
    | some type =>
      rw [bind_of_ok (target_of_lookup hfound)]
      exact moves_assignTo_identifier hR hright hfound
  · have hne : ∀ place name, left ≠ .identifier place name := fun place name h =>
      hname ⟨place, name, h⟩
    rw [target_of_ne_identifier hne]
    intro s
    have hs := hleft s
    cases hc : check left s with
    | error e t =>
      rw [hc] at hs
      rw [bind_of_error hc]
      exact hs
    | ok typed t =>
      rw [hc] at hs
      rw [bind_of_ok hc]
      exact hR.trans hs (moves_assignTo hR hright (typed_ne_identifier hne hc) t)

end Assignment

section Nodes

variable {R : Scope → Scope → Prop} {span : Span}

theorem moves_literal (hR : Steady R) (value : Literal) :
    Moves R (check (.literal span value)) := by
  rw [check]
  exact moves_pure hR _

theorem moves_identifier (hR : Steady R) (name : String) :
    Moves R (check (.identifier span name)) := by
  rw [check]
  apply Moves.bind hR (moves_lookup hR name)
  intro found
  split
  · exact moves_throw hR _
  · exact moves_pure hR _

theorem moves_binary (hR : Steady R) (op : BinaryOp) {left right : Expr}
    (hleft : Moves R (check left)) (hright : Moves R (check right)) :
    Moves R (check (.binary span op left right)) := by
  rw [check]
  apply hleft.bind hR
  intro left
  apply hright.bind hR
  intro right
  exact (moves_binaryType hR span op left right).bind hR fun _ => moves_pure hR _

theorem moves_unary (hR : Steady R) (op : UnaryOp) {operand : Expr}
    (h : Moves R (check operand)) : Moves R (check (.unary span op operand)) := by
  rw [check]
  apply h.bind hR
  intro operand
  exact (moves_unaryType hR span op operand).bind hR fun _ => moves_pure hR _

theorem moves_ifThen (hR : Steady R) {condition consequent : Expr}
    (hc : Moves R (check condition)) (ht : Moves R (check consequent)) :
    Moves R (check (.ifThen span condition consequent)) := by
  rw [check]
  apply hc.bind hR
  intro condition
  apply (moves_requireBool hR "if" condition).bind hR
  intro _
  exact ht.bind hR fun _ => moves_pure hR _

theorem moves_ifThenElse (hR : Steady R) {condition consequent alternative : Expr}
    (hc : Moves R (check condition)) (ht : Moves R (check consequent))
    (he : Moves R (check alternative)) :
    Moves R (check (.ifThenElse span condition consequent alternative)) := by
  rw [check]
  apply hc.bind hR
  intro condition
  apply (moves_requireBool hR "if" condition).bind hR
  intro _
  apply ht.bind hR
  intro consequent
  apply he.bind hR
  intro alternative
  exact moves_guard hR _ _ _

theorem moves_loop (hR : Steady R) {condition body : Expr} (hc : Moves R (check condition))
    (hb : Moves R (check body)) : Moves R (check (.loop span condition body)) := by
  rw [check]
  apply hc.bind hR
  intro condition
  apply (moves_requireBool hR "while" condition).bind hR
  intro _
  exact hb.bind hR fun _ => moves_pure hR _

theorem moves_block (hR : Steady R) {statements : List Expr} {result : Expr}
    (hs : Moves Scope.Extends (checkAll statements)) (hr : Moves Scope.Extends (check result)) :
    Moves R (check (.block span statements result)) := by
  rw [check]
  apply moves_inFrame hR
  apply hs.bind steady_extends
  intro statements
  exact hr.bind steady_extends fun _ => moves_pure steady_extends _

theorem moves_declaration (name : Identifier) (ascription : Option Ascription) {value : Expr}
    (h : Moves Scope.Extends (check value)) :
    Moves Scope.Extends (check (.declaration span name ascription value)) := by
  rw [check]
  apply h.bind steady_extends
  intro value
  apply (moves_statedType steady_extends ascription value).bind steady_extends
  intro stated
  exact (moves_declare name.name value.type).bind steady_extends fun _ =>
    moves_pure steady_extends _

theorem moves_call (hR : Steady R) (callee : Identifier) {arguments : List Expr}
    (h : Moves R (checkAll arguments)) : Moves R (check (.call span callee arguments)) := by
  rw [check]
  apply (moves_signature hR callee.name callee.span.start).bind hR
  intro signature
  apply h.bind hR
  intro arguments
  exact (moves_requireFirst hR _ arguments).bind hR fun _ => moves_pure hR _

theorem moves_nil (hR : Steady R) : Moves R (checkAll []) := by
  rw [checkAll]
  exact moves_pure hR _

theorem moves_cons (hR : Steady R) {e : Expr} {es : List Expr} (he : Moves R (check e))
    (hes : Moves R (checkAll es)) : Moves R (checkAll (e :: es)) := by
  rw [checkAll]
  apply he.bind hR
  intro first
  exact hes.bind hR fun _ => moves_pure hR _

end Nodes

mutual

/-- Wherever declarations stand, they reach no frame but the innermost one. -/
theorem check_extends : ∀ e : Expr, Moves Scope.Extends (check e)
  | .literal _ value => moves_literal steady_extends value
  | .identifier _ name => moves_identifier steady_extends name
  | .binary _ op left right =>
    moves_binary steady_extends op (check_extends left) (check_extends right)
  | .unary _ op operand => moves_unary steady_extends op (check_extends operand)
  | .ifThen _ condition consequent =>
    moves_ifThen steady_extends (check_extends condition) (check_extends consequent)
  | .ifThenElse _ condition consequent alternative =>
    moves_ifThenElse steady_extends (check_extends condition) (check_extends consequent)
      (check_extends alternative)
  | .loop _ condition body =>
    moves_loop steady_extends (check_extends condition) (check_extends body)
  | .block _ statements result =>
    moves_block steady_extends (checkAll_extends statements) (check_extends result)
  | .declaration _ name ascription value => moves_declaration name ascription (check_extends value)
  | .assignment span left right =>
    moves_assignment steady_extends span (check_extends left) (check_extends right)
  | .call _ callee arguments => moves_call steady_extends callee (checkAll_extends arguments)

theorem checkAll_extends : ∀ es : List Expr, Moves Scope.Extends (checkAll es)
  | [] => moves_nil steady_extends
  | e :: es => moves_cons steady_extends (check_extends e) (checkAll_extends es)

end

/-- What happens in the frame of a block. -/
theorem blockBody_extends (span : Span) (statements : List Expr) (result : Expr) :
    Moves Scope.Extends (do
      let statements ← checkAll statements
      let result ← check result
      return .block ⟨span, result.type⟩ statements result : Checker TypedExpr) :=
  (checkAll_extends statements).bind steady_extends fun _ =>
    (check_extends result).bind steady_extends fun _ => moves_pure steady_extends _

mutual

/-- Where no declaration stands outside of blocks, nothing reaches any frame. -/
theorem check_same : ∀ e : Expr, e.placed false = true → Moves Same (check e)
  | .literal _ value, _ => moves_literal steady_same value
  | .identifier _ name, _ => moves_identifier steady_same name
  | .binary _ op left right, h => by
    simp only [Tree.placed, Bool.and_eq_true] at h
    exact moves_binary steady_same op (check_same left h.1) (check_same right h.2)
  | .unary _ op operand, h => moves_unary steady_same op (check_same operand h)
  | .ifThen _ condition consequent, h => by
    simp only [Tree.placed, Bool.and_eq_true] at h
    exact moves_ifThen steady_same (check_same condition h.1) (check_same consequent h.2)
  | .ifThenElse _ condition consequent alternative, h => by
    simp only [Tree.placed, Bool.and_eq_true] at h
    exact moves_ifThenElse steady_same (check_same condition h.1.1) (check_same consequent h.1.2)
      (check_same alternative h.2)
  | .loop _ condition body, h => by
    simp only [Tree.placed, Bool.and_eq_true] at h
    exact moves_loop steady_same (check_same condition h.1) (check_same body h.2)
  | .block _ statements result, _ =>
    moves_block steady_same (checkAll_extends statements) (check_extends result)
  | .declaration _ name ascription value, h => by
    simp only [Tree.placed, Bool.false_and, Bool.false_eq_true] at h
  | .assignment span left right, h => by
    simp only [Tree.placed, Bool.and_eq_true] at h
    exact moves_assignment steady_same span (check_same left h.1) (check_same right h.2)
  | .call _ callee arguments, h => moves_call steady_same callee (checkAll_same arguments h)

theorem checkAll_same : ∀ es : List Expr, Tree.placedAll false es = true →
    Moves Same (checkAll es)
  | [], _ => moves_nil steady_same
  | e :: es, h => by
    simp only [Tree.placedAll, Bool.and_eq_true] at h
    exact moves_cons steady_same (check_same e h.1) (checkAll_same es h.2)

end

section Results

variable {s t : Scope} {e : Expr} {error : Error}

theorem scope_of_check (he : e.placed false = true) {typed : TypedExpr}
    (h : check e s = .ok typed t) : t = s := by
  have hs := check_same e he s
  rw [h] at hs
  exact hs

theorem scope_of_check_error (he : e.placed false = true) (h : check e s = .error error t) :
    t = s := by
  have hs := check_same e he s
  rw [h] at hs
  exact hs

/-- What a declaration adds to the scope: its name with the type of its value. -/
theorem check_declaration {span : Span} {name : Identifier} {ascription : Option Ascription}
    {value : Expr} (hv : value.placed false = true) {typed : TypedExpr} :
    check (.declaration span name ascription value) s = .ok typed t ↔
      ∃ value' stated, check value s = .ok value' s ∧
        statedType ascription value' s = .ok stated s ∧
        typed = .declaration ⟨span, value'.type⟩ name stated value' ∧
        t = s.declare name.name value'.type := by
  rw [check, bind_eq_ok]
  constructor
  · rintro ⟨value', u, hvalue, h⟩
    obtain rfl := scope_of_check hv hvalue
    rw [bind_eq_ok] at h
    obtain ⟨stated, w, hstated, h⟩ := h
    have hw : Same u w := by
      have := moves_statedType steady_same ascription value' u
      rwa [hstated] at this
    cases hw
    cases h
    exact ⟨value', stated, hvalue, hstated, rfl, rfl⟩
  · rintro ⟨value', stated, hvalue, hstated, rfl, rfl⟩
    refine ⟨value', s, hvalue, ?_⟩
    rw [bind_of_ok hstated]
    rfl

theorem check_declaration_error {span : Span} {name : Identifier}
    {ascription : Option Ascription} {value : Expr} (hv : value.placed false = true)
    (h : check (.declaration span name ascription value) s = .error error t) : t = s := by
  rw [check] at h
  cases hvalue : check value s with
  | error e u =>
    rw [bind_of_error hvalue] at h
    cases h
    exact scope_of_check_error hv hvalue
  | ok value' u =>
    obtain rfl := scope_of_check hv hvalue
    rw [bind_of_ok hvalue] at h
    have hsame := moves_statedType steady_same ascription value' u
    cases hstated : statedType ascription value' u with
    | error e w =>
      rw [bind_of_error hstated] at h
      rw [hstated] at hsame
      cases h
      exact hsame
    | ok stated w =>
      rw [bind_of_ok hstated] at h
      cases h

/-- Checking leaves the scopes as it found them. Whatever the tree, only the innermost frame can
change; if declarations stand only at the root and directly in blocks, it changes only by the name
that the root declares, and not at all where checking fails. -/
theorem check_preserves_scope (e : Expr) (s : Scope) (hs : 0 < s.depth) :
    (endState (check e s)).depth = s.depth ∧ (endState (check e s)).base = s.base ∧
      (endState (check e s)).frames.tail = s.frames.tail ∧
      (e.placed true = true →
        (∀ error t, check e s = .error error t → t = s) ∧
          ∀ typed t, check e s = .ok typed t →
            match e, typed with
            | .declaration _ name _ _, .declaration _ _ _ value =>
              t = s.declare name.name value.label.type ∧
                (∀ x, t.lookup x =
                  if x = name.name then some value.label.type else s.lookup x) ∧
                ∃ frame ∈ s.frames.head?, ∃ frame' ∈ t.frames.head?, ∀ x,
                  frame'.get? x = if x = name.name then some value.label.type else frame.get? x
            | .declaration .., _ => False
            | _, _ => t = s) := by
  obtain ⟨frame, outer, hframes⟩ := List.exists_cons_of_length_pos hs
  -- Whatever the tree, the scope ends with the frames that it had below the innermost one.
  obtain ⟨frame', hend, -⟩ := check_extends e s frame outer hframes
  refine ⟨?_, ?_, ?_, fun he => ⟨fun error t h => ?_, fun typed t h => ?_⟩⟩
  · rw [hend, Scope.depth, Scope.depth, hframes]
    rfl
  · rw [hend]
  · rw [hend, hframes]
    rfl
  · cases hd : e.isDeclaration with
    | false => exact scope_of_check_error (Tree.placed_false he hd) h
    | true =>
      cases e with
      | declaration span name ascription value => exact check_declaration_error he h
      | _ => cases hd
  · cases e with
    | declaration span name ascription value =>
      obtain ⟨value', stated, -, -, rfl, rfl⟩ := (check_declaration he).1 h
      refine ⟨rfl, s.lookup_declare name.name value'.type, frame, by simp [hframes],
        frame.insert name.name value'.type, by simp [Scope.declare, hframes], ?_⟩
      exact frame.get?_insert name.name value'.type
    | _ => exact scope_of_check (Tree.placed_false he rfl) h

/-- A declaration hides a name of the outer frame. A check that fails behind the declaration of a
block leaves both frames alone. -/
theorem check_preserves_scope_declaration :
    let one : Expr := .literal .null (.int 1)
    let shadowing : Expr := .declaration .null ⟨"x", .null⟩ none one
    let failing : Expr := .block .null [.declaration .null ⟨"y", .null⟩ none one]
      (.unary .null .not (.identifier .null "y"))
    let inner := Bindings.empty.insert "y" .bool
    let outer := Bindings.empty.insert "x" .unit
    let s : Scope := ⟨builtins, [inner, outer]⟩
    s.lookup "x" = some .unit ∧
      (∃ typed t, check shadowing s = .ok typed t ∧ t.depth = 2 ∧ t.base = builtins ∧
        t.frames.tail = [outer] ∧ t.lookup "x" = some .int ∧ t.lookup "y" = some .bool) ∧
      ∃ error, check failing s = .error error s ∧
        error.cause = .operandMismatch "not" [.bool] [.int] := by
  intro one shadowing failing inner outer s
  have hshadowing : ∃ typed t, check shadowing s = .ok typed t := ⟨_, _, rfl⟩
  have hfailing : ∃ error t, check failing s = .error error t ∧
      error.cause = .operandMismatch "not" [.bool] [.int] := ⟨_, _, rfl, rfl⟩
  obtain ⟨typed, t, hcheck⟩ := hshadowing
  obtain ⟨error, u, herror, hcause⟩ := hfailing
  have hkept := check_preserves_scope shadowing s (by decide)
  obtain ⟨hfailed, -⟩ := (check_preserves_scope failing s (by decide)).2.2.2 rfl
  obtain rfl := hfailed error u herror
  rw [hcheck] at hkept
  obtain ⟨hdepth, hbase, htail, hplaced⟩ := hkept
  obtain ⟨value', stated, hvalue, -, rfl, -⟩ := (check_declaration rfl).1 hcheck
  have hlookup := ((hplaced rfl).2 _ t rfl).2.1
  refine ⟨rfl, ⟨_, t, hcheck, hdepth, hbase, htail, ?_, ?_⟩, error, herror, hcause⟩
  · rw [hlookup, if_pos rfl]
    cases hvalue
    rfl
  · rw [hlookup, if_neg (by decide)]
    rfl

end Results

end ExprLang
