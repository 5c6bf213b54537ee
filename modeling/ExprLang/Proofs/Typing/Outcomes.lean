import ExprLang.Proofs.Nodes
import ExprLang.Proofs.Typing.Effects
import ExprLang.Proofs.Typing.Positions

/-!
What comes out of a check. Main statement: the typed tree is the tree that was checked, and at every
node of it the types fit.
-/

namespace ExprLang

open ExprLang.Sequence

/-- The name that is at fault, if it is a name. -/
def Cause.blamed : Cause → Option String
  | .notDefined name | .notDeclared name | .notFunction name _ => some name
  | _ => none

namespace TypedExpr

/-- Does the type of a node fit those of its parts, as far as no scope is asked? -/
def Consistent : TypedExpr → Prop
  | .literal label (.int _) => label.type = .int
  | .literal label (.bool _) => label.type = .bool
  | .literal label .unit => label.type = .unit
  | .identifier .. | .call .. => True
  | .binary label op left right =>
    op = .equals ∨ op = .notEquals → label.type = .bool ∧ type left = type right
  | .unary label .negate operand => label.type = .int ∧ type operand = .int
  | .unary label .not operand => label.type = .bool ∧ type operand = .bool
  | .ifThen label condition consequent => label.type = type consequent ∧ type condition = .bool
  | .ifThenElse label condition consequent alternative =>
    label.type = type consequent ∧ type condition = .bool ∧ type alternative = type consequent
  | .loop label condition _ => label.type = .unit ∧ type condition = .bool
  | .block label _ result => label.type = type result
  | .declaration label _ stated value => label.type = type value ∧ ∀ t ∈ stated, t = type value
  | .assignment label target value => label.type = type target ∧ label.type = type value

/-- Does a scope with the property `I` give a node the type that it has? -/
def Resolved (I : Scope → Prop) : TypedExpr → Prop
  | .identifier label name => ∃ s, I s ∧ s.lookup name = some label.type
  | .binary label op left right => op.isEquality = false →
    ∃ s, I s ∧ s.lookup op.text = some (.function [type left, type right] label.type)
  | .call label callee _ =>
    ∃ s params, I s ∧ s.lookup callee.name = some (.function params label.type)
  | _ => True

end TypedExpr

open ExprLang.TypedExpr (Consistent Resolved)

/-- A typed tree of an expression: the same tree but for the types, each ascription with the type
that it stands for, and every node with a type that fits its parts and the scopes with `I`. -/
structure Elaborates (I : Scope → Prop) (e : Expr) (typed : TypedExpr) : Prop where
  untyped : typed.map Typed.span id Except.ok = e.map id id Ascription.type
  fits : ∀ n ∈ typed.nodes, Consistent n ∧ Resolved I n

structure ElaboratesAll (I : Scope → Prop) (es : List Expr) (typed : List TypedExpr) : Prop where
  untyped : Tree.mapAll Typed.span id Except.ok typed = Tree.mapAll id id Ascription.type es
  fits : ∀ n ∈ Tree.nodesAll typed, Consistent n ∧ Resolved I n

namespace Checker

variable {α β : Type} {I : Scope → Prop} {B : String → Prop} {Q : α → Prop} {R : β → Prop}

/-- The checker keeps the property `I` of scopes. What it answers is as `Q` says, and if it fails it
blames no name but those in `B`. -/
def Ensures (I : Scope → Prop) (B : String → Prop) (Q : α → Prop) (c : Checker α) : Prop :=
  ∀ s, I s → match c s with
    | .ok a t => Q a ∧ I t
    | .error e t => (∀ x ∈ e.cause.blamed, B x) ∧ I t

/-- Properties of scopes that are kept by opening a frame, and by giving a name a type that it had
in a scope with the property. -/
structure Stable (I : Scope → Prop) : Prop where
  push : ∀ s, I s → I s.push
  assign : ∀ s t name type, I s → I t → s.lookup name = some type → I (t.assign name type).2

/-- What a node has to grant for its check to keep `I` and to blame none but `B`. -/
def Grants (I : Scope → Prop) (B : String → Prop) : Expr → Prop
  | .identifier _ name => B name
  | .binary _ op _ _ => op.isEquality = false → ∀ s, I s →
    (∃ params result, s.lookup op.text = some (.function params result)) ∨ B op.text
  | .call _ callee _ => B callee.name
  | .declaration _ name _ _ => ∀ s type, I s → I (s.declare name.name type)
  | _ => True

theorem Ensures.bind {c : Checker α} {f : α → Checker β} (hc : Ensures I B Q c)
    (hf : ∀ a, Q a → Ensures I B R (f a)) : Ensures I B R (c >>= f) := by
  intro s hs
  have hcs := hc s hs
  cases h : c s with
  | ok a t =>
    rw [h] at hcs
    rw [bind_of_ok h]
    exact hf a hcs.1 t hcs.2
  | error e t =>
    rw [h] at hcs
    rw [bind_of_error h]
    exact hcs

theorem ensures_pure {a : α} (h : Q a) : Ensures I B Q (pure a) := fun _ hs => ⟨h, hs⟩

theorem ensures_throw {cause : Cause} {place : Position} (h : ∀ x ∈ cause.blamed, B x) :
    Ensures I B Q (throw ⟨cause, place⟩) := fun _ hs => ⟨h, hs⟩

/-- Rules either let a check go on or refuse it. -/
theorem ensures_guard (c : Prop) [Decidable c] {a : α} {cause : Cause} {place : Position}
    (ha : c → Q a) (hcause : cause.blamed = none) :
    Ensures I B Q (if c then pure a else throw ⟨cause, place⟩) := by
  split
  · exact ensures_pure (ha ‹_›)
  · apply ensures_throw
    simp [hcause]

theorem ensures_lookup (name : String) :
    Ensures I B (fun found => ∃ s, I s ∧ s.lookup name = found) (lookup name) :=
  fun s hs => ⟨⟨s, hs, rfl⟩, hs⟩

theorem ensures_signature {name : String} (place : Position) (h : ∀ s, I s →
      (∃ params result, s.lookup name = some (.function params result)) ∨ B name) :
    Ensures I B (fun x => ∃ s, I s ∧ s.lookup name = some (.function x.1 x.2))
      (signature name place) := by
  refine (ensures_lookup name).bind fun found hfound => ?_
  obtain ⟨s, hs, rfl⟩ := hfound
  -- A name that is no function there may be blamed.
  have hblamed (hno : ∀ params result, s.lookup name ≠ some (.function params result)) :
      B name := by
    rcases h s hs with ⟨params, result, hname⟩ | hname
    · exact absurd hname (hno params result)
    · exact hname
  split
  next hnone =>
    apply ensures_throw
    simpa [Cause.blamed] using hblamed (by simp [hnone])
  next hname => exact ensures_pure ⟨s, hs, hname⟩
  next found hno hname =>
    apply ensures_throw
    simpa [Cause.blamed] using hblamed (by simpa [hname] using hno)

theorem ensures_binaryType (span : Span) {op : BinaryOp} (left right : TypedExpr)
    (h : op.isEquality = false → ∀ s, I s →
      (∃ params result, s.lookup op.text = some (.function params result)) ∨ B op.text) :
    Ensures I B (fun t => Consistent (.binary ⟨span, t⟩ op left right) ∧
      Resolved I (.binary ⟨span, t⟩ op left right)) (binaryType span op left right) := by
  unfold binaryType
  cases hop : op.isEquality with
  | true =>
    rw [if_pos rfl]
    exact ensures_guard _ (fun htype => ⟨fun _ => ⟨rfl, htype⟩, by simp [Resolved, hop]⟩) rfl
  | false =>
    rw [if_neg Bool.false_ne_true]
    refine (ensures_signature span.start (h hop)).bind fun x hx => ?_
    obtain ⟨s, hs, hname⟩ := hx
    refine ensures_guard _ (fun hparams => ⟨fun heq => ?_, fun _ => ⟨s, hs, ?_⟩⟩) rfl
    · rcases heq with rfl | rfl <;> simp [BinaryOp.isEquality] at hop
    · rw [hname, hparams]

theorem ensures_unaryType (span : Span) (op : UnaryOp) (operand : TypedExpr) :
    Ensures I B (fun t => Consistent (.unary ⟨span, t⟩ op operand)) (unaryType span op operand) :=
  ensures_guard _ (fun h => by cases op <;> exact ⟨rfl, h⟩) rfl

theorem ensures_requireBool (construct : String) (condition : TypedExpr) :
    Ensures I B (fun _ => condition.type = .bool) (requireBool construct condition) :=
  ensures_guard _ id rfl

theorem ensures_requireType (expected : Ty) (value : TypedExpr) :
    Ensures I B (fun _ => value.type = expected) (requireType expected value) :=
  ensures_guard _ id rfl

theorem ensures_statedType (ascription : Option Ascription) (value : TypedExpr) :
    Ensures I B (fun stated => stated.map Except.ok = ascription.map Ascription.type ∧
      ∀ t ∈ stated, t = value.type) (statedType ascription value) := by
  unfold statedType
  split
  next => exact ensures_pure ⟨rfl, by simp⟩
  next ascription =>
    split
    next e he =>
      obtain ⟨-, name, hcause⟩ := Ascription.error_of_type he
      exact fun s hs => ⟨by simp [hcause, Cause.blamed], hs⟩
    next stated hstated =>
      refine (ensures_requireType stated value).bind fun _ htype => ensures_pure ⟨?_, ?_⟩
      · simp [hstated]
      · simp [htype]

theorem ensures_requireFirst (params : List Ty) (arguments : List TypedExpr) :
    Ensures I B (fun _ => True) (requireFirst params arguments) := by
  unfold requireFirst
  split
  · exact ensures_guard _ (fun _ => trivial) rfl
  · exact ensures_pure trivial

theorem ensures_declare {name : String} (h : ∀ s type, I s → I (s.declare name type))
    (type : Ty) : Ensures I B (fun _ => True) (modify (·.declare name type)) :=
  fun s hs => ⟨trivial, h s type hs⟩

/-- A name that is recorded has the type that it was found with. -/
theorem ensures_recordAssignment (hI : Stable I) {left : TypedExpr} (h : Resolved I left) :
    Ensures I B (fun _ => True) (recordAssignment left.type left) := by
  unfold recordAssignment
  split
  next label name =>
    obtain ⟨s, hs, hname⟩ := h
    exact fun t ht => ⟨trivial, hI.assign s t name _ hs ht hname⟩
  next => exact ensures_pure trivial

/-- A frame of its own is closed again, whatever happened in it. -/
theorem ensures_inFrame (hI : Stable I) {inner : Checker α} (hinner : Moves Scope.Extends inner)
    (h : Ensures I B Q inner) : Ensures I B Q (inFrame inner) := by
  intro s hs
  have hpush := h s.push (hI.push s hs)
  rw [inFrame_eq_settled hinner]
  cases hc : inner s.push with
  | ok a t =>
    rw [hc] at hpush
    exact ⟨hpush.1, hs⟩
  | error e t =>
    rw [hc] at hpush
    exact ⟨hpush.1, hs⟩

/-- A name is typed as it is found, or `cause` refuses it. -/
theorem ensures_name (span : Span) (name : String) {cause : Cause}
    (hcause : ∀ x ∈ cause.blamed, B x) :
    Ensures I B (Elaborates I (.identifier span name)) (do
      match ← lookup name with
      | none => throw ⟨cause, span.start⟩
      | some t => return .identifier ⟨span, t⟩ name) := by
  refine (ensures_lookup name).bind fun found hfound => ?_
  obtain ⟨s, hs, rfl⟩ := hfound
  split
  next => exact ensures_throw hcause
  next t hname =>
    refine ensures_pure ⟨rfl, ?_⟩
    simpa [Tree.nodes, Consistent, Resolved] using ⟨s, hs, hname⟩

/-- A bare name that is assigned to is typed as it would be anywhere else. -/
theorem ensures_target {left : Expr} {checked : Checker TypedExpr}
    (h : ∀ n ∈ left.nodes, Grants I B n) (hchecked : Ensures I B (Elaborates I left) checked) :
    Ensures I B (Elaborates I left) (target left checked) := by
  cases left with
  | identifier span name =>
    have hname : B name := h _ (Tree.self_mem_nodes _)
    exact ensures_name span name (by simpa [Cause.blamed] using hname)
  | _ => exact hchecked

mutual

/-- Whatever property of scopes a check keeps, the typed tree is as scopes with that property have
it. -/
theorem ensures_check (hI : Stable I) : ∀ e : Expr, (∀ n ∈ e.nodes, Grants I B n) →
    Ensures I B (Elaborates I e) (check e)
  | .literal span value, _ => by
    rw [check]
    refine ensures_pure ⟨rfl, ?_⟩
    cases value <;> simp [Tree.nodes, Consistent, Resolved, Literal.type]
  | .identifier span name, h => by
    have hname : B name := h _ (Tree.self_mem_nodes _)
    rw [check]
    exact ensures_name span name (by simpa [Cause.blamed] using hname)
  | .binary span op left right, h => by
    simp only [Tree.nodes, List.forall_mem_cons, List.forall_mem_append] at h
    rw [check]
    refine (ensures_check hI left h.2.1).bind fun l hl => ?_
    refine (ensures_check hI right h.2.2).bind fun r hr => ?_
    refine (ensures_binaryType span l r h.1).bind fun t ht => ensures_pure ⟨?_, ?_⟩
    · simp [Tree.map, hl.untyped, hr.untyped]
    · simp only [Tree.nodes, List.forall_mem_cons, List.forall_mem_append]
      exact ⟨ht, hl.fits, hr.fits⟩
  | .unary span op operand, h => by
    simp only [Tree.nodes, List.forall_mem_cons] at h
    rw [check]
    refine (ensures_check hI operand h.2).bind fun a ha => ?_
    refine (ensures_unaryType span op a).bind fun t ht => ensures_pure ⟨?_, ?_⟩
    · simp [Tree.map, ha.untyped]
    · simp only [Tree.nodes, List.forall_mem_cons]
      exact ⟨⟨ht, trivial⟩, ha.fits⟩
  | .ifThen span condition consequent, h => by
    simp only [Tree.nodes, List.forall_mem_cons, List.forall_mem_append] at h
    rw [check]
    refine (ensures_check hI condition h.2.1).bind fun c hc => ?_
    refine (ensures_requireBool "if" c).bind fun _ hbool => ?_
    refine (ensures_check hI consequent h.2.2).bind fun a ha => ensures_pure ⟨?_, ?_⟩
    · simp [Tree.map, hc.untyped, ha.untyped]
    · simp only [Tree.nodes, List.forall_mem_cons, List.forall_mem_append]
      exact ⟨⟨⟨rfl, hbool⟩, trivial⟩, hc.fits, ha.fits⟩
  | .ifThenElse span condition consequent alternative, h => by
    simp only [Tree.nodes, List.forall_mem_cons, List.forall_mem_append] at h
    rw [check]
    refine (ensures_check hI condition h.2.1).bind fun c hc => ?_
    refine (ensures_requireBool "if" c).bind fun _ hbool => ?_
    refine (ensures_check hI consequent h.2.2.1).bind fun a ha => ?_
    refine (ensures_check hI alternative h.2.2.2).bind fun b hb => ?_
    refine ensures_guard _ (fun htype => ⟨?_, ?_⟩) rfl
    · simp [Tree.map, hc.untyped, ha.untyped, hb.untyped]
    · simp only [Tree.nodes, List.forall_mem_cons, List.forall_mem_append]
      exact ⟨⟨⟨rfl, hbool, htype⟩, trivial⟩, hc.fits, ha.fits, hb.fits⟩
  | .loop span condition body, h => by
    simp only [Tree.nodes, List.forall_mem_cons, List.forall_mem_append] at h
    rw [check]
    refine (ensures_check hI condition h.2.1).bind fun c hc => ?_
    refine (ensures_requireBool "while" c).bind fun _ hbool => ?_
    refine (ensures_check hI body h.2.2).bind fun b hb => ensures_pure ⟨?_, ?_⟩
    · simp [Tree.map, hc.untyped, hb.untyped]
    · simp only [Tree.nodes, List.forall_mem_cons, List.forall_mem_append]
      exact ⟨⟨⟨rfl, hbool⟩, trivial⟩, hc.fits, hb.fits⟩
  | .block span statements result, h => by
    simp only [Tree.nodes, List.forall_mem_cons, List.forall_mem_append] at h
    rw [check]
    apply ensures_inFrame hI (blockBody_extends span statements result)
    refine (ensures_checkAll hI statements h.2.1).bind fun ss hss => ?_
    refine (ensures_check hI result h.2.2).bind fun r hr => ensures_pure ⟨?_, ?_⟩
    · simp [Tree.map, hss.untyped, hr.untyped]
    · simp only [Tree.nodes, List.forall_mem_cons, List.forall_mem_append]
      exact ⟨⟨rfl, trivial⟩, hss.fits, hr.fits⟩
  | .declaration span name ascription value, h => by
    simp only [Tree.nodes, List.forall_mem_cons] at h
    rw [check]
    refine (ensures_check hI value h.2).bind fun v hv => ?_
    refine (ensures_statedType ascription v).bind fun stated hstated => ?_
    refine (ensures_declare h.1 v.type).bind fun _ _ => ensures_pure ⟨?_, ?_⟩
    · simp [Tree.map, hv.untyped, hstated.1]
    · simp only [Tree.nodes, List.forall_mem_cons]
      exact ⟨⟨⟨rfl, hstated.2⟩, trivial⟩, hv.fits⟩
  | .assignment span left right, h => by
    simp only [Tree.nodes, List.forall_mem_cons, List.forall_mem_append] at h
    rw [check]
    refine (ensures_target h.2.1 (ensures_check hI left h.2.1)).bind fun l hl => ?_
    refine (ensures_check hI right h.2.2).bind fun r hr => ?_
    refine (ensures_requireType l.type r).bind fun _ htype => ?_
    have hresolved : Resolved I l := (hl.fits l (Tree.self_mem_nodes l)).2
    rw [htype]
    refine (ensures_recordAssignment hI hresolved).bind fun _ _ => ensures_pure ⟨?_, ?_⟩
    · simp [Tree.map, hl.untyped, hr.untyped]
    · simp only [Tree.nodes, List.forall_mem_cons, List.forall_mem_append]
      exact ⟨⟨⟨rfl, htype.symm⟩, trivial⟩, hl.fits, hr.fits⟩
  | .call span callee arguments, h => by
    simp only [Tree.nodes, List.forall_mem_cons] at h
    rw [check]
    refine (ensures_signature callee.span.start fun _ _ => .inr h.1).bind fun x hx => ?_
    refine (ensures_checkAll hI arguments h.2).bind fun as has => ?_
    refine (ensures_requireFirst x.1 as).bind fun _ _ => ensures_pure ⟨?_, ?_⟩
    · simp [Tree.map, has.untyped]
    · obtain ⟨s, hs, hname⟩ := hx
      simp only [Tree.nodes, List.forall_mem_cons]
      exact ⟨⟨trivial, s, x.1, hs, hname⟩, has.fits⟩

theorem ensures_checkAll (hI : Stable I) : ∀ es : List Expr,
    (∀ n ∈ Tree.nodesAll es, Grants I B n) → Ensures I B (ElaboratesAll I es) (checkAll es)
  | [], _ => by
    rw [checkAll]
    exact ensures_pure ⟨rfl, by simp [Tree.nodesAll]⟩
  | e :: es, h => by
    simp only [Tree.nodesAll, List.forall_mem_append] at h
    rw [checkAll]
    refine (ensures_check hI e h.1).bind fun first hfirst => ?_
    refine (ensures_checkAll hI es h.2).bind fun rest hrest => ensures_pure ⟨?_, ?_⟩
    · simp [Tree.mapAll, hfirst.untyped, hrest.untyped]
    · simp only [Tree.nodesAll, List.forall_mem_append]
      exact ⟨hfirst.fits, hrest.fits⟩

end

theorem stable_true : Stable fun _ => True where
  push _ _ := trivial
  assign _ _ _ _ _ _ _ := trivial

/-- Where any name may be blamed, no more is asked than that declarations keep the property. -/
theorem grants_of_declare (h : ∀ s name type, I s → I (s.declare name type)) (e : Expr) :
    Grants I (fun _ => True) e := by
  cases e with
  | binary => exact fun _ _ _ => .inr trivial
  | declaration _ name => exact fun s type hs => h s name.name type hs
  | _ => trivial

/-- Every node grants that no more is asked of scopes and names than there is. -/
theorem grants_true (e : Expr) : Grants (fun _ => True) (fun _ => True) e :=
  grants_of_declare (fun _ _ _ _ => trivial) e

end Checker

open Checker

/-- The typed tree is the tree that was checked, node by node: what is left without the types is the
same, and a declaration states a type exactly if it has an ascription, and the type that this stands
for. At every node the types fit those of the parts. -/
theorem check_elaborates {e : Expr} {s t : Scope} {typed : TypedExpr}
    (h : check e s = .ok typed t) :
    typed.map Typed.span id Except.ok = e.map id id Ascription.type ∧
      ∀ n ∈ typed.nodes, Consistent n := by
  have hensures := ensures_check stable_true e (fun n _ => grants_true n) s trivial
  rw [h] at hensures
  exact ⟨hensures.1.untyped, fun n hn => (hensures.1.fits n hn).1⟩

/-- A declaration with an ascription, in a block whose result is a conditional. -/
theorem check_elaborates_block :
    let e : Expr := .block .null
      [.declaration .null ⟨"x", .null⟩ (some (.simple "Int" .null))
        (.unary .null .negate (.literal .null (.int 1)))]
      (.ifThenElse .null
        (.binary .null .equals (.identifier .null "x") (.literal .null (.int 1)))
        (.assignment .null (.identifier .null "x") (.literal .null (.int 2)))
        (.call .null ⟨"f", .null⟩ []))
    let s := Scope.ofBase (builtins.insert "f" (.function [] .int))
    ∃ typed t, check e s = .ok typed t ∧ typed.label.type = .int ∧
      typed.map Typed.span id Except.ok = e.map id id Ascription.type ∧
      ∀ n ∈ typed.nodes, Consistent n := by
  intro e s
  have hrun : ∃ typed t, check e s = .ok typed t ∧ typed.label.type = .int := ⟨_, _, rfl, rfl⟩
  obtain ⟨typed, t, hcheck, htype⟩ := hrun
  exact ⟨typed, t, hcheck, htype, check_elaborates hcheck⟩

end ExprLang
