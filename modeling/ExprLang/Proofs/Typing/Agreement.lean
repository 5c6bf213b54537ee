import ExprLang.Proofs.Typing.Effects
import ExprLang.Proofs.Typing.Judgement

/-!
The checker and the judgement agree. Main statement: an expression is checked with a type exactly if
it has that type in the environment that the scope stands for.
-/

namespace ExprLang

open ExprLang.Sequence

namespace Checker

variable {α β : Type} {s u : Scope}

/-- Behind a checker that leaves the scope as it is, the next one starts from the same scope. -/
theorem Moves.bind_eq_ok {c : Checker α} (h : Moves Same c) {f : α → Checker β} {b : β} :
    (c >>= f) s = .ok b u ↔ ∃ a, c s = .ok a s ∧ f a s = .ok b u := by
  rw [Sequence.bind_eq_ok]
  have hs := h s
  constructor
  · rintro ⟨a, t, ha, hf⟩
    rw [ha] at hs
    obtain rfl : t = s := hs
    exact ⟨a, ha, hf⟩
  · rintro ⟨a, ha, hf⟩
    exact ⟨a, s, ha, hf⟩

theorem guard_eq_ok {c : Prop} [Decidable c] {a b : α} {e : Error} :
    (if c then pure a else throw e : Checker α) s = .ok b u ↔ c ∧ b = a ∧ u = s := by
  by_cases h : c
  · rw [if_pos h, pure_eq_ok]
    simp [h]
  · rw [if_neg h]
    constructor
    · intro h'
      cases h'
    · rintro ⟨h', -⟩
      exact absurd h' h

theorem signature_eq_ok {name : String} {place : Position} {x : List Ty × Ty} :
    signature name place s = .ok x s ↔ s.lookup name = some (.function x.1 x.2) := by
  obtain ⟨params, result⟩ := x
  unfold signature
  rw [lookup_bind]
  cases s.lookup name with
  | none => simp [throw_eq_ok]
  | some found =>
    cases found with
    | function ps r =>
      rw [pure_eq_ok]
      simp [eq_comm]
    | _ => simp [throw_eq_ok]

theorem binaryType_eq_ok {span : Span} {op : BinaryOp} {left right : TypedExpr} {t : Ty} :
    binaryType span op left right s = .ok t s ↔
      if op.isEquality then left.type = right.type ∧ t = .bool
      else s.lookup op.text = some (.function [left.type, right.type] t) := by
  unfold binaryType
  by_cases h : op.isEquality = true
  · rw [if_pos h, if_pos h, guard_eq_ok]
    simp
  · rw [if_neg h, if_neg h, (moves_signature steady_same op.text span.start).bind_eq_ok]
    constructor
    · rintro ⟨x, hx, hguard⟩
      obtain ⟨hparams, rfl, -⟩ := guard_eq_ok.1 hguard
      rw [signature_eq_ok, hparams] at hx
      exact hx
    · intro hlookup
      refine ⟨([left.type, right.type], t), signature_eq_ok.2 hlookup, ?_⟩
      exact guard_eq_ok.2 ⟨rfl, rfl, rfl⟩

theorem unaryType_eq_ok {span : Span} {op : UnaryOp} {operand : TypedExpr} {t : Ty} :
    unaryType span op operand s = .ok t s ↔ operand.type = op.type ∧ t = op.type := by
  unfold unaryType
  rw [guard_eq_ok]
  simp

theorem requireBool_eq_ok {construct : String} {condition : TypedExpr} {x : Unit} :
    requireBool construct condition s = .ok x s ↔ condition.type = .bool := by
  unfold requireBool
  rw [guard_eq_ok]
  simp

theorem requireType_eq_ok {expected : Ty} {value : TypedExpr} {x : Unit} :
    requireType expected value s = .ok x s ↔ value.type = expected := by
  unfold requireType
  rw [guard_eq_ok]
  simp

theorem requireFirst_eq_ok {params : List Ty} {arguments : List TypedExpr} {x : Unit} :
    requireFirst params arguments s = .ok x s ↔
      ∀ p ∈ params.head?, ∀ t ∈ (arguments.map TypedExpr.type).head?, t = p := by
  unfold requireFirst
  split
  · rw [requireType_eq_ok]
    simp
  · rename_i hnone
    rw [pure_eq_ok]
    simp only [and_self, true_iff]
    intro p hp t ht
    cases params with
    | nil => cases hp
    | cons q params =>
      cases arguments with
      | nil => cases ht
      | cons a arguments => exact absurd rfl (hnone q params a arguments rfl)

theorem exists_statedType_eq_ok {ascription : Option Ascription} {value : TypedExpr} :
    (∃ stated, statedType ascription value s = .ok stated s) ↔
      Ascribed ascription value.type := by
  unfold statedType Ascribed
  cases ascription with
  | none => simp [pure_eq_ok]
  | some a =>
    cases ha : a.type with
    | error e => simp [throw_eq_ok, ha]
    | ok type =>
      simp only [(moves_requireType steady_same type value).bind_eq_ok, requireType_eq_ok,
        pure_eq_ok, and_true, Option.mem_some_iff, forall_eq', ha, Except.ok.injEq]
      constructor
      · rintro ⟨stated, -, h, -⟩
        exact h.symm
      · intro h
        exact ⟨some type, (), h.symm, rfl⟩

end Checker

open Checker

/-- The environment of a scope behind a declaration. -/
theorem Scope.lookup_declare_eq_bind (s : Scope) (name : String) (type : Ty) :
    (s.declare name type).lookup = Env.bind s.lookup name type := by
  funext x
  exact s.lookup_declare name type x

theorem Scope.lookup_push_eq (s : Scope) : s.push.lookup = s.lookup := by
  funext x
  exact s.lookup_push x

/-- Checking succeeds on the scope `s` with the type `t`, and leaves the scope as it is. -/
def Yields (c : Checker TypedExpr) (s : Scope) (t : Ty) : Prop :=
  ∃ typed, c s = .ok typed s ∧ typed.type = t

section Nodes

variable {s : Scope} {span : Span} {t : Ty}

theorem yields_literal {value : Literal} :
    Yields (check (.literal span value)) s t ↔ t = value.type := by
  unfold Yields
  rw [check]
  simp only [pure_eq_ok, and_true]
  constructor
  · rintro ⟨typed, rfl, rfl⟩
    rfl
  · rintro rfl
    exact ⟨_, rfl, rfl⟩

theorem yields_identifier {name : String} :
    Yields (check (.identifier span name)) s t ↔ s.lookup name = some t := by
  unfold Yields
  rw [check, lookup_bind]
  cases s.lookup name with
  | none => simp [throw_eq_ok]
  | some type =>
    simp only [pure_eq_ok, and_true, Option.some.injEq]
    constructor
    · rintro ⟨typed, rfl, rfl⟩
      rfl
    · rintro rfl
      exact ⟨_, rfl, rfl⟩

theorem yields_binary {op : BinaryOp} {left right : Expr} (hl : left.placed false = true)
    (hr : right.placed false = true) :
    Yields (check (.binary span op left right)) s t ↔
      ∃ a b, Yields (check left) s a ∧ Yields (check right) s b ∧
        if op.isEquality then a = b ∧ t = .bool
        else s.lookup op.text = some (.function [a, b] t) := by
  unfold Yields
  rw [check]
  simp only [(check_same left hl).bind_eq_ok, (check_same right hr).bind_eq_ok,
    (moves_binaryType steady_same span op _ _).bind_eq_ok, binaryType_eq_ok, pure_eq_ok, and_true]
  constructor
  · rintro ⟨typed, ⟨a, ha, b, hb, u, hu, rfl⟩, rfl⟩
    exact ⟨a.type, b.type, ⟨a, ha, rfl⟩, ⟨b, hb, rfl⟩, hu⟩
  · rintro ⟨_, _, ⟨a, ha, rfl⟩, ⟨b, hb, rfl⟩, hu⟩
    exact ⟨_, ⟨a, ha, b, hb, t, hu, rfl⟩, rfl⟩

theorem yields_unary {op : UnaryOp} {operand : Expr} (h : operand.placed false = true) :
    Yields (check (.unary span op operand)) s t ↔
      Yields (check operand) s op.type ∧ t = op.type := by
  unfold Yields
  rw [check]
  simp only [(check_same operand h).bind_eq_ok,
    (moves_unaryType steady_same span op _).bind_eq_ok, unaryType_eq_ok, pure_eq_ok, and_true]
  constructor
  · rintro ⟨typed, ⟨a, ha, u, ⟨hu, rfl⟩, rfl⟩, rfl⟩
    exact ⟨⟨a, ha, hu⟩, rfl⟩
  · rintro ⟨⟨a, ha, hu⟩, rfl⟩
    exact ⟨_, ⟨a, ha, op.type, ⟨hu, rfl⟩, rfl⟩, rfl⟩

theorem yields_ifThen {condition consequent : Expr} (hc : condition.placed false = true)
    (ht : consequent.placed false = true) :
    Yields (check (.ifThen span condition consequent)) s t ↔
      Yields (check condition) s .bool ∧ Yields (check consequent) s t := by
  unfold Yields
  rw [check]
  simp only [(check_same condition hc).bind_eq_ok, (check_same consequent ht).bind_eq_ok,
    (moves_requireBool steady_same "if" _).bind_eq_ok, requireBool_eq_ok, pure_eq_ok, and_true]
  constructor
  · rintro ⟨typed, ⟨a, ha, -, hbool, b, hb, rfl⟩, rfl⟩
    exact ⟨⟨a, ha, hbool⟩, b, hb, rfl⟩
  · rintro ⟨⟨a, ha, hbool⟩, b, hb, rfl⟩
    exact ⟨_, ⟨a, ha, (), hbool, b, hb, rfl⟩, rfl⟩

theorem yields_ifThenElse {condition consequent alternative : Expr}
    (hc : condition.placed false = true) (ht : consequent.placed false = true)
    (he : alternative.placed false = true) :
    Yields (check (.ifThenElse span condition consequent alternative)) s t ↔
      Yields (check condition) s .bool ∧ Yields (check consequent) s t ∧
        Yields (check alternative) s t := by
  unfold Yields
  rw [check]
  simp only [(check_same condition hc).bind_eq_ok, (check_same consequent ht).bind_eq_ok,
    (check_same alternative he).bind_eq_ok,
    (moves_requireBool steady_same "if" _).bind_eq_ok, requireBool_eq_ok, guard_eq_ok, and_true]
  constructor
  · rintro ⟨typed, ⟨a, ha, -, hbool, b, hb, c, hc, heq, rfl⟩, rfl⟩
    exact ⟨⟨a, ha, hbool⟩, ⟨b, hb, rfl⟩, c, hc, heq⟩
  · rintro ⟨⟨a, ha, hbool⟩, ⟨b, hb, rfl⟩, c, hc, heq⟩
    exact ⟨_, ⟨a, ha, (), hbool, b, hb, c, hc, heq, rfl⟩, rfl⟩

theorem yields_loop {condition body : Expr} (hc : condition.placed false = true)
    (hb : body.placed false = true) :
    Yields (check (.loop span condition body)) s t ↔
      Yields (check condition) s .bool ∧ (∃ u, Yields (check body) s u) ∧ t = .unit := by
  unfold Yields
  rw [check]
  simp only [(check_same condition hc).bind_eq_ok, (check_same body hb).bind_eq_ok,
    (moves_requireBool steady_same "while" _).bind_eq_ok, requireBool_eq_ok, pure_eq_ok, and_true]
  constructor
  · rintro ⟨typed, ⟨a, ha, -, hbool, b, hb, rfl⟩, rfl⟩
    exact ⟨⟨a, ha, hbool⟩, ⟨b.type, b, hb, rfl⟩, rfl⟩
  · rintro ⟨⟨a, ha, hbool⟩, ⟨_, b, hb, rfl⟩, rfl⟩
    exact ⟨_, ⟨a, ha, (), hbool, b, hb, rfl⟩, rfl⟩

/-- A block is checked in a frame of its own, which its statements fill for its result. -/
theorem yields_block {statements : List Expr} {result : Expr}
    (hr : result.placed false = true) :
    Yields (check (.block span statements result)) s t ↔
      ∃ typed u, checkAll statements s.push = .ok typed u ∧ Yields (check result) u t := by
  have hmoves : Moves Same (check (.block span statements result)) :=
    moves_block steady_same (checkAll_extends statements) (check_extends result)
  have hsame := hmoves s
  unfold Yields
  rw [check] at hsame ⊢
  unfold inFrame at hsame ⊢
  constructor
  · rintro ⟨typed, h, rfl⟩
    split at h
    · rename_i typed' u hinner
      cases h
      rw [Sequence.bind_eq_ok] at hinner
      obtain ⟨ss, w, hss, hinner⟩ := hinner
      rw [(check_same result hr).bind_eq_ok] at hinner
      obtain ⟨r, hr, hinner⟩ := hinner
      cases hinner
      exact ⟨ss, _, hss, r, hr, rfl⟩
    · cases h
  · rintro ⟨ss, u, hss, r, hr, rfl⟩
    rw [bind_of_ok hss, bind_of_ok hr] at hsame ⊢
    exact ⟨_, congrArg _ hsame, rfl⟩

theorem hasType_declaration_iff {G : Env} {name : Identifier} {ascription : Option Ascription}
    {value : Expr} : HasType G (.declaration span name ascription value) t ↔
      HasType G value t ∧ Ascribed ascription t := by
  constructor
  · intro h
    cases h with
    | declaration hv hA => exact ⟨hv, hA⟩
  · rintro ⟨hv, hA⟩
    exact .declaration hv hA

/-- A declaration has the type of its value, and binds its name to it. -/
theorem check_declaration_iff_hasType {name : Identifier} {ascription : Option Ascription}
    {value : Expr} (hp : value.placed false = true)
    (hvalue : ∀ t, Yields (check value) s t ↔ HasType s.lookup value t) :
    (∃ typed u, check (.declaration span name ascription value) s = .ok typed u ∧
        typed.type = t) ↔ HasType s.lookup (.declaration span name ascription value) t := by
  rw [hasType_declaration_iff, ← hvalue]
  constructor
  · rintro ⟨typed, u, h, rfl⟩
    obtain ⟨value', stated, hv, hstated, rfl, rfl⟩ := (check_declaration hp).1 h
    refine ⟨⟨value', hv, rfl⟩, ?_⟩
    show Ascribed ascription value'.type
    exact exists_statedType_eq_ok.1 ⟨stated, hstated⟩
  · rintro ⟨⟨value', hv, rfl⟩, hA⟩
    obtain ⟨stated, hstated⟩ := exists_statedType_eq_ok.2 hA
    exact ⟨_, _, (check_declaration hp).2 ⟨value', stated, hv, hstated, rfl, rfl⟩, rfl⟩

theorem scope_of_declaration {name : Identifier} {ascription : Option Ascription} {value : Expr}
    {typed : TypedExpr} {u : Scope} (hp : value.placed false = true)
    (h : check (.declaration span name ascription value) s = .ok typed u) :
    u = s.declare name.name typed.type := by
  obtain ⟨value', stated, -, -, rfl, rfl⟩ := (check_declaration hp).1 h
  rfl

theorem yields_call {callee : Identifier} {arguments : List Expr}
    (h : Tree.placedAll false arguments = true) :
    Yields (check (.call span callee arguments)) s t ↔
      ∃ params typed, s.lookup callee.name = some (.function params t) ∧
        checkAll arguments s = .ok typed s ∧
        ∀ p ∈ params.head?, ∀ u ∈ (typed.map TypedExpr.type).head?, u = p := by
  unfold Yields
  rw [check]
  simp only [(moves_signature steady_same callee.name _).bind_eq_ok,
    (checkAll_same arguments h).bind_eq_ok, (moves_requireFirst steady_same _ _).bind_eq_ok,
    requireFirst_eq_ok, signature_eq_ok, pure_eq_ok, and_true]
  constructor
  · rintro ⟨typed, ⟨x, hx, as, has, -, hfirst, rfl⟩, rfl⟩
    exact ⟨x.1, as, hx, has, hfirst⟩
  · rintro ⟨params, as, hx, has, hfirst⟩
    exact ⟨_, ⟨(params, t), hx, as, has, (), hfirst, rfl⟩, rfl⟩

/-- Where the target of an assignment is let through, it is typed as it stands. -/
theorem target_eq_ok {left : Expr} {typed : TypedExpr} {u : Scope} :
    target left (check left) s = .ok typed u ↔ check left s = .ok typed u := by
  cases left with
  | identifier place name =>
    rw [target, check, lookup_bind, lookup_bind]
    cases s.lookup name with
    | none => simp [throw_eq_ok]
    | some t => rfl
  | _ => rfl

/-- Recording that a target was assigned a value of its own type changes nothing. -/
theorem recordAssignment_of_check {left : Expr} {typed : TypedExpr}
    (h : check left s = .ok typed s) : recordAssignment typed.type typed s = .ok () s := by
  cases typed with
  | identifier label name =>
    obtain ⟨place, rfl⟩ := check_eq_identifier h
    have hname : s.lookup name = some label.type := yields_identifier.1 ⟨_, h, rfl⟩
    show EStateM.Result.ok () (s.assign name label.type).2 = _
    rw [Scope.assign_of_lookup hname]
  | _ => rfl

theorem yields_assignment {left right : Expr} (hl : left.placed false = true)
    (hr : right.placed false = true) :
    Yields (check (.assignment span left right)) s t ↔
      Yields (check left) s t ∧ Yields (check right) s t := by
  unfold Yields
  rw [check]
  constructor
  · rintro ⟨typed, h, rfl⟩
    rw [Sequence.bind_eq_ok] at h
    obtain ⟨l, u, hleft, h⟩ := h
    rw [target_eq_ok] at hleft
    obtain rfl := scope_of_check hl hleft
    rw [(check_same right hr).bind_eq_ok] at h
    obtain ⟨r, hright, h⟩ := h
    rw [(moves_requireType steady_same l.type r).bind_eq_ok] at h
    obtain ⟨x, htype, h⟩ := h
    rw [requireType_eq_ok] at htype
    rw [htype, bind_of_ok (recordAssignment_of_check hleft)] at h
    cases h
    exact ⟨⟨l, hleft, rfl⟩, r, hright, htype⟩
  · rintro ⟨⟨l, hleft, rfl⟩, r, hright, htype⟩
    rw [bind_of_ok (target_eq_ok.2 hleft), bind_of_ok hright,
      bind_of_ok (requireType_eq_ok (x := ()).2 htype), htype,
      bind_of_ok (recordAssignment_of_check hleft)]
    exact ⟨_, rfl, rfl⟩

end Nodes

mutual

/-- Apart from declarations the checker yields what the judgement says. -/
theorem yields_iff_hasType : ∀ (e : Expr), e.placed false = true → ∀ (s : Scope) (t : Ty),
    Yields (check e) s t ↔ HasType s.lookup e t
  | .literal l value, _, s, t => by
    rw [yields_literal]
    constructor
    · rintro rfl
      cases value with
      | int n => exact .int
      | bool b => exact .bool
      | unit => exact .unit
    · rintro ⟨⟩ <;> rfl
  | .identifier l name, _, s, t => by
    rw [yields_identifier]
    constructor
    · intro h
      exact .identifier h
    · intro h
      cases h with
      | identifier h => exact h
  | .binary l op a b, he, s, t => by
    simp only [Tree.placed, Bool.and_eq_true] at he
    rw [yields_binary he.1 he.2]
    simp only [yields_iff_hasType a he.1, yields_iff_hasType b he.2]
    constructor
    · rintro ⟨u, v, ha, hb, h⟩
      cases op with
      -- Only the two equalities have no signature.
      | equals =>
        obtain ⟨rfl, rfl⟩ := h
        exact .equality (.inl rfl) ha hb
      | notEquals =>
        obtain ⟨rfl, rfl⟩ := h
        exact .equality (.inr rfl) ha hb
      | _ => exact .operator (by decide) (by decide) h ha hb
    · intro h
      cases h with
      | equality hop ha hb =>
        refine ⟨_, _, ha, hb, ?_⟩
        rcases hop with rfl | rfl <;> exact ⟨rfl, rfl⟩
      | operator heq hne hop ha hb =>
        refine ⟨_, _, ha, hb, ?_⟩
        rw [if_neg]
        · exact hop
        · revert heq hne
          cases op <;> decide
  | .unary l op a, he, s, t => by
    have hp : a.placed false = true := he
    rw [yields_unary hp, yields_iff_hasType a hp]
    constructor
    · rintro ⟨ha, rfl⟩
      cases op with
      | negate => exact .negate ha
      | not => exact .not ha
    · intro h
      cases h with
      | negate ha => exact ⟨ha, rfl⟩
      | not ha => exact ⟨ha, rfl⟩
  | .ifThen l c a, he, s, t => by
    simp only [Tree.placed, Bool.and_eq_true] at he
    rw [yields_ifThen he.1 he.2, yields_iff_hasType c he.1, yields_iff_hasType a he.2]
    constructor
    · rintro ⟨hc, ha⟩
      exact .ifThen hc ha
    · intro h
      cases h with
      | ifThen hc ha => exact ⟨hc, ha⟩
  | .ifThenElse l c a b, he, s, t => by
    simp only [Tree.placed, Bool.and_eq_true] at he
    rw [yields_ifThenElse he.1.1 he.1.2 he.2, yields_iff_hasType c he.1.1,
      yields_iff_hasType a he.1.2, yields_iff_hasType b he.2]
    constructor
    · rintro ⟨hc, ha, hb⟩
      exact .ifThenElse hc ha hb
    · intro h
      cases h with
      | ifThenElse hc ha hb => exact ⟨hc, ha, hb⟩
  | .loop l c a, he, s, t => by
    simp only [Tree.placed, Bool.and_eq_true] at he
    rw [yields_loop he.1 he.2, yields_iff_hasType c he.1]
    simp only [yields_iff_hasType a he.2]
    constructor
    · rintro ⟨hc, ⟨u, ha⟩, rfl⟩
      exact .loop hc ha
    · intro h
      cases h with
      | loop hc ha => exact ⟨hc, ⟨_, ha⟩, rfl⟩
  | .block l ss r, he, s, t => by
    simp only [Tree.placed, Bool.and_eq_true] at he
    -- A frame of its own looks up the same names, so that the environment is the same.
    rw [yields_block he.2, ← s.lookup_push_eq]
    simp only [yields_iff_hasType r he.2]
    constructor
    · rintro ⟨typed, u, hss, hr⟩
      exact .block ((exists_checkAll_iff_enters ss he.1 s.push u.lookup).1 ⟨typed, u, hss, rfl⟩) hr
    · intro h
      cases h with
      | block hss hr =>
        obtain ⟨typed, u, hu, rfl⟩ := (exists_checkAll_iff_enters ss he.1 s.push _).2 hss
        exact ⟨typed, u, hu, hr⟩
  | .declaration l x A v, he, s, t => by
    simp only [Tree.placed, Bool.false_and, Bool.false_eq_true] at he
  | .assignment l a b, he, s, t => by
    simp only [Tree.placed, Bool.and_eq_true] at he
    rw [yields_assignment he.1 he.2, yields_iff_hasType a he.1, yields_iff_hasType b he.2]
    constructor
    · rintro ⟨ha, hb⟩
      exact .assignment ha hb
    · intro h
      cases h with
      | assignment ha hb => exact ⟨ha, hb⟩
  | .call l f es, he, s, t => by
    rw [yields_call he]
    constructor
    · rintro ⟨params, typed, hf, hes, hfirst⟩
      exact .call hf ((exists_checkAll_iff_haveTypes es he s _).1 ⟨typed, hes, rfl⟩) hfirst
    · intro h
      cases h with
      | call hf hes hfirst =>
        obtain ⟨typed, htyped, rfl⟩ := (exists_checkAll_iff_haveTypes es he s _).2 hes
        exact ⟨_, typed, hf, htyped, hfirst⟩

theorem exists_checkAll_iff_haveTypes : ∀ (es : List Expr), Tree.placedAll false es = true →
    ∀ (s : Scope) (ts : List Ty),
      (∃ typed, checkAll es s = .ok typed s ∧ typed.map TypedExpr.type = ts) ↔
        HaveTypes s.lookup es ts
  | [], _, s, ts => by
    rw [checkAll]
    simp only [pure_eq_ok, and_true]
    constructor
    · rintro ⟨typed, rfl, rfl⟩
      exact .nil
    · rintro ⟨⟩
      exact ⟨[], rfl, rfl⟩
  | e :: es, he, s, ts => by
    simp only [Tree.placedAll, Bool.and_eq_true] at he
    have hfirst := yields_iff_hasType e he.1 s
    have hrest := exists_checkAll_iff_haveTypes es he.2 s
    rw [checkAll]
    simp only [(check_same e he.1).bind_eq_ok, (checkAll_same es he.2).bind_eq_ok, pure_eq_ok,
      and_true]
    constructor
    · rintro ⟨typed, ⟨a, ha, as, has, rfl⟩, rfl⟩
      exact .cons ((hfirst _).1 ⟨a, ha, rfl⟩) ((hrest _).1 ⟨as, has, rfl⟩)
    · intro h
      cases h with
      | cons ha has =>
        obtain ⟨a, hca, rfl⟩ := (hfirst _).2 ha
        obtain ⟨as, hcas, rfl⟩ := (hrest _).2 has
        exact ⟨a :: as, ⟨a, hca, as, hcas, rfl⟩, rfl⟩

/-- The statements of a block lead from one scope to another as they lead from its environment. -/
theorem exists_checkAll_iff_enters : ∀ (ss : List Expr), Tree.placedAll true ss = true →
    ∀ (s : Scope) (H : Env),
      (∃ typed u, checkAll ss s = .ok typed u ∧ u.lookup = H) ↔ Enters s.lookup ss H
  | [], _, s, H => by
    rw [checkAll]
    simp only [pure_eq_ok]
    constructor
    · rintro ⟨typed, u, ⟨rfl, rfl⟩, rfl⟩
      exact .nil
    · rintro ⟨⟩
      exact ⟨[], s, ⟨rfl, rfl⟩, rfl⟩
  | e :: ss, he, s, H => by
    simp only [Tree.placedAll, Bool.and_eq_true] at he
    have hrest := exists_checkAll_iff_enters ss he.2
    rw [checkAll]
    simp only [Sequence.bind_eq_ok, pure_eq_ok]
    cases hd : e.isDeclaration with
    | true =>
      cases e with
      | declaration l x A v =>
        have hp : v.placed false = true := he.1
        have hvalue := yields_iff_hasType v hp s
        have hfirst (t : Ty) : (∃ typed u, check (.declaration l x A v) s = .ok typed u ∧
            typed.type = t) ↔ HasType s.lookup (.declaration l x A v) t :=
          check_declaration_iff_hasType hp hvalue
        constructor
        · rintro ⟨typed, u, ⟨a, w, ha, as, z, has, rfl, rfl⟩, rfl⟩
          obtain rfl := scope_of_declaration hp ha
          have hfollow := (hrest _ _).1 ⟨as, _, has, rfl⟩
          rw [Scope.lookup_declare_eq_bind] at hfollow
          exact .declaration ((hfirst _).1 ⟨a, _, ha, rfl⟩) hfollow
        · intro h
          cases h with
          | other hn => cases hn
          | declaration htype hfollow =>
            obtain ⟨a, w, ha, rfl⟩ := (hfirst _).2 htype
            obtain rfl := scope_of_declaration hp ha
            rw [← Scope.lookup_declare_eq_bind] at hfollow
            obtain ⟨as, u, has, rfl⟩ := (hrest _ _).2 hfollow
            exact ⟨a :: as, u, ⟨a, _, ha, as, u, has, rfl, rfl⟩, rfl⟩
      | _ => cases hd
    | false =>
      have hp := Tree.placed_false he.1 hd
      have hfirst := yields_iff_hasType e hp s
      constructor
      · rintro ⟨typed, u, ⟨a, v, ha, as, w, has, rfl, rfl⟩, rfl⟩
        obtain rfl := scope_of_check hp ha
        exact .other hd ((hfirst _).1 ⟨a, ha, rfl⟩) ((hrest _ _).1 ⟨as, _, has, rfl⟩)
      · intro h
        cases h with
        | declaration => cases hd
        | other _ ha has =>
          obtain ⟨a, hca, rfl⟩ := (hfirst _).2 ha
          obtain ⟨as, u, hcas, rfl⟩ := (hrest _ _).2 has
          exact ⟨a :: as, u, ⟨a, s, hca, as, u, hcas, rfl, rfl⟩, rfl⟩

end

/-- The checker is sound and complete for typing in an environment that never changes, wherever
declarations stand only at the root and directly in blocks, as in every tree that is read. -/
theorem check_iff_hasType {e : Expr} (he : e.placed true = true) (s : Scope) (t : Ty) :
    (∃ typed u, check e s = .ok typed u ∧ typed.type = t) ↔ HasType s.lookup e t := by
  cases hd : e.isDeclaration with
  | true =>
    cases e with
    | declaration l x A v =>
      have hp : v.placed false = true := he
      exact check_declaration_iff_hasType hp (yields_iff_hasType v hp s)
    | _ => cases hd
  | false =>
    have hp := Tree.placed_false he hd
    rw [← yields_iff_hasType e hp s t]
    constructor
    · rintro ⟨typed, u, h, htype⟩
      obtain rfl := scope_of_check hp h
      exact ⟨typed, h, htype⟩
    · rintro ⟨typed, h, htype⟩
      exact ⟨typed, s, h, htype⟩

/-- A block sees its declarations, and the outer scope does not. -/
theorem check_iff_hasType_block :
    let e : Expr := .block .null
      [.declaration .null ⟨"x", .null⟩ none (.literal .null (.int 1))] (.identifier .null "x")
    e.placed true = true ∧ HasType (Scope.ofBase builtins).lookup e .int :=
  ⟨rfl, (check_iff_hasType rfl (Scope.ofBase builtins) .int).1 ⟨_, _, rfl, rfl⟩⟩

end ExprLang
