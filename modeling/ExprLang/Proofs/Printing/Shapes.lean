import ExprLang.Proofs.Grammar.Contract
import ExprLang.Proofs.Printing.Printed

/-!
Nested lists as expressions. Main statement: trees that are read are printed alike exactly if they
have the same shape, as long as no variable has the name that the unit value is printed as.
-/

namespace ExprLang

/-- An expression without its places, its ascriptions as listings. -/
abbrev Bare := Tree Unit (List Listing)

namespace Expr

def bare (e : Expr) : Bare := Tree.map (fun _ => ()) Identifier.unplaced Ascription.listings e

def bareAll (es : List Expr) : List Bare :=
  Tree.mapAll (fun _ => ()) Identifier.unplaced Ascription.listings es

theorem sameShape_iff_bare (a b : Expr) : a.sameShape b = true ↔ a.bare = b.bare :=
  Tree.agree_iff_map_eq
    ⟨by simp, by simp [Identifier.unplaced], Ascription.sameShape_iff_listings⟩ a b

end Expr

/-- The literal that a word is printed for. -/
def Literal.ofText? (x : String) : Option Literal :=
  match Text.natural? x.toList with
  | some n => some (.int n)
  | none => [.bool true, .bool false, .unit].find? (·.render == x)

theorem natural?_render_int {value : Int} (h : 0 ≤ value) :
    Text.natural? (Literal.int value).render.toList = some value.toNat := by
  have hdigits : ∀ d ∈ Nat.toDigits 10 value.toNat, d.isDigit = true := fun d hd =>
    Nat.isDigit_of_mem_toDigits (by decide) (by decide) hd
  rw [Text.natural?, Text.digitsValue_eq, ofDigitChars_render_int h, toList_render_int h, if_neg]
  simpa [Nat.toDigits_ne_nil] using hdigits

/-- No name is a number. -/
theorem natural?_of_isName {x : String} (h : isName x = true) : Text.natural? x.toList = none := by
  simp only [isName, Bool.and_eq_true] at h
  cases hx : x.toList with
  | nil => rfl
  | cons c cs =>
    have hstart := h.1
    rw [hx, Bool.and_eq_true] at hstart
    have hdigit : c.isDigit = false := by
      rw [← Bool.not_eq_true]
      intro hdigit
      have hword : Piece.isWordStart c = true := hstart.1
      rw [Piece.isWordStart_of_isDigit hdigit] at hword
      cases hword
    simp [Text.natural?, hdigit]

theorem Literal.ofText?_render {l : Span} {value : Literal}
    (h : Expr.listable (.literal l value) = true) : ofText? value.render = some value := by
  cases value with
  | int value =>
    have hvalue : 0 ≤ value := by simpa [Expr.listable] using h
    rw [ofText?, natural?_render_int hvalue]
    exact congrArg (fun n => some (int n)) (Int.toNat_of_nonneg hvalue)
  | bool value => cases value <;> decide
  | unit => decide

theorem Literal.ofText?_name {x : String} (hx : isName x = true) (hunit : x ≠ "unit") :
    ofText? x = none := by
  have htruth : x ≠ "true" ∧ x ≠ "false" := by
    constructor <;> rintro rfl <;> revert hx <;> decide
  rw [ofText?, natural?_of_isName hx]
  simp [render, htruth.1.symm, htruth.2.symm, hunit.symm]

namespace Listing

/-- A single word: a literal or a variable. -/
def leaf (x : String) : Bare :=
  match Literal.ofText? x with
  | some value => .literal () value
  | none => .identifier () x

/-- A word with parts behind it. -/
def applied (head : String) (parts : List Bare) : Bare :=
  if isName head then .call () ⟨head, .null⟩ parts
  -- A minus is a sign in front of one part, and a conditional with three has an alternative.
  else match head, parts with
    | "if", [c, a] => .ifThen () c a
    | "if", [c, a, b] => .ifThenElse () c a b
    | "while", [c, a] => .loop () c a
    | "=", [a, b] => .assignment () a b
    | _, [a, b] => match BinaryOp.ofText? head with
      | some op => .binary () op a b
      | none => leaf head
    | _, [a] => match UnaryOp.ofText? head with
      | some op => .unary () op a
      | none => leaf head
    | _, _ => leaf head

/-- A declaration by what stands behind its first word: the parts, and the trees of the parts. -/
def declared : List Listing → List Bare → Bare
  | word x :: parts, trees =>
    .declaration () ⟨x, .null⟩ (match parts.dropLast with
      | [] => none
      | _ :: ascription => some ascription) (trees.getLast?.getD (leaf x))
  | _, _ => leaf ""

/-- The first of the elements, the third, and so on, but for the last one. -/
def everyOther {α : Type} : List α → List α
  | x :: _ :: xs => x :: everyOther xs
  | _ => []

mutual

/-- Reads nested lists as the expression that is printed so. -/
def tree : Listing → Bare
  | word x => leaf x
  | round (word x :: parts) =>
    if x = "var" then declared parts (treeAll parts) else applied x (treeAll parts)
  | round _ => leaf ""
  | braced parts => .block () (everyOther (treeAll parts)) ((treeAll parts).getLast?.getD (leaf ""))

def treeAll : List Listing → List Bare
  | [] => []
  | x :: xs => tree x :: treeAll xs

end

theorem treeAll_append (xs ys : List Listing) : treeAll (xs ++ ys) = treeAll xs ++ treeAll ys := by
  induction xs with
  | nil => rfl
  | cons x xs ih => rw [List.cons_append, treeAll, treeAll, ih, List.cons_append]

/-- Semicolons stand between the statements and in front of the result. -/
theorem everyOther_statements (xs : List Listing) (t : Bare) :
    everyOther (treeAll (xs.flatMap fun x => [x, word ";"]) ++ [t]) = treeAll xs := by
  induction xs with
  | nil => rfl
  | cons x xs ih => simp [treeAll, everyOther, ih]

theorem applied_name {head : String} (h : isName head = true) (parts : List Bare) :
    applied head parts = .call () ⟨head, .null⟩ parts := by
  unfold applied
  rw [if_pos h]

theorem applied_operator (op : BinaryOp) (a b : Bare) :
    applied op.text [a, b] = .binary () op a b := by
  cases op <;> rfl

theorem applied_unary (op : UnaryOp) (a : Bare) : applied op.text [a] = .unary () op a := by
  cases op <;> rfl

theorem declared_ascribed (x : String) (ascription : Option Ascription) (v : Listing)
    (ts : List Bare) (t : Bare) :
    declared (word x :: (Expr.ascribed ascription ++ [v])) (ts ++ [t]) =
      .declaration () ⟨x, .null⟩ (ascription.map Ascription.listings) t := by
  rw [declared, List.dropLast_concat, List.getLast?_concat]
  cases ascription <;> rfl

theorem tree_round {head : String} (h : head ≠ "var") (parts : List Listing) :
    tree (round (word head :: parts)) = applied head (treeAll parts) := by
  rw [tree, if_neg h]

end Listing

namespace Expr

mutual

theorem render_unplaced : ∀ e : Expr, e.unplaced.render = e.render
  | .literal .. | .identifier .. => rfl
  | .binary _ _ a b | .assignment _ a b | .ifThen _ a b | .loop _ a b => by
    have ha := render_unplaced a
    have hb := render_unplaced b
    unfold unplaced at *
    simp only [Tree.map, render, ha, hb]
  | .unary _ _ a => by
    have ha := render_unplaced a
    unfold unplaced at *
    simp only [Tree.map, render, ha]
  | .ifThenElse _ a b c => by
    have ha := render_unplaced a
    have hb := render_unplaced b
    have hc := render_unplaced c
    unfold unplaced at *
    simp only [Tree.map, render, ha, hb, hc]
  | .block _ statements result => by
    have hstatements := renderStatements_unplaced statements
    have hresult := render_unplaced result
    unfold unplaced unplacedAll at *
    simp only [Tree.map, render, hstatements, hresult]
  | .declaration _ _ ascription value => by
    have hvalue := render_unplaced value
    unfold unplaced at *
    cases ascription <;>
      simp only [Tree.map, Option.map_none, Option.map_some, render, hvalue, Identifier.unplaced,
        Ascription.render_unplaced]
  | .call _ _ arguments => by
    have harguments := renderArguments_unplaced arguments
    unfold unplaced unplacedAll at *
    simp only [Tree.map, render, harguments, Identifier.unplaced]

theorem renderStatements_unplaced : ∀ es : List Expr,
    renderStatements (unplacedAll es) = renderStatements es
  | [] => rfl
  | e :: es => by
    have he := render_unplaced e
    have hes := renderStatements_unplaced es
    unfold unplaced unplacedAll at *
    simp only [Tree.mapAll, renderStatements, he, hes]

theorem renderArguments_unplaced : ∀ es : List Expr,
    renderArguments (unplacedAll es) = renderArguments es
  | [] => rfl
  | e :: es => by
    have he := render_unplaced e
    have hes := renderArguments_unplaced es
    unfold unplaced unplacedAll at *
    simp only [Tree.mapAll, renderArguments, he, hes]

end

mutual

/-- A listing is read as the expression that it is printed for, but for places. -/
theorem tree_listing : ∀ e : Expr, e.listable = true → e.listing.tree = e.bare
  | .literal _ value, h => by
    rw [listing, Listing.tree, Listing.leaf, Literal.ofText?_render h]
    rfl
  | .identifier _ name, h => by
    simp only [listable, Bool.and_eq_true, bne_iff_ne] at h
    rw [listing, Listing.tree, Listing.leaf, Literal.ofText?_name h.1 h.2]
    rfl
  | .binary _ op left right, h => by
    simp only [listable, Bool.and_eq_true] at h
    have hop : op.text ≠ "var" := by cases op <;> decide
    rw [listing, Listing.tree_round hop]
    simp only [Listing.treeAll, tree_listing left h.1, tree_listing right h.2]
    exact Listing.applied_operator op _ _
  | .unary _ op operand, h => by
    have hop : op.text ≠ "var" := by cases op <;> decide
    rw [listing, Listing.tree_round hop]
    simp only [Listing.treeAll, tree_listing operand h]
    exact Listing.applied_unary op _
  | .ifThen _ condition consequent, h => by
    simp only [listable, Bool.and_eq_true] at h
    rw [listing, Listing.tree_round (by decide)]
    simp only [Listing.treeAll, tree_listing condition h.1, tree_listing consequent h.2]
    rfl
  | .ifThenElse _ condition consequent alternative, h => by
    simp only [listable, Bool.and_eq_true] at h
    rw [listing, Listing.tree_round (by decide)]
    simp only [Listing.treeAll, tree_listing condition h.1.1, tree_listing consequent h.1.2,
      tree_listing alternative h.2]
    rfl
  | .loop _ condition body, h => by
    simp only [listable, Bool.and_eq_true] at h
    rw [listing, Listing.tree_round (by decide)]
    simp only [Listing.treeAll, tree_listing condition h.1, tree_listing body h.2]
    rfl
  | .block _ statements result, h => by
    simp only [listable, Bool.and_eq_true] at h
    rw [listing, Listing.tree, Listing.treeAll_append]
    simp only [Listing.treeAll, tree_listing result h.2, Listing.everyOther_statements,
      treeAll_listings statements h.1, List.getLast?_concat, Option.getD_some]
    rfl
  | .declaration _ name ascription value, h => by
    simp only [listable, Bool.and_eq_true] at h
    rw [listing, Listing.tree, if_pos rfl]
    simp only [Listing.treeAll, Listing.treeAll_append, tree_listing value h.2]
    exact Listing.declared_ascribed name.name ascription _
      (_ :: Listing.treeAll (ascribed ascription)) _
  | .assignment _ target value, h => by
    simp only [listable, Bool.and_eq_true] at h
    rw [listing, Listing.tree_round (by decide)]
    simp only [Listing.treeAll, tree_listing target h.1, tree_listing value h.2]
    rfl
  | .call _ callee arguments, h => by
    simp only [listable, Bool.and_eq_true] at h
    have hcallee : callee.name ≠ "var" := by
      intro hname
      rw [hname] at h
      exact absurd h.1 (by decide)
    rw [listing, Listing.tree_round hcallee, Listing.applied_name h.1,
      treeAll_listings arguments h.2]
    rfl

theorem treeAll_listings : ∀ es : List Expr, listableAll es = true →
    Listing.treeAll (listings es) = bareAll es
  | [], _ => rfl
  | e :: es, h => by
    simp only [listableAll, Bool.and_eq_true] at h
    rw [listings, Listing.treeAll, tree_listing e h.1, treeAll_listings es h.2]
    rfl

end

/-- The node is not a variable with the name that the unit value is printed as. -/
def NotUnitName (n : Expr) : Prop := ∀ l, n ≠ .identifier l "unit"

mutual

/-- A tree that can be written is listable, unless it has a variable called `unit`. -/
theorem listable_of_wellNamed : ∀ e : Expr, isUnit e = true ∨ wellNamed e = true →
    (∀ n ∈ e.nodes, NotUnitName n) → e.listable = true
  | .literal _ (.int value), h, _ => by
    simp only [isUnit, wellNamed, Bool.false_eq_true, false_or, Bool.and_eq_true] at h
    exact h.1
  | .literal _ (.bool _), _, _ | .literal _ .unit, _, _ => rfl
  | .identifier l name, h, hunit => by
    have hname : name ≠ "unit" := by
      rintro rfl
      exact hunit _ (Tree.self_mem_nodes _) l rfl
    simp_all [isUnit, wellNamed, listable]
  | .binary _ _ a b, h, hunit | .assignment _ a b, h, hunit | .ifThen _ a b, h, hunit
  | .loop _ a b, h, hunit => by
    simp only [isUnit, wellNamed, Bool.false_eq_true, false_or, Bool.and_eq_true] at h
    simp only [Tree.nodes, List.forall_mem_cons, List.forall_mem_append] at hunit
    simp only [listable, Bool.and_eq_true]
    exact ⟨listable_of_wellNamed a (.inr h.1) hunit.2.1,
      listable_of_wellNamed b (.inr h.2) hunit.2.2⟩
  | .unary _ _ a, h, hunit => by
    simp only [isUnit, wellNamed, Bool.false_eq_true, false_or] at h
    simp only [Tree.nodes, List.forall_mem_cons] at hunit
    exact listable_of_wellNamed a (.inr h) hunit.2
  | .ifThenElse _ a b c, h, hunit => by
    simp only [isUnit, wellNamed, Bool.false_eq_true, false_or, Bool.and_eq_true] at h
    simp only [Tree.nodes, List.forall_mem_cons, List.forall_mem_append] at hunit
    simp only [listable, Bool.and_eq_true]
    exact ⟨⟨listable_of_wellNamed a (.inr h.1.1) hunit.2.1,
      listable_of_wellNamed b (.inr h.1.2) hunit.2.2.1⟩,
      listable_of_wellNamed c (.inr h.2) hunit.2.2.2⟩
  | .block _ statements result, h, hunit => by
    simp only [isUnit, wellNamed, Bool.false_eq_true, false_or, Bool.and_eq_true,
      Bool.or_eq_true] at h
    simp only [Tree.nodes, List.forall_mem_cons, List.forall_mem_append] at hunit
    simp only [listable, Bool.and_eq_true]
    exact ⟨listableAll_of_wellNamedAll statements h.1 hunit.2.1,
      listable_of_wellNamed result h.2 hunit.2.2⟩
  | .declaration _ _ _ value, h, hunit => by
    simp only [isUnit, wellNamed, Bool.false_eq_true, false_or, Bool.and_eq_true] at h
    simp only [Tree.nodes, List.forall_mem_cons] at hunit
    simp only [listable, Bool.and_eq_true]
    exact ⟨h.1, listable_of_wellNamed value (.inr h.2) hunit.2⟩
  | .call _ _ arguments, h, hunit => by
    simp only [isUnit, wellNamed, Bool.false_eq_true, false_or, Bool.and_eq_true] at h
    simp only [Tree.nodes, List.forall_mem_cons] at hunit
    simp only [listable, Bool.and_eq_true]
    exact ⟨h.1, listableAll_of_wellNamedAll arguments h.2 hunit.2⟩

theorem listableAll_of_wellNamedAll : ∀ es : List Expr, wellNamedAll es = true →
    (∀ n ∈ Tree.nodesAll es, NotUnitName n) → listableAll es = true
  | [], _, _ => rfl
  | e :: es, h, hunit => by
    simp only [wellNamedAll, Bool.and_eq_true] at h
    simp only [Tree.nodesAll, List.forall_mem_append] at hunit
    simp only [listableAll, Bool.and_eq_true]
    exact ⟨listable_of_wellNamed e (.inr h.1) hunit.1, listableAll_of_wellNamedAll es h.2 hunit.2⟩

end

/-- The printed form tells the shape: trees that are read are printed alike exactly if they are the
same but for their places, unless a variable is called `unit`. -/
theorem render_eq_iff_sameShape {s s' file file' : String} {a b : Expr}
    (ha : Expr.read s file = .ok a) (hb : Expr.read s' file' = .ok b)
    (hunita : ∀ l, .identifier l "unit" ∉ a.nodes) (hunitb : ∀ l, .identifier l "unit" ∉ b.nodes) :
    a.render = b.render ↔ a.sameShape b = true := by
  have hlistable {e : Expr} (h : e.WellFormed) (hunit : ∀ l, .identifier l "unit" ∉ e.nodes) :
      e.listable = true := by
    refine listable_of_wellNamed e (.inr h.wellNamed) fun n hn l hl => ?_
    exact hunit l (hl ▸ hn)
  constructor
  · intro h
    have hla := hlistable (wellFormed_of_read ha) hunita
    have hlb := hlistable (wellFormed_of_read hb) hunitb
    rw [sameShape_iff_bare, ← tree_listing a hla, ← tree_listing b hlb,
      listing_eq_of_render_eq hla hlb h]
  · intro h
    rw [← render_unplaced a, (sameShape_iff a b).1 h, render_unplaced]

-- Without the condition on names, trees of different shapes can be printed alike.
example : render (.identifier .null "unit") = render (.literal .null .unit) := rfl

/-- A sum whose first operand has a sign, with and without brackets, and a sum that has one. -/
theorem render_eq_iff_sameShape_sum :
    ∃ a b c, Expr.read "-x + 1" "" = .ok a ∧ Expr.read "(-x)+1" "" = .ok b ∧
      Expr.read "-(x+1)" "" = .ok c ∧ a.render = b.render ∧ a.sameShape b = true ∧
      a.render ≠ c.render ∧ a.sameShape c = false := by
  let place (i j : Nat) : Span := ⟨⟨1, i, ""⟩, ⟨1, j, ""⟩⟩
  let a : Expr := .binary (place 1 7) .plus
    (.unary (place 1 3) .negate (.identifier (place 2 3) "x")) (.literal (place 6 7) (.int 1))
  let b : Expr := .binary (place 2 7) .plus
    (.unary (place 2 4) .negate (.identifier (place 3 4) "x")) (.literal (place 6 7) (.int 1))
  let c : Expr := .unary (place 1 6) .negate
    (.binary (place 3 6) .plus (.identifier (place 3 4) "x") (.literal (place 5 6) (.int 1)))
  have ha : Expr.read "-x + 1" "" = .ok a := by with_unfolding_all rfl
  have hb : Expr.read "(-x)+1" "" = .ok b := by with_unfolding_all rfl
  have hc : Expr.read "-(x+1)" "" = .ok c := by with_unfolding_all rfl
  have hunita : ∀ l, .identifier l "unit" ∉ a.nodes := by simp [a, Tree.nodes]
  have hunitb : ∀ l, .identifier l "unit" ∉ b.nodes := by simp [b, Tree.nodes]
  have hunitc : ∀ l, .identifier l "unit" ∉ c.nodes := by simp [c, Tree.nodes]
  have hab : a.sameShape b = true := rfl
  have hac : a.sameShape c = false := rfl
  refine ⟨a, b, c, ha, hb, hc, (render_eq_iff_sameShape ha hb hunita hunitb).2 hab, hab, ?_, hac⟩
  intro h
  rw [render_eq_iff_sameShape ha hc hunita hunitc, hac] at h
  cases h

end Expr

end ExprLang
