import ExprLang.Grammar
import ExprLang.Proofs.Grammar.Ascriptions
import ExprLang.Proofs.Grammar.Errors
import ExprLang.Proofs.Printing.Listing
import ExprLang.Proofs.Printing.RoundTrip
import ExprLang.Proofs.Typing.Shape

/-!
Printed types. Main statement: a type that is printed is read back as itself, if it takes no empty
list of parameters, and no two types are printed alike.
-/

namespace ExprLang

open ExprLang.Piece (EndsLexeme ends_blank ends_mark lexemes_blank lexemes_mark)

namespace Ascription

mutual

theorem render_unplaced : ∀ a : Ascription, a.unplaced.render = a.render
  | simple _ _ => rfl
  | function params result _ => by
    simp only [unplaced, render, renderAll_unplaced params, render_unplaced result]

theorem renderAll_unplaced : ∀ as : List Ascription, renderAll (unplacedAll as) = renderAll as
  | [] => rfl
  | a :: as => by simp only [unplacedAll, renderAll, render_unplaced a, renderAll_unplaced as]

end

mutual

/-- The parameters in brackets, commas between them, then the arrow and the result. -/
def listings : Ascription → List Listing
  | simple name _ => [.word name]
  | function params result _ =>
    .round (Listing.withCommas (listingsEach params)) :: .word "=>" :: listings result

def listingsEach : List Ascription → List (List Listing)
  | [] => []
  | a :: as => listings a :: listingsEach as

end

mutual

theorem wordsAll_listings : ∀ a : Ascription, Listing.wordsAll a.listings = a.lexemes
  | simple name _ => rfl
  | function params result _ => by
    simp [listings, lexemes, Listing.wordsAll, Listing.words, Listing.wordsAll_withCommas,
      map_wordsAll_listingsEach params, wordsAll_listings result]

theorem map_wordsAll_listingsEach : ∀ as : List Ascription,
    (listingsEach as).map Listing.wordsAll = lexemesEach as
  | [] => rfl
  | a :: as => by
    rw [listingsEach, List.map_cons, wordsAll_listings a, map_wordsAll_listingsEach as, lexemesEach]

end

mutual

theorem listings_unplaced : ∀ a : Ascription, a.unplaced.listings = a.listings
  | simple _ _ => rfl
  | function params result _ => by
    simp only [unplaced, listings, listingsEach_unplaced params, listings_unplaced result]

theorem listingsEach_unplaced : ∀ as : List Ascription,
    listingsEach (unplacedAll as) = listingsEach as
  | [] => rfl
  | a :: as => by
    simp only [unplacedAll, listingsEach, listings_unplaced a, listingsEach_unplaced as]

end

theorem withCommas_listingsEach_ne_nil (a : Ascription) (as : List Ascription) :
    Listing.withCommas (listingsEach (a :: as)) ≠ [] := by
  cases as <;> cases a <;> simp [listingsEach, listings, Listing.withCommas]

mutual

/-- The listings of an ascription tell what it is, but for its places, and where it ends. -/
theorem listings_append_inj : ∀ (a b : Ascription) {r s : List Listing},
    a.listings ++ r = b.listings ++ s → a.unplaced = b.unplaced ∧ r = s
  | simple x _, simple y _, r, s, h => by
    simpa [listings, unplaced] using h
  | function ps a _, function qs b _, r, s, h => by
    simp only [listings, List.cons_append, List.cons.injEq, Listing.round.injEq, true_and] at h
    obtain ⟨hparams, hresult⟩ := h
    obtain ⟨hab, hrs⟩ := listings_append_inj a b hresult
    exact ⟨by rw [unplaced, unplaced, withCommas_listingsEach_inj ps qs hparams, hab], hrs⟩
  | simple _ _, function _ _ _, r, s, h | function _ _ _, simple _ _, r, s, h => by
    simp [listings] at h

theorem withCommas_listingsEach_inj : ∀ as bs : List Ascription,
    Listing.withCommas (listingsEach as) = Listing.withCommas (listingsEach bs) →
      unplacedAll as = unplacedAll bs
  | [], [], _ => rfl
  | [], b :: bs, h => absurd h.symm (withCommas_listingsEach_ne_nil b bs)
  | a :: as, [], h => absurd h (withCommas_listingsEach_ne_nil a as)
  | [a], [b], h => by
    have h : a.listings = b.listings := h
    simp only [unplacedAll, (listings_append_inj a b (congrArg (· ++ []) h)).1]
  -- Where one list ends behind its part and the other goes on, a comma would be missing.
  | [a], b :: b' :: bs, h => by
    have h : a.listings ++ [] = Listing.withCommas (listingsEach (b :: b' :: bs)) := by
      rwa [List.append_nil]
    cases (listings_append_inj a b h).2
  | a :: a' :: as, [b], h => by
    have h : Listing.withCommas (listingsEach (a :: a' :: as)) = b.listings ++ [] := by
      rwa [List.append_nil]
    cases (listings_append_inj a b h).2
  | a :: a' :: as, b :: b' :: bs, h => by
    obtain ⟨hab, hrest⟩ := listings_append_inj a b h
    have has := withCommas_listingsEach_inj (a' :: as) (b' :: bs) (List.cons.inj hrest).2
    rw [unplacedAll, hab, has, ← unplacedAll]

end

/-- Ascriptions are alike exactly if their listings are. -/
theorem sameShape_iff_listings (a b : Ascription) :
    a.sameShape b = true ↔ a.listings = b.listings := by
  rw [sameShape_iff]
  constructor
  · intro h
    rw [← listings_unplaced a, h, listings_unplaced]
  · intro h
    exact (listings_append_inj a b (congrArg (· ++ []) h)).1

end Ascription

namespace Ty

mutual

/-- The ascription that stands for a type, in no place. -/
def ascription : Ty → Ascription
  | int => .simple "Int" .null
  | bool => .simple "Bool" .null
  | unit => .simple "Unit" .null
  | function params result => .function (ascriptions params) (ascription result) .null

def ascriptions : List Ty → List Ascription
  | [] => []
  | t :: ts => ascription t :: ascriptions ts

end

mutual

theorem type_ascription : ∀ t : Ty, t.ascription.type = .ok t
  | int | bool | unit => rfl
  | function params result => by
    simp only [ascription, Ascription.type, types_ascriptions params, type_ascription result]
    rfl

theorem types_ascriptions : ∀ ts : List Ty, Ascription.types (ascriptions ts) = .ok ts
  | [] => rfl
  | t :: ts => by
    simp only [ascriptions, Ascription.types, type_ascription t, types_ascriptions ts]
    rfl

end

mutual

theorem unplaced_eq_of_type : ∀ {a : Ascription} {t : Ty}, a.type = .ok t →
    a.unplaced = t.ascription
  | .simple name _, t, h => by
    rw [Ascription.type] at h
    split at h
    next u hname =>
      cases h
      unfold ofName? at hname
      split at hname <;> cases hname <;> rfl
    next => cases h
  | .function params result _, t, h => by
    rw [Ascription.type] at h
    cases hparams : Ascription.types params with
    | error e => rw [hparams] at h; cases h
    | ok ts =>
      cases hresult : result.type with
      | error e => rw [hparams, hresult] at h; cases h
      | ok u =>
        rw [hparams, hresult] at h
        cases h
        rw [Ascription.unplaced, unplacedAll_eq_of_types hparams, unplaced_eq_of_type hresult,
          ascription]

theorem unplacedAll_eq_of_types : ∀ {as : List Ascription} {ts : List Ty},
    Ascription.types as = .ok ts → Ascription.unplacedAll as = ascriptions ts
  | [], ts, h => by
    cases h
    rfl
  | a :: as, ts, h => by
    rw [Ascription.types] at h
    cases hfirst : a.type with
    | error e => rw [hfirst] at h; cases h
    | ok u =>
      cases hrest : Ascription.types as with
      | error e => rw [hfirst, hrest] at h; cases h
      | ok us =>
        rw [hfirst, hrest] at h
        cases h
        rw [Ascription.unplacedAll, unplaced_eq_of_type hfirst, unplacedAll_eq_of_types hrest,
          ascriptions]

end

/-- An ascription stands for a type exactly if it is, but for its places, the one of the type. -/
theorem type_eq_ok_iff {a : Ascription} {t : Ty} : a.type = .ok t ↔ a.unplaced = t.ascription := by
  refine ⟨unplaced_eq_of_type, fun h => ?_⟩
  have htype := Ascription.type_unplaced a
  rw [h, type_ascription] at htype
  cases ha : a.type with
  | error e => rw [ha] at htype; cases htype
  | ok u =>
    rw [ha] at htype
    cases htype
    rfl

mutual

theorem render_ascription : ∀ t : Ty, t.ascription.render = t.render
  | int | bool | unit => rfl
  | function params result => by
    simp only [ascription, Ascription.render, render, renderAll_ascriptions params,
      render_ascription result]

theorem renderAll_ascriptions : ∀ ts : List Ty,
    Ascription.renderAll (ascriptions ts) = renderAll ts
  | [] => rfl
  | t :: ts => by
    simp only [ascriptions, Ascription.renderAll, renderAll, render_ascription t,
      renderAll_ascriptions ts]

end

section

variable {a : Ascription} {t : Ty}

theorem render_of_type (h : a.type = .ok t) : t.render = a.render := by
  rw [← render_ascription, ← unplaced_eq_of_type h, Ascription.render_unplaced]

theorem listings_of_type (h : a.type = .ok t) : t.ascription.listings = a.listings := by
  rw [← unplaced_eq_of_type h, Ascription.listings_unplaced]

end

mutual

/-- The lexemes of a printed type are those of its ascription, whatever follows it. -/
theorem lexemes_render : ∀ (t : Ty) {u : List Char}, (∀ b ∈ u.head?, EndsLexeme b) →
    Piece.lexemes (t.render.toList ++ u) = t.ascription.lexemes ++ Piece.lexemes u
  | int, u, hu | bool, u, hu | unit, u, hu => (isLexeme_mark (by decide)).lexemes_append hu
  | function params result, u, hu => by
    -- The result stands in no brackets, so that it ends where what follows the type ends it.
    have htext : (function params result).render.toList ++ u =
        '(' :: ((Text.joined ", " (renderAll params)).toList ++ ')' :: ' ' ::
          ("=>".toList ++ ' ' :: (result.render.toList ++ u))) := by
      simp [render]
    rw [htext, lexemes_mark (by decide), lexemes_renderAll params (by decide),
      lexemes_mark (by decide), lexemes_blank,
      (isLexeme_mark (by decide)).lexemes_append (ends_blank _), lexemes_blank,
      lexemes_render result hu]
    simp [ascription, Ascription.lexemes]

theorem lexemes_renderAll : ∀ (ts : List Ty) {c : Char} {u : List Char}, Piece.isMark c = true →
    Piece.lexemes ((Text.joined ", " (renderAll ts)).toList ++ c :: u) =
      withCommas (Ascription.lexemesEach (ascriptions ts)) ++ Piece.lexemes (c :: u)
  | [], c, u, hc => rfl
  | [t], c, u, hc => lexemes_render t (ends_mark hc u)
  | t :: t' :: ts, c, u, hc => by
    have htext : (Text.joined ", " (renderAll (t :: t' :: ts))).toList ++ c :: u =
        t.render.toList ++ ',' :: ' ' ::
          ((Text.joined ", " (renderAll (t' :: ts))).toList ++ c :: u) := by
      simp [renderAll, Text.joined]
    have hcomma : Piece.isMark ',' = true := by decide
    rw [htext, lexemes_render t (ends_mark hcomma _), lexemes_mark hcomma,
      lexemes_blank, lexemes_renderAll (t' :: ts) hc]
    simp [ascriptions, Ascription.lexemesEach, withCommas]

end

theorem lexemes_render_eq (t : Ty) : Piece.lexemes t.render.toList = t.ascription.lexemes := by
  have h := lexemes_render t (u := []) (by simp)
  rwa [List.append_nil, Piece.lexemes_nil, List.append_nil] at h

mutual

theorem plainAll_listings : ∀ t : Ty, Listing.plainAll t.ascription.listings = true
  | int | bool | unit => by decide
  | function params result => by
    have harrow : (Listing.word "=>").plain = true := by decide
    rw [ascription, Ascription.listings, Listing.plainAll, Listing.plain, Listing.plainAll,
      Listing.plainAll_withCommas (plainAll_listingsEach params), harrow,
      plainAll_listings result]
    rfl

theorem plainAll_listingsEach : ∀ ts : List Ty,
    ∀ xs ∈ Ascription.listingsEach (ascriptions ts), Listing.plainAll xs = true
  | [] => by simp [ascriptions, Ascription.listingsEach]
  | t :: ts => List.forall_mem_cons.2 ⟨plainAll_listings t, plainAll_listingsEach ts⟩

end

theorem render_injective : Function.Injective render := by
  intro t u h
  have hlexemes := congrArg (fun x => Piece.lexemes (String.toList x)) h
  simp only [lexemes_render_eq, ← Ascription.wordsAll_listings] at hlexemes
  have hlistings := Listing.eq_of_wordsAll_eq (plainAll_listings t) (plainAll_listings u) hlexemes
  have hshape := (Ascription.sameShape_iff_listings _ _).2 hlistings
  rw [Ascription.sameShape_iff, unplaced_eq_of_type (type_ascription u), ← type_eq_ok_iff,
    type_ascription] at hshape
  exact Except.ok.inj hshape

mutual

/-- Does every function in the type take a parameter at least? -/
def parametrised : Ty → Bool
  | int | bool | unit => true
  | function params result => !params.isEmpty && parametrisedAll params && parametrised result

def parametrisedAll : List Ty → Bool
  | [] => true
  | t :: ts => parametrised t && parametrisedAll ts

end

mutual

theorem wellNamed_ascription : ∀ t : Ty, t.ascription.wellNamed = t.parametrised
  | int | bool | unit => by decide
  | function params result => by
    have hempty : (ascriptions params).isEmpty = params.isEmpty := by cases params <;> rfl
    rw [ascription, Ascription.wellNamed, hempty, wellNamedAll_ascriptions params,
      wellNamed_ascription result, parametrised]

theorem wellNamedAll_ascriptions : ∀ ts : List Ty,
    Ascription.wellNamedAll (ascriptions ts) = parametrisedAll ts
  | [] => rfl
  | t :: ts => by
    rw [ascriptions, Ascription.wellNamedAll, wellNamed_ascription t, wellNamedAll_ascriptions ts,
      parametrisedAll]

end

/-- What is printed is read to its end, as an ascription that stands for the type. -/
theorem read_render {t : Ty} (h : t.parametrised = true) (file : String) :
    ∃ a s, Grammar.ascription.run (.ofTokens (Token.read t.render file) file) = .ok a s ∧
      s.ahead = [] ∧ a.type = .ok t := by
  have hw : Token.Spells (Token.scan t.render.toList file) t.ascription.lexemes :=
    ⟨by rw [Token.scan, Piece.map_text_tokens, lexemes_render_eq], fun _ => Token.spelt_of_mem_scan⟩
  obtain ⟨a, ha, hshape⟩ := Ascription.readable t.ascription
    ((wellNamed_ascription t).trans h) _ [] hw
  have htype : a.type = .ok t := by
    rw [type_eq_ok_iff, (Ascription.sameShape_iff _ _).1 hshape]
    exact unplaced_eq_of_type (type_ascription t)
  have hahead : (TokenStream.ofTokens (Token.read t.render file) file).ahead =
      Token.scan t.render.toList file ++ [] := by
    rw [Token.read, TokenStream.ofTokens_closed, List.append_nil]
  refine ⟨a, _, ?_, TokenStream.ahead_pass hahead, htype⟩
  exact (Rule.denotes_ascription _ _ (Nat.le_refl _) a _).2 ⟨_, [], hahead, rfl, ha⟩

/-- Types are printed as they are written: the parser reads a printed type back, an ascription is
printed as the type that it stands for, and types that are printed alike are the same. -/
theorem render_faithful :
    (∀ t : Ty, t.parametrised = true → ∀ file : String, ∃ a s,
      Grammar.ascription.run (.ofTokens (Token.read t.render file) file) = .ok a s ∧
        s.ahead = [] ∧ a.type = .ok t) ∧
      (∀ (a : Ascription) (t : Ty), a.type = .ok t → t.render = a.render) ∧
      ∀ t u : Ty, t.render = u.render → t = u := by
  exact ⟨fun t ht file => read_render ht file, fun a t h => render_of_type h,
    fun t u h => render_injective h⟩

/-- A function that takes a function and returns one, and a type that cannot be written. -/
theorem render_faithful_nested :
    let t : Ty := .function [.function [.int] .bool, .unit] (.function [.bool] .int)
    t.parametrised = true ∧
      (∃ a s, Grammar.ascription.run (.ofTokens (Token.read t.render "") "") = .ok a s ∧
        s.ahead = [] ∧ a.type = .ok t) ∧
      (t.ascription.type = .ok t ∧ t.render = t.ascription.render) ∧
      ∃ u : Ty, u.render = "() => Int" ∧ u = .function [] .int := by
  intro t
  have ht : t.parametrised = true := rfl
  have hread := render_faithful.1 t ht ""
  have htype := type_ascription t
  exact ⟨ht, hread, ⟨htype, render_faithful.2.1 _ t htype⟩, .function [] .int, rfl,
    render_faithful.2.2 _ _ rfl⟩

end Ty

end ExprLang
