import Mathlib.Data.List.Basic
import ExprLang.Proofs.Grammar.Derivation
import ExprLang.Proofs.Token.Spelling

/-!
Expressions as chains of operands. The grammar leaves open how far a body or a branch reaches and
which conditional an alternative belongs to; a chain only counts the conditionals that wait for an
alternative. Main statement: what is derived as an expression is such a chain.
-/

namespace ExprLang

open ExprLang.Token (starts finishes openBrace closeBrace Spelt)

namespace Token

/-- Texts with which a part of a program can start; `declares` allows for declarations. -/
def opensText (declares : Bool) (text : String) : Bool :=
  declares && text == "var" || ["(", openBrace, "-", "not", "if", "while"].contains text ||
    match Piece.kindOf? text.toList with
    | some .integer | some .boolean => true
    | some .identifier => !reservedWords.contains text
    | _ => false

theorem opensText_of_is {t : Token} {text : String} {b : Bool} (h : t.is text = true)
    (hb : opensText b text = true) : opensText b t.text = true := by
  rwa [text_of_is h]

theorem opensText_of_isName {t : Token} {b : Bool} (hs : t.Spelt) (h : t.IsName) :
    opensText b t.text = true := by
  unfold Spelt at hs
  rw [h.1] at hs
  have hr : reservedWords.contains t.text = false := by
    have := (isName_iff.1 h).2
    simpa [isReserved, h.1] using this
  unfold opensText
  rw [hs, hr]
  simp

theorem opensText_of_kind {t : Token} {b : Bool} (hs : t.Spelt)
    (h : t.kind = .integer ∨ t.kind = .boolean) : opensText b t.text = true := by
  unfold Spelt at hs
  unfold opensText
  rcases h with h | h <;> rw [hs, h] <;> simp

theorem opensText_of_isTypeName {t : Token} {b : Bool} (h : t.IsTypeName) :
    opensText b t.text = true := by
  rcases h with h | h | h <;>
  · refine opensText_of_is h ?_
    cases b <;> decide

theorem opensText_mono {text : String} (h : opensText false text = true) :
    opensText true text = true := by
  unfold opensText at h ⊢
  rw [Bool.false_and, Bool.false_or] at h
  rw [Bool.or_assoc, h, Bool.or_true]

/-- A token that starts a part is none of the others. -/
theorem is_eq_false_of_opensText {t : Token} {b : Bool} {text : String}
    (h : opensText b t.text = true) (hb : opensText b text = false) : t.is text = false := by
  cases ht : t.is text with
  | false => rfl
  | true => rw [text_of_is ht, hb] at h; cases h

end Token

namespace Grammar

/-- Only statements can be declarations. -/
def Category.declares : Category → Bool
  | statement | item _ | items _ | program => true
  | _ => false

/-- The first token of what a category derives. -/
theorem Derives.opensText {k : Category} {w : List Token} (h : Derives k w) :
    (∀ t ∈ w, t.Spelt) → ∀ t ∈ w.head?, Token.opensText k.declares t.text = true := by
  induction h with
  | typeName ht =>
    rintro - t ⟨⟩
    exact Token.opensText_of_isTypeName ht
  | integer ht =>
    rintro hs t ⟨⟩
    exact Token.opensText_of_kind (hs _ (by simp)) (.inl ht.1)
  | boolean ht =>
    rintro hs t ⟨⟩
    exact Token.opensText_of_kind (hs _ (by simp)) (.inr ht)
  | name ht | callEmpty ht | call ht =>
    rintro hs t ⟨⟩
    exact Token.opensText_of_isName (hs _ (by simp)) ht
  | functionType ho | grouping ho | ifThen ho | ifThenElse ho | loop ho | emptyBlock ho
  | unitBlock ho | block ho | declaration ho | ascribed ho =>
    rintro - t ⟨⟩
    exact Token.opensText_of_is ho (by decide)
  | signed ht =>
    rintro - t ⟨⟩
    rcases ht with ht | ht <;> exact Token.opensText_of_is ht (by decide)
  | lastType _ ih | primary _ ih | unary _ ih | value _ ih | last _ ih | closed _ _ _ ih
  | single _ ih => exact ih
  | moreTypes hw _ _ ih | binary hw _ _ ih | assignment hw _ _ ih | more hw _ _ ih
  | terminated hw _ ih =>
    intro hs t ht
    rw [List.head?_append_of_ne_nil _ (hw.ne_nil rfl)] at ht
    exact ih (List.forall_mem_append.1 hs).1 t ht
  | statement _ ih =>
    intro hs t ht
    exact Token.opensText_mono (ih hs t ht)
  | noItems => simp
  | moreItems hw _ ih =>
    intro hs t ht
    rw [List.head?_append_of_ne_nil _ (hw.ne_nil rfl)] at ht
    exact ih (List.forall_mem_append.1 hs).1 t ht
  | several _ _ ih => exact ih

/-- A chain goes on with an operand, or it stands behind one. -/
inductive Turn where
  | operand
  | behind

/-- Operators and the mark of an assignment join two operands. -/
def Joins (t : Token) : Prop := t.IsBinary ∨ t.is "=" = true

/-- `Spine p k w`: the tokens `w` end a chain that has come to `p` with `k` conditionals open. -/
inductive Spine : Turn → Nat → List Token → Prop where
  | done {k} : Spine .behind k []
  | join {k q w} : Joins q → Spine .operand k w → Spine .behind k (q :: w)
  | alternative {k l w} : l.is "else" = true → Spine .operand k w → Spine .behind (k + 1) (l :: w)
  | sign {k t w} : t.is "-" = true ∨ t.is "not" = true → Spine .operand k w →
      Spine .operand k (t :: w)
  | condition {k i c t w} : i.is "if" = true → Derives .expression c → t.is "then" = true →
      Spine .operand (k + 1) w → Spine .operand k (i :: (c ++ t :: w))
  | loop {k i c d w} : i.is "while" = true → Derives .expression c → d.is "do" = true →
      Spine .operand k w → Spine .operand k (i :: (c ++ d :: w))
  | atom {k w v} : Derives .primary w → starts w "if" = false → starts w "while" = false →
      Spine .behind k v → Spine .operand k (w ++ v)

theorem Spine.ne_nil {k : Nat} {w : List Token} (h : Spine .operand k w) : w ≠ [] := by
  cases h with
  | atom ha => simp [ha.ne_nil rfl]
  | _ => simp

theorem Spine.mono {p : Turn} {k m : Nat} {w : List Token} (h : Spine p k w) (hm : k ≤ m) :
    Spine p m w := by
  induction h generalizing m with
  | done => exact .done
  | join hq _ ih => exact .join hq (ih hm)
  | @alternative k l w hl _ ih =>
    obtain ⟨m, rfl⟩ : ∃ j, m = j + 1 := ⟨m - 1, by omega⟩
    exact .alternative hl (ih (by omega))
  | sign ht _ ih => exact .sign ht (ih hm)
  | condition hi hc ht _ ih => exact .condition hi hc ht (ih (by omega))
  | loop hi hc hd _ ih => exact .loop hi hc hd (ih hm)
  | atom ha h1 h2 _ ih => exact .atom ha h1 h2 (ih hm)

/-- A chain goes on behind its end. -/
theorem Spine.append_join {p : Turn} {k : Nat} {w v : List Token} {q : Token} (h : Spine p k w)
    (hq : Joins q) (hv : Spine .operand 0 v) : Spine p k (w ++ q :: v) := by
  induction h with
  | done => exact .join hq (hv.mono (Nat.zero_le _))
  | join hq' _ ih => exact .join hq' ih
  | alternative hl _ ih => exact .alternative hl ih
  | sign ht _ ih => exact .sign ht ih
  | condition hi hc ht _ ih => simpa using Spine.condition hi hc ht ih
  | loop hi hc hd _ ih => simpa using Spine.loop hi hc hd ih
  | atom ha h1 h2 _ ih => simpa using Spine.atom ha h1 h2 ih

/-- An alternative behind a chain takes one more conditional to be open. -/
theorem Spine.append_alternative {p : Turn} {k : Nat} {w v : List Token} {l : Token}
    (h : Spine p k w) (hl : l.is "else" = true) (hv : Spine .operand 0 v) :
    Spine p (k + 1) (w ++ l :: v) := by
  induction h with
  | done => exact .alternative hl (hv.mono (Nat.zero_le _))
  | join hq _ ih => exact .join hq ih
  | alternative hl' _ ih => exact .alternative hl' ih
  | sign ht _ ih => exact .sign ht ih
  | condition hi hc ht _ ih => simpa using Spine.condition hi hc ht ih
  | loop hi hc hd _ ih => simpa using Spine.loop hi hc hd ih
  | atom ha h1 h2 _ ih => simpa using Spine.atom ha h1 h2 ih

/-- The categories of operands and of chains of them. -/
def Category.chains : Category → Bool
  | primary | unary | binary | expression => true
  | _ => false

theorem Derives.spine {k : Category} {w : List Token} (h : Derives k w) :
    (∀ t ∈ w, t.Spelt) → k.chains = true → Spine .operand 0 w := by
  -- What starts with neither word is an operand that a chain takes as it stands.
  have hatom {t : Token} {w : List Token} (hw : Derives .primary (t :: w))
      (hif : t.is "if" = false) (hwhile : t.is "while" = false) : Spine .operand 0 (t :: w) := by
    rw [← List.append_nil (t :: w)]
    exact .atom hw hif hwhile .done
  induction h with
  | integer ht =>
    intro hs _
    have hs := hs _ List.mem_cons_self
    apply hatom (.integer ht) <;> exact hs.is_eq_false (by rw [ht.1]; decide)
  | boolean ht =>
    intro hs _
    have hs := hs _ List.mem_cons_self
    apply hatom (.boolean ht) <;> exact hs.is_eq_false (by rw [ht]; decide)
  | name ht =>
    intro _ _
    apply hatom (.name ht) <;> exact ht.is_eq_false (by decide)
  | callEmpty ht ho hc =>
    intro _ _
    apply hatom (.callEmpty ht ho hc) <;> exact ht.is_eq_false (by decide)
  | call ht ho hw hc =>
    intro _ _
    apply hatom (.call ht ho hw hc) <;> exact ht.is_eq_false (by decide)
  | grouping ho hw hc =>
    intro _ _
    apply hatom (.grouping ho hw hc) <;> exact Token.is_eq_false_of_is ho (by decide)
  | emptyBlock ho hc =>
    intro _ _
    apply hatom (.emptyBlock ho hc) <;> exact Token.is_eq_false_of_is ho (by decide)
  | unitBlock ho hw hv hq hc =>
    intro _ _
    apply hatom (.unitBlock ho hw hv hq hc) <;> exact Token.is_eq_false_of_is ho (by decide)
  | block ho hw hv hc =>
    intro _ _
    apply hatom (.block ho hw hv hc) <;> exact Token.is_eq_false_of_is ho (by decide)
  | ifThen hi hc ht _ _ ih =>
    intro hs _
    simp only [List.forall_mem_cons, List.forall_mem_append] at hs
    exact .condition hi hc ht ((ih hs.2.2.2 rfl).mono (by omega))
  | ifThenElse hi hc ht _ hl _ _ ihw ihv =>
    intro hs _
    simp only [List.forall_mem_cons, List.forall_mem_append] at hs
    have hw := ihw hs.2.2.2.1 rfl
    exact .condition hi hc ht (hw.append_alternative hl (ihv hs.2.2.2.2.2 rfl))
  | loop hi hc hd _ _ ih =>
    intro hs _
    simp only [List.forall_mem_cons, List.forall_mem_append] at hs
    exact .loop hi hc hd (ih hs.2.2.2 rfl)
  | primary _ ih | unary _ ih | value _ ih => exact fun hs _ => ih hs rfl
  | signed ht _ ih =>
    intro hs _
    exact .sign ht (ih (List.forall_mem_cons.1 hs).2 rfl)
  | binary _ hq _ ihw ihv =>
    intro hs _
    simp only [List.forall_mem_cons, List.forall_mem_append] at hs
    exact (ihw hs.1 rfl).append_join (.inl hq) (ihv hs.2.2 rfl)
  | assignment _ hq _ ihw ihv =>
    intro hs _
    simp only [List.forall_mem_cons, List.forall_mem_append] at hs
    exact (ihw hs.1 rfl).append_join (.inr hq) (ihv hs.2.2 rfl)
  | _ =>
    intro _ hk
    cases hk

end Grammar

end ExprLang
