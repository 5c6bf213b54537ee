import ExprLang.Proofs.Grammar.Levels

/-!
What a reading asks of the tokens behind it. Main statement: no more than what the next of them is,
so that a part is read alike before all tokens that start alike, and before all that end it.
-/

namespace ExprLang

open ExprLang.Token (starts)

variable {r r' : List Token}

theorem Token.starts_of_head?_eq (h : r'.head? = r.head?) (text : String) :
    starts r' text = starts r text := by
  rw [starts, starts, h]

/-- A parameter list ends where no comma follows; one type ends by itself. -/
theorem Ascription.Reading.before {p : Ascription.Part} {w : List Token} {as : List Ascription}
    (h : Ascription.Reading p w r as) :
    (p = .many → starts r' "," = false) → Ascription.Reading p w r' as := by
  induction h generalizing r' with
  | simple hk ht => exact fun _ => .simple hk ht
  | function ho _ hc ha _ ih ih' =>
    intro _
    refine .function ho (ih fun _ => ?_) hc ha (ih' fun h => by cases h)
    exact Token.is_eq_false_of_is hc (by decide)
  | last _ _ ih => exact fun hr => .last (ih fun h => by cases h) (hr rfl)
  | more _ hq _ ih ih' => exact fun hr => .more (ih fun h => by cases h) hq (ih' hr)

namespace Grammar

/-- Before the tokens `r` every part of this kind has come to its end. The items of a block end
before its closing brace only, where they are told from what stands inside of it. -/
def Part.EndsBefore : Part → List Token → Prop
  | items, _ => False
  | expressions, r => Quiet r ∧ starts r "else" = false ∧ starts r "," = false
  | _, r => Quiet r ∧ starts r "else" = false

/-- The tokens `r'` are as good as `r` behind a part: they start alike, or the part ends. -/
def Part.Serves (p : Part) (r r' : List Token) : Prop := r'.head? = r.head? ∨ p.EndsBefore r'

/-- Where something stands in between, the same token comes next. -/
theorem Part.Serves.append {p q : Part} (h : p.Serves r r') (v : List Token)
    (hpq : p.EndsBefore r' → q.EndsBefore r') : q.Serves (v ++ r) (v ++ r') := by
  cases v with
  | nil => exact h.imp_right hpq
  | cons t v => exact .inl rfl

theorem Part.Serves.starts_eq_false {p : Part} (h : p.Serves r r') {text : String}
    (hends : p.EndsBefore r' → starts r' text = false) (hr : starts r text = false) :
    starts r' text = false := by
  rcases h with h | h
  · rwa [Token.starts_of_head?_eq h]
  · exact hends h

/-- The level where a chain of operators stops is the same. -/
theorem Part.Serves.stops {p : Part} (h : p.Serves r r') {l : Level}
    (hends : p.EndsBefore r' → Quiet r') (hr : ∀ t ∈ r.head?, Rule.operatorOf l t = none) :
    ∀ t ∈ r'.head?, Rule.operatorOf l t = none := by
  intro t ht
  rcases h with h | h
  · exact hr t (h ▸ ht)
  · exact Rule.operatorOf_eq_none.2 fun op _ => (hends h t ht).1 op (Nat.zero_le _)

theorem Reading.before {p : Part} {w : List Token} {es : List Expr} (h : Reading p w r es) :
    p.Serves r r' → Reading p w r' es := by
  induction h generalizing r' with
  | integer hk ho hv => exact fun _ => .integer hk ho hv
  | boolean hk ho => exact fun _ => .boolean hk ho
  | name ht ho hr =>
    exact fun h => .name ht ho (h.starts_eq_false (fun hq => hq.1.starts_eq_false.2) hr)
  | callEmpty hf ho hoo hc => exact fun _ => .callEmpty hf ho hoo hc
  | call hf ho hoo hw _ hc ih => exact fun _ => .call hf ho hoo hw (ih (.inl rfl)) hc
  | grouping ho _ hc ih => exact fun _ => .grouping ho (ih (.inl rfl)) hc
  | signed ht hop _ ih => exact fun h => .signed ht hop (ih h)
  | ifThen hi _ ht _ hr ihc ihw =>
    exact fun h => .ifThen hi (ihc (.inl rfl)) ht (ihw (h.imp_right id))
      (h.starts_eq_false (fun hq => hq.2) hr)
  | ifThenElse hi _ ht _ hl _ ihc ihw ihv =>
    exact fun h => .ifThenElse hi (ihc (.inl rfl)) ht (ihw (.inl rfl)) hl (ihv (h.imp_right id))
  | loop hi _ hd _ ihc ihw =>
    exact fun h => .loop hi (ihc (.inl rfl)) hd (ihw (h.imp_right id))
  | block ho _ hc ih => exact fun _ => .block ho (ih (.inl rfl)) hc
  | tightest _ ih => exact fun h => .tightest (ih (h.imp_right id))
  | @level _ _ v _ _ _ hl _ _ iha ihe =>
    exact fun h => .level hl (iha (h.append v id)) (ihe (h.imp_right id))
  | stop hr => exact fun h => .stop (h.stops And.left hr)
  | @step _ _ _ _ v _ _ _ _ hop _ _ ihb ihe =>
    exact fun h => .step hop (ihb (h.append v id)) (ihe (h.imp_right id))
  | value _ hr ih =>
    exact fun h => .value (ih (h.imp_right id))
      (h.starts_eq_false (fun hq => hq.1.starts_eq_false.1) hr)
  | assignment _ hq _ iha ihb =>
    exact fun h => .assignment (iha (.inl rfl)) hq (ihb h)
  | last _ hr ih =>
    exact fun h => .last (ih (h.imp_right fun hq => ⟨hq.1, hq.2.1⟩))
      (h.starts_eq_false (fun hq => hq.2.2) hr)
  | more _ hq _ ih ih' => exact fun h => .more (ih (.inl rfl)) hq (ih' h)
  | declaration hd hn hq hc _ ih => exact fun h => .declaration hd hn hq hc (ih (h.imp_right id))
  | ascribed hd hn hc ha hq _ ih =>
    exact fun h => .ascribed hd hn hc (ha.before fun h => by cases h) hq (ih (h.imp_right id))
  | statement hn _ ih => exact fun h => .statement hn (ih (h.imp_right id))
  | leftOut hc =>
    intro h
    obtain ⟨t, ht⟩ : ∃ t, r' = _ :: t := List.head?_eq_some_iff.1 (h.resolve_right id)
    rw [ht]
    exact .leftOut hc
  | terminated hw _ hq _ ih ih' => exact fun h => .terminated hw (ih (.inl rfl)) hq (ih' h)
  | @closed _ v _ _ _ hw _ hf hsc hcb _ ih ih' =>
    intro h
    have hnext := h.append v (q := .items) id
    refine .closed hw (ih (.inl (hnext.resolve_right id))) hf ?_ ?_ (ih' h)
    · exact hnext.starts_eq_false False.elim hsc
    · exact hnext.starts_eq_false False.elim hcb
  | result hw _ hsc hf hd ih =>
    intro h
    have hhead := h.resolve_right id
    refine .result hw (ih (.inl hhead)) (h.starts_eq_false False.elim hsc) ?_ hd
    rwa [Token.starts_of_head?_eq hhead]

end Grammar

end ExprLang
