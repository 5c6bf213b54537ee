import ExprLang.Proofs.Grammar.Acceptance
import ExprLang.Proofs.Grammar.Braces

/-!
Semicolons that may be left out. Main statement: where a statement follows a closing brace, a
semicolon between them does not change the tree of the program, however deep they stand.
-/

namespace ExprLang

open ExprLang.Token (starts finishes openBrace closeBrace)

namespace Grammar

/-- `Shortens w v`: the tokens `v` are `w` without a semicolon behind a closing brace. No closing
brace follows it, and no sign, which would go on with what the brace ends. -/
inductive Shortens : List Token → List Token → Prop where
  | here {b q t w} : b.is closeBrace = true → q.is ";" = true → t.is closeBrace = false →
      t.is "-" = false → Shortens (b :: q :: t :: w) (b :: t :: w)
  | there {t w v} : Shortens w v → Shortens (t :: w) (t :: v)

namespace Shortens

variable {t : Token} {u w x v : List Token}

/-- The first token stays, and so does the last. -/
theorem head?_eq (h : Shortens w v) : v.head? = w.head? := by
  cases h <;> rfl

theorem head?_append (h : Shortens w v) (r : List Token) : (v ++ r).head? = (w ++ r).head? := by
  cases h <;> rfl

theorem starts_eq (h : Shortens w v) (text : String) : starts v text = starts w text :=
  Token.starts_of_head?_eq h.head?_eq text

theorem getLast?_eq (h : Shortens w v) : v.getLast? = w.getLast? := by
  induction h with
  | here => simp [List.getLast?_cons]
  | there _ ih => rw [List.getLast?_cons, List.getLast?_cons, ih]

theorem finishes_eq (h : Shortens w v) (text : String) : finishes v text = finishes w text := by
  rw [finishes, finishes, h.getLast?_eq]

theorem sublist (h : Shortens w v) : v.Sublist w := by
  induction h with
  | here => exact .cons_cons _ (List.sublist_cons_self _ _)
  | there _ ih => exact ih.cons_cons _

theorem exists_semicolon (h : Shortens w v) : ∃ t ∈ w, t.is ";" = true := by
  induction h with
  | @here b q _ _ _ hq => exact ⟨q, by simp, hq⟩
  | there _ ih =>
    obtain ⟨t, ht, hq⟩ := ih
    exact ⟨t, List.mem_cons_of_mem _ ht, hq⟩

theorem prepend (h : Shortens w v) (u : List Token) : Shortens (u ++ w) (u ++ v) := by
  induction u with
  | nil => exact h
  | cons t u ih => exact .there ih

/-- Behind a token that a semicolon does not end, the others are shortened. -/
theorem cons (h : Shortens (t :: w) v) (ht : t.is closeBrace = true → starts w ";" = false) :
    ∃ v', v = t :: v' ∧ Shortens w v' := by
  cases h with
  | here hb hq =>
    rw [Token.starts_cons, hq] at ht
    cases ht hb
  | there h => exact ⟨_, rfl, h⟩

theorem cons_of_is {text : String} (h : Shortens (t :: w) v) (ht : t.is text = true)
    (htext : text ≠ closeBrace) : ∃ v', v = t :: v' ∧ Shortens w v' :=
  h.cons fun hbrace => by
    rw [Token.is_eq_false_of_is ht htext] at hbrace
    cases hbrace

/-- If the first of two parts does not end in the semicolon, it is either within one of them or
between them. -/
theorem append (h : Shortens (w ++ x) v)
    (hw : starts x closeBrace = false → finishes w ";" = false) :
    (∃ w', v = w' ++ x ∧ Shortens w w') ∨ (∃ x', v = w ++ x' ∧ Shortens x x') ∨
      ∃ q t y, x = q :: t :: y ∧ v = w ++ t :: y ∧ finishes w closeBrace = true ∧
        q.is ";" = true ∧ t.is closeBrace = false ∧ t.is "-" = false := by
  induction w generalizing v with
  | nil => exact .inr (.inl ⟨v, rfl, h⟩)
  | cons a w ih =>
    rw [List.cons_append] at h
    generalize hwx : w ++ x = z at h
    cases h with
    | @here _ q t y hb hq hclose hminus =>
      match w with
      | [] => exact .inr (.inr ⟨q, t, y, hwx, rfl, hb, hq, hclose, hminus⟩)
      | [b] =>
        -- The semicolon would be the end of the first part.
        obtain ⟨rfl, rfl⟩ := List.cons.inj hwx
        have hfinishes : finishes [a, b] ";" = false := hw hclose
        exact absurd hq (Bool.eq_false_iff.1 hfinishes)
      | b :: c :: w =>
        obtain ⟨rfl, htail⟩ := List.cons.inj hwx
        obtain ⟨rfl, rfl⟩ := List.cons.inj htail
        exact .inl ⟨a :: c :: w, rfl, .here hb hq hclose hminus⟩
    | there h =>
      subst hwx
      by_cases hne : w = []
      · subst hne
        exact .inr (.inl ⟨_, rfl, h⟩)
      · rw [finishes_cons hne] at hw ⊢
        rcases ih h hw with ⟨w', rfl, hw'⟩ | ⟨x', rfl, hx'⟩ | ⟨q, t, y, hx, rfl, hseam⟩
        · exact .inl ⟨a :: w', rfl, .there hw'⟩
        · exact .inr (.inl ⟨x', rfl, hx'⟩)
        · exact .inr (.inr ⟨q, t, y, hx, rfl, hseam⟩)

/-- If the second part does not start with it either, it is within one of them. -/
theorem split (h : Shortens (w ++ x) v)
    (hw : starts x closeBrace = false → finishes w ";" = false) (hx : starts x ";" = false) :
    (∃ w', v = w' ++ x ∧ Shortens w w') ∨ ∃ x', v = w ++ x' ∧ Shortens x x' := by
  rcases h.append hw with h | h | ⟨q, t, y, rfl, -, -, hq, -⟩
  · exact .inl h
  · exact .inr h
  · rw [Token.starts_cons, hq] at hx
    cases hx

/-- The same around a mark. -/
theorem split_cons {text : String} (h : Shortens (w ++ t :: x) v) (hw : finishes w ";" = false)
    (ht : t.is text = true) (htext : text ≠ ";" ∧ text ≠ closeBrace) :
    (∃ w', v = w' ++ t :: x ∧ Shortens w w') ∨ ∃ x', v = w ++ t :: x' ∧ Shortens x x' := by
  rcases h.split (fun _ => hw) (Token.is_eq_false_of_is ht htext.1) with hw' | ⟨_, rfl, hx⟩
  · exact .inl hw'
  · obtain ⟨x', rfl, hrest⟩ := hx.cons_of_is ht htext.2
    exact .inr ⟨x', rfl, hrest⟩

/-- The same in front of the mark that closes a part. -/
theorem enclosed {text : String} (h : Shortens (w ++ [t]) v) (ht : t.is text = true)
    (htext : text ≠ ";") (hw : text ≠ closeBrace → finishes w ";" = false) :
    ∃ w', v = w' ++ [t] ∧ Shortens w w' := by
  have hlast : starts [t] closeBrace = false → finishes w ";" = false := fun hclose =>
    hw fun h => by
      rw [Token.starts_cons, ← h, ht] at hclose
      cases hclose
  rcases h.split hlast (Token.is_eq_false_of_is ht htext) with h | ⟨_, -, hx⟩
  · exact h
  · obtain _ | ⟨⟨⟩⟩ := hx

end Shortens

variable {w r r' v : List Token} {e : Expr}

theorem Reading.leaning_starts_eq_false {l : Level} {a : Expr} {es : List Expr}
    (h : Reading (.leaning l a) w r es) : starts w ";" = false := by
  cases h with
  | stop => rfl
  | @step _ _ op _ _ _ _ _ _ hop =>
    exact Token.is_eq_false_of_is (Rule.operatorOf_eq_some hop).1 (by cases op <;> decide)

theorem forall_is_semicolon_eq_false {p : Ascription.Part} {as : List Ascription}
    (h : Ascription.Reading p w r as) : ∀ t ∈ w, t.is ";" = false := by
  have hmark {t : Token} {text : String} (ht : t.is text = true) (htext : text ≠ ";") :
      t.is ";" = false := Token.is_eq_false_of_is ht htext
  induction h with
  | @simple t _ _ ht =>
    refine List.forall_mem_singleton.2 (Bool.eq_false_iff.2 fun hq => ?_)
    rw [Token.text_of_is hq] at ht
    exact absurd ht (by decide)
  | function ho _ hc ha _ ih ih' =>
    simp only [List.forall_mem_cons, List.forall_mem_append]
    exact ⟨hmark ho (by decide), ih, hmark hc (by decide), hmark ha (by decide), ih'⟩
  | last _ _ ih => exact ih
  | more _ hq _ ih ih' =>
    simp only [List.forall_mem_cons, List.forall_mem_append]
    exact ⟨ih, hmark hq (by decide), ih'⟩

/-- What is read as a statement has one tree. -/
theorem Reading.statement_unique {e' : Expr} (h : Reading .statement w r [e])
    (h' : Reading .statement w r [e']) : e = e' :=
  (Rule.denotes_statement (Rule.denotes_operand _)).unique (Nat.le_refl _) h h'

/-- A statement is read alike before all tokens that let it end. -/
theorem Reading.statement_before (h : Reading .statement w r [e]) (hs : ∀ t ∈ w, t.Spelt)
    (hr : Follows w r') : Reading .statement w r' [e] := by
  obtain ⟨e', he'⟩ := (h.sound hs).1.exists_reading hs hr
  have hend {r : List Token} {e : Expr} (h : Reading .statement w r [e]) :
      Reading .statement w [] [e] := h.before (.inr ⟨quiet_nil, rfl⟩)
  rwa [(hend h).statement_unique (hend he')]

/-- What stands between the braces of a block starts with a statement. -/
theorem BlockBody.opensText (h : BlockBody w) (hs : ∀ t ∈ w, t.Spelt) :
    ∀ t ∈ w.head?, Token.opensText true t.text = true := by
  have hitems {u v x : List Token} (hu : Derives (.items v.head?) u) (hv : Derives .statement v)
      (hs : ∀ t ∈ u ++ v, t.Spelt) :
      ∀ t ∈ (u ++ v ++ x).head?, Token.opensText true t.text = true := by
    obtain ⟨hsu, hsv⟩ := List.forall_mem_append.1 hs
    cases u with
    | nil =>
      rw [List.nil_append, List.head?_append_of_ne_nil _ (hv.ne_nil rfl)]
      exact hv.opensText hsv
    | cons t u => exact hu.opensText hsu
  rcases h with ⟨u, v, q, rfl, hu, hv, -⟩ | ⟨u, v, rfl, hu, hv⟩
  · exact hitems hu hv (List.forall_mem_append.1 hs).1
  · rw [← List.append_nil (u ++ v)]
    exact hitems hu (.statement hv) hs

/-- The start of another statement lets a statement end that ends in a closing brace. -/
theorem Reading.close {t : Token} (h : Reading .statement w r' [e]) (hs : ∀ t ∈ w, t.Spelt)
    (hf : finishes w closeBrace = true) (hopens : Token.opensText true t.text = true)
    (hminus : t.is "-" = false) : Reading .statement w (t :: r) [e] ∧ t.is ";" = false := by
  refine ⟨h.statement_before hs (follows_of_opensText hf ?_),
    Token.is_eq_false_of_opensText hopens (by decide)⟩
  rintro x ⟨⟩
  exact ⟨hopens, hminus⟩

/-- A part is read alike without a semicolon that may be left out. -/
theorem Reading.shortened {p : Part} {es : List Expr} (h : Reading p w r es) :
    (∀ t ∈ w, t.Spelt) → Shortens w v → Reading p v r es := by
  -- By induction on the reading: the semicolon stands in one part of it, and the parts in front of
  -- this one see no other token next.
  induction h generalizing v with
  | integer | boolean | name =>
    intro _ hv
    obtain _ | ⟨⟨⟩⟩ := hv
  | callEmpty hf _ ho hc =>
    intro _ hv
    obtain ⟨_, rfl, hx⟩ := hv.cons fun _ => Token.is_eq_false_of_is ho (by decide)
    obtain ⟨_, rfl, hy⟩ := hx.cons_of_is ho (by decide)
    obtain _ | ⟨⟨⟩⟩ := hy
  | call hf hop ho hw hes hc ih =>
    intro hs hv
    simp only [List.forall_mem_cons, List.forall_mem_append] at hs
    obtain ⟨_, rfl, hx⟩ := hv.cons fun _ => Token.is_eq_false_of_is ho (by decide)
    obtain ⟨_, rfl, hy⟩ := hx.cons_of_is ho (by decide)
    obtain ⟨_, rfl, hz⟩ := hy.enclosed hc (by decide) fun _ => hes.finishes_eq_false hs.2.2.1 rfl
    exact .call hf hop ho (by rwa [hz.starts_eq]) (ih hs.2.2.1 hz) hc
  | grouping ho he hc ih =>
    intro hs hv
    simp only [List.forall_mem_cons, List.forall_mem_append] at hs
    obtain ⟨_, rfl, hx⟩ := hv.cons_of_is ho (by decide)
    obtain ⟨_, rfl, hy⟩ := hx.enclosed hc (by decide) fun _ => he.finishes_eq_false hs.2.1 rfl
    exact .grouping ho (ih hs.2.1 hy) hc
  | signed ht hop _ ih =>
    intro hs hv
    obtain ⟨_, rfl, hx⟩ := hv.cons fun hbrace => by
      simp [Token.isOneOf, Token.is, Token.text_of_is hbrace, closeBrace] at ht
    exact .signed ht hop (ih (List.forall_mem_cons.1 hs).2 hx)
  | ifThen hi hc ht _ hr ihc ihw =>
    intro hs hv
    simp only [List.forall_mem_cons, List.forall_mem_append] at hs
    obtain ⟨_, rfl, hx⟩ := hv.cons_of_is hi (by decide)
    rcases hx.split_cons (hc.finishes_eq_false hs.2.1 rfl) ht (by decide) with
      ⟨_, rfl, hy⟩ | ⟨_, rfl, hy⟩
    · exact .ifThen hi (ihc hs.2.1 hy) ht ‹_› hr
    · exact .ifThen hi (hc.before (.inl rfl)) ht (ihw hs.2.2.2 hy) hr
  | ifThenElse hi hc ht hw hl hu ihc ihw ihu =>
    intro hs hv
    simp only [List.forall_mem_cons, List.forall_mem_append] at hs
    obtain ⟨-, hsc, -, hsw, -, hsu⟩ := hs
    obtain ⟨_, rfl, hx⟩ := hv.cons_of_is hi (by decide)
    rcases hx.split_cons (hc.finishes_eq_false hsc rfl) ht (by decide) with
      ⟨_, rfl, hy⟩ | ⟨_, rfl, hy⟩
    · exact .ifThenElse hi (ihc hsc hy) ht hw hl hu
    · rcases hy.split_cons (hw.finishes_eq_false hsw rfl) hl (by decide) with
        ⟨_, rfl, hz⟩ | ⟨_, rfl, hz⟩
      · exact .ifThenElse hi (hc.before (.inl rfl)) ht (ihw hsw hz) hl hu
      · exact .ifThenElse hi (hc.before (.inl rfl)) ht (hw.before (.inl rfl)) hl (ihu hsu hz)
  | loop hi hc hd hw ihc ihw =>
    intro hs hv
    simp only [List.forall_mem_cons, List.forall_mem_append] at hs
    obtain ⟨_, rfl, hx⟩ := hv.cons_of_is hi (by decide)
    rcases hx.split_cons (hc.finishes_eq_false hs.2.1 rfl) hd (by decide) with
      ⟨_, rfl, hy⟩ | ⟨_, rfl, hy⟩
    · exact .loop hi (ihc hs.2.1 hy) hd hw
    · exact .loop hi (hc.before (.inl rfl)) hd (ihw hs.2.2.2 hy)
  | block ho _ hc ih =>
    intro hs hv
    simp only [List.forall_mem_cons, List.forall_mem_append] at hs
    obtain ⟨_, rfl, hx⟩ := hv.cons_of_is ho (by decide)
    obtain ⟨_, rfl, hy⟩ := hx.enclosed hc (by decide) fun h => absurd rfl h
    exact .block ho (ih hs.2.1 hy) hc
  | tightest _ ih => exact fun hs hv => .tightest (ih hs hv)
  | level hl ha he iha ihe =>
    intro hs hv
    obtain ⟨hsw, hsv⟩ := List.forall_mem_append.1 hs
    rcases hv.split (fun _ => ha.finishes_eq_false hsw rfl) he.leaning_starts_eq_false with
      ⟨_, rfl, hx⟩ | ⟨_, rfl, hx⟩
    · exact .level hl (iha hsw hx) he
    · exact .level hl (ha.before (.inl (hx.head?_append _))) (ihe hsv hx)
  | stop =>
    intro _ hv
    cases hv
  | @step _ _ op _ _ _ _ _ _ hop hb he ihb ihe =>
    intro hs hv
    simp only [List.forall_mem_cons, List.forall_mem_append] at hs
    obtain ⟨_, rfl, hx⟩ :=
      hv.cons_of_is (Rule.operatorOf_eq_some hop).1 (by cases op <;> decide)
    rcases hx.split (fun _ => hb.finishes_eq_false hs.2.1 rfl) he.leaning_starts_eq_false with
      ⟨_, rfl, hy⟩ | ⟨_, rfl, hy⟩
    · exact .step hop (ihb hs.2.1 hy) he
    · exact .step hop (hb.before (.inl (hy.head?_append _))) (ihe hs.2.2 hy)
  | value _ hr ih => exact fun hs hv => .value (ih hs hv) hr
  | assignment ha hq hb iha ihb =>
    intro hs hv
    simp only [List.forall_mem_cons, List.forall_mem_append] at hs
    rcases hv.split_cons (ha.finishes_eq_false hs.1 rfl) hq (by decide) with
      ⟨_, rfl, hx⟩ | ⟨_, rfl, hx⟩
    · exact .assignment (iha hs.1 hx) hq hb
    · exact .assignment (ha.before (.inl rfl)) hq (ihb hs.2.2 hx)
  | last _ hr ih => exact fun hs hv => .last (ih hs hv) hr
  | more he hq hes ih ih' =>
    intro hs hv
    simp only [List.forall_mem_cons, List.forall_mem_append] at hs
    rcases hv.split_cons (he.finishes_eq_false hs.1 rfl) hq (by decide) with
      ⟨_, rfl, hx⟩ | ⟨_, rfl, hx⟩
    · exact .more (ih hs.1 hx) hq hes
    · exact .more (he.before (.inl rfl)) hq (ih' hs.2.2 hx)
  | declaration hd hn hq hc _ ih =>
    intro hs hv
    simp only [List.forall_mem_cons] at hs
    obtain ⟨_, rfl, hx⟩ := hv.cons_of_is hd (by decide)
    obtain ⟨_, rfl, hy⟩ := hx.cons fun _ => Token.is_eq_false_of_is hq (by decide)
    obtain ⟨_, rfl, hz⟩ := hy.cons_of_is hq (by decide)
    exact .declaration hd hn hq hc (ih hs.2.2.2 hz)
  | ascribed hd hn hc ha hq _ ih =>
    intro hs hv
    simp only [List.forall_mem_cons, List.forall_mem_append] at hs
    obtain ⟨_, rfl, hx⟩ := hv.cons_of_is hd (by decide)
    obtain ⟨_, rfl, hy⟩ := hx.cons fun _ => Token.is_eq_false_of_is hc (by decide)
    obtain ⟨_, rfl, hz⟩ := hy.cons_of_is hc (by decide)
    have hnone := forall_is_semicolon_eq_false ha
    have hfinishes := ha.sound.finishes_eq_false hs.2.2.2.1 rfl
    rcases hz.split_cons hfinishes hq (by decide) with ⟨_, rfl, hu⟩ | ⟨_, rfl, hu⟩
    · obtain ⟨t, ht, hsemicolon⟩ := hu.exists_semicolon
      rw [hnone t ht] at hsemicolon
      cases hsemicolon
    · exact .ascribed hd hn hc (ha.before fun h => by cases h) hq (ih hs.2.2.2.2.2 hu)
  | statement hn _ ih =>
    exact fun hs hv => .statement (by rwa [hv.starts_eq]) (ih hs hv)
  | leftOut =>
    intro _ hv
    cases hv
  | terminated hbrace hst hq hes ih ih' =>
    intro hs hv
    simp only [List.forall_mem_cons, List.forall_mem_append] at hs
    rcases hv.append fun _ => hst.finishes_eq_false hs.1 rfl with
      ⟨_, rfl, hx⟩ | ⟨_, rfl, hx⟩ | ⟨_, t, _, hx, rfl, hf, -, hclose, hminus⟩
    · exact .terminated (by rwa [hx.starts_eq]) (ih hs.1 hx) hq hes
    · obtain ⟨_, rfl, hy⟩ := hx.cons_of_is hq (by decide)
      exact .terminated hbrace (hst.before (.inl rfl)) hq (ih' hs.2.2 hy)
    · -- The semicolon is the one that ends this item, which its own brace ends without it.
      obtain ⟨rfl, rfl⟩ := List.cons.inj hx
      have hbody : BlockBody (t :: _) := (hes.sound hs.2.2).resolve_left fun h => by cases h.1
      obtain ⟨hst, hsemicolon⟩ := hst.close hs.1 hf (hbody.opensText hs.2.2 t rfl) hminus
      exact .closed hbrace hst hf hsemicolon hclose hes
  | @closed w x r e es hbrace hst hf hsemicolon hclose hes ih ih' =>
    intro hs hv
    obtain ⟨hsw, hsx⟩ := List.forall_mem_append.1 hs
    have hstarts : starts x ";" = false := by
      cases x with
      | nil => rfl
      | cons => exact hsemicolon
    rcases hv.split (fun _ => hst.finishes_eq_false hsw rfl) hstarts with
      ⟨_, rfl, hx⟩ | ⟨_, rfl, hx⟩
    · exact .closed (by rwa [hx.starts_eq]) (ih hsw hx) (by rwa [hx.finishes_eq]) hsemicolon hclose
        hes
    · have hhead := hx.head?_append r
      exact .closed hbrace (hst.before (.inl hhead)) hf
        (by rwa [Token.starts_of_head?_eq hhead]) (by rwa [Token.starts_of_head?_eq hhead])
        (ih' hsx hx)
  | result hbrace _ hsemicolon hf hd ih =>
    intro hs hv
    exact .result (by rwa [hv.starts_eq]) (ih hs hv) hsemicolon (by rwa [hv.finishes_eq]) hd

/-- So are the statements of a program. -/
theorem Statements.shortened {b : Bool} {es : List Expr} (h : Statements b w es) :
    (∀ t ∈ w, t.Spelt) → Shortens w v → Statements b v es := by
  induction h generalizing v with
  | done =>
    intro _ hv
    cases hv
  | terminated hst hq hes ih =>
    intro hs hv
    simp only [List.forall_mem_cons, List.forall_mem_append] at hs
    rcases hv.append fun _ => hst.finishes_eq_false hs.1 rfl with
      ⟨_, rfl, hx⟩ | ⟨_, rfl, hx⟩ | ⟨_, t, _, hx, rfl, hf, -, -, hminus⟩
    · exact .terminated (hst.shortened hs.1 hx) hq hes
    · obtain ⟨_, rfl, hy⟩ := hx.cons_of_is hq (by decide)
      exact .terminated (hst.before (.inl rfl)) hq (ih hs.2.2 hy)
    · obtain ⟨rfl, rfl⟩ := List.cons.inj hx
      have hopens := (hes.items hs.2.2).opensText hs.2.2 t rfl
      obtain ⟨hst, hsemicolon⟩ := hst.close hs.1 hf hopens hminus
      exact .closed hst hsemicolon hf hes
  | closed hst hsemicolon hf hes ih =>
    intro hs hv
    obtain ⟨hsw, hsx⟩ := List.forall_mem_append.1 hs
    rcases hv.split (fun _ => hst.finishes_eq_false hsw rfl) hsemicolon with
      ⟨_, rfl, hx⟩ | ⟨_, rfl, hx⟩
    · exact .closed (hst.shortened hsw hx) hsemicolon (by rwa [hx.finishes_eq]) hes
    · exact .closed (hst.before (.inl hx.head?_eq)) (by rwa [hx.starts_eq]) hf (ih hsx hx)
  | only hst hf =>
    exact fun hs hv => .only (hst.shortened hs hv) (by rwa [hv.finishes_eq])

end Grammar

/-- What stands in front of the end mark of a closed token list. -/
theorem Token.exists_of_closed_eq {ts u v : List Token} {t : Token} (h : closed ts = u ++ t :: v)
    (ht : t.isEnd = false) : ∃ x, ts = u ++ t :: x ∧ v = x ++ [endAfter ts.getLast?] := by
  rcases List.eq_nil_or_concat' v with rfl | ⟨x, last, rfl⟩
  · obtain ⟨-, hlast⟩ := List.append_inj' h rfl
    rw [← List.singleton_inj.1 hlast, isEnd_endAfter] at ht
    cases ht
  · have hx : ts ++ [endAfter ts.getLast?] = (u ++ t :: x) ++ [last] := by
      rw [List.append_assoc, List.cons_append]
      exact h
    obtain ⟨hts, hlast⟩ := List.append_inj' hx rfl
    exact ⟨x, hts, by rw [List.singleton_inj.1 hlast]⟩

/-- Where another token follows, neither a closing brace nor a sign, a program has the same tree
without a semicolon behind a closing brace. -/
theorem Expr.ofTokens_without_semicolon {text file : String} {u v : List Token} {b q t : Token}
    {e : Expr} (htokens : Token.read text file = u ++ b :: q :: t :: v)
    (hb : b.is closeBrace = true) (hq : q.is ";" = true) (hend : t.isEnd = false)
    (hclose : t.is closeBrace = false) (hminus : t.is "-" = false)
    (h : Expr.ofTokens (Token.read text file) file = .ok e) :
    Expr.ofTokens (u ++ b :: t :: v) file = .ok e := by
  let ts := Token.scan text.toList file
  have hspelt : ∀ t ∈ ts, t.Spelt := fun t => Token.spelt_of_mem_scan
  obtain ⟨x, hts, rfl⟩ : ∃ x, ts = u ++ b :: q :: t :: x ∧
      v = x ++ [Token.endAfter ts.getLast?] := by
    have hread : Token.closed ts = (u ++ [b, q]) ++ t :: v := by
      rw [List.append_assoc]
      exact htokens
    simpa using Token.exists_of_closed_eq hread hend
  have hshort : Grammar.Shortens ts (u ++ b :: t :: x) := by
    rw [hts]
    exact (Grammar.Shortens.here hb hq hclose hminus).prepend u
  have hclosed : u ++ b :: t :: (x ++ [Token.endAfter ts.getLast?]) =
      Token.closed (u ++ b :: t :: x) := by
    rw [Token.closed, hshort.getLast?_eq, List.append_assoc, List.cons_append, List.cons_append]
  obtain ⟨es, hes, htree⟩ := (Expr.ofTokens_closed_iff fun y hy => (hspelt y hy).isEnd).1 h
  rw [hclosed]
  refine (Expr.ofTokens_closed_iff fun y hy => (hspelt y (hshort.sublist.subset hy)).isEnd).2
    ⟨es, hes.shortened hspelt hshort, ?_⟩
  rwa [hshort.getLast?_eq]

/-- The semicolon behind an assignment of a block, inside of another block. -/
theorem Expr.ofTokens_without_semicolon_assignment :
    let mark (text : String) (column : Nat) : Token :=
      ⟨.punctuation, text, ⟨⟨1, column, ""⟩, ⟨1, column + 1, ""⟩⟩⟩
    let ts := Token.read "\x7bx=\x7by\x7d;(z)\x7d" ""
    ∃ (u v : List Token) (e : Expr),
      ts = u ++ mark closeBrace 6 :: mark ";" 7 :: mark "(" 8 :: v ∧
      Expr.ofTokens ts "" = .ok e ∧
      Expr.ofTokens (u ++ mark closeBrace 6 :: mark "(" 8 :: v) "" = .ok e := by
  intro mark ts
  obtain ⟨e, h⟩ : ∃ e, Expr.ofTokens ts "" = .ok e := ⟨_, by with_unfolding_all rfl⟩
  have htokens : ts = ts.take 5 ++
      mark closeBrace 6 :: mark ";" 7 :: mark "(" 8 :: ts.drop 8 := by
    decide +kernel
  exact ⟨_, _, e, htokens, h, ofTokens_without_semicolon htokens (by decide) (by decide) rfl
    (by decide) (by decide) h⟩

end ExprLang
