import ExprLang.Expr
import ExprLang.Proofs.Token.Order

/-!
Outlines: the spans of a tree without anything else. Main statement: outlines that are spread over
tokens in order make up a node, the span of which reaches from the first of them to the last.
-/

namespace ExprLang

open ExprLang.Token (InOrder)

/-- The span of a node, and the outlines of its parts in the order in which they are written. -/
inductive Outline where
  | mk (span : Span) (parts : List Outline)

namespace Outline

def span : Outline → Span
  | mk span _ => span

def parts : Outline → List Outline
  | mk _ parts => parts

/-- What has no parts. -/
def leaf (span : Span) : Outline := mk span []

@[simp] theorem span_mk (s : Span) (ps : List Outline) : (mk s ps).span = s := rfl

@[simp] theorem parts_mk (s : Span) (ps : List Outline) : (mk s ps).parts = ps := rfl

@[simp] theorem span_leaf (s : Span) : (leaf s).span = s := rfl

@[simp] theorem parts_leaf (s : Span) : (leaf s).parts = [] := rfl

/-- Over the tokens `ts` all spans nest: each starts where a token does, stops where one does, not
before it starts, and encloses the spans of the parts, of which each stops before the next
starts. -/
inductive Nested (ts : List Token) : Outline → Prop
  | mk {o : Outline} (exists_start : ∃ t ∈ ts, o.span.start = t.span.start)
    (exists_stop : ∃ t ∈ ts, o.span.stop = t.span.stop) (forward : o.span.start ≤ o.span.stop)
    (within : ∀ p ∈ o.parts, o.span.start ≤ p.span.start ∧ p.span.stop ≤ o.span.stop)
    (apart : o.parts.Pairwise fun p q => p.span.stop ≤ q.span.start)
    (nested : ∀ p ∈ o.parts, Nested ts p) : Nested ts o

/-- Nested outlines one behind the other. -/
structure Spread (ts : List Token) (os : List Outline) : Prop where
  nested : ∀ o ∈ os, o.Nested ts
  apart : os.Pairwise fun p q => p.span.stop ≤ q.span.start

variable {o first last : Outline} {os ps : List Outline} {t : Token} {ts us : List Token}

theorem Nested.mono (h : o.Nested ts) (hts : ts ⊆ us) : o.Nested us := by
  induction h with
  | mk hstart hstop hle hin hapart _ ih =>
    have hdrawn {p : Token → Prop} : (∃ t ∈ ts, p t) → ∃ t ∈ us, p t := fun ⟨t, ht, hp⟩ =>
      ⟨t, hts ht, hp⟩
    exact .mk (hdrawn hstart) (hdrawn hstop) hle hin hapart ih

theorem Nested.exists_start (h : o.Nested ts) : ∃ t ∈ ts, o.span.start = t.span.start := by
  cases h
  assumption

theorem Nested.exists_stop (h : o.Nested ts) : ∃ t ∈ ts, o.span.stop = t.span.stop := by
  cases h
  assumption

theorem Nested.start_le_stop (h : o.Nested ts) : o.span.start ≤ o.span.stop := by
  cases h
  assumption

namespace Spread

theorem nil : Spread ts [] := ⟨by simp, .nil⟩

theorem single (h : o.Nested ts) : Spread ts [o] := ⟨by simpa using h, by simp⟩

theorem mono (h : Spread ts os) (hts : ts ⊆ us) : Spread us os :=
  ⟨fun o ho => (h.nested o ho).mono hts, h.apart⟩

/-- A token that belongs to no part. -/
theorem skip (h : Spread ts os) (t : Token) : Spread (t :: ts) os :=
  h.mono (List.subset_cons_self t ts)

theorem append (h : Spread ts os) (hus : InOrder (ts ++ us)) (h' : Spread us ps) :
    Spread (ts ++ us) (os ++ ps) := by
  refine ⟨List.forall_mem_append.2 ⟨?_, ?_⟩, List.pairwise_append.2 ⟨h.apart, h'.apart, ?_⟩⟩
  · exact fun o ho => (h.nested o ho).mono (List.subset_append_left ts us)
  · exact fun o ho => (h'.nested o ho).mono (List.subset_append_right ts us)
  · intro p hp q hq
    obtain ⟨t, ht, hstop⟩ := (h.nested p hp).exists_stop
    obtain ⟨u, hu, hstart⟩ := (h'.nested q hq).exists_start
    rw [hstop, hstart]
    exact (List.pairwise_append.1 hus.apart).2.2 t ht u hu

/-- The same with a token in between that belongs to no part. -/
theorem append_skip (h : Spread ts os) (hus : InOrder (ts ++ t :: us)) (h' : Spread us ps) :
    Spread (ts ++ t :: us) (os ++ ps) :=
  h.append hus (h'.skip t)

theorem token (h : InOrder [t]) : Spread [t] [leaf t.span] := by
  have ht := List.mem_singleton_self t
  exact single (.mk ⟨t, ht, rfl⟩ ⟨t, ht, rfl⟩ (h.forward t ht) (by simp) (by simp) (by simp))

theorem cons (h : Spread ts os) (hts : InOrder (t :: ts)) : Spread (t :: ts) (leaf t.span :: os) :=
  (token (hts.left (u := [t]))).append hts h

/-- No outline starts before the first one. -/
theorem start_le (h : Spread ts (first :: os)) :
    ∀ o ∈ first :: os, first.span.start ≤ o.span.start := by
  have hfirst := (h.nested first List.mem_cons_self).start_le_stop
  rw [List.forall_mem_cons]
  exact ⟨le_refl _, fun o ho => hfirst.trans (List.rel_of_pairwise_cons h.apart ho)⟩

/-- No outline stops behind the last one. -/
theorem le_stop (h : Spread ts (os ++ [last])) :
    ∀ o ∈ os ++ [last], o.span.stop ≤ last.span.stop := by
  have hlast := (h.nested last (by simp)).start_le_stop
  have hbefore := (List.pairwise_append.1 h.apart).2.2
  rw [List.forall_mem_append]
  exact ⟨fun o ho => (hbefore o ho last (by simp)).trans hlast, by simp⟩

/-- A node starts with the first of the outlines, and stops where a token does that no outline
stops behind. All of the outlines or some are its parts. -/
theorem nested_of_stop {stop : Position} (h : Spread ts (first :: os))
    (hstop : ∃ t ∈ ts, stop = t.span.stop) (hle : ∀ o ∈ first :: os, o.span.stop ≤ stop)
    (hparts : ps.Sublist (first :: os)) : (Outline.mk ⟨first.span.start, stop⟩ ps).Nested ts := by
  have hfirst := h.nested first List.mem_cons_self
  refine .mk hfirst.exists_start hstop ?_ ?_ (h.apart.sublist hparts) ?_
  · exact hfirst.start_le_stop.trans (hle first List.mem_cons_self)
  · exact fun p hp => ⟨h.start_le p (hparts.subset hp), hle p (hparts.subset hp)⟩
  · exact fun p hp => h.nested p (hparts.subset hp)

/-- A node that reaches from the first of the outlines to the last. -/
theorem nested_through (os : List Outline) (h : Spread ts (first :: (os ++ [last])))
    (hparts : ps.Sublist (first :: (os ++ [last]))) :
    (Outline.mk (first.span.through last.span) ps).Nested ts := by
  have hle : ∀ o ∈ first :: os ++ [last], o.span.stop ≤ last.span.stop := Spread.le_stop h
  exact h.nested_of_stop (h.nested last (by simp)).exists_stop hle hparts

/-- A node that reaches from the first of the outlines to the end of the tokens. -/
theorem nested_to_last {last : Token} (hts : InOrder ts) (hlast : ts.getLast? = some last)
    (h : Spread ts (first :: os)) (hparts : ps.Sublist (first :: os)) :
    (Outline.mk (first.span.through last.span) ps).Nested ts := by
  refine h.nested_of_stop ⟨last, List.mem_of_getLast? hlast, rfl⟩ (fun o ho => ?_) hparts
  obtain ⟨t, ht, hstop⟩ := (h.nested o ho).exists_stop
  rw [hstop]
  exact hts.stop_le_of_getLast? hlast ht

end Spread

end Outline

mutual

def Ascription.outline : Ascription → Outline
  | .simple _ s => .leaf s
  | .function params result s => .mk s (outlineAll params ++ [outline result])

def Ascription.outlineAll : List Ascription → List Outline
  | [] => []
  | a :: as => outline a :: outlineAll as

end

mutual

/-- The outline of an expression. Names and ascriptions are parts of it like expressions. -/
def Expr.outline : Expr → Outline
  | .literal s _ | .identifier s _ => .leaf s
  | .binary s _ a b => .mk s [outline a, outline b]
  | .unary s _ a => .mk s [outline a]
  | .ifThen s c a => .mk s [outline c, outline a]
  | .ifThenElse s c a b => .mk s [outline c, outline a, outline b]
  | .loop s c a => .mk s [outline c, outline a]
  | .block s es e => .mk s (outlineAll es ++ [outline e])
  | .declaration s x a v => .mk s (.leaf x.span :: (a.toList.map Ascription.outline ++ [outline v]))
  | .assignment s a b => .mk s [outline a, outline b]
  | .call s f es => .mk s (.leaf f.span :: outlineAll es)

def Expr.outlineAll : List Expr → List Outline
  | [] => []
  | e :: es => outline e :: outlineAll es

end

@[simp] theorem Ascription.span_outline (a : Ascription) : a.outline.span = a.span := by
  cases a <;> rfl

theorem Ascription.outlineAll_eq (as : List Ascription) : outlineAll as = as.map outline := by
  induction as with
  | nil => rfl
  | cons a as ih => rw [outlineAll, ih, List.map_cons]

@[simp] theorem Expr.span_outline (e : Expr) : e.outline.span = e.span := by
  cases e <;> rfl

theorem Expr.outlineAll_eq (es : List Expr) : outlineAll es = es.map outline := by
  induction es with
  | nil => rfl
  | cons e es ih => rw [outlineAll, ih, List.map_cons]

end ExprLang
