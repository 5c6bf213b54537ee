import ExprLang.Scope

/-!
How a check may change a scope. Main statement: a name that gets its own type again, in whatever
frame it is found, changes nothing below the innermost frame.
-/

namespace ExprLang

namespace Bindings

variable {b : Bindings} {name x : String} {type : Ty}

/-- A name that gets its own type again keeps its entry. -/
theorem insert_of_get? (h : b.get? name = some type) : b.insert name type = b := by
  obtain ⟨entries⟩ := b
  unfold insert
  congr 1
  unfold get? at h
  induction entries with
  | nil => simp [find] at h
  | cons entry rest ih =>
    obtain ⟨key, old⟩ := entry
    unfold find at h
    unfold replaceOrAppend
    split at h
    · rename_i hkey
      rw [if_pos hkey, hkey, Option.some_inj.1 h]
    · rename_i hkey
      rw [if_neg hkey, ih h]

theorem contains_insert (b : Bindings) (name : String) (type : Ty) (x : String) :
    (b.insert name type).contains x = true ↔ x = name ∨ b.contains x = true := by
  unfold contains
  rw [get?_insert]
  by_cases hx : x = name <;> simp [hx]

theorem contains_eq_false_iff : b.contains name = false ↔ b.get? name = none := by
  simp [contains]

end Bindings

namespace Scope

variable {s t u : Scope} {name : String} {type : Ty}

theorem rebind_eq_self {frames : List Bindings}
    (h : ∀ old ∈ frames.findSome? (·.get? name), old = type) :
    rebind name type frames = frames := by
  induction frames with
  | nil => rfl
  | cons frame outer ih =>
    rw [List.findSome?_cons] at h
    unfold rebind
    cases hf : frame.get? name with
    | none =>
      rw [hf] at h
      rw [if_neg (by simp [Bindings.contains, hf]), ih h]
    | some old =>
      rw [hf] at h
      have hold : old = type := h old rfl
      rw [if_pos (by simp [Bindings.contains, hf]), Bindings.insert_of_get? (by rw [hf, hold])]

/-- Assigning a value of the type that a name has leaves the scope as it is. -/
theorem assign_of_lookup (h : s.lookup name = some type) : (s.assign name type).2 = s := by
  have hrebind : rebind name type s.frames = s.frames := by
    apply rebind_eq_self
    intro old hold
    unfold lookup at h
    rw [hold, Option.some_or] at h
    exact Option.some_inj.1 h
  unfold assign
  rw [hrebind]

/-- The base table and the frames below the innermost one stay as they are, and the innermost one
loses no name. -/
def Extends (s t : Scope) : Prop :=
  ∀ frame outer, s.frames = frame :: outer →
    ∃ frame', t = ⟨s.base, frame' :: outer⟩ ∧
      ∀ x, frame.contains x = true → frame'.contains x = true

theorem Extends.refl (s : Scope) : Extends s s := by
  intro frame outer h
  refine ⟨frame, ?_, fun x hx => hx⟩
  rw [← h]

theorem Extends.trans (h : Extends s t) (h' : Extends t u) : Extends s u := by
  intro frame outer hs
  obtain ⟨frame', rfl, hframe⟩ := h frame outer hs
  obtain ⟨frame'', rfl, hframe'⟩ := h' frame' outer rfl
  exact ⟨frame'', rfl, fun x hx => hframe' x (hframe x hx)⟩

theorem extends_declare (s : Scope) (name : String) (type : Ty) :
    Extends s (s.declare name type) := by
  intro frame outer hs
  refine ⟨frame.insert name type, ?_, fun x hx => ?_⟩
  · unfold declare
    rw [hs]
  · exact (Bindings.contains_insert frame name type x).2 (.inr hx)

/-- A name that had this type before gets it again. The frames below the innermost one hold on to
their names and types in between, so that only the innermost one can be written to. -/
theorem Extends.assign (h : Extends s t) (hname : s.lookup name = some type) :
    Extends s (t.assign name type).2 := by
  intro frame outer hs
  obtain ⟨frame', rfl, hframe⟩ := h frame outer hs
  show ∃ f, (⟨s.base, rebind name type (frame' :: outer)⟩ : Scope) = _ ∧ _
  unfold rebind
  -- The name stands in the innermost frame, or a frame below gave it the type that it had.
  cases hc : frame'.contains name with
  | true =>
    rw [if_pos rfl]
    refine ⟨_, rfl, fun x hx => ?_⟩
    exact (Bindings.contains_insert frame' name type x).2 (.inr (hframe x hx))
  | false =>
    have hframe_name : frame.get? name = none := by
      rw [← Bindings.contains_eq_false_iff]
      cases hf : frame.contains name with
      | false => rfl
      | true => rw [hframe name hf] at hc; cases hc
    have houter : rebind name type outer = outer := by
      apply rebind_eq_self
      intro old hold
      unfold lookup at hname
      rw [hs, List.findSome?_cons, hframe_name, hold, Option.some_or] at hname
      exact Option.some_inj.1 hname
    rw [if_neg (by simp), houter]
    exact ⟨frame', rfl, hframe⟩

theorem lookup_rebind (base : Bindings) (name : String) (type : Ty) (frames : List Bindings)
    (x : String) : lookup ⟨base, rebind name type frames⟩ x =
      if x = name ∧ frames.any (·.contains name) = true then some type
      else lookup ⟨base, frames⟩ x := by
  induction frames with
  | nil => simp [rebind]
  | cons frame outer ih =>
    unfold rebind
    cases hf : frame.contains name with
    | true =>
      rw [if_pos rfl, lookup_cons, lookup_cons, Bindings.get?_insert]
      by_cases hx : x = name <;> simp [hx, hf]
    | false =>
      rw [if_neg (by simp), lookup_cons, lookup_cons, ih]
      -- The frame does not have the name, so that the outer frames decide.
      by_cases hx : x = name
      · rw [hx, Bindings.contains_eq_false_iff.1 hf]
        simp [hf]
      · simp [hx]

theorem length_rebind (name : String) (type : Ty) (frames : List Bindings) :
    (rebind name type frames).length = frames.length := by
  induction frames with
  | nil => rfl
  | cons frame outer ih =>
    unfold rebind
    split
    · rfl
    · rw [List.length_cons, List.length_cons, ih]

theorem depth_assign (s : Scope) (name : String) (type : Ty) :
    (s.assign name type).2.depth = s.depth := length_rebind name type s.frames

theorem Extends.depth_eq (h : Extends s t) (hs : 0 < s.depth) : t.depth = s.depth := by
  obtain ⟨frame, outer, hframes⟩ := List.exists_cons_of_length_pos hs
  obtain ⟨frame', rfl, -⟩ := h frame outer hframes
  show (frame' :: outer).length = s.frames.length
  rw [hframes]
  rfl

/-- No binding that can be seen is removed: the base table is the same, and a name that some frame
had is still in some frame. -/
structure Retains (s t : Scope) : Prop where
  base : t.base = s.base
  frames : ∀ x, s.frames.any (·.contains x) = true → t.frames.any (·.contains x) = true

/-- A scope of no depth has no frame that could lose a name. -/
theorem Extends.retains (h : Extends s t) (hbase : t.base = s.base) : Retains s t where
  base := hbase
  frames x hx := by
    cases hframes : s.frames with
    | nil =>
      rw [hframes] at hx
      cases hx
    | cons frame outer =>
      obtain ⟨frame', rfl, hframe⟩ := h frame outer hframes
      rw [hframes, List.any_cons, Bool.or_eq_true] at hx
      rw [List.any_cons, Bool.or_eq_true]
      exact hx.imp_left (hframe x)

/-- The base table answers for a name that no frame has. -/
theorem lookup_of_any_eq_false (h : s.frames.any (·.contains name) = false) :
    s.lookup name = s.base.get? name := by
  have hframes : s.frames.findSome? (·.get? name) = none := by
    rw [List.findSome?_eq_none_iff]
    intro frame hframe
    exact Bindings.contains_eq_false_iff.1 (by simpa using List.any_eq_false.1 h frame hframe)
  rw [lookup, hframes, Option.none_or]

/-- A name gets the type back that it had before, wherever it stands, and no other name changes. -/
theorem Retains.lookup_assign (h : Retains s t) (hname : s.lookup name = some type) (x : String) :
    (t.assign name type).2.lookup x = if x = name then some type else t.lookup x := by
  show lookup ⟨t.base, rebind name type t.frames⟩ x = _
  rw [lookup_rebind]
  cases hany : t.frames.any (·.contains name) with
  | true => simp
  | false =>
    -- No frame has the name, neither now nor before: it stands in the base table.
    have hbefore : s.frames.any (·.contains name) = false := by
      rw [← Bool.not_eq_true] at hany ⊢
      exact fun hs => hany (h.frames name hs)
    have htype : t.lookup name = some type := by
      rw [lookup_of_any_eq_false hany, h.base, ← lookup_of_any_eq_false hbefore, hname]
    rw [if_neg (by simp)]
    split
    next hx => rw [hx, htype]
    next => rfl

/-- A name that had this type before has it again, be it in a frame that can be written to or in the
base table. -/
theorem Extends.lookup_assign (h : Extends s t) (hs : 0 < s.depth)
    (hname : s.lookup name = some type) (x : String) :
    (t.assign name type).2.lookup x = if x = name then some type else t.lookup x := by
  obtain ⟨frame, outer, hframes⟩ := List.exists_cons_of_length_pos hs
  obtain ⟨frame', ht, -⟩ := h frame outer hframes
  have hbase : t.base = s.base := by rw [ht]
  exact (h.retains hbase).lookup_assign hname x

/-- Closing a frame of its own undoes whatever happened in it. -/
theorem Extends.pop (h : Extends s.push t) : t.pop = s := by
  obtain ⟨frame, rfl, -⟩ := h Bindings.empty s.frames rfl
  rfl

end Scope

end ExprLang
