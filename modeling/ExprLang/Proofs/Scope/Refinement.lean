import Mathlib.Logic.Function.Basic
import ExprLang.Proofs.Scope.Extension
import ExprLang.Scope.Arena

/-!
Tables of names as maps. Main statement: whatever is asked of an arena, it answers like a list of
maps over its base table, and no index in it leads nowhere.
-/

namespace ExprLang

/-- Maps from names to types over a base map, the innermost first. -/
structure Maps where
  base : String → Option Ty
  frames : List (String → Option Ty)

namespace Maps

/-- Writes to the first map that has `name`. -/
def overwrite (name : String) (type : Ty) :
    List (String → Option Ty) → List (String → Option Ty)
  | [] => []
  | map :: outer =>
    if (map name).isSome then Function.update map name (some type) :: outer
    else map :: overwrite name type outer

/-- One empty map over `base`. -/
def ofBase (base : String → Option Ty) : Maps := ⟨base, [fun _ => none]⟩

def push (m : Maps) : Maps := ⟨m.base, (fun _ => none) :: m.frames⟩

def pop (m : Maps) : Maps := ⟨m.base, m.frames.tail⟩

/-- Writes to the innermost map, which is an empty one put first if there is none. -/
def declare (m : Maps) (name : String) (type : Ty) : Maps :=
  match m.frames with
  | [] => ⟨m.base, [Function.update (fun _ => none) name (some type)]⟩
  | map :: outer => ⟨m.base, Function.update map name (some type) :: outer⟩

def lookup (m : Maps) (name : String) : Option Ty :=
  (m.frames.findSome? (· name)).or (m.base name)

/-- Overwrites a name where it is found, and tells whether any map or the base map has it. -/
def assign (m : Maps) (name : String) (type : Ty) : Bool × Maps :=
  (m.frames.any (fun map => (map name).isSome) || (m.base name).isSome,
    ⟨m.base, overwrite name type m.frames⟩)

def respond (m : Maps) : Scope.Request → Scope.Answer × Maps
  | .push => (.done, m.push)
  | .pop => (.done, m.pop)
  | .declare name type => (.done, m.declare name type)
  | .lookup name => (.found (m.lookup name), m)
  | .assign name type => (.assigned (m.assign name type).1, (m.assign name type).2)
  | .depth => (.depth m.frames.length, m)

end Maps

namespace Scope

def respond (s : Scope) : Request → Answer × Scope
  | .push => (.done, s.push)
  | .pop => (.done, s.pop)
  | .declare name type => (.done, s.declare name type)
  | .lookup name => (.found (s.lookup name), s)
  | .assign name type => (.assigned (s.assign name type).1, (s.assign name type).2)
  | .depth => (.depth s.depth, s)

/-- What a scope resolves, frame by frame. -/
def maps (s : Scope) : Maps := ⟨s.base.get?, s.frames.map Bindings.get?⟩

/-- The answers to requests made one after the other, and the table that they leave. -/
def serve {σ : Type} (respond : σ → Request → Option (Answer × σ)) :
    σ → List Request → Option (List Answer × σ)
  | s, [] => some ([], s)
  | s, request :: requests => do
    let (answer, s) ← respond s request
    let (answers, s) ← serve respond s requests
    return (answer :: answers, s)

/-- The responses of a table that has an answer to every request. -/
def always {σ : Type} (respond : σ → Request → Answer × σ) (s : σ) (request : Request) :
    Option (Answer × σ) := some (respond s request)

/-- Tables that stand for one another at every single request do so in a whole run. -/
theorem serve_map {σ τ : Type} (f : σ → τ) {respond : σ → Request → Answer × σ}
    {respond' : τ → Request → Option (Answer × τ)}
    (h : ∀ s request, respond' (f s) request = some (Prod.map id f (respond s request))) :
    ∀ (requests : List Request) (s : σ), serve respond' (f s) requests =
      (serve (always respond) s requests).map (Prod.map id f)
  | [], _ => rfl
  | request :: requests, s => by
    simp only [serve, h, always, Prod.map_fst, Prod.map_snd, Option.bind_eq_bind, Option.bind_some,
      serve_map f h requests, id]
    cases serve (always respond) (respond s request).2 requests <;> rfl

theorem exists_serve {σ : Type} (respond : σ → Request → Answer × σ) :
    ∀ (requests : List Request) (s : σ), ∃ answers t,
      serve (always respond) s requests = some (answers, t)
  | [], s => ⟨[], s, rfl⟩
  | request :: requests, s => by
    obtain ⟨answers, t, h⟩ := exists_serve respond requests (respond s request).2
    refine ⟨(respond s request).1 :: answers, t, ?_⟩
    simp [serve, always, h]

theorem get?_insert_eq_update (b : Bindings) (name : String) (type : Ty) :
    (b.insert name type).get? = Function.update b.get? name (some type) := by
  funext x
  rw [Bindings.get?_insert, Function.update_apply]

theorem maps_rebind (name : String) (type : Ty) (frames : List Bindings) :
    (rebind name type frames).map Bindings.get? =
      Maps.overwrite name type (frames.map Bindings.get?) := by
  induction frames with
  | nil => rfl
  | cons frame outer ih =>
    rw [List.map_cons]
    unfold rebind Maps.overwrite Bindings.contains
    split
    · rw [List.map_cons, get?_insert_eq_update]
    · rw [List.map_cons, ih]

theorem maps_pop (s : Scope) : s.pop.maps = s.maps.pop := by
  show Maps.mk _ (s.frames.tail.map _) = Maps.mk _ (s.frames.map _).tail
  rw [List.map_tail]
  rfl

theorem maps_declare (s : Scope) (name : String) (type : Ty) :
    (s.declare name type).maps = s.maps.declare name type := by
  obtain ⟨base, frames⟩ := s
  cases frames with
  | nil =>
    show Maps.mk _ [Bindings.get? _] = _
    rw [get?_insert_eq_update]
    rfl
  | cons frame outer =>
    show Maps.mk _ (Bindings.get? _ :: _) = _
    rw [get?_insert_eq_update]
    rfl

theorem lookup_maps (s : Scope) (name : String) : s.maps.lookup name = s.lookup name := by
  unfold Maps.lookup maps
  rw [List.findSome?_map]
  rfl

/-- A name is known if some frame or the base table has it. -/
theorem isSome_lookup (s : Scope) (name : String) :
    (s.lookup name).isSome = (s.maps.frames.any (fun map => (map name).isSome) ||
      (s.base.get? name).isSome) := by
  unfold lookup maps
  rw [Option.isSome_or]
  congr 1
  induction s.frames with
  | nil => rfl
  | cons frame outer ih =>
    rw [List.findSome?_cons, List.map_cons, List.any_cons]
    cases h : frame.get? name with
    | none => simpa using ih
    | some type => simp

theorem assign_maps (s : Scope) (name : String) (type : Ty) :
    s.maps.assign name type = ((s.assign name type).1, (s.assign name type).2.maps) := by
  show (_, Maps.mk _ _) = ((s.lookup name).isSome, Maps.mk _ ((rebind name type s.frames).map _))
  rw [isSome_lookup, maps_rebind]
  rfl

theorem respond_maps (s : Scope) (request : Request) :
    s.maps.respond request = Prod.map id maps (s.respond request) := by
  cases request with
  | push => rfl
  | pop => rw [Maps.respond, ← maps_pop]; rfl
  | declare name type => rw [Maps.respond, ← maps_declare]; rfl
  | lookup name => rw [Maps.respond, lookup_maps]; rfl
  | assign name type => rw [Maps.respond, assign_maps]; rfl
  | depth => simp [Maps.respond, respond, maps, depth]

end Scope

namespace Arena

open Scope (Request Answer)

variable {name : String} {type : Ty} {frames : List Bindings} {i : Nat}

theorem length_layOut (frames : List Bindings) : (layOut frames).length = frames.length := by
  induction frames with
  | nil => rfl
  | cons frame outer ih => simp [layOut, ih]

theorem getElem?_layOut_head (frame : Bindings) (outer : List Bindings) :
    (layOut (frame :: outer))[outer.length]? = some ⟨frame, below outer.length⟩ := by
  rw [layOut, ← length_layOut outer]
  exact List.getElem?_concat_length

theorem set_layOut_head (frame frame' : Bindings) (outer : List Bindings) :
    (layOut (frame :: outer)).set outer.length ⟨frame', below outer.length⟩ =
      layOut (frame' :: outer) := by
  rw [layOut, layOut, ← length_layOut outer]
  simp

/-- Where the first frame with this name is laid out. -/
def place (name : String) : List Bindings → Option Nat
  | [] => none
  | frame :: outer => if frame.contains name then some outer.length else place name outer

/-- The frames around a frame end, since each stands before it, and so the search does. -/
theorem seek_below (a : Arena) (name : String) :
    ∀ (n : Nat) (frames : List Bindings) (inner : List Frame), frames.length ≤ n →
      a.frames.toList = layOut frames ++ inner →
        a.seek name n (below frames.length) = some (place name frames)
  | n, [], _, _, _ => seek_none a name n
  | n + 1, frame :: outer, inner, hn, h => by
    have hframe : a.frames[outer.length]? = some ⟨frame, below outer.length⟩ := by
      rw [← Array.getElem?_toList, h, layOut, List.append_assoc, ← length_layOut outer]
      simp
    show a.seek name (n + 1) (some outer.length) = _
    rw [seek_some hframe]
    unfold place
    split
    · rfl
    · rw [layOut, List.append_assoc] at h
      exact seek_below a name n outer _ (Nat.le_of_succ_le_succ hn) h

theorem find_ofScope (s : Scope) (name : String) :
    (ofScope s).find name = some (place name s.frames) :=
  seek_below (ofScope s) name _ s.frames [] (by simp [ofScope, length_layOut]) (by simp [ofScope])

theorem findSome?_of_place_none (h : place name frames = none) :
    frames.findSome? (·.get? name) = none := by
  induction frames with
  | nil => rfl
  | cons frame outer ih =>
    unfold place at h
    split at h
    · cases h
    next hc =>
      rw [List.findSome?_cons, Bindings.contains_eq_false_iff.1 (by simpa using hc)]
      exact ih h

/-- The frame that is found is the first one that has the name. -/
theorem getElem?_layOut_place (h : place name frames = some i) :
    ∃ frame, (layOut frames)[i]? = some ⟨frame, below i⟩ ∧ frame.contains name = true ∧
      frames.findSome? (·.get? name) = frame.get? name := by
  induction frames with
  | nil => cases h
  | cons frame outer ih =>
    unfold place at h
    split at h
    next hc =>
      cases h
      refine ⟨frame, getElem?_layOut_head frame outer, hc, ?_⟩
      obtain ⟨type, htype⟩ := Option.isSome_iff_exists.1 hc
      rw [List.findSome?_cons, htype]
    next hc =>
      obtain ⟨found, hfound, hname, hfirst⟩ := ih h
      refine ⟨found, ?_, hname, ?_⟩
      · rw [layOut, List.getElem?_append_left (List.getElem?_eq_some_iff.1 hfound).1, hfound]
      · rw [List.findSome?_cons, Bindings.contains_eq_false_iff.1 (by simpa using hc), hfirst]

/-- Only the frame that is found is written to, and the places of the others stay as they are. -/
theorem layOut_rebind {frame : Bindings} (h : place name frames = some i)
    (hframe : (layOut frames)[i]? = some ⟨frame, below i⟩) (type : Ty) :
    layOut (Scope.rebind name type frames) =
      (layOut frames).set i ⟨frame.insert name type, below i⟩ := by
  induction frames with
  | nil => cases h
  | cons first outer ih =>
    unfold place at h
    unfold Scope.rebind
    split at h
    next hc =>
      cases h
      rw [getElem?_layOut_head] at hframe
      cases hframe
      rw [if_pos hc, set_layOut_head]
    next hc =>
      obtain ⟨found, hfound, -⟩ := getElem?_layOut_place h
      have hi : i < (layOut outer).length := (List.getElem?_eq_some_iff.1 hfound).1
      rw [layOut, List.getElem?_append_left hi] at hframe
      rw [if_neg hc, layOut, layOut, ih h hframe, List.set_append_left _ _ hi,
        Scope.length_rebind]

theorem push_ofScope (s : Scope) : (ofScope s).push = ofScope s.push := by
  simp [ofScope, push, Scope.push, layOut, length_layOut, below]

theorem pop_ofScope (s : Scope) : (ofScope s).pop = ofScope s.pop := by
  obtain ⟨base, frames⟩ := s
  cases frames with
  | nil => rfl
  | cons frame outer => simp [ofScope, pop, Scope.pop, layOut]

theorem depth_ofScope (s : Scope) : (ofScope s).depth = s.depth := by
  simp [ofScope, depth, Scope.depth, length_layOut]

theorem getElem?_ofScope (s : Scope) (i : Nat) :
    (ofScope s).frames[i]? = (layOut s.frames)[i]? := by
  simp [ofScope]

theorem write_ofScope {base : Bindings} {frame : Bindings}
    (h : (layOut frames)[i]? = some ⟨frame, below i⟩) (name : String) (type : Ty) :
    (ofScope ⟨base, frames⟩).write i name type =
      some ⟨base, ((layOut frames).set i ⟨frame.insert name type, below i⟩).toArray,
        below frames.length⟩ := by
  obtain ⟨hi, hget⟩ := List.getElem?_eq_some_iff.1 h
  simp [write, ofScope, hi, hget]

theorem write_ofScope_head (base frame : Bindings) (outer : List Bindings) (name : String)
    (type : Ty) : (ofScope ⟨base, frame :: outer⟩).write outer.length name type =
      some (ofScope ⟨base, frame.insert name type :: outer⟩) := by
  rw [write_ofScope (getElem?_layOut_head frame outer), set_layOut_head]
  rfl

theorem declare_ofScope (s : Scope) (name : String) (type : Ty) :
    (ofScope s).declare name type = some (ofScope (s.declare name type)) := by
  obtain ⟨base, frames⟩ := s
  cases frames with
  | nil => exact write_ofScope_head base .empty [] name type
  | cons frame outer => exact write_ofScope_head base frame outer name type

theorem lookup_ofScope (s : Scope) (name : String) :
    (ofScope s).lookup name = some (s.lookup name) := by
  unfold lookup Scope.lookup
  rw [find_ofScope]
  cases hplace : place name s.frames with
  | none =>
    rw [findSome?_of_place_none hplace]
    rfl
  | some i =>
    obtain ⟨frame, hframe, hname, hfirst⟩ := getElem?_layOut_place hplace
    obtain ⟨type, htype⟩ := Option.isSome_iff_exists.1 hname
    rw [hfirst, htype]
    show ((ofScope s).frames[i]? >>= _) = _
    rw [getElem?_ofScope, hframe]
    exact congrArg some htype

theorem assign_ofScope (s : Scope) (name : String) (type : Ty) :
    (ofScope s).assign name type =
      some ((s.assign name type).1, ofScope (s.assign name type).2) := by
  obtain ⟨base, frames⟩ := s
  unfold assign Scope.assign Scope.lookup
  rw [find_ofScope]
  cases hplace : place name frames with
  | none =>
    have hfirst := findSome?_of_place_none hplace
    rw [Scope.rebind_eq_self (by simp [hfirst]), hfirst]
    rfl
  | some i =>
    obtain ⟨frame, hframe, hname, hfirst⟩ := getElem?_layOut_place hplace
    obtain ⟨old, hold⟩ := Option.isSome_iff_exists.1 hname
    rw [hfirst, hold]
    show ((ofScope ⟨base, frames⟩).write i name type >>= _) = _
    rw [write_ofScope hframe, ← layOut_rebind hplace hframe, ← Scope.length_rebind name type]
    rfl

theorem respond_ofScope (s : Scope) (request : Request) :
    (ofScope s).respond request = some (Prod.map id ofScope (s.respond request)) := by
  cases request with
  | push => rw [respond, push_ofScope]; rfl
  | pop => rw [respond, pop_ofScope]; rfl
  | declare name type => rw [respond, declare_ofScope]; rfl
  | lookup name => rw [respond, lookup_ofScope]; rfl
  | assign name type => rw [respond, assign_ofScope]; rfl
  | depth => rw [respond, depth_ofScope]; rfl

/-- The current frame is the last one, and the frame around each frame is the one before it. -/
structure Linked (a : Arena) : Prop where
  current : a.current = below a.frames.size
  parent : ∀ i frame, a.frames[i]? = some frame → frame.parent = below i

theorem parent_of_layOut {frame : Frame} (h : (layOut frames)[i]? = some frame) :
    frame.parent = below i := by
  induction frames with
  | nil => cases h
  | cons first outer ih =>
    rw [layOut, List.getElem?_append] at h
    split at h
    · exact ih h
    · have hi := (List.getElem?_eq_some_iff.1 h).1
      have hlength := length_layOut outer
      rw [List.length_singleton] at hi
      obtain rfl : i = outer.length := by omega
      simp only [hlength, Nat.sub_self, List.getElem?_cons_zero, Option.some_inj] at h
      rw [← h]

theorem linked_ofScope (s : Scope) : (ofScope s).Linked where
  current := by simp [ofScope, length_layOut]
  parent i frame h := by
    rw [getElem?_ofScope] at h
    exact parent_of_layOut h

theorem map_bindings_layOut (frames : List Bindings) :
    (layOut frames).map Frame.bindings = frames.reverse := by
  induction frames with
  | nil => rfl
  | cons frame outer ih => simp [layOut, ih]

@[simp] theorem scope_ofScope (s : Scope) : (ofScope s).scope = s := by
  simp [scope, ofScope, map_bindings_layOut]

/-- A search without a bound on its steps. Each index on its way is that of a frame, up to the frame
that is found or to the outermost one. -/
inductive Finds (a : Arena) (name : String) : Option Nat → Option Nat → Prop where
  | nowhere : Finds a name none none
  | here {i : Nat} {frame : Frame} (hi : a.frames[i]? = some frame)
      (hname : frame.bindings.contains name = true) : Finds a name (some i) (some i)
  | around {i : Nat} {frame : Frame} {found : Option Nat} (hi : a.frames[i]? = some frame)
      (hname : frame.bindings.contains name = false) (h : Finds a name frame.parent found) :
      Finds a name (some i) found

/-- The bound hides nothing: an answer within it is that of the search without a bound. -/
theorem finds_of_seek {a : Arena} {name : String} {found : Option Nat} :
    ∀ (n : Nat) (index : Option Nat), a.seek name n index = some found → a.Finds name index found
  | n, none, h => by
    rw [seek_none] at h
    cases h
    exact .nowhere
  | n + 1, some i, h => by
    cases hi : a.frames[i]? with
    | none => simp [seek, hi] at h
    | some frame =>
      rw [seek_some hi] at h
      split at h
      next hname =>
        cases h
        exact .here hi hname
      next hname => exact .around hi (by simpa using hname) (finds_of_seek n _ h)

end Arena

namespace Scope

/-- An arena refines a list of maps. Over any base table and whatever requests come, it answers each
of them as a list of maps does that starts with one empty map, and so does the scope that it stores.
Its frames are linked in the order in which they were opened, so that each search in it comes to an
end and none leaves it. -/
theorem arena_refines_maps (base : Bindings) (requests : List Request) :
    ∃ answers a, serve Arena.respond (.ofBase base) requests = some (answers, a) ∧
      serve (always Maps.respond) (.ofBase base.get?) requests = some (answers, a.scope.maps) ∧
      serve (always respond) (.ofBase base) requests = some (answers, a.scope) ∧
      a.Linked ∧ ∀ name, ∃ found, a.Finds name a.current found := by
  obtain ⟨answers, s, hs⟩ := exists_serve respond requests (ofBase base)
  refine ⟨answers, .ofScope s, ?_, ?_, ?_, Arena.linked_ofScope s, fun name =>
    ⟨_, Arena.finds_of_seek _ _ (Arena.find_ofScope s name)⟩⟩
  · have h := serve_map Arena.ofScope Arena.respond_ofScope requests (ofBase base)
    rw [hs] at h
    exact h
  · have hmaps (s : Scope) (request : Request) :
        always Maps.respond s.maps request = some (Prod.map id maps (s.respond request)) :=
      congrArg some (respond_maps s request)
    have h := serve_map maps hmaps requests (ofBase base)
    rw [hs] at h
    rw [Arena.scope_ofScope]
    exact h
  · rw [hs, Arena.scope_ofScope]

end Scope

end ExprLang
